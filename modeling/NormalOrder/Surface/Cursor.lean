import NormalOrder.Surface.Scanner

/-!
# A scan under manual control

A `Cursor` stands within a source and can be moved by hand: over one character, over a run, over
one piece, or over all the rest.  Its `scan` holds the mark at which the current token begins,
the position, and the tokens made so far; the text of a token is always all from the mark to the
position.

The position may lie beyond the end of the source, since the empty text can be accepted there any
number of times.
-/

namespace NormalOrder

/-- A position within a source, with the tokens made so far. -/
structure Cursor where
  /-- The whole source. -/
  source : List Char
  /-- The mark, the position and the tokens. -/
  scan : Scan
  deriving DecidableEq, Repr

namespace Cursor

/-- What can go wrong with a move. -/
inductive Error where
  /-- There is no character to move over. -/
  | pastEnd
  /-- No piece begins at the mark. -/
  | lexical (error : LexError)
  deriving DecidableEq, Repr

/-- The cursor at the beginning of a source. -/
def ofSource (source : String) : Cursor := ⟨source.toList, .initial⟩

/-- The source from the position on. -/
def rest (c : Cursor) : List Char := c.source.drop c.scan.position

/-- The text from the mark to the position. -/
def marked (c : Cursor) : String :=
  String.ofList ((c.source.drop c.scan.start).take (c.scan.position - c.scan.start))

/-- Whether nothing is left. -/
def isAtEnd (c : Cursor) : Bool := decide (c.source.length ≤ c.scan.position)

/-- The next character, or the empty text at the end. -/
def peek (c : Cursor) : String := String.ofList (c.rest.take 1)

/-- The cursor `n` positions further on. -/
def move (c : Cursor) (n : Nat) : Cursor :=
  { c with scan := { c.scan with position := c.scan.position + n } }

/-- Puts the mark at the position. -/
def mark (c : Cursor) : Cursor := { c with scan := { c.scan with start := c.scan.position } }

/-- Makes the marked text a token. -/
def push (c : Cursor) (kind : TokenKind) : Cursor :=
  { c with scan := { c.scan with tokens := ⟨kind, c.marked, c.scan.start⟩ :: c.scan.tokens } }

/-- Moves over the next character. -/
def advance (c : Cursor) : Except Error Char × Cursor :=
  match c.rest with
  | [] => (.error .pastEnd, c)
  | char :: _ => (.ok char, c.move 1)

/-- Moves by one if the next character is `text`; at the end that is the empty text. -/
def accept (c : Cursor) (text : String) : Bool × Cursor :=
  if c.peek = text then (true, c.move 1) else (false, c)

/-- Moves over the longest run of characters satisfying `p`. -/
def skip (c : Cursor) (p : Char → Bool) : Cursor := c.move (c.rest.takeWhile p).length

/-- Moves over one piece; if it is a token, all from the mark on is its text. -/
def scanPiece (c : Cursor) : Except Error Unit × Cursor :=
  match c.rest with
  | [] => (.error .pastEnd, c)
  | char :: chars =>
    match munch char chars with
    | .error fault => (.error (.lexical ⟨fault, c.scan.start⟩), c.move 1)
    | .ok piece =>
      let c := c.move piece.text.length
      match piece.kind.tokenKind? c.marked with
      | none => (.ok (), c)
      | some kind => (.ok (), c.push kind)

/-- Moves to the end, makes a token of every piece that is one, and marks the end by a token. -/
def scanRest (c : Cursor) : Except Error (List Token) × Cursor :=
  match NormalOrder.scan c.scan c.rest with
  | (s, some fault) => (.error (.lexical ⟨fault, s.start⟩), { c with scan := s })
  | (s, none) =>
    let s := { s with tokens := .atEnd s.position :: s.tokens }
    (.ok s.tokens.reverse, { c with scan := s })

end Cursor

end NormalOrder
