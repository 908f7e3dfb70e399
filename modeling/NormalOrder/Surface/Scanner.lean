import NormalOrder.Surface.Token
import NormalOrder.Text.CharClass
import NormalOrder.Text.Message

/-!
# From characters to tokens

The source is cut into *pieces*: tokens, runs of white space, and comments from `--` to the end
of the line.  `munch` takes the longest piece off the front of a text; `scan` repeats it, keeps
the tokens and drops the layout.  `lex` is the scan of a whole source, closed by the token that
marks its end.

A name is a character that begins identifiers, characters that continue them, and apostrophes at
the end; `λ` is a letter, but it always stands for an abstraction.
-/

namespace NormalOrder

/-! ### Pieces of a source -/

/-- White space: the characters of the Unicode class `Pattern_White_Space`. -/
def isWhiteSpace (c : Char) : Bool :=
  c ∈ ['\t', '\n', '\x0b', '\x0c', '\r', ' ', '\u0085', '\u200e', '\u200f', '\u2028', '\u2029']

/-- Why no piece begins at a character. -/
inductive ScanFault where
  /-- A `-` that begins neither an arrow nor a comment. -/
  | dash
  /-- A `:` without its `=`. -/
  | colon
  /-- A character that begins nothing. -/
  | stray (c : Char)
  deriving DecidableEq, Repr

/-- The complaint about a character at which no piece begins. -/
def ScanFault.message : ScanFault → Message
  | dash => [.plain "got invalid token ", .strong "-", .plain ", expected ", .strong "->",
      .plain " or ", .strong "--"]
  | colon => [.plain "got invalid token ", .strong ":", .plain ", expected ", .strong ":="]
  | stray c => [.plain "got invalid token ", .strong (String.singleton c)]

/-- What a piece of the source is. -/
inductive PieceKind where
  /-- White space or a comment. -/
  | layout
  /-- A name or a reserved word. -/
  | word
  /-- A token whose kind is settled. -/
  | token (kind : TokenKind)
  deriving DecidableEq, Repr

/-- The kind of the token that a piece with a given text is, if it is one. -/
def PieceKind.tokenKind? (kind : PieceKind) (text : String) : Option TokenKind :=
  match kind with
  | layout => none
  | word => some (TokenKind.ofWord text)
  | token kind => some kind

/-- A piece of the source, and the source after it. -/
structure Piece where
  /-- What the piece is. -/
  kind : PieceKind
  /-- Its characters. -/
  text : List Char
  /-- The characters after it. -/
  rest : List Char
  deriving DecidableEq, Repr

/-- A piece that begins with `c` and goes on over the longest run of characters satisfying `p`. -/
def Piece.run (kind : PieceKind) (p : Char → Bool) (c : Char) (cs : List Char) : Piece :=
  ⟨kind, c :: cs.takeWhile p, cs.dropWhile p⟩

/-- A comment whose dashes have been read: the rest of the line, its newline included. -/
def Piece.comment (cs : List Char) : Piece :=
  let line := cs.takeWhile (· ≠ '\n')
  match cs.dropWhile (· ≠ '\n') with
  | [] => ⟨.layout, '-' :: '-' :: line, []⟩
  | newline :: rest => ⟨.layout, '-' :: '-' :: (line ++ [newline]), rest⟩

/-- A name or reserved word that begins with `c`. -/
def Piece.name (c : Char) (cs : List Char) : Piece :=
  let run := cs.takeWhile Text.isIdentifierContinue
  let rest := cs.dropWhile Text.isIdentifierContinue
  ⟨.word, c :: (run ++ rest.takeWhile (· = '\'')), rest.dropWhile (· = '\'')⟩

/-- The longest piece at the front of the text `c :: cs`. -/
def munch (c : Char) (cs : List Char) : Except ScanFault Piece :=
  if c = 'λ' ∨ c = '\\' then .ok ⟨.token .lambda, [c], cs⟩
  else if c = '-' then
    match cs with
    | '>' :: rest => .ok ⟨.token .arrow, [c, '>'], rest⟩
    | '-' :: rest => .ok (.comment rest)
    | _ => .error .dash
  else if c = ':' then
    match cs with
    | '=' :: rest => .ok ⟨.token .assign, [c, '='], rest⟩
    | _ => .error .colon
  else if c = '(' then .ok ⟨.token .openBracket, [c], cs⟩
  else if c = ')' then .ok ⟨.token .closeBracket, [c], cs⟩
  else if isWhiteSpace c then .ok (.run .layout isWhiteSpace c cs)
  else if Text.isIdentifierStart c then .ok (.name c cs)
  else if c.isDigit then .ok (.run (.token .natural) Char.isDigit c cs)
  else .error (.stray c)

/-! ### No character is lost -/

theorem Piece.run_append (kind : PieceKind) (p : Char → Bool) (c : Char) (cs : List Char) :
    (run kind p c cs).text ++ (run kind p c cs).rest = c :: cs := by
  simp [run, List.takeWhile_append_dropWhile]

theorem Piece.comment_append (cs : List Char) :
    (comment cs).text ++ (comment cs).rest = '-' :: '-' :: cs := by
  have h := List.takeWhile_append_dropWhile (p := (· ≠ '\n')) (l := cs)
  unfold comment
  split
  · rename_i hd; rw [hd] at h; simpa using h
  · rename_i hd; rw [hd] at h; simpa using h

theorem Piece.name_append (c : Char) (cs : List Char) :
    (name c cs).text ++ (name c cs).rest = c :: cs := by
  simp [name, List.takeWhile_append_dropWhile, List.append_assoc]

/-- A piece and what follows it make up the text it was taken from. -/
theorem munch_append {c : Char} {cs : List Char} {piece : Piece} (h : munch c cs = .ok piece) :
    piece.text ++ piece.rest = c :: cs := by
  simp only [munch] at h
  split at h
  · cases h; simp
  split at h
  · subst_vars
    split at h
    · cases h; simp
    · cases h; exact Piece.comment_append _
    · cases h
  split at h
  · subst_vars
    split at h
    · cases h; simp
    · cases h
  split at h
  · cases h; simp
  split at h
  · cases h; simp
  split at h
  · cases h; exact Piece.run_append ..
  split at h
  · cases h; exact Piece.name_append ..
  split at h
  · cases h; exact Piece.run_append ..
  · cases h

theorem munch_text_ne_nil {c : Char} {cs : List Char} {piece : Piece}
    (h : munch c cs = .ok piece) : piece.text ≠ [] := by
  simp only [munch, Piece.run, Piece.comment, Piece.name] at h
  repeat' split at h
  all_goals cases h
  all_goals simp

theorem munch_rest_length {c : Char} {cs : List Char} {piece : Piece}
    (h : munch c cs = .ok piece) : piece.rest.length < (c :: cs).length := by
  have happ := congrArg List.length (munch_append h)
  have hpos := List.length_pos_iff.2 (munch_text_ne_nil h)
  rw [List.length_append] at happ
  omega

/-! ### Scanning -/

/-- How far a scan has come. -/
structure Scan where
  /-- The offset at which the piece scanned last begins. -/
  start : Nat
  /-- The offset at which the next piece begins. -/
  position : Nat
  /-- The tokens found, the latest first. -/
  tokens : List Token
  deriving DecidableEq, Repr

namespace Scan

/-- Nothing has been scanned. -/
def initial : Scan := ⟨0, 0, []⟩

/-- The scan after a piece that begins at its position. -/
def record (s : Scan) (piece : Piece) : Scan where
  start := s.position
  position := s.position + piece.text.length
  tokens :=
    let text := String.ofList piece.text
    match piece.kind.tokenKind? text with
    | none => s.tokens
    | some kind => ⟨kind, text, s.position⟩ :: s.tokens

/-- The scan after a character at which no piece begins. -/
def stumble (s : Scan) : Scan := { s with start := s.position, position := s.position + 1 }

end Scan

/-- Scans a text piece by piece, to its end or to the first character at which no piece begins. -/
def scan (s : Scan) : List Char → Scan × Option ScanFault
  | [] => (s, none)
  | c :: cs =>
    match _h : munch c cs with
    | .error fault => (s.stumble, some fault)
    | .ok piece => scan (s.record piece) piece.rest
termination_by text => text.length
decreasing_by exact munch_rest_length _h

/-! ### Lexing -/

/-- A source that cannot be cut into tokens. -/
structure LexError where
  /-- What is wrong. -/
  fault : ScanFault
  /-- The offset of the offending character. -/
  position : Nat
  deriving DecidableEq, Repr

/-- The complaint about a source that cannot be cut into tokens. -/
def LexError.message (e : LexError) : Message := e.fault.message

/-- The tokens of a source, without the one that marks its end. -/
def tokenize (source : String) : Except LexError (List Token) :=
  match scan .initial source.toList with
  | (s, some fault) => .error ⟨fault, s.start⟩
  | (s, none) => .ok s.tokens.reverse

/-- The tokens of a source, with the one that marks its end. -/
def lex (source : String) : Except LexError (List Token) :=
  (tokenize source).map (· ++ [Token.atEnd source.length])

end NormalOrder
