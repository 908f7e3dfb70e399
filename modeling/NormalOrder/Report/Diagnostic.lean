import NormalOrder.Surface.Program

/-!
# Diagnostics

A `Diagnostic` is something to report: a message about a stretch of a source.  `locate` finds the
line of an offset, and `excerpt` shows the line on which the stretch begins and marks the stretch
below it.

Lines are separated by newlines and counted from one, and so are the columns within a line.  The
end of the source is a place too, and so are offsets beyond it, which lie on its last line.
-/

namespace NormalOrder

/-! ### Places in a source -/

/-- A place in a source. -/
structure Location where
  /-- The line, without its newline. -/
  line : List Char
  /-- The number of the line, from one. -/
  number : Nat
  /-- The number of the column, from one. -/
  column : Nat
  deriving DecidableEq, Repr

/-- The offset of the last newline before a given offset. -/
def newlineBefore? (source : List Char) (position : Nat) : Option Nat :=
  let before := source.take position
  (before.reverse.idxOf? '\n').map fun back => before.length - (back + 1)

/-- The offset of the first newline from a given offset on. -/
def newlineFrom? (source : List Char) (position : Nat) : Option Nat :=
  ((source.drop position).idxOf? '\n').map (position + ·)

/-- The place at a given offset. -/
def locate (source : List Char) (position : Nat) : Location :=
  let start := ((newlineBefore? source position).map (· + 1)).getD 0
  let stop := (newlineFrom? source position).getD source.length
  { line := (source.take stop).drop start
    number := (source.take start).count '\n' + 1
    column := position - start + 1 }

/-! ### Messages about a source -/

/-- Who complains. -/
inductive DiagnosticKind where
  /-- Anything that is not about the form of a program. -/
  | general
  /-- The scanner. -/
  | lexical
  /-- The grammar. -/
  | grammatical
  deriving DecidableEq, Repr

/-- A message about a stretch of a source. -/
structure Diagnostic where
  /-- Who complains. -/
  kind : DiagnosticKind := .general
  /-- What is wrong. -/
  message : Message
  /-- The whole source. -/
  source : String := ""
  /-- The offset of the stretch. -/
  position : Nat := 0
  /-- The length of the stretch, of which at least one character counts. -/
  length : Int := 1
  /-- Whether the stretch is to be shown. -/
  pointed : Bool := true
  /-- Whether the program is not to blame. -/
  internal : Bool := false
  deriving DecidableEq, Repr

namespace Diagnostic

/-- The number of characters that are marked. -/
def width (d : Diagnostic) : Nat := (max d.length 1).toNat

/-- The offset after the stretch. -/
def stop (d : Diagnostic) : Nat := d.position + d.width

/-- The diagnostic of a source that cannot be cut into tokens. -/
def ofLexError (source : String) (e : LexError) : Diagnostic where
  kind := .lexical
  message := e.message
  source := source
  position := e.position

/-- The diagnostic of a program whose tokens do not form a term. -/
def ofParseError (source : String) (e : ParseError) : Diagnostic where
  kind := .grammatical
  message := e.message
  source := source
  position := e.position
  length := e.length

/-- The diagnostic of a warning or of an error that is not about a source. -/
def remark (message : Message) : Diagnostic where
  message := message
  pointed := false

/-- The line on which the stretch begins, and a mark below the part of the stretch on that line;
an empty part is marked as one character. -/
def excerpt (style : Style) (d : Diagnostic) (colour : Colour) : String :=
  let place := locate d.source.toList d.position
  let start := place.column - 1
  let stop := min (start + d.width) (max place.line.length (start + 1))
  "  " ++ String.ofList (place.line.take start) ++
    style.paint colour (String.ofList ((place.line.take stop).drop start)) ++
    String.ofList (place.line.drop stop) ++ "\n" ++
    "  " ++ String.ofList (List.replicate start ' ') ++
    style.paint colour (String.ofList ('^' :: List.replicate (stop - start - 1) '~'))

end Diagnostic

end NormalOrder
