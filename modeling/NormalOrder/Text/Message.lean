import NormalOrder.Text.Integer
import NormalOrder.Text.Quoted

/-!
# Messages

A `Style` says whether output carries the escape sequences that make a terminal print in bold and
in colour.

A `Message` is a sentence in which some words, mostly pieces of the program, stand out.  The
library writes its own messages as lists of fragments.  A message may also come from outside as a
*template*.  A pair of braces is a field: an empty one stands for the next argument, one with a
number in it for the argument with that number, and a template has fields of one sort only.  A
doubled brace stands for itself.  `Message.ofTemplate` fails at the first brace that stands for
nothing.
-/

namespace NormalOrder

/-! ### Emphasis on a terminal -/

/-- How texts are emphasised. -/
inductive Style where
  /-- Not at all. -/
  | plain
  /-- By escape sequences for a terminal. -/
  | coloured
  deriving DecidableEq, Repr

/-- The colours of reports. -/
inductive Colour where
  /-- For errors. -/
  | red
  /-- For warnings. -/
  | magenta
  deriving DecidableEq, Repr

/-- The number of a colour in an escape sequence. -/
def Colour.code : Colour → String
  | red => "31"
  | magenta => "35"

namespace Style

/-- The escape sequence with a given number. -/
def escape (code : String) : String := "\x1b[" ++ code ++ "m"

/-- A text in bold. -/
def bold : Style → String → String
  | plain, text => text
  | coloured, text => escape "1" ++ text ++ escape "0"

/-- A text in bold and in colour. -/
def paint (style : Style) (colour : Colour) (text : String) : String :=
  match style with
  | plain => text
  | coloured => escape "1" ++ escape colour.code ++ text ++ escape "0"

@[simp] theorem bold_plain (text : String) : bold plain text = text := rfl

@[simp] theorem paint_plain (colour : Colour) (text : String) : paint plain colour text = text :=
  rfl

end Style

/-! ### Sentences -/

/-- A piece of a message. -/
inductive Fragment where
  /-- Words of the sentence. -/
  | plain (text : String)
  /-- A text that stands out. -/
  | strong (text : String)
  deriving DecidableEq, Repr

/-- How a fragment is written. -/
def Fragment.render (style : Style) : Fragment → String
  | plain text => text
  | strong text => style.bold text

/-- A sentence in which some words stand out. -/
abbrev Message := List Fragment

namespace Message

/-- How a message is written. -/
def render (style : Style) (message : Message) : String :=
  String.join (message.map (Fragment.render style))

/-! ### Templates -/

/-- Why a brace of a template stands for no argument. -/
inductive MissingArgument where
  /-- There is no argument with this number, counted from zero. -/
  | index (number : Nat)
  /-- Arguments have no names. -/
  | name (word : String)
  /-- The brace has no partner. -/
  | lone (brace : Char)
  /-- The template ends within a field. -/
  | unclosed
  /-- A field begins within a field. -/
  | nested
  /-- The field has a number and those before it have none, or the other way round. -/
  | mixed (numbered : Bool)
  /-- The number of the field has too many digits. -/
  | digits
  /-- The field asks for a part of an argument or for another form of it, which templates do not
  provide for. -/
  | formatted
  deriving DecidableEq, Repr

namespace MissingArgument

/-- The kind of what went wrong. -/
def kind : MissingArgument → String
  | index _ => "IndexError"
  | name _ => "KeyError"
  | _ => "ValueError"

/-- The complaint about a brace. -/
def message : MissingArgument → String
  | index number =>
    "Replacement index " ++ toString number ++ " out of range for positional args tuple"
  | name word => Text.quoted word
  | lone brace => "Single '" ++ String.singleton brace ++ "' encountered in format string"
  | unclosed => "expected '\x7d' before end of string"
  | nested => "unexpected '\x7b' in field name"
  | mixed true =>
    "cannot switch from automatic field numbering to manual field specification"
  | mixed false =>
    "cannot switch from manual field specification to automatic field numbering"
  | digits => "Too many decimal digits in format string"
  | formatted => "unsupported format string"

end MissingArgument

/-- How the fields of a template are numbered. -/
inductive Numbering where
  /-- There was no field yet. -/
  | undecided
  /-- One after the other; `next` is the number of the next field. -/
  | automatic (next : Nat)
  /-- By the template. -/
  | manual
  deriving DecidableEq, Repr

/-- The number that some digits write behind those of `value`, unless one of the characters is no
digit. -/
def fieldNumber? (value : Nat) : List Char → Except MissingArgument (Option Nat)
  | [] => .ok (some value)
  | c :: rest =>
    match Text.digitValue? c with
    | none => .ok none
    | some d =>
      if 10 * value + d < 2 ^ 63 then fieldNumber? (10 * value + d) rest else .error .digits

/-- The number of the argument that a field stands for, and how the fields after it are
numbered. -/
def Numbering.number (numbering : Numbering) (field : List Char) :
    Except MissingArgument (Nat × Numbering) :=
  if field = [] then
    match numbering with
    | undecided => .ok (0, automatic 1)
    | automatic next => .ok (next, automatic (next + 1))
    | manual => .error (.mixed false)
  else do
    match ← fieldNumber? 0 field, numbering with
    | none, _ => .error (.name (String.ofList field))
    | some _, automatic _ => .error (.mixed true)
    | some index, _ => .ok (index, manual)

mutual

/-- The fragments of a template; `words` holds the characters read since the last field, the latest
first. -/
def fill (args : List String) (numbering : Numbering) (words : List Char) :
    List Char → Except MissingArgument Message
  | [] => .ok [.plain (String.ofList words.reverse)]
  | '\x7b' :: '\x7b' :: rest => fill args numbering ('\x7b' :: words) rest
  | '\x7d' :: '\x7d' :: rest => fill args numbering ('\x7d' :: words) rest
  | '\x7b' :: rest => fillField args numbering words [] rest
  | '\x7d' :: _ => .error (.lone '\x7d')
  | c :: rest => fill args numbering (c :: words) rest

/-- The fragments of a template that has been read into a field; `field` holds what was read of
it, the latest first. -/
def fillField (args : List String) (numbering : Numbering) (words field : List Char) :
    List Char → Except MissingArgument Message
  | [] => .error (if field = [] then .lone '\x7b' else .unclosed)
  | '\x7b' :: _ => .error .nested
  | '\x7d' :: rest => do
    let (index, numbering) ← numbering.number field.reverse
    match args[index]? with
    | none => .error (.index index)
    | some arg =>
      let message ← fill args numbering [] rest
      pure (.plain (String.ofList words.reverse) :: .strong arg :: message)
  | c :: rest =>
    if c ∈ ['.', '[', '!', ':'] then .error .formatted
    else fillField args numbering words (c :: field) rest

end

/-- The message of a template and its arguments; surplus arguments are ignored. -/
def ofTemplate (template : String) (args : List String) : Except MissingArgument Message :=
  fill args .undecided [] template.toList

end Message

end NormalOrder
