import NormalOrder.Term.Numeral
import NormalOrder.Term.Subterms
import Std.Data.HashSet

/-!
# From terms to text

`pretty` writes a term in the concrete form that `parse` reads.  Abstractions that follow each
other share one header, so `λf -> λx -> x` is `λf x -> x`.  Brackets stand around an abstraction
that is applied, and around an argument that is an application or an abstraction; nowhere else.

A bound variable is called by its hint, unless that is the name of a free variable or of an
enclosing binder; then it gets a fresh name.  A name that clashes gets an apostrophe, a second one,
a third one; after that its apostrophes make way for a number, from three on.  `freshName` is the
first of these candidates that is not to be avoided.  Of one candidate more than there are names to
avoid, one is fresh.

On request, Church numerals are written as numbers, except in the middle of a header.
-/

namespace NormalOrder

/-! ### Fresh names -/

/-- A name without the apostrophes at its end. -/
def baseName (name : String) : String :=
  String.ofList (name.toList.reverse.dropWhile (· = '\'')).reverse

/-- The candidates for a name that replaces `name`, in order of preference. -/
def nameCandidate (name : String) : Nat → String
  | 0 => name ++ "'"
  | 1 => name ++ "''"
  | 2 => name ++ "'''"
  | k + 3 => baseName name ++ toString (k + 3)

/-- The first candidate from the `k`-th on that is not taken, or the last of `fuel` more. -/
def firstCandidate (name : String) (taken : String → Bool) : Nat → Nat → String
  | 0, k => nameCandidate name k
  | fuel + 1, k =>
    let candidate := nameCandidate name k
    if taken candidate then firstCandidate name taken fuel (k + 1) else candidate

/-- A name made from `name` that is not one of `avoid`. -/
def freshName (name : String) (avoid : List String) : String :=
  let taken := Std.HashSet.ofList avoid
  firstCandidate name taken.contains avoid.length 0

/-! ### Printing -/

/-- A bound variable without a binder, which has no name to print. -/
structure UnboundIndex where
  /-- The index of the variable. -/
  index : Nat
  deriving DecidableEq, Repr

/-- The complaint about a bound variable without a binder. -/
def UnboundIndex.message (e : UnboundIndex) : String :=
  "unbound de Bruijn index " ++ toString e.index

namespace Printer

/-- The name for a binder with a given hint, among free variables and enclosing binders. -/
def binderName (free names : List String) (hint : String) : String :=
  if hint ∈ free ∨ hint ∈ names then freshName hint (free ++ names) else hint

/-- The number that a term is written as, if numerals are written as numbers. -/
def asNumber? (numerals : Bool) (t : Term) : Option Nat := if numerals then t.numeral? else none

/-- Whether a term is written as an abstraction. -/
def isAbstraction (numerals : Bool) (t : Term) : Bool :=
  match t with
  | .abs _ _ => (asNumber? numerals t).isNone
  | _ => false

/-- Whether a term is an application. -/
def isApplication : Term → Bool
  | .app _ _ => true
  | _ => false

/-- A text in brackets, if it needs them. -/
def bracketed (needed : Bool) (text : String) : String :=
  if needed then "(" ++ text ++ ")" else text

/-- What stands between a header, if there is one, and the body after it. -/
def arrow (inHeader : Bool) : String := if inHeader then " -> " else ""

/-- The text of the application of `fn` to `arg`, whose own texts are `left` and `right`. -/
def applicationText (numerals : Bool) (fn arg : Term) (left right : String) : String :=
  bracketed (isAbstraction numerals fn) left ++ " " ++
    bracketed (isApplication arg || isAbstraction numerals arg) right

/-- The text of a term below binders called `names`, the innermost first.  Within a header the
text continues that header: it begins with the space before a further name, or with the arrow
before the body. -/
def render (numerals : Bool) (free : List String) :
    Bool → List String → Term → Except UnboundIndex String
  | inHeader, _, .free name => .ok (arrow inHeader ++ name)
  | inHeader, names, .bound index =>
    match names[index]? with
    | some name => .ok (arrow inHeader ++ name)
    | none => .error ⟨index⟩
  | inHeader, names, .abs hint body =>
    match asNumber? (numerals && !inHeader) (.abs hint body) with
    | some n => .ok (toString n)
    | none => do
      let name := binderName free names hint
      let text ← render numerals free true (name :: names) body
      pure ((if inHeader then " " else "λ") ++ name ++ text)
  | inHeader, names, .app fn arg => do
    let left ← render numerals free false names fn
    let right ← render numerals free false names arg
    pure (arrow inHeader ++ applicationText numerals fn arg left right)

end Printer

/-- The text of a term; with `numerals`, Church numerals are written as numbers. -/
def pretty (t : Term) (numerals : Bool) : Except UnboundIndex String :=
  Printer.render numerals t.freeVars false [] t

end NormalOrder
