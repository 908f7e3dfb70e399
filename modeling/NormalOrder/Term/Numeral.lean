import NormalOrder.Term.Basic

/-!
# Church numerals

The natural number `n` is the term `λf x -> f (… (f x))` with `n` applications of `f`.
`Term.numeral` writes it and `Term.numeral?` reads it back; reading ignores hints and accepts
nothing but numerals.
-/

namespace NormalOrder

namespace Term

/-- The body of the numeral `n`: `n` applications of the outer variable to the inner one, wrapped
around `inner`. -/
def spine (inner : Term) : Nat → Term
  | 0 => inner
  | n + 1 => spine (app (bound 1) inner) n

/-- The Church numeral of `n`. -/
def numeral (n : Nat) : Term := abs "f" (abs "x" (spine (bound 0) n))

/-- The number of applications in the body of a numeral, added to `count`. -/
def spineLength? (count : Nat) : Term → Option Nat
  | app (bound 1) rest => spineLength? (count + 1) rest
  | bound 0 => some count
  | _ => none

/-- The natural number that a term is the Church numeral of. -/
def numeral? : Term → Option Nat
  | abs _ (abs _ body) => spineLength? 0 body
  | _ => none

/-! ### Values offered as numbers -/

/-- A value that somebody offers as a number to encode. -/
inductive Offer where
  /-- An integer. -/
  | integer (value : Int)
  /-- Something else, shown as `text`. -/
  | other (text : String)
  deriving DecidableEq, Repr

/-- How an offer is shown in a message. -/
def Offer.text : Offer → String
  | integer value => toString value
  | other text => text

/-- The complaint about an offer that is no natural number. -/
def Offer.complaint (offer : Offer) : String := "expected natural number, got " ++ offer.text

/-- The Church numeral of an offer; only a natural number has one. -/
def encode : Offer → Except Offer Term
  | .integer (.ofNat n) => .ok (numeral n)
  | offer => .error offer

end Term

end NormalOrder
