/-!
# Limits and refusals

How far the operations go that could go on for ever or exhaust the stack.

An operation that descends into nested data can be given the number of levels it may still
descend.  It then does what the plain operation does, or refuses to go on: `Follows` says that of a
bounded outcome and a plain one, and it is kept by every step of a computation
(`Follows.bind`, `Follows.descend`).
-/

namespace NormalOrder

namespace Limits

/-- The most levels that an operation on terms descends, and the most rules of the grammar that
are nested in each other. -/
def levels : Nat := 9950

/-- The most levels of two terms that are compared with each other. -/
def comparedLevels : Nat := 3320

/-- The most levels of a term that is put into a set. -/
def collectedLevels : Nat := 4980

/-- The most contractions of an evaluation, unless something else is asked for. -/
def steps : Nat := 1000

end Limits

/-! ### Refusals -/

/-- The levels are used up, or something else is wrong. -/
inductive Refusal (ε : Type) where
  /-- The levels are used up. -/
  | tooDeep
  /-- Something else is wrong. -/
  | failed (error : ε)
  deriving DecidableEq, Repr

/-- Goes down one level, if one is left. -/
@[inline] def descend {ε α : Type} (levels : Nat) (next : Nat → Except (Refusal ε) α) :
    Except (Refusal ε) α :=
  match levels with
  | 0 => .error .tooDeep
  | levels + 1 => next levels

/-- The bounded outcome is the plain one, unless it is a refusal. -/
def Follows {ε α : Type} (bounded : Except (Refusal ε) α) (plain : Except ε α) : Prop :=
  bounded = .error .tooDeep ∨ bounded = plain.mapError .failed

namespace Follows

variable {ε α β : Type}

theorem ok (a : α) : Follows (.ok a) (.ok a : Except ε α) := .inr rfl

@[simp] theorem mapError_ok {δ : Type} (f : ε → δ) (a : α) :
    (Except.ok a : Except ε α).mapError f = .ok a := rfl

theorem mapError (plain : Except ε α) : Follows (plain.mapError .failed) plain := .inr rfl

/-- A bounded computation follows the plain one if it does so step by step. -/
theorem bind {bounded : Except (Refusal ε) α} {plain : Except ε α}
    {f : α → Except (Refusal ε) β} {g : α → Except ε β} (h : Follows bounded plain)
    (hf : ∀ a, Follows (f a) (g a)) : Follows (bounded >>= f) (plain >>= g) := by
  obtain rfl | rfl := h
  · exact .inl rfl
  · cases plain with
    | error e => exact .inr rfl
    | ok a => exact hf a

theorem descend {next : Nat → Except (Refusal ε) α} {plain : Except ε α}
    (h : ∀ levels, Follows (next levels) plain) (levels : Nat) :
    Follows (descend levels next) plain := by
  cases levels with
  | zero => exact .inl rfl
  | succ n => exact h n

/-- Without a refusal, a bounded result is the plain result. -/
theorem eq_ok {bounded : Except (Refusal ε) α} {plain : Except ε α} (h : Follows bounded plain)
    {a : α} (ha : bounded = .ok a) : plain = .ok a := by
  subst ha
  obtain h | h := h
  · cases h
  · cases plain with
    | error e => cases h
    | ok b => cases h; rfl

end Follows

end NormalOrder
