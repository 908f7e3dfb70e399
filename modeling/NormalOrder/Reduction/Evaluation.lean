import NormalOrder.Term.Traverse

/-!
# Reduction in normal order

A *redex* is an application whose function is an abstraction; contracting it puts the argument
for the variable of the abstraction.  `Term.step` contracts the leftmost-outermost redex of a term:
first the term itself, then inside the function, and inside the argument only when the function
cannot be reduced.  `Term.HasRedex` says that there is a redex anywhere.

`evaluate` repeats `Term.step` until there is no redex left or a number of contractions has been
made, and keeps every term on the way.  It says in `Trace.normal` whether the last term is a
normal form, also when that term was reached by the very last contraction.
-/

namespace NormalOrder

/-! ### One step -/

namespace Term

/-- There is a redex somewhere in the term. -/
def HasRedex : Term → Prop
  | free _ => False
  | bound _ => False
  | abs _ body => body.HasRedex
  | app fn arg => (∃ hint body, fn = abs hint body) ∨ fn.HasRedex ∨ arg.HasRedex

/-- The term after contracting its leftmost-outermost redex, if it has one. -/
def step : Term → Option Term
  | free _ => none
  | bound _ => none
  | abs hint body => body.step.map (abs hint)
  | app (abs _ body) arg => some (instantiate arg body)
  | app fn arg =>
    match fn.step with
    | some fn' => some (app fn' arg)
    | none => arg.step.map (app fn)

/-- The term after one step, or the term itself if it has no redex. -/
def reduce (t : Term) : Term := t.step.getD t

end Term

/-! ### Evaluation -/

/-- The terms visited by an evaluation. -/
structure Trace where
  /-- The term that was evaluated. -/
  first : Term
  /-- The terms after it, each one contraction after the one before. -/
  later : List Term
  /-- Whether the last term is a normal form. -/
  normal : Bool
  deriving DecidableEq, Repr

namespace Trace

/-- All terms visited. -/
def steps (trace : Trace) : List Term := trace.first :: trace.later

/-- The last term. -/
def result (trace : Trace) : Term := trace.later.getLastD trace.first

/-- The last term, if it is a normal form. -/
def normalForm? (trace : Trace) : Option Term := if trace.normal then some trace.result else none

/-- The trace of a term that leads to the beginning of another trace. -/
def after (t : Term) (trace : Trace) : Trace := ⟨t, trace.steps, trace.normal⟩

@[simp] theorem steps_after (t : Term) (trace : Trace) : (after t trace).steps = t :: trace.steps :=
  rfl

@[simp] theorem normal_after (t : Term) (trace : Trace) : (after t trace).normal = trace.normal :=
  rfl

end Trace

/-- The trace of a term over at most `limit` contractions. -/
def evaluate : Nat → Term → Trace
  | 0, t => ⟨t, [], t.step.isNone⟩
  | limit + 1, t =>
    match t.step with
    | none => ⟨t, [], true⟩
    | some u => .after t (evaluate limit u)

@[simp] theorem evaluate_first (limit : Nat) (t : Term) : (evaluate limit t).first = t := by
  cases limit with
  | zero => rfl
  | succ n =>
    rw [evaluate]
    split <;> rfl

end NormalOrder
