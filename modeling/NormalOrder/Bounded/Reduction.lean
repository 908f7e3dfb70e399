import NormalOrder.Bounded.Traverse
import NormalOrder.Reduction.Evaluation

/-!
# Bounded reduction

A step with a number of levels takes one for every node on its way to the redex, and contracts it
with those that are left.  What it does not look at may be of any depth: an argument that is only
moved, or the part of a term behind the redex.

An evaluation gives every step the same number of levels.  Both follow their plain counterparts
(`Term.follows_stepWithin`, `follows_evaluateWithin`).
-/

namespace NormalOrder

namespace Term

/-- Does `step` within `levels` levels. -/
def stepWithin (levels : Nat) : Term → Except (Refusal Empty) (Option Term)
  | free _ => descend levels fun _ => .ok none
  | bound _ => descend levels fun _ => .ok none
  | abs hint body => descend levels fun levels => do
    let next ← body.stepWithin levels
    pure (next.map (abs hint))
  | app (abs _ body) arg => descend levels fun levels => do
    let t ← instantiateWithin levels arg body
    pure (some t)
  | app fn arg => descend levels fun levels => do
    let next ← fn.stepWithin levels
    match next with
    | some fn' => pure (some (app fn' arg))
    | none => do
      let next ← arg.stepWithin levels
      pure (next.map (app fn))

theorem follows_stepWithin (levels : Nat) (t : Term) :
    Follows (t.stepWithin levels) (.ok t.step) := by
  induction t generalizing levels with
  | free name => exact .descend (fun _ => .ok none) levels
  | bound index => exact .descend (fun _ => .ok none) levels
  | abs hint body ih =>
    rw [stepWithin, step]
    exact .descend (fun n => (ih n).bind fun next => .ok (next.map (abs hint))) levels
  | app fn arg ihf iha =>
    by_cases hfn : ∃ hint body, fn = abs hint body
    · obtain ⟨hint, body, rfl⟩ := hfn
      rw [stepWithin, step]
      exact .descend (fun n =>
        (follows_instantiateWithin n arg body).bind fun t => .ok (some t)) levels
    · have hne : ∀ hint body, fn ≠ abs hint body := fun hint body h => hfn ⟨hint, body, h⟩
      rw [stepWithin, step]
      · refine .descend (fun n => ?_) levels
        obtain h | h := ihf n <;> rw [h]
        · exact .inl rfl
        · cases fn.step with
          | some fn' => exact .ok (some (app fn' arg))
          | none => exact (iha n).bind fun next => .ok (next.map (app fn))
      · exact hne
      · exact hne

end Term

/-- Continues an evaluation of `first`, whose later terms so far are `later`, the last one first,
over at most `limit` contractions. -/
def continueWithin (levels : Nat) (first : Term) (later : List Term) :
    Nat → Term → Except (Refusal Empty) Trace
  | 0, t =>
    match t.stepWithin levels with
    | .error refusal => .error refusal
    | .ok next => .ok ⟨first, later.reverse, next.isNone⟩
  | limit + 1, t =>
    match t.stepWithin levels with
    | .error refusal => .error refusal
    | .ok none => .ok ⟨first, later.reverse, true⟩
    | .ok (some u) => continueWithin levels first (u :: later) limit u

theorem follows_continueWithin (levels : Nat) (first : Term) (later : List Term) (limit : Nat)
    (t : Term) :
    Follows (continueWithin levels first later limit t)
      (.ok ⟨first, later.reverse ++ (evaluate limit t).later, (evaluate limit t).normal⟩) := by
  induction limit generalizing t later with
  | zero =>
    rw [continueWithin]
    obtain h | h := t.follows_stepWithin levels <;> rw [h]
    · exact .inl rfl
    · exact .inr (by simp [evaluate])
  | succ n ih =>
    rw [continueWithin]
    obtain h | h := t.follows_stepWithin levels <;> rw [h]
    · exact .inl rfl
    · cases hs : t.step with
      | none => exact .inr (by simp [evaluate, hs])
      | some u =>
        have hf : (evaluate n u).steps = u :: (evaluate n u).later := by
          rw [Trace.steps, evaluate_first]
        simpa [evaluate, hs, Trace.after, hf] using ih (u :: later) u

/-- Does `evaluate`, every step within `levels` levels. -/
def evaluateWithin (levels : Nat) (limit : Nat) (t : Term) : Except (Refusal Empty) Trace :=
  continueWithin levels t [] limit t

/-- **Evaluating within some levels is evaluating, as long as no step refuses.** -/
theorem follows_evaluateWithin (levels limit : Nat) (t : Term) :
    Follows (evaluateWithin levels limit t) (.ok (evaluate limit t)) := by
  have h :
      (⟨t, (evaluate limit t).later, (evaluate limit t).normal⟩ : Trace) = evaluate limit t := by
    rw [Trace.mk.injEq]
    exact ⟨(evaluate_first limit t).symm, rfl, rfl⟩
  rw [← h]
  exact follows_continueWithin levels t [] limit t

end NormalOrder
