import Mathlib.Data.List.Chain
import NormalOrder.Proofs.Standardization
import NormalOrder.Session

/-!
# An evaluation is a bounded run

`Trace.IsRunOf` says what the trace of a term under a limit is, and not how it is found: it begins
with the term, each later term is one step after the one before, and it ends in a normal form or
else when the limit is reached, and says which.

* `evaluate_isRunOf`, `Trace.IsRunOf.eq_evaluate` : an evaluation is such a trace, and the only one.
* `evaluate_add` : an evaluation can be stopped and taken up again at its last term.
* `evaluate_map` : what commutes with every step commutes with evaluation.
-/

namespace NormalOrder

namespace Trace

/-- The trace goes on with another one, which begins where it ends. -/
def continuedBy (trace next : Trace) : Trace :=
  ⟨trace.first, trace.later ++ next.later, next.normal⟩

/-- The trace with `f` applied to all its terms. -/
def map (f : Term → Term) (trace : Trace) : Trace :=
  ⟨f trace.first, trace.later.map f, trace.normal⟩

theorem after_continuedBy (t : Term) (trace next : Trace) :
    (after t trace).continuedBy next = after t (trace.continuedBy next) := rfl

theorem map_after (f : Term → Term) (t : Term) (trace : Trace) :
    (after t trace).map f = after (f t) (trace.map f) := rfl

@[simp] theorem steps_map (f : Term → Term) (trace : Trace) :
    (trace.map f).steps = trace.steps.map f := rfl

/-- The trace is the run of `t` over at most `limit` contractions; a negative limit counts as
zero. -/
structure IsRunOf (trace : Trace) (t : Term) (limit : Int) : Prop where
  /-- It begins with the term. -/
  starts : trace.steps.head? = some t
  /-- Each later term is the step of the one before. -/
  contracts : trace.steps.IsChain fun u v => u.step = some v
  /-- It makes no more contractions than it may. -/
  length_le : (trace.steps.length : Int) ≤ max limit 0 + 1
  /-- It knows whether its last term is a normal form. -/
  normal_iff : trace.normal = true ↔ ¬trace.result.HasRedex
  /-- Unless that is one, it makes all contractions that it may. -/
  exhausts : trace.normal = false → (trace.steps.length : Int) = max limit 0 + 1

end Trace

/-! ### Evaluations are runs -/

theorem isChain_evaluate (limit : Nat) (t : Term) :
    (evaluate limit t).steps.IsChain fun u v => u.step = some v := by
  fun_induction evaluate limit t with
  | case1 t => exact .singleton t
  | case2 limit t hs => exact .singleton t
  | case3 limit t u hs ih =>
    rw [Trace.steps, evaluate_first] at ih
    rw [Trace.steps_after, Trace.steps, evaluate_first]
    exact .cons_cons hs ih

theorem evaluate_normal_eq (limit : Nat) (t : Term) :
    (evaluate limit t).normal = (evaluate limit t).result.step.isNone := by
  fun_induction evaluate limit t with
  | case1 t => rfl
  | case2 limit t hs => exact (Option.isNone_iff_eq_none.2 hs).symm
  | case3 limit t u hs ih =>
    rw [Trace.normal_after, Trace.result_after]
    exact ih

theorem length_later_evaluate_le (limit : Nat) (t : Term) :
    (evaluate limit t).later.length ≤ limit := by
  fun_induction evaluate limit t with
  | case1 t => exact Nat.le_refl 0
  | case2 limit t hs => exact Nat.zero_le _
  | case3 limit t u hs ih => exact Nat.succ_le_succ ih

theorem length_later_evaluate_of_not_normal {limit : Nat} {t : Term}
    (h : (evaluate limit t).normal = false) : (evaluate limit t).later.length = limit := by
  fun_induction evaluate limit t with
  | case1 t => rfl
  | case2 limit t hs => cases h
  | case3 limit t u hs ih => exact congrArg Nat.succ (ih h)

/-- **An evaluation is a run.** -/
theorem evaluate_isRunOf (t : Term) (limit : Int) : (evaluate limit.toNat t).IsRunOf t limit := by
  have hlength : ((evaluate limit.toNat t).steps.length : Int) =
      (evaluate limit.toNat t).later.length + 1 := by simp [Trace.steps]
  refine ⟨?_, isChain_evaluate _ t, ?_, ?_, fun hnormal => ?_⟩
  · rw [Trace.steps, evaluate_first, List.head?_cons]
  · have hle := length_later_evaluate_le limit.toNat t
    omega
  · rw [evaluate_normal_eq, Option.isNone_iff_eq_none, Term.step_eq_none_iff]
  · have heq := length_later_evaluate_of_not_normal hnormal
    omega

/-! ### There is no other run -/

namespace Trace.IsRunOf

variable {t u first : Term} {later : List Term} {normal : Bool} {limit : Nat}

theorem first_eq {trace : Trace} {limit : Int} (h : trace.IsRunOf t limit) : trace.first = t :=
  Option.some.inj h.starts

/-- A run that makes no contraction has a normal form before it, or may make none. -/
theorem eq_evaluate_of_nil (h : IsRunOf ⟨t, [], normal⟩ t limit) :
    ⟨t, [], normal⟩ = evaluate limit t := by
  have hiff : normal = true ↔ t.step = none := h.normal_iff.trans (t.step_eq_none_iff).symm
  cases hs : t.step with
  | none => rw [evaluate_of_normal hs, hiff.2 hs]
  | some u =>
    have hnormal : normal = false := by
      rw [← Bool.not_eq_true, hiff, hs]
      exact Option.some_ne_none u
    have hlength : (steps ⟨t, [], normal⟩).length = 1 := rfl
    have hall := h.exhausts hnormal
    obtain rfl : limit = 0 := by omega
    rw [evaluate, hs, hnormal, Option.isNone_some]

/-- After the first contraction, a run is a run of what the contraction leads to. -/
theorem tail (h : IsRunOf ⟨t, u :: later, normal⟩ t limit) :
    ∃ fewer : Nat, limit = fewer + 1 ∧ t.step = some u ∧ IsRunOf ⟨u, later, normal⟩ u fewer := by
  obtain ⟨-, hcontracts, hle, hnormal, hexhausts⟩ := h
  obtain ⟨hstep, hlater⟩ := List.isChain_cons_cons.1 hcontracts
  have hlength : (steps ⟨t, u :: later, normal⟩).length = (steps ⟨u, later, normal⟩).length + 1 :=
    rfl
  have hresult : result ⟨t, u :: later, normal⟩ = result ⟨u, later, normal⟩ :=
    result_after t ⟨u, later, normal⟩
  have hpos : 0 < (steps ⟨u, later, normal⟩).length := Nat.succ_pos _
  rw [hresult] at hnormal
  refine ⟨limit - 1, by omega, hstep, rfl, hlater, by omega, hnormal, fun hfalse => ?_⟩
  have hall := hexhausts hfalse
  omega

/-- **A run is the evaluation.** -/
theorem eq_evaluate {trace : Trace} (h : trace.IsRunOf t limit) : trace = evaluate limit t := by
  obtain ⟨first, later, normal⟩ := trace
  obtain rfl := h.first_eq
  induction later generalizing first limit with
  | nil => exact h.eq_evaluate_of_nil
  | cons u later ih =>
    obtain ⟨fewer, rfl, hstep, hrun⟩ := h.tail
    rw [evaluate_of_step hstep, ← ih u hrun]
    rfl

end Trace.IsRunOf

/-! ### Stopping and going on -/

/-- **An evaluation can be taken up again where it stopped.** -/
theorem evaluate_add (m n : Nat) (t : Term) :
    evaluate (m + n) t = (evaluate m t).continuedBy (evaluate n (evaluate m t).result) := by
  induction m generalizing t with
  | zero =>
    have hfirst : (evaluate 0 t).first = (evaluate n t).first := by
      rw [evaluate_first, evaluate_first]
    rw [Nat.zero_add, Trace.continuedBy, hfirst]
    rfl
  | succ m ih =>
    cases hs : t.step with
    | none =>
      have hresult : (evaluate (m + 1) t).result = t := by rw [evaluate_of_normal hs]; rfl
      rw [hresult, evaluate_of_normal hs, evaluate_of_normal hs, evaluate_of_normal hs]
      rfl
    | some u =>
      rw [Nat.succ_add, evaluate_of_step hs, evaluate_of_step hs, Trace.result_after,
        Trace.after_continuedBy, ih u]

theorem evaluate_map {f : Term → Term} (hf : ∀ t : Term, (f t).step = t.step.map f) (limit : Nat)
    (t : Term) : evaluate limit (f t) = (evaluate limit t).map f := by
  fun_induction evaluate limit t with
  | case1 t => rw [evaluate, hf, Option.isNone_map]; rfl
  | case2 limit t hs =>
    rw [evaluate_of_normal (by rw [hf, hs, Option.map_none])]
    rfl
  | case3 limit t u hs ih =>
    rw [evaluate_of_step (by rw [hf, hs, Option.map_some]), ih, Trace.map_after]

/-- **Evaluation is the bounded run in normal order, exact at its limit, and can be resumed.**  For
every limit it is a run of the term, and the only one; a session with this limit comes to it unless
it is too deep.  An evaluation over `m + n` contractions is one over `m`, followed by one over `n`
of its last term, without the first term of that; and whether it ends in a normal form is what the
latter says. -/
theorem evaluate_is_resumable_run (t : Term) :
    (∀ limit : Int, (evaluate limit.toNat t).IsRunOf t limit ∧
      (∀ trace : Trace, trace.IsRunOf t limit → trace = evaluate limit.toNat t) ∧
      ∀ (levels : Nat) (s s' : Session) (trace : Trace), s.tree = t → s.maxSteps = some limit →
        s.evaluate levels = .ok (trace, s') → trace.IsRunOf t limit) ∧
    ∀ m n : Nat,
      (evaluate (m + n) t).steps =
        (evaluate m t).steps ++ (evaluate n (evaluate m t).result).steps.tail ∧
      (evaluate (m + n) t).normal = (evaluate n (evaluate m t).result).normal := by
  refine ⟨fun limit => ⟨evaluate_isRunOf t limit, ?_, ?_⟩, fun m n => ?_⟩
  · rintro trace ⟨hstarts, hcontracts, hle, hnormal, hexhausts⟩
    refine Trace.IsRunOf.eq_evaluate ⟨hstarts, hcontracts, by omega, hnormal, fun hfalse => ?_⟩
    have hall := hexhausts hfalse
    omega
  · rintro levels s s' trace rfl hlimit h
    have hfollows := follows_evaluateWithin levels limit.toNat s.tree
    rw [Session.evaluate, hlimit, Option.getD_some] at h
    cases hrun : evaluateWithin levels limit.toNat s.tree with
    | error e =>
      rw [hrun] at h
      cases h
    | ok found =>
      rw [hrun] at h
      obtain rfl : found = trace := (Prod.mk.inj (Except.ok.inj h)).1
      rw [← Except.ok.inj (hfollows.eq_ok hrun)]
      exact evaluate_isRunOf s.tree limit
  · rw [evaluate_add]
    exact ⟨rfl, rfl⟩

end NormalOrder
