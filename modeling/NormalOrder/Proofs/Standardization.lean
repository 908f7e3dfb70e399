import Mathlib.Logic.Relation
import NormalOrder.Proofs.Substitution
import NormalOrder.Reduction.Evaluation

/-!
# Normal order finds normal forms

`Term.Contracts` contracts one redex anywhere in a term: under binders, in a function or in an
argument.  `Term.step` always takes the leftmost-outermost one, and this is enough: whenever some
sequence of contractions ends in a normal form, so does the evaluation in normal order, and in the
same one (`evaluate_reaches_normalForm`).

The proof goes through *standard* reductions.  A head contraction (`Term.HeadContracts`) contracts
the redex at the head of an application.  In a standard reduction (`Term.Standard`) head
contractions come first, then reductions within the parts of what they lead to, again standard.

* A standard reduction absorbs a contraction at its end (`Standard.contracts`), so every reduction
  can be made standard (`standard_of_reduces`).  The heart of it is that standard reductions are
  kept by instantiation (`Standard.instantiateAt`).
* A standard reduction to a normal form is made of normal-order steps (`Standard.steps`).
-/

namespace NormalOrder

namespace Term

/-! ### Contractions -/

/-- One redex of the term, anywhere in it, is contracted. -/
inductive Contracts : Term → Term → Prop where
  /-- The term is the redex. -/
  | redex (hint : String) (body arg : Term) :
      Contracts (app (abs hint body) arg) (instantiate arg body)
  /-- The redex is in the body of an abstraction. -/
  | abs (hint : String) {body body' : Term} (h : Contracts body body') :
      Contracts (abs hint body) (abs hint body')
  /-- The redex is in the function of an application. -/
  | fn {fn fn' : Term} (arg : Term) (h : Contracts fn fn') : Contracts (app fn arg) (app fn' arg)
  /-- The redex is in the argument of an application. -/
  | arg (fn : Term) {arg arg' : Term} (h : Contracts arg arg') :
      Contracts (app fn arg) (app fn arg')

/-- Any number of contractions, in any order. -/
abbrev Reduces : Term → Term → Prop := Relation.ReflTransGen Contracts

/-- The redex at the head of an application is contracted. -/
inductive HeadContracts : Term → Term → Prop where
  /-- The term is the redex. -/
  | redex (hint : String) (body arg : Term) :
      HeadContracts (app (abs hint body) arg) (instantiate arg body)
  /-- The redex is at the head of the function. -/
  | fn {fn fn' : Term} (arg : Term) (h : HeadContracts fn fn') :
      HeadContracts (app fn arg) (app fn' arg)

/-- Any number of head contractions. -/
abbrev HeadReduces : Term → Term → Prop := Relation.ReflTransGen HeadContracts

/-- Any number of normal-order steps. -/
abbrev Steps : Term → Term → Prop := Relation.ReflTransGen fun t u => t.step = some u

theorem HeadReduces.fn {fn fn' : Term} (h : HeadReduces fn fn') (arg : Term) :
    HeadReduces (app fn arg) (app fn' arg) :=
  h.lift (app · arg) fun _ _ hc => .fn arg hc

theorem HeadContracts.liftFrom {t u : Term} (h : HeadContracts t u) (cutoff amount : Nat) :
    HeadContracts (t.liftFrom cutoff amount) (u.liftFrom cutoff amount) := by
  induction h with
  | redex hint body arg =>
    rw [liftFrom_instantiate]
    exact .redex hint _ _
  | fn arg _ ih => exact .fn _ ih

theorem HeadContracts.instantiateAt {t u : Term} (h : HeadContracts t u) (depth : Nat)
    (image : Term) : HeadContracts (t.instantiateAt depth image) (u.instantiateAt depth image) := by
  induction h with
  | redex hint body arg =>
    rw [instantiateAt_instantiate]
    exact .redex hint _ _
  | fn arg _ ih => exact .fn _ ih

theorem HeadReduces.liftFrom {t u : Term} (h : HeadReduces t u) (cutoff amount : Nat) :
    HeadReduces (t.liftFrom cutoff amount) (u.liftFrom cutoff amount) :=
  h.lift (·.liftFrom cutoff amount) fun _ _ hc => hc.liftFrom cutoff amount

theorem HeadReduces.instantiateAt {t u : Term} (h : HeadReduces t u) (depth : Nat)
    (image : Term) : HeadReduces (t.instantiateAt depth image) (u.instantiateAt depth image) :=
  h.lift (·.instantiateAt depth image) fun _ _ hc => hc.instantiateAt depth image

/-! ### Standard reductions -/

/-- A reduction in standard order: head contractions first, and then standard reductions of the
parts of the term they lead to. -/
inductive Standard : Term → Term → Prop where
  /-- To a free variable. -/
  | free {t : Term} {name : String} (h : HeadReduces t (free name)) : Standard t (free name)
  /-- To a bound variable. -/
  | bound {t : Term} {index : Nat} (h : HeadReduces t (bound index)) : Standard t (bound index)
  /-- To an abstraction, whose body is reduced further. -/
  | abs {t : Term} {hint : String} {body body' : Term} (h : HeadReduces t (abs hint body))
      (hbody : Standard body body') : Standard t (abs hint body')
  /-- To an application, whose parts are reduced further. -/
  | app {t fn fn' arg arg' : Term} (h : HeadReduces t (app fn arg)) (hfn : Standard fn fn')
      (harg : Standard arg arg') : Standard t (app fn' arg')

namespace Standard

theorem refl (t : Term) : Standard t t := by
  induction t with
  | free name => exact .free .refl
  | bound index => exact .bound .refl
  | abs hint body ih => exact .abs .refl ih
  | app fn arg ihf iha => exact .app .refl ihf iha

theorem head {t u v : Term} (hr : HeadReduces t u) (h : Standard u v) : Standard t v := by
  cases h with
  | free h => exact .free (hr.trans h)
  | bound h => exact .bound (hr.trans h)
  | abs h hbody => exact .abs (hr.trans h) hbody
  | app h hfn harg => exact .app (hr.trans h) hfn harg

theorem liftFrom {t u : Term} (h : Standard t u) (cutoff amount : Nat) :
    Standard (t.liftFrom cutoff amount) (u.liftFrom cutoff amount) := by
  induction h generalizing cutoff with
  | free h => exact .free (h.liftFrom cutoff amount)
  | bound h => exact .head (h.liftFrom cutoff amount) (.refl _)
  | abs h _ ih => exact .abs (h.liftFrom cutoff amount) (ih (cutoff + 1))
  | app h _ _ ihf iha => exact .app (h.liftFrom cutoff amount) (ihf cutoff) (iha cutoff)

/-- A variable is instantiated by a term or by what that term reduces to. -/
theorem instantiateAt_bound {image image' : Term} (h : Standard image image')
    (index depth : Nat) :
    Standard ((Term.bound index).instantiateAt depth image)
      ((Term.bound index).instantiateAt depth image') := by
  rcases Nat.lt_trichotomy index depth with hi | rfl | hi
  · rw [instantiateAt_bound_of_lt _ hi, instantiateAt_bound_of_lt _ hi]
    exact .refl _
  · rw [instantiateAt_bound_self, instantiateAt_bound_self]
    exact h.liftFrom 0 index
  · rw [instantiateAt_bound_of_gt _ hi, instantiateAt_bound_of_gt _ hi]
    exact .refl _

/-- **Standard reductions are kept by instantiation**, of the term and of the image alike. -/
theorem instantiateAt {t u image image' : Term} (h : Standard t u) (hi : Standard image image')
    (depth : Nat) : Standard (t.instantiateAt depth image) (u.instantiateAt depth image') := by
  induction h generalizing depth with
  | free h => exact .free (h.instantiateAt depth image)
  | @bound t index h =>
    exact .head (h.instantiateAt depth image) (hi.instantiateAt_bound index depth)
  | abs h _ ih => exact .abs (h.instantiateAt depth image) (ih (depth + 1))
  | app h _ _ ihf iha => exact .app (h.instantiateAt depth image) (ihf depth) (iha depth)

/-- A standard reduction that ends in a redex goes on to its contraction: the redex, as it first
appears, is contracted before its parts are reduced. -/
theorem redex {t body arg : Term} {hint : String}
    (h : Standard t (Term.app (Term.abs hint body) arg)) : Standard t (instantiate arg body) := by
  obtain _ | _ | _ | ⟨happ, hfn, harg⟩ := h
  obtain _ | _ | ⟨habs, hbody⟩ := hfn
  -- The function turned into an abstraction by head contractions, so its redex is at the head.
  have hr := (happ.trans (habs.fn _)).tail (.redex hint _ _)
  exact .head hr (hbody.instantiateAt harg 0)

/-- **A standard reduction absorbs a contraction at its end.** -/
theorem contracts {t u v : Term} (h : Standard t u) (hc : Contracts u v) : Standard t v := by
  -- Where the contraction is inside, the standard reduction ends in the same kind of term.
  induction hc generalizing t with
  | redex hint body arg => exact h.redex
  | abs hint _ ih =>
    obtain _ | _ | ⟨hr, hbody⟩ := h
    exact .abs hr (ih hbody)
  | fn arg _ ih =>
    obtain _ | _ | _ | ⟨hr, hfn, harg⟩ := h
    exact .app hr (ih hfn) harg
  | arg fn _ ih =>
    obtain _ | _ | _ | ⟨hr, hfn, harg⟩ := h
    exact .app hr hfn (ih harg)

end Standard

theorem standard_of_reduces {t u : Term} (h : Reduces t u) : Standard t u := by
  induction h with
  | refl => exact .refl t
  | tail _ hc ih => exact ih.contracts hc

/-! ### Steps -/

theorem step_app {fn : Term} (hfn : ∀ hint body, fn ≠ abs hint body) (arg : Term) :
    (app fn arg).step =
      match fn.step with
      | some fn' => some (app fn' arg)
      | none => arg.step.map (app fn) := by
  cases fn with
  | abs hint body => exact absurd rfl (hfn hint body)
  | free name => rfl
  | bound index => rfl
  | app fn fnArg => rfl

theorem step_eq_none_iff (t : Term) : t.step = none ↔ ¬ t.HasRedex := by
  induction t with
  | free name => simp [step, HasRedex]
  | bound index => simp [step, HasRedex]
  | abs hint body ih => simp [step, HasRedex, ih]
  | app fn arg ihf iha =>
    by_cases hfn : ∃ hint body, fn = abs hint body
    · obtain ⟨hint, body, rfl⟩ := hfn
      simp [step, HasRedex]
    · rw [step_app fun hint body h => hfn ⟨hint, body, h⟩]
      cases hs : fn.step with
      | some fn' =>
        have hr : fn.HasRedex := Classical.not_not.1 fun hno => by
          rw [ihf.2 hno] at hs
          cases hs
        simp [HasRedex, hr]
      | none => simp [HasRedex, hfn, ihf.1 hs, iha]

theorem HeadContracts.step {t u : Term} (h : HeadContracts t u) : t.step = some u := by
  induction h with
  | redex hint body arg => rfl
  | @fn fn fn' arg h ih =>
    have hfn : ∀ hint body, fn ≠ abs hint body := by
      rintro hint body rfl
      cases h
    rw [step_app hfn, ih]

theorem HeadReduces.steps {t u : Term} (h : HeadReduces t u) : Steps t u :=
  Relation.ReflTransGen.mono (fun _ _ hc => hc.step) _ _ h

theorem step_abs_of_step {hint : String} {body body' : Term} (h : body.step = some body') :
    (abs hint body).step = some (abs hint body') := by
  rw [step, h, Option.map_some]

theorem Steps.abs {body body' : Term} (h : Steps body body') (hint : String) :
    Steps (abs hint body) (abs hint body') :=
  h.lift (Term.abs hint) fun _ _ hs => step_abs_of_step hs

theorem Steps.ne_abs {t u : Term} (h : Steps t u) (hu : ∀ hint body, u ≠ Term.abs hint body) :
    ∀ hint body, t ≠ Term.abs hint body := by
  -- Backwards from the end: what is stepped to is no abstraction, so what steps is none.
  induction h using Relation.ReflTransGen.head_induction_on with
  | refl => exact hu
  | head hs _ ih =>
    rintro hint body rfl
    rw [step, Option.map_eq_some_iff] at hs
    obtain ⟨body', -, rfl⟩ := hs
    exact ih hint body' rfl

/-- The function of an application is reduced first, as long as it does not become an
abstraction. -/
theorem Steps.fn {fn fn' : Term} (h : Steps fn fn')
    (hfn' : ∀ hint body, fn' ≠ Term.abs hint body) (arg : Term) :
    Steps (app fn arg) (app fn' arg) := by
  induction h using Relation.ReflTransGen.head_induction_on with
  | refl => exact .refl
  | @head fn mid hs hrest ih =>
    have hne := Steps.ne_abs (.head hs hrest) hfn'
    refine .head ?_ ih
    rw [step_app hne, hs]

/-- The argument is reduced once the function cannot be. -/
theorem Steps.arg {fn arg arg' : Term} (hne : ∀ hint body, fn ≠ Term.abs hint body)
    (hfn : fn.step = none) (h : Steps arg arg') : Steps (app fn arg) (app fn arg') := by
  induction h with
  | refl => exact .refl
  | tail _ hs ih =>
    refine ih.tail ?_
    rw [step_app hne, hfn, hs, Option.map_some]

/-- **A standard reduction to a normal form is made of normal-order steps.** -/
theorem Standard.steps {t n : Term} (h : Standard t n) (hn : ¬ n.HasRedex) : Steps t n := by
  induction h with
  | free h => exact h.steps
  | bound h => exact h.steps
  | abs h _ ih => exact h.steps.trans ((ih hn).abs _)
  | @app t fn fn' arg arg' h _ _ ihf iha =>
    simp only [HasRedex, not_or, not_exists] at hn
    obtain ⟨hne, hfn, harg⟩ := hn
    -- The function ends in a normal form that is no abstraction, so it can be finished first.
    calc
      Steps t (Term.app fn arg) := h.steps
      Steps _ (Term.app fn' arg) := (ihf hfn).fn hne arg
      Steps _ (Term.app fn' arg') := .arg hne ((step_eq_none_iff fn').2 hfn) (iha harg)

end Term

/-! ### Evaluation -/

namespace Trace

@[simp] theorem result_after (t : Term) (trace : Trace) :
    (after t trace).result = trace.result := by
  rw [result, after, steps, List.getLastD_cons, result]

end Trace

open Term

theorem evaluate_of_step {t u : Term} (h : t.step = some u) (limit : Nat) :
    evaluate (limit + 1) t = .after t (evaluate limit u) := by rw [evaluate, h]

theorem evaluate_of_normal {t : Term} (h : t.step = none) (limit : Nat) :
    evaluate limit t = ⟨t, [], true⟩ := by
  cases limit with
  | zero => rw [evaluate, h, Option.isNone_none]
  | succ limit => rw [evaluate, h]

/-- An evaluation follows the steps of its term to a normal form, if it may take that many. -/
theorem evaluate_of_steps {t n : Term} (h : Steps t n) (hn : n.step = none) :
    ∃ k, ∀ limit, k ≤ limit →
      (evaluate limit t).normal = true ∧ (evaluate limit t).result = n := by
  -- One step at the front takes one off the limit.
  induction h using Relation.ReflTransGen.head_induction_on with
  | refl =>
    refine ⟨0, fun limit _ => ?_⟩
    rw [evaluate_of_normal hn]
    exact ⟨rfl, rfl⟩
  | head hs _ ih =>
    obtain ⟨k, hk⟩ := ih
    refine ⟨k + 1, fun limit hlimit => ?_⟩
    obtain ⟨limit, rfl⟩ : ∃ m, limit = m + 1 := ⟨limit - 1, by omega⟩
    rw [evaluate_of_step hs, Trace.normal_after, Trace.result_after]
    exact hk limit (by omega)

/-- Whatever a term reduces to, if it is a normal form, normal order leads to it as well. -/
theorem steps_of_reduces {t n : Term} (h : Reduces t n) (hn : ¬ n.HasRedex) : Steps t n :=
  (standard_of_reduces h).steps hn

theorem eq_of_steps {t n n' : Term} (h : Steps t n) (hn : n.step = none) (h' : Steps t n')
    (hn' : n'.step = none) : n' = n := by
  -- An evaluation that may take enough steps for both ends in both.
  obtain ⟨k, hk⟩ := evaluate_of_steps h hn
  obtain ⟨k', hk'⟩ := evaluate_of_steps h' hn'
  rw [← (hk (k + k') (by omega)).2, (hk' (k + k') (by omega)).2]

/-- **Normal order finds a normal form whenever there is one.**  If contractions, in any order,
lead from a term to a normal form, then so does the evaluation of the term, given enough steps; and
no other order leads to another normal form. -/
theorem evaluate_reaches_normalForm (t n : Term) (h : Reduces t n) (hn : ¬ n.HasRedex) :
    (∃ k, ∀ limit, k ≤ limit →
      (evaluate limit t).normal = true ∧ (evaluate limit t).normalForm? = some n) ∧
    ∀ n', Reduces t n' → ¬ n'.HasRedex → n' = n := by
  have hsteps := steps_of_reduces h hn
  have hnone := (step_eq_none_iff n).2 hn
  refine ⟨?_, fun n' h' hn' => ?_⟩
  · obtain ⟨k, hk⟩ := evaluate_of_steps hsteps hnone
    refine ⟨k, fun limit hlimit => ?_⟩
    obtain ⟨hnormal, hresult⟩ := hk limit hlimit
    exact ⟨hnormal, by rw [Trace.normalForm?, hnormal, if_pos rfl, hresult]⟩
  · exact eq_of_steps hsteps hnone (steps_of_reduces h' hn') ((step_eq_none_iff n').2 hn')

/-- The argument has no normal form, so an order that begins with it need not end. -/
theorem evaluate_reaches_normalForm_omega :
    let omega : Term :=
      .app (.abs "x" (.app (.bound 0) (.bound 0))) (.abs "x" (.app (.bound 0) (.bound 0)))
    let t : Term := .app (.abs "x" (.free "z")) omega
    Contracts t t ∧ Contracts t (.free "z") ∧ ¬ (Term.free "z").HasRedex ∧
      ∃ k, ∀ limit, k ≤ limit →
        (evaluate limit t).normal = true ∧ (evaluate limit t).normalForm? = some (.free "z") := by
  intro omega t
  have hloop : Contracts t t := .arg _ (.redex _ _ _)
  have hend : Contracts t (.free "z") := .redex _ _ _
  have hnormal : ¬ (Term.free "z").HasRedex := not_false
  have hreduces : Reduces t (.free "z") := .tail (.tail .refl hloop) hend
  exact ⟨hloop, hend, hnormal, (evaluate_reaches_normalForm t (.free "z") hreduces hnormal).1⟩

end NormalOrder
