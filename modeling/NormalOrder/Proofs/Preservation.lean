import NormalOrder.Proofs.Hints
import NormalOrder.Proofs.Standardization
import NormalOrder.Proofs.Walk

/-!
# Contraction keeps scopes and names

A contraction moves its argument below other binders and takes a binder away.  Whatever redex it
contracts,

* bound variables keep their binders (`Contracts.wellScoped`),
* no free variable is introduced (`Contracts.freeNames_subset`), and
* no hint is introduced (`Contracts.hints_subset`).

What holds of a term and is kept by every step holds of every term of an evaluation
(`evaluate_invariant`), so all of this is true of whole traces (`evaluate_keeps_scope_and_names`).

Indices are natural numbers here, and so an index can never become negative.  To say that none is
ever asked to, `Term.stepChecked` makes the same step but builds every index by `Term.ofIndex`,
which refuses a negative one, and lifts by `Term.shift`, which does so too.  It never refuses
(`stepChecked_eq`).
-/

namespace NormalOrder

namespace Term

/-! ### Lifting -/

theorem freeNames_liftFrom (t : Term) (cutoff amount : Nat) :
    (t.liftFrom cutoff amount).freeNames = t.freeNames := by
  induction t generalizing cutoff with
  | free name => rfl
  | bound index =>
    by_cases h : cutoff ≤ index
    · rw [liftFrom_bound_of_le _ h]
      rfl
    · rw [liftFrom_bound_of_lt _ (by omega)]
  | abs hint body ih => exact ih (cutoff + 1)
  | app fn arg ihf iha => rw [liftFrom_app, freeNames, freeNames, ihf, iha]

theorem hints_liftFrom (t : Term) (cutoff amount : Nat) :
    (t.liftFrom cutoff amount).hints = t.hints := by
  induction t generalizing cutoff with
  | free name => rfl
  | bound index =>
    by_cases h : cutoff ≤ index
    · rw [liftFrom_bound_of_le _ h]
      rfl
    · rw [liftFrom_bound_of_lt _ (by omega)]
  | abs hint body ih => rw [liftFrom_abs, hints, hints, ih]
  | app fn arg ihf iha => rw [liftFrom_app, hints, hints, ihf, iha]

theorem WellScoped.liftFrom {t : Term} {depth : Int} (h : t.WellScoped depth)
    (cutoff amount : Nat) : (t.liftFrom cutoff amount).WellScoped (depth + amount) := by
  induction t generalizing depth cutoff with
  | free name => trivial
  | bound index =>
    have hlt : (index : Int) < depth := h
    by_cases hc : cutoff ≤ index
    · rw [liftFrom_bound_of_le _ hc, WellScoped]
      omega
    · rw [liftFrom_bound_of_lt _ (by omega), WellScoped]
      omega
  | abs hint body ih =>
    have hbody : body.WellScoped (depth + 1) := h
    rw [liftFrom_abs, WellScoped, Int.add_right_comm]
    exact ih hbody (cutoff + 1)
  | app fn arg ihf iha => exact ⟨ihf h.1 cutoff, iha h.2 cutoff⟩

theorem WellScoped.liftFrom_eq {t : Term} {depth : Nat} (h : t.WellScoped depth) (amount : Nat) :
    t.liftFrom depth amount = t := by
  induction t generalizing depth with
  | free name => rfl
  | bound index => exact liftFrom_bound_of_lt _ (Int.ofNat_lt.1 h)
  | abs hint body ih =>
    have hbody : body.WellScoped ((depth + 1 : Nat) : Int) := h
    rw [liftFrom_abs, ih hbody]
  | app fn arg ihf iha => rw [liftFrom_app, ihf h.1, iha h.2]

/-! ### Instantiation -/

/-- Instantiation takes one binder away, from around the variables that refer past it too. -/
theorem WellScoped.instantiateAt {t image : Term} {outer : Int} (houter : 0 ≤ outer) {depth : Nat}
    (h : t.WellScoped (outer + depth + 1)) (himage : image.WellScoped outer) :
    (t.instantiateAt depth image).WellScoped (outer + depth) := by
  induction t generalizing depth with
  | free name => trivial
  | bound index =>
    have hlt : (index : Int) < outer + depth + 1 := h
    rcases Nat.lt_trichotomy index depth with hi | rfl | hi
    · rw [instantiateAt_bound_of_lt _ hi, WellScoped]
      omega
    · rw [instantiateAt_bound_self]
      exact himage.liftFrom 0 index
    · rw [instantiateAt_bound_of_gt _ hi, WellScoped]
      omega
  | abs hint body ih =>
    have hbody : body.WellScoped (outer + (depth + 1 : Nat) + 1) := by
      rwa [Int.natCast_succ, ← Int.add_assoc]
    have hnext := ih hbody
    rwa [Int.natCast_succ, ← Int.add_assoc] at hnext
  | app fn arg ihf iha => exact ⟨ihf h.1, iha h.2⟩

/-- What is found in the parts of an application, or in the image, is found in both together. -/
theorem append_subset_of_parts {fn fn' arg arg' image : List String} (hfn : fn' ⊆ fn ++ image)
    (harg : arg' ⊆ arg ++ image) : fn' ++ arg' ⊆ fn ++ arg ++ image := by
  refine List.append_subset.2 ⟨fun name hname => ?_, fun name hname => ?_⟩
  · have hmem := hfn hname
    simp only [List.mem_append] at hmem ⊢
    exact hmem.imp_left .inl
  · have hmem := harg hname
    simp only [List.mem_append] at hmem ⊢
    exact hmem.imp_left .inr

theorem freeNames_instantiateAt_subset (t image : Term) (depth : Nat) :
    (t.instantiateAt depth image).freeNames ⊆ t.freeNames ++ image.freeNames := by
  induction t generalizing depth with
  | free name => simp [freeNames]
  | bound index =>
    rcases Nat.lt_trichotomy index depth with hi | rfl | hi
    · simp [instantiateAt_bound_of_lt _ hi, freeNames]
    · simp [instantiateAt_bound_self, freeNames_liftFrom]
    · simp [instantiateAt_bound_of_gt _ hi, freeNames]
  | abs hint body ih => exact ih (depth + 1)
  | app fn arg ihf iha => exact append_subset_of_parts (ihf depth) (iha depth)

theorem hints_instantiateAt_subset (t image : Term) (depth : Nat) :
    (t.instantiateAt depth image).hints ⊆ t.hints ++ image.hints := by
  induction t generalizing depth with
  | free name => simp [hints]
  | bound index =>
    rcases Nat.lt_trichotomy index depth with hi | rfl | hi
    · simp [instantiateAt_bound_of_lt _ hi, hints]
    · simp [instantiateAt_bound_self, hints_liftFrom]
    · simp [instantiateAt_bound_of_gt _ hi, hints]
  | abs hint body ih => exact List.cons_subset_cons hint (ih (depth + 1))
  | app fn arg ihf iha => exact append_subset_of_parts (ihf depth) (iha depth)

/-! ### Contraction -/

namespace Contracts

variable {t u : Term}

/-- **Bound variables keep their binders**, whichever redex is contracted. -/
theorem wellScoped (h : Contracts t u) {depth : Int} (hdepth : 0 ≤ depth)
    (ht : t.WellScoped depth) : u.WellScoped depth := by
  induction h generalizing depth with
  | redex hint body arg =>
    have hbody : body.WellScoped (depth + (0 : Nat) + 1) := by
      rw [Int.natCast_zero, Int.add_zero]
      exact ht.1
    have hnext := hbody.instantiateAt hdepth ht.2
    rwa [Int.natCast_zero, Int.add_zero] at hnext
  | abs hint _ ih => exact ih (by omega) ht
  | fn arg _ ih => exact ⟨ih hdepth ht.1, ht.2⟩
  | arg fn _ ih => exact ⟨ht.1, ih hdepth ht.2⟩

theorem freeNames_subset (h : Contracts t u) : u.freeNames ⊆ t.freeNames := by
  induction h with
  | redex hint body arg => exact freeNames_instantiateAt_subset body arg 0
  | abs hint _ ih => exact ih
  | fn arg _ ih =>
    exact List.append_subset.2
      ⟨List.subset_append_of_subset_left _ ih, List.subset_append_right _ _⟩
  | arg fn _ ih =>
    exact List.append_subset.2
      ⟨List.subset_append_left _ _, List.subset_append_of_subset_right _ ih⟩

theorem hints_subset (h : Contracts t u) : u.hints ⊆ t.hints := by
  induction h with
  | redex hint body arg =>
    exact List.Subset.trans (hints_instantiateAt_subset body arg 0) (List.subset_cons_self hint _)
  | abs hint _ ih => exact List.cons_subset_cons hint ih
  | fn arg _ ih =>
    exact List.append_subset.2
      ⟨List.subset_append_of_subset_left _ ih, List.subset_append_right _ _⟩
  | arg fn _ ih =>
    exact List.append_subset.2
      ⟨List.subset_append_left _ _, List.subset_append_of_subset_right _ ih⟩

end Contracts

theorem contracts_of_step {t u : Term} (h : t.step = some u) : Contracts t u := by
  induction t generalizing u with
  | free name => cases h
  | bound index => cases h
  | abs hint body ih =>
    obtain ⟨body', hbody, rfl⟩ := Option.map_eq_some_iff.1 h
    exact .abs hint (ih hbody)
  | app fn arg ihf iha =>
    by_cases hfn : ∃ hint body, fn = abs hint body
    · obtain ⟨hint, body, rfl⟩ := hfn
      obtain rfl := Option.some.inj h
      exact .redex hint body arg
    · rw [step_app fun hint body heq => hfn ⟨hint, body, heq⟩] at h
      cases hs : fn.step with
      | some fn' =>
        rw [hs] at h
        obtain rfl := Option.some.inj h
        exact .fn arg (ihf hs)
      | none =>
        rw [hs] at h
        obtain ⟨arg', harg, rfl⟩ := Option.map_eq_some_iff.1 h
        exact .arg fn (iha harg)

/-! ### Steps that check their indices -/

theorem shiftVar_natCast (amount : Nat) : shiftVar (amount : Int) =
    fun v depth => (.ok (liftVar amount v depth) : Except NegativeIndex Term) := by
  funext v depth
  cases v with
  | free name => rfl
  | bound index =>
    simp only [shiftVar, liftVar]
    split <;> rfl

/-- A lift is the shift by a natural amount, and no index becomes negative in it. -/
theorem shift_natCast (t : Term) (amount : Nat) : t.shift amount = .ok (t.lift amount) := by
  by_cases h : amount = 0
  · subst h
    rfl
  · have hne : (amount : Int) ≠ 0 := Int.natCast_ne_zero.2 h
    rw [shift, if_neg hne, lift, if_neg h, shiftVar_natCast, traverseVars_ok]

/-- What `instantiateVar` puts for a variable, with every index checked. -/
def instantiateVarChecked (image : Term) (v : Var) (depth : Nat) : Except NegativeIndex Term :=
  match v with
  | .free name => .ok (free name)
  | .bound index =>
    if index < depth then .ok (bound index)
    else if index = depth then image.shift depth
    else ofIndex ((index : Int) - 1)

/-- Does `instantiate`, checking every index. -/
def instantiateChecked (image scope : Term) : Except NegativeIndex Term :=
  scope.traverseVars (instantiateVarChecked image) 0

/-- Does `step`, checking every index. -/
def stepChecked : Term → Except NegativeIndex (Option Term)
  | free _ => .ok none
  | bound _ => .ok none
  | abs hint body => do
    let next ← body.stepChecked
    pure (next.map (abs hint))
  | app (abs _ body) arg => do
    let t ← instantiateChecked arg body
    pure (some t)
  | app fn arg => do
    let next ← fn.stepChecked
    match next with
    | some fn' => pure (some (app fn' arg))
    | none => do
      let next ← arg.stepChecked
      pure (next.map (app fn))

theorem instantiateVarChecked_eq (image : Term) (v : Var) (depth : Nat) :
    instantiateVarChecked image v depth = .ok (instantiateVar image v depth) := by
  cases v with
  | free name => rfl
  | bound index =>
    simp only [instantiateVarChecked, instantiateVar]
    split
    · rfl
    split
    · exact shift_natCast image depth
    · -- A variable that loses a binder has one to lose.
      rename_i hlt hne
      have hpred : (index : Int) - 1 = ((index - 1 : Nat) : Int) := by omega
      rw [hpred]
      rfl

theorem instantiateChecked_eq (image scope : Term) :
    instantiateChecked image scope = .ok (instantiate image scope) := by
  have hvar : instantiateVarChecked image =
      fun v depth => (.ok (instantiateVar image v depth) : Except NegativeIndex Term) := by
    funext v depth
    exact instantiateVarChecked_eq image v depth
  rw [instantiateChecked, hvar, traverseVars_ok, instantiate]

/-- **No index becomes negative in a step**, whether the term is well formed or not. -/
theorem stepChecked_eq (t : Term) : t.stepChecked = .ok t.step := by
  induction t with
  | free name => rfl
  | bound index => rfl
  | abs hint body ih =>
    rw [stepChecked, ih]
    rfl
  | app fn arg ihf iha =>
    by_cases hfn : ∃ hint body, fn = abs hint body
    · obtain ⟨hint, body, rfl⟩ := hfn
      rw [stepChecked, instantiateChecked_eq]
      rfl
    · have hne : ∀ hint body, fn ≠ abs hint body := fun hint body h => hfn ⟨hint, body, h⟩
      rw [step_app hne, stepChecked, ihf, iha]
      · cases fn.step <;> rfl
      · exact hne

end Term

open Term

/-! ### Evaluation -/

/-- Does `evaluate`, checking every index. -/
def evaluateChecked : Nat → Term → Except NegativeIndex Trace
  | 0, t => do
    let next ← t.stepChecked
    pure ⟨t, [], next.isNone⟩
  | limit + 1, t => do
    let next ← t.stepChecked
    match next with
    | none => pure ⟨t, [], true⟩
    | some u => do
      let trace ← evaluateChecked limit u
      pure (.after t trace)

theorem evaluateChecked_eq (limit : Nat) (t : Term) :
    evaluateChecked limit t = .ok (evaluate limit t) := by
  induction limit generalizing t with
  | zero =>
    rw [evaluateChecked, stepChecked_eq]
    rfl
  | succ limit ih =>
    rw [evaluateChecked, stepChecked_eq]
    cases hs : t.step with
    | none =>
      rw [evaluate, hs]
      rfl
    | some u =>
      rw [evaluate_of_step hs]
      simp only [bind, Except.bind, ih u]
      rfl

/-- **What every step keeps holds of all terms of an evaluation.** -/
theorem evaluate_invariant {P : Term → Prop} (hstep : ∀ t u, t.step = some u → P t → P u)
    (limit : Nat) {t : Term} (ht : P t) : ∀ u ∈ (evaluate limit t).steps, P u := by
  induction limit generalizing t with
  | zero =>
    intro u hu
    obtain rfl := List.mem_singleton.1 hu
    exact ht
  | succ limit ih =>
    cases hs : t.step with
    | none =>
      intro u hu
      rw [evaluate_of_normal hs] at hu
      obtain rfl := List.mem_singleton.1 hu
      exact ht
    | some v =>
      rw [evaluate_of_step hs, Trace.steps_after]
      exact List.forall_mem_cons.2 ⟨ht, ih (hstep t v hs ht)⟩

theorem evaluate_scope_and_names {depth : Int} (hdepth : 0 ≤ depth) {t : Term}
    (ht : t.WellScoped depth) (limit : Nat) : ∀ u ∈ (evaluate limit t).steps,
      u.WellScoped depth ∧ u.freeNames ⊆ t.freeNames ∧ u.hints ⊆ t.hints := by
  refine evaluate_invariant (fun u v hstep hu => ?_) limit
    ⟨ht, List.Subset.refl _, List.Subset.refl _⟩
  obtain ⟨hscope, hfree, hhints⟩ := hu
  have hc := contracts_of_step hstep
  exact ⟨hc.wellScoped hdepth hscope, List.Subset.trans hc.freeNames_subset hfree,
    List.Subset.trans hc.hints_subset hhints⟩

/-- **Reduction keeps scopes and introduces no names.**  An evaluation refuses no index; every term
of it is well formed below as many binders as the first, and has no free variable and no hint that
the first has not, so that it is closed if the first is.  A step refuses no index even in a term
that is not well formed. -/
theorem evaluate_keeps_scope_and_names (t : Term) (depth limit : Int) (hdepth : 0 ≤ depth)
    (hwf : t.isWellFormed depth = true) :
    evaluateChecked limit.toNat t = .ok (evaluate limit.toNat t) ∧
    (∀ u ∈ (evaluate limit.toNat t).steps, u.isWellFormed depth = true ∧ u.freeVars ⊆ t.freeVars ∧
      (t.isClosed = true → u.isClosed = true) ∧ u.hints ⊆ t.hints) ∧
    ∀ v : Term, v.stepChecked = .ok v.step := by
  refine ⟨evaluateChecked_eq limit.toNat t, fun u hu => ?_, stepChecked_eq⟩
  obtain ⟨hscope, hfree, hhints⟩ :=
    evaluate_scope_and_names hdepth ((t.isWellFormed_iff depth).1 hwf) limit.toNat u hu
  have hfreeVars : u.freeVars ⊆ t.freeVars := fun name hname =>
    mem_freeVars.2 (hfree (mem_freeVars.1 hname))
  refine ⟨(u.isWellFormed_iff depth).2 hscope, hfreeVars, fun hclosed => ?_, hhints⟩
  rw [isClosed, List.isEmpty_iff] at hclosed ⊢
  rw [hclosed] at hfreeVars
  exact List.subset_nil.1 hfreeVars

/-- The argument is open, and it is moved below a binder next to a variable that loses one. -/
theorem evaluate_keeps_scope_and_names_open :
    let t : Term := .app (.abs "x" (.abs "y" (.app (.bound 1) (.bound 2))))
      (.app (.bound 0) (.free "z"))
    let u : Term := .abs "y" (.app (.app (.bound 1) (.free "z")) (.bound 1))
    t.isWellFormed 1 = true ∧ u ∈ (evaluate 3 t).steps ∧ u.isWellFormed 1 = true ∧
      u.freeVars ⊆ t.freeVars ∧ u.hints ⊆ t.hints := by
  intro t u
  have hwf : t.isWellFormed 1 = true := (t.isWellFormed_iff 1).2 (by decide)
  have hu : u ∈ (evaluate 3 t).steps := by decide
  obtain ⟨-, hkeeps, -⟩ := evaluate_keeps_scope_and_names t 1 3 (by decide) hwf
  obtain ⟨hscope, hfree, -, hhints⟩ := hkeeps u hu
  exact ⟨hwf, hu, hscope, hfree, hhints⟩

end NormalOrder
