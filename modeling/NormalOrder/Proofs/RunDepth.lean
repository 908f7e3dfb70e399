import NormalOrder.Bounded.Reduction
import NormalOrder.Proofs.Standardization
import NormalOrder.Term.Subterms

/-!
# How deep a run can build

A run that descends at most some levels in each step can still move terms of any depth about, as
long as it does not look into them.  But what it builds is no deeper than its levels: an abstraction
without a redex in a term of the run is part of the first term as it was, or has no more levels than
a step may descend (`oldOrShallow_of_evaluateWithin`).

* An instantiation builds its abstractions level by level; only its image is moved as it is, and
  only where there is no binder around it (`instantiateWithin_abs`).
* A step that finds no redex has looked at every level (`depth_le_of_stepWithin`).
* So an abstraction around the redex of a step, if it has no other, is looked at by the next step
  (`accounted_of_stepWithin`).
-/

namespace NormalOrder

/-! ### Results of bounded computations -/

theorem descend_eq_ok_iff {ε α : Type} {levels : Nat} {next : Nat → Except (Refusal ε) α} {a : α} :
    descend levels next = .ok a ↔ ∃ n, levels = n + 1 ∧ next n = .ok a := by
  cases levels with
  | zero => simp [descend]
  | succ n => simp [descend]

theorem except_bind_eq_ok_iff {ε α β : Type} {x : Except ε α} {f : α → Except ε β} {b : β} :
    (x >>= f) = .ok b ↔ ∃ a, x = .ok a ∧ f a = .ok b := by
  cases x with
  | error e => simp [bind, Except.bind]
  | ok a => simp [bind, Except.bind]

namespace Term

/-! ### Subterms -/

theorem depth_le_of_mem_preorder {s t : Term} (h : s ∈ t.preorder) : s.depth ≤ t.depth := by
  induction t with
  | free name => exact Nat.le_of_eq (congrArg depth (List.mem_singleton.1 h))
  | bound index => exact Nat.le_of_eq (congrArg depth (List.mem_singleton.1 h))
  | abs hint body ih =>
    rcases List.mem_cons.1 h with rfl | h
    · exact Nat.le_refl _
    · exact Nat.le_succ_of_le (ih h)
  | app fn arg ihf iha =>
    rw [preorder, List.mem_cons, List.mem_append] at h
    rw [depth]
    rcases h with rfl | h | h
    · exact Nat.le_refl _
    · exact Nat.le_succ_of_le (Nat.le_trans (ihf h) (Nat.le_max_left _ _))
    · exact Nat.le_succ_of_le (Nat.le_trans (iha h) (Nat.le_max_right _ _))

/-! ### Replacing variables -/

/-- A traversal looks at every level of what it builds, if its replacements do. -/
theorem depth_le_of_traverseVarsWithin {ε : Type} {f : Nat → Var → Nat → Except (Refusal ε) Term}
    {depth : Nat} (hf : ∀ n v d u, depth ≤ d → f n v d = .ok u → u.depth ≤ n + 1) {t u : Term}
    {levels : Nat} (h : t.traverseVarsWithin f levels depth = .ok u) : u.depth ≤ levels := by
  induction t generalizing levels depth u with
  | free name =>
    obtain ⟨n, rfl, hvar⟩ := descend_eq_ok_iff.1 h
    exact hf n _ depth u (Nat.le_refl _) hvar
  | bound index =>
    obtain ⟨n, rfl, hvar⟩ := descend_eq_ok_iff.1 h
    exact hf n _ depth u (Nat.le_refl _) hvar
  | abs hint body ih =>
    obtain ⟨n, rfl, hbind⟩ := descend_eq_ok_iff.1 h
    obtain ⟨body', hbody, hpure⟩ := except_bind_eq_ok_iff.1 hbind
    cases hpure
    exact Nat.succ_le_succ
      (ih (fun n v d u hd => hf n v d u (Nat.le_of_succ_le hd)) hbody)
  | app fn arg ihf iha =>
    obtain ⟨n, rfl, hbind⟩ := descend_eq_ok_iff.1 h
    obtain ⟨fn', hfn, hbind⟩ := except_bind_eq_ok_iff.1 hbind
    obtain ⟨arg', harg, hpure⟩ := except_bind_eq_ok_iff.1 hbind
    cases hpure
    exact Nat.succ_le_succ (Nat.max_le.2 ⟨ihf hf hfn, iha hf harg⟩)

theorem depth_le_of_liftWithin {t u : Term} {levels amount : Nat} (hamount : amount ≠ 0)
    (h : t.liftWithin levels amount = .ok u) : u.depth ≤ levels := by
  rw [liftWithin, if_neg hamount] at h
  refine depth_le_of_traverseVarsWithin (fun n v d u _ hvar => ?_) h
  obtain rfl := Except.ok.inj hvar
  cases v with
  | free name => exact Nat.le_add_left 1 n
  | bound index =>
    simp only [liftVar]
    split <;> exact Nat.le_add_left 1 n

theorem depth_le_of_instantiateVarWithin {image u : Term} {n d : Nat} {v : Var} (hd : 1 ≤ d)
    (h : instantiateVarWithin image n v d = .ok u) : u.depth ≤ n + 1 := by
  cases v with
  | free name =>
    obtain rfl := Except.ok.inj h
    exact Nat.le_add_left 1 n
  | bound index =>
    simp only [instantiateVarWithin] at h
    split at h
    · obtain rfl := Except.ok.inj h
      exact Nat.le_add_left 1 n
    split at h
    · exact Nat.le_succ_of_le (depth_le_of_liftWithin (by omega) h)
    · obtain rfl := Except.ok.inj h
      exact Nat.le_add_left 1 n

/-- **What an instantiation builds is no deeper than its levels**, except for the image that it
moves. -/
theorem instantiateWithin_abs {image t u : Term} {levels : Nat}
    (h : instantiateWithin levels image t = .ok u) {hint : String} {body : Term}
    (hs : abs hint body ∈ u.preorder) :
    abs hint body ∈ image.preorder ∨ (abs hint body).depth ≤ levels := by
  unfold instantiateWithin at h
  induction t generalizing levels u with
  | free name =>
    obtain ⟨n, rfl, hvar⟩ := descend_eq_ok_iff.1 h
    obtain rfl := Except.ok.inj hvar
    cases List.mem_singleton.1 hs
  | bound index =>
    obtain ⟨n, rfl, hvar⟩ := descend_eq_ok_iff.1 h
    simp only [instantiateVarWithin, Nat.not_lt_zero, if_false] at hvar
    split at hvar
    · obtain rfl : image = u := Except.ok.inj hvar
      exact .inl hs
    · obtain rfl := Except.ok.inj hvar
      cases List.mem_singleton.1 hs
  | abs hint' body' ih =>
    -- Here and below, everything is looked at.
    have hdepth : u.depth ≤ levels := by
      obtain ⟨n, rfl, hbind⟩ := descend_eq_ok_iff.1 h
      obtain ⟨body'', hbody, hpure⟩ := except_bind_eq_ok_iff.1 hbind
      cases hpure
      exact Nat.succ_le_succ (depth_le_of_traverseVarsWithin
        (fun n v d u hd hvar => depth_le_of_instantiateVarWithin hd hvar) hbody)
    exact .inr (Nat.le_trans (depth_le_of_mem_preorder hs) hdepth)
  | app fn arg ihf iha =>
    obtain ⟨n, rfl, hbind⟩ := descend_eq_ok_iff.1 h
    obtain ⟨fn', hfn, hbind⟩ := except_bind_eq_ok_iff.1 hbind
    obtain ⟨arg', harg, hpure⟩ := except_bind_eq_ok_iff.1 hbind
    cases hpure
    rw [preorder, List.mem_cons, List.mem_append] at hs
    rcases hs with hs | hs | hs
    · cases hs
    · exact (ihf hfn hs).imp_right Nat.le_succ_of_le
    · exact (iha harg hs).imp_right Nat.le_succ_of_le

/-! ### Steps -/

theorem step_of_stepWithin {t : Term} {levels : Nat} {r : Option Term}
    (h : t.stepWithin levels = .ok r) : t.step = r :=
  Except.ok.inj ((t.follows_stepWithin levels).eq_ok h)

theorem stepWithin_app {fn arg : Term} (hfn : ∀ hint body, fn ≠ abs hint body) {levels : Nat}
    {r : Option Term} (h : (app fn arg).stepWithin levels = .ok r) :
    ∃ n, levels = n + 1 ∧
      ((∃ fn', fn.stepWithin n = .ok (some fn') ∧ r = some (app fn' arg)) ∨
        ∃ next, fn.stepWithin n = .ok none ∧ arg.stepWithin n = .ok next ∧
          r = next.map (app fn)) := by
  rw [stepWithin] at h
  · obtain ⟨n, rfl, hbind⟩ := descend_eq_ok_iff.1 h
    obtain ⟨next, hnext, hbind⟩ := except_bind_eq_ok_iff.1 hbind
    refine ⟨n, rfl, ?_⟩
    cases next with
    | some fn' => exact .inl ⟨fn', hnext, (Except.ok.inj hbind).symm⟩
    | none =>
      obtain ⟨next, harg, hpure⟩ := except_bind_eq_ok_iff.1 hbind
      exact .inr ⟨next, hnext, harg, (Except.ok.inj hpure).symm⟩
  · exact hfn

/-- A step that finds no redex looks at every level. -/
theorem depth_le_of_stepWithin {t : Term} {levels : Nat} {r : Option Term}
    (h : t.stepWithin levels = .ok r) (hnormal : t.step = none) : t.depth ≤ levels := by
  induction t generalizing levels r with
  | free name =>
    obtain ⟨n, rfl, -⟩ := descend_eq_ok_iff.1 h
    exact Nat.le_add_left 1 n
  | bound index =>
    obtain ⟨n, rfl, -⟩ := descend_eq_ok_iff.1 h
    exact Nat.le_add_left 1 n
  | abs hint body ih =>
    obtain ⟨n, rfl, hbind⟩ := descend_eq_ok_iff.1 h
    obtain ⟨next, hbody, -⟩ := except_bind_eq_ok_iff.1 hbind
    exact Nat.succ_le_succ (ih hbody (Option.map_eq_none_iff.1 hnormal))
  | app fn arg ihf iha =>
    by_cases hfn : ∃ hint body, fn = abs hint body
    · obtain ⟨hint, body, rfl⟩ := hfn
      cases hnormal
    · have hne : ∀ hint body, fn ≠ abs hint body := fun hint body h => hfn ⟨hint, body, h⟩
      obtain ⟨n, rfl, ⟨fn', hfn', -⟩ | ⟨next, hfn', harg, -⟩⟩ := stepWithin_app hne h
      · rw [step_app hne, step_of_stepWithin hfn'] at hnormal
        cases hnormal
      · rw [step_app hne, step_of_stepWithin hfn'] at hnormal
        have hargnormal : arg.step = none := Option.map_eq_none_iff.1 hnormal
        exact Nat.succ_le_succ
          (Nat.max_le.2 ⟨ihf hfn' (step_of_stepWithin hfn'), iha harg hargnormal⟩)

/-- A step in the function of an application leaves an abstraction only if it contracts the
function itself. -/
theorem step_eq_abs {t : Term} {hint : String} {body : Term} (h : t.step = some (abs hint body))
    (ht : ∀ hint body, t ≠ abs hint body) : ∃ hint' body' arg, t = app (abs hint' body') arg := by
  cases t with
  | free name => cases h
  | bound index => cases h
  | abs hint' body' => exact absurd rfl (ht hint' body')
  | app fn arg =>
    by_cases hfn : ∃ hint body, fn = abs hint body
    · obtain ⟨hint', body', rfl⟩ := hfn
      exact ⟨hint', body', arg, rfl⟩
    · rw [step_app fun hint body h => hfn ⟨hint, body, h⟩] at h
      cases hs : fn.step with
      | some fn' =>
        rw [hs] at h
        cases h
      | none =>
        rw [hs] at h
        obtain ⟨arg', -, heq⟩ := Option.map_eq_some_iff.1 h
        cases heq

/-- A contraction leaves abstractions of its argument, and builds none that are deeper than its
levels. -/
theorem stepWithin_redex_abs {hint' : String} {body' arg u : Term} {levels : Nat}
    (h : (app (abs hint' body') arg).stepWithin levels = .ok (some u)) {hint : String}
    {body : Term} (hs : abs hint body ∈ u.preorder) :
    abs hint body ∈ (app (abs hint' body') arg).preorder ∨ (abs hint body).depth ≤ levels := by
  rw [stepWithin] at h
  obtain ⟨n, rfl, hbind⟩ := descend_eq_ok_iff.1 h
  obtain ⟨v, hv, hpure⟩ := except_bind_eq_ok_iff.1 hbind
  obtain rfl : v = u := Option.some.inj (Except.ok.inj hpure)
  refine (instantiateWithin_abs hv hs).imp (fun hmem => ?_) Nat.le_succ_of_le
  exact List.mem_cons_of_mem _ (List.mem_append_right _ hmem)

/-- What can be said about a subterm `s` of `u` after a step from `t`: it was there before, or it is
no deeper than the levels of the step, or no deeper than those of any next step. -/
def Accounted (levels : Nat) (t u s : Term) : Prop :=
  s ∈ t.preorder ∨ s.depth ≤ levels ∨ ∀ next r, u.stepWithin next = .ok r → s.depth ≤ next

/-- The account of a part holds for the whole, if a step from the whole comes by the part. -/
theorem Accounted.whole {levels : Nat} {t u t' u' s : Term} (h : Accounted levels t u s)
    (hpart : t.preorder ⊆ t'.preorder) (hlook : ∀ next r, u'.stepWithin next = .ok r →
      ∃ m r', next = m + 1 ∧ u.stepWithin m = .ok r') : Accounted (levels + 1) t' u' s := by
  rcases h with hold | hle | hnext
  · exact .inl (hpart hold)
  · exact .inr (.inl (Nat.le_succ_of_le hle))
  · refine .inr (.inr fun next r hstep => ?_)
    obtain ⟨m, r', rfl, hpartStep⟩ := hlook next r hstep
    exact Nat.le_succ_of_le (hnext m r' hpartStep)

theorem preorder_subset_abs (hint : String) (body : Term) :
    body.preorder ⊆ (abs hint body).preorder := List.subset_cons_self _ _

theorem preorder_subset_fn (fn arg : Term) : fn.preorder ⊆ (app fn arg).preorder :=
  fun _ h => List.mem_cons_of_mem _ (List.mem_append_left _ h)

theorem preorder_subset_arg (fn arg : Term) : arg.preorder ⊆ (app fn arg).preorder :=
  fun _ h => List.mem_cons_of_mem _ (List.mem_append_right _ h)

theorem mem_preorder_app {fn arg body : Term} {hint : String}
    (h : abs hint body ∈ (app fn arg).preorder) :
    abs hint body ∈ fn.preorder ∨ abs hint body ∈ arg.preorder := by
  rw [preorder, List.mem_cons, List.mem_append] at h
  rcases h with h | h
  · cases h
  · exact h

/-- **An abstraction without a redex is accounted for by a step.**  If the contraction took place
within it, everything to the left has no redex, so a next step comes by and looks at all of it. -/
theorem accounted_of_stepWithin {t u : Term} {levels : Nat}
    (h : t.stepWithin levels = .ok (some u)) {hint : String} {body : Term}
    (hs : abs hint body ∈ u.preorder) (hnormal : (abs hint body).step = none) :
    Accounted levels t u (abs hint body) := by
  induction t generalizing levels u with
  | free name =>
    obtain ⟨n, rfl, hnone⟩ := descend_eq_ok_iff.1 h
    cases hnone
  | bound index =>
    obtain ⟨n, rfl, hnone⟩ := descend_eq_ok_iff.1 h
    cases hnone
  | abs hint' body' ih =>
    obtain ⟨n, rfl, hbind⟩ := descend_eq_ok_iff.1 h
    obtain ⟨found, hfound, hpure⟩ := except_bind_eq_ok_iff.1 hbind
    obtain ⟨v, rfl, rfl⟩ := Option.map_eq_some_iff.1 (Except.ok.inj hpure)
    rcases List.mem_cons.1 hs with heq | hmem
    · rw [← heq]
      exact .inr (.inr fun next r hnext => depth_le_of_stepWithin hnext hnormal)
    · refine (ih hfound hmem).whole (preorder_subset_abs hint' body') fun next r hnext => ?_
      obtain ⟨m, rfl, hbind⟩ := descend_eq_ok_iff.1 hnext
      obtain ⟨found, hbody, -⟩ := except_bind_eq_ok_iff.1 hbind
      exact ⟨m, found, rfl, hbody⟩
  | app fn arg ihf iha =>
    by_cases hfn : ∃ hint body, fn = abs hint body
    · obtain ⟨hint', body', rfl⟩ := hfn
      exact (stepWithin_redex_abs h hs).imp_right .inl
    have hne : ∀ hint body, fn ≠ abs hint body := fun hint body h => hfn ⟨hint, body, h⟩
    obtain ⟨n, rfl, ⟨fn', hfn', heq⟩ | ⟨found, hfn', harg, heq⟩⟩ := stepWithin_app hne h
    · obtain rfl := Option.some.inj heq
      rcases mem_preorder_app hs with hs | hs
      · by_cases habs : ∃ hint body, fn' = abs hint body
        · -- The next step may contract the new function at once, but then it was built just now.
          obtain ⟨hint', body', rfl⟩ := habs
          obtain ⟨hint'', body'', arg'', rfl⟩ := step_eq_abs (step_of_stepWithin hfn') hne
          exact (stepWithin_redex_abs hfn' hs).imp (fun hold => preorder_subset_fn _ _ hold)
            fun hle => .inl (Nat.le_succ_of_le hle)
        · refine (ihf hfn' hs).whole (preorder_subset_fn fn arg) fun next r hnext => ?_
          have hne' : ∀ hint body, fn' ≠ abs hint body := fun hint body h => habs ⟨hint, body, h⟩
          obtain ⟨m, rfl, ⟨v, hv, -⟩ | ⟨v, hv, -, -⟩⟩ := stepWithin_app hne' hnext
          · exact ⟨m, _, rfl, hv⟩
          · exact ⟨m, _, rfl, hv⟩
      · exact .inl (preorder_subset_arg fn arg hs)
    · obtain ⟨arg', rfl, rfl⟩ := Option.map_eq_some_iff.1 heq.symm
      rcases mem_preorder_app hs with hs | hs
      · exact .inl (preorder_subset_fn fn arg hs)
      · refine (iha harg hs).whole (preorder_subset_arg fn arg) fun next r hnext => ?_
        obtain ⟨m, rfl, ⟨v, hv, -⟩ | ⟨v, -, hv, -⟩⟩ := stepWithin_app hne hnext
        · have hfound := step_of_stepWithin hv
          rw [step_of_stepWithin hfn'] at hfound
          cases hfound
        · exact ⟨m, v, rfl, hv⟩

end Term

open Term

/-! ### Runs -/

theorem stepWithin_of_continueWithin {levels limit : Nat} {first t : Term} {later : List Term}
    {trace : Trace} (h : continueWithin levels first later limit t = .ok trace) :
    ∀ u ∈ (evaluate limit t).steps, ∃ r, u.stepWithin levels = .ok r := by
  induction limit generalizing t later with
  | zero =>
    rw [continueWithin] at h
    cases hs : t.stepWithin levels with
    | error refusal =>
      rw [hs] at h
      cases h
    | ok r => exact List.forall_mem_singleton.2 ⟨r, hs⟩
  | succ limit ih =>
    rw [continueWithin] at h
    cases hs : t.stepWithin levels with
    | error refusal =>
      rw [hs] at h
      cases h
    | ok r =>
      rw [hs] at h
      cases r with
      | none =>
        rw [evaluate_of_normal (step_of_stepWithin hs)]
        exact List.forall_mem_singleton.2 ⟨none, hs⟩
      | some u =>
        rw [evaluate_of_step (step_of_stepWithin hs), Trace.steps_after]
        exact List.forall_mem_cons.2 ⟨⟨_, hs⟩, ih h⟩

/-- An abstraction without a redex in some term is in `t` already or has at most so many levels. -/
def OldOrShallow (t : Term) (levels : Nat) (u : Term) : Prop :=
  ∀ hint body, Term.abs hint body ∈ u.preorder → (Term.abs hint body).step = none →
    Term.abs hint body ∈ t.preorder ∨ (Term.abs hint body).depth ≤ levels

theorem OldOrShallow.step {first t u : Term} {levels : Nat} {r : Option Term}
    (h : OldOrShallow first levels t) (hstep : t.stepWithin levels = .ok (some u))
    (hnext : u.stepWithin levels = .ok r) : OldOrShallow first levels u := by
  intro hint body hs hnormal
  rcases accounted_of_stepWithin hstep hs hnormal with hold | hle | hlook
  · exact h hint body hold hnormal
  · exact .inr hle
  · exact .inr (hlook levels r hnext)

theorem OldOrShallow.evaluate {first t : Term} {levels limit : Nat}
    (h : OldOrShallow first levels t)
    (hsteps : ∀ u ∈ (evaluate limit t).steps, ∃ r, u.stepWithin levels = .ok r) :
    ∀ u ∈ (evaluate limit t).steps, OldOrShallow first levels u := by
  induction limit generalizing t with
  | zero => exact List.forall_mem_singleton.2 h
  | succ limit ih =>
    cases hs : t.step with
    | none =>
      rw [evaluate_of_normal hs]
      exact List.forall_mem_singleton.2 h
    | some u =>
      rw [evaluate_of_step hs, Trace.steps_after] at hsteps ⊢
      obtain ⟨⟨r, hr⟩, hlater⟩ := List.forall_mem_cons.1 hsteps
      obtain rfl : some u = r := hs.symm.trans (step_of_stepWithin hr)
      have hmem : u ∈ (NormalOrder.evaluate limit u).steps :=
        List.mem_cons.2 (.inl (evaluate_first limit u).symm)
      obtain ⟨r', hr'⟩ := hlater u hmem
      exact List.forall_mem_cons.2 ⟨h, ih (h.step hr hr') hlater⟩

/-- **The abstractions without a redex in a run are parts of the first term, or no deeper than the
levels of its steps.** -/
theorem oldOrShallow_of_evaluateWithin {levels limit : Nat} {t : Term} {trace : Trace}
    (h : evaluateWithin levels limit t = .ok trace) :
    ∀ u ∈ (evaluate limit t).steps, OldOrShallow t levels u := by
  have hfirst : OldOrShallow t levels t := fun hint body hs _ => .inl hs
  exact hfirst.evaluate (stepWithin_of_continueWithin h)

end NormalOrder
