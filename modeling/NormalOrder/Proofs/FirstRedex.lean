import NormalOrder.Proofs.Standardization
import NormalOrder.Proofs.Walk

/-!
# A step contracts the first redex

A `Term.Context` is a term with a hole.  It stands for an occurrence of a subterm: every position
among `Term.subterms` is the hole of a context (`Context.exists_fill_of_getElem?`), and whatever
stands in the hole is the subterm at that position (`Context.subterms_fill_offset`).

So "leftmost-outermost" can be said by positions.  If no subterm before the hole is a redex, the
step of the filled context contracts what is in the hole and leaves the context as it is
(`Context.step_fill`).  For every term, this is the redex that comes first among its subterms:
`step_contracts_first_redex`.
-/

namespace NormalOrder

namespace Term

/-- The term is the application of an abstraction. -/
def IsRedex (t : Term) : Prop := ∃ hint body arg, t = app (abs hint body) arg

theorem isRedex_app_iff {fn arg : Term} :
    (app fn arg).IsRedex ↔ ∃ hint body, fn = abs hint body := by
  constructor
  · rintro ⟨hint, body, arg', heq⟩
    exact ⟨hint, body, (Term.app.inj heq).1⟩
  · rintro ⟨hint, body, rfl⟩
    exact ⟨hint, body, arg, rfl⟩

theorem hasRedex_iff_exists_mem_preorder (t : Term) :
    t.HasRedex ↔ ∃ s ∈ t.preorder, s.IsRedex := by
  induction t with
  | free name => simp [HasRedex, preorder, IsRedex]
  | bound index => simp [HasRedex, preorder, IsRedex]
  | abs hint body ih => simp [HasRedex, preorder, ih, IsRedex]
  | app fn arg ihf iha =>
    simp only [HasRedex, preorder, ihf, iha, ← @isRedex_app_iff fn arg, List.mem_cons,
      List.mem_append, or_and_right, exists_or, exists_eq_left]

theorem preorder_eq_cons (t : Term) : ∃ later, t.preorder = t :: later := by
  cases t with
  | _ => exact ⟨_, rfl⟩

/-! ### Contexts -/

/-- A term with a hole in it. -/
inductive Context where
  /-- The hole itself. -/
  | hole
  /-- The hole is in the body of an abstraction. -/
  | inBody (hint : String) (inner : Context)
  /-- The hole is in the function of an application. -/
  | inFn (inner : Context) (arg : Term)
  /-- The hole is in the argument of an application. -/
  | inArg (fn : Term) (inner : Context)
  deriving DecidableEq, Repr

namespace Context

/-- The context with `s` in its hole. -/
def fill (c : Context) (s : Term) : Term :=
  match c with
  | hole => s
  | inBody hint inner => abs hint (inner.fill s)
  | inFn inner arg => app (inner.fill s) arg
  | inArg fn inner => app fn (inner.fill s)

/-- The subterms that are visited before the hole, when `s` is in it. -/
def before (c : Context) (s : Term) : List Term :=
  match c with
  | hole => []
  | inBody hint inner => abs hint (inner.fill s) :: inner.before s
  | inFn inner arg => app (inner.fill s) arg :: inner.before s
  | inArg fn inner => app fn (inner.fill s) :: (fn.preorder ++ inner.before s)

/-- The subterms that are visited after all that is in the hole. -/
def after : Context → List Term
  | hole => []
  | inBody _ inner => inner.after
  | inFn inner arg => inner.after ++ arg.preorder
  | inArg _ inner => inner.after

/-- The number of subterms that are visited before the hole, whatever is in it. -/
def offset : Context → Nat
  | hole => 0
  | inBody _ inner => inner.offset + 1
  | inFn inner _ => inner.offset + 1
  | inArg fn inner => fn.preorder.length + inner.offset + 1

theorem preorder_fill (c : Context) (s : Term) :
    (c.fill s).preorder = c.before s ++ (s.preorder ++ c.after) := by
  induction c with
  | hole => simp [fill, before, after]
  | inBody hint inner ih => simp [fill, before, after, preorder, ih]
  | inFn inner arg ih => simp [fill, before, after, preorder, ih]
  | inArg fn inner ih => simp [fill, before, after, preorder, ih]

theorem length_before (c : Context) (s : Term) : (c.before s).length = c.offset := by
  induction c with
  | hole => rfl
  | inBody hint inner ih => simp [before, offset, ih]
  | inFn inner arg ih => simp [before, offset, ih]
  | inArg fn inner ih => simp [before, offset, ih]

/-- **What stands in the hole is the subterm at the position of the hole.** -/
theorem subterms_fill_offset (c : Context) (s : Term) :
    (c.fill s).subterms[c.offset]? = some s := by
  obtain ⟨later, hs⟩ := preorder_eq_cons s
  rw [subterms_eq_preorder, preorder_fill, ← c.length_before s,
    List.getElem?_append_right (Nat.le_refl _), Nat.sub_self, hs]
  rfl

theorem take_subterms_fill (c : Context) (s : Term) :
    (c.fill s).subterms.take c.offset = c.before s := by
  rw [subterms_eq_preorder, preorder_fill, ← c.length_before s, List.take_left]

/-- **Every position among the subterms is the hole of a context.** -/
theorem exists_fill_of_getElem? {t s : Term} {k : Nat} (h : t.preorder[k]? = some s) :
    ∃ c : Context, c.offset = k ∧ t = c.fill s := by
  cases k with
  | zero =>
    obtain ⟨later, ht⟩ := preorder_eq_cons t
    rw [ht, List.getElem?_cons_zero] at h
    exact ⟨hole, rfl, Option.some.inj h⟩
  | succ k =>
    cases t with
    | free name => cases h
    | bound index => cases h
    | abs hint body =>
      rw [preorder, List.getElem?_cons_succ] at h
      obtain ⟨c, hoffset, rfl⟩ := exists_fill_of_getElem? h
      exact ⟨inBody hint c, congrArg Nat.succ hoffset, rfl⟩
    | app fn arg =>
      rw [preorder, List.getElem?_cons_succ] at h
      by_cases hk : k < fn.preorder.length
      · rw [List.getElem?_append_left hk] at h
        obtain ⟨c, hoffset, rfl⟩ := exists_fill_of_getElem? h
        exact ⟨inFn c arg, congrArg Nat.succ hoffset, rfl⟩
      · rw [List.getElem?_append_right (Nat.le_of_not_lt hk)] at h
        obtain ⟨c, hoffset, rfl⟩ := exists_fill_of_getElem? h
        refine ⟨inArg fn c, ?_, rfl⟩
        rw [offset, hoffset]
        omega

/-- **A step contracts what is in the hole, if no redex comes before it.** -/
theorem step_fill (c : Context) {hint : String} {body arg : Term}
    (h : ∀ s ∈ c.before (app (abs hint body) arg), ¬s.IsRedex) :
    (c.fill (app (abs hint body) arg)).step = some (c.fill (instantiate arg body)) := by
  induction c with
  | hole => rfl
  | inBody hint' inner ih =>
    obtain ⟨-, hbefore⟩ := List.forall_mem_cons.1 h
    exact step_abs_of_step (ih hbefore)
  | inFn inner arg' ih =>
    obtain ⟨htop, hbefore⟩ := List.forall_mem_cons.1 h
    have hne : ∀ hint' body', inner.fill (app (abs hint body) arg) ≠ abs hint' body' :=
      fun hint' body' heq => htop (isRedex_app_iff.2 ⟨hint', body', heq⟩)
    rw [fill, step_app hne, ih hbefore, fill]
  | inArg fn inner ih =>
    obtain ⟨htop, hothers⟩ := List.forall_mem_cons.1 h
    obtain ⟨hfn, hbefore⟩ := List.forall_mem_append.1 hothers
    have hne : ∀ hint' body', fn ≠ abs hint' body' :=
      fun hint' body' heq => htop (isRedex_app_iff.2 ⟨hint', body', heq⟩)
    -- All of the function comes before the hole, so it is a normal form.
    have hnormal : fn.step = none := by
      rw [step_eq_none_iff, hasRedex_iff_exists_mem_preorder]
      rintro ⟨s, hs, hredex⟩
      exact hfn s hs hredex
    rw [fill, step_app hne, hnormal, ih hbefore, fill, Option.map_some]

end Context

/-! ### The first redex -/

theorem step_eq_none_of_forall {t : Term} (h : ∀ s ∈ t.subterms, ¬s.IsRedex) : t.step = none := by
  rw [step_eq_none_iff, hasRedex_iff_exists_mem_preorder, ← subterms_eq_preorder]
  rintro ⟨s, hs, hredex⟩
  exact h s hs hredex

/-- If there is a redex among the subterms, there is a first one. -/
theorem exists_first_redex {t : Term} (h : ∃ s ∈ t.subterms, s.IsRedex) :
    ∃ before later hint body arg, t.subterms = before ++ app (abs hint body) arg :: later ∧
      ∀ s ∈ before, ¬s.IsRedex := by
  classical
  obtain ⟨s, hs, hredex⟩ := h
  have hsome : (t.subterms.find? fun s => decide s.IsRedex).isSome :=
    List.find?_isSome.2 ⟨s, hs, decide_eq_true hredex⟩
  obtain ⟨first, hfirst⟩ := Option.isSome_iff_exists.1 hsome
  obtain ⟨hfound, before, later, hsubterms, hbefore⟩ := List.find?_eq_some_iff_append.1 hfirst
  obtain ⟨hint, body, arg, rfl⟩ := of_decide_eq_true hfound
  exact ⟨before, later, hint, body, arg, hsubterms, by simpa using hbefore⟩

/-- **A step contracts the leftmost-outermost redex and nothing else.**  If no subterm is a redex,
there is no step.  Otherwise there is a first redex among the subterms, and its position is the hole
of a context: whatever fills the hole is the subterm there.  The term is this context filled with
the redex, and the step leads to the same context filled with what the redex is contracted to. -/
theorem step_contracts_first_redex (t : Term) :
    ((∀ s ∈ t.subterms, ¬s.IsRedex) → t.step = none ∧ t.reduce = t) ∧
    ((∃ s ∈ t.subterms, s.IsRedex) →
      ∃ (before later : List Term) (c : Context) (hint : String) (body arg : Term),
        t.subterms = before ++ app (abs hint body) arg :: later ∧
        (∀ s ∈ before, ¬s.IsRedex) ∧
        (∀ s, (c.fill s).subterms[before.length]? = some s) ∧
        t = c.fill (app (abs hint body) arg) ∧
        t.step = some (c.fill (instantiate arg body)) ∧
        t.reduce = c.fill (instantiate arg body)) := by
  refine ⟨fun h => ?_, fun h => ?_⟩
  · have hnone := step_eq_none_of_forall h
    exact ⟨hnone, by rw [reduce, hnone, Option.getD_none]⟩
  · obtain ⟨before, later, hint, body, arg, hsubterms, hbefore⟩ := exists_first_redex h
    have hredex : t.preorder[before.length]? = some (app (abs hint body) arg) := by
      rw [← subterms_eq_preorder, hsubterms]
      simp
    obtain ⟨c, hoffset, rfl⟩ := Context.exists_fill_of_getElem? hredex
    have hvisited : c.before (app (abs hint body) arg) = before := by
      rw [← c.take_subterms_fill, hoffset, hsubterms, List.take_left]
    have hstep := c.step_fill (hvisited ▸ hbefore)
    refine ⟨before, later, c, hint, body, arg, hsubterms, hbefore, fun s => ?_, rfl, hstep, ?_⟩
    · rw [← hoffset]
      exact c.subterms_fill_offset s
    · rw [reduce, hstep, Option.getD_some]

end Term

end NormalOrder
