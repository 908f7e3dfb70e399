import Mathlib.Data.Finset.Lattice.Lemmas
import NormalOrder.Proofs.FirstRedex

/-!
# Walks and occurrences

An occurrence of `s` in `t` is a context that `s` fills to `t`.  Two occurrences are told apart by
their offsets, even if the same term stands there (`Context.eq_of_offset_eq`), so a walk that visits
one subterm at each offset visits every occurrence once.

A variable that occurs below `k` abstractions of a term has `k` binders there besides those around
the term.  `WellScoped` goes down the term with their number; `wellScoped_iff_forall_fill` says the
same of one occurrence at a time.  With the recursive set of free names, `freeNameSet`, all walks
over a worklist have a reading that does without it: `walks_agree`.
-/

namespace NormalOrder

namespace Term

/-! ### Occurrences -/

namespace Context

/-- The number of abstractions around the hole. -/
def binders : Context → Nat
  | hole => 0
  | inBody _ inner => inner.binders + 1
  | inFn inner _ => inner.binders
  | inArg _ inner => inner.binders

theorem offset_lt_length (c : Context) (s : Term) : c.offset < (c.fill s).preorder.length := by
  obtain ⟨later, hs⟩ := preorder_eq_cons s
  rw [preorder_fill, List.length_append, length_before, hs, List.length_append, List.length_cons]
  omega

/-- **An occurrence is known by its offset.** -/
theorem eq_of_offset_eq {c c' : Context} {s s' : Term} (hfill : c.fill s = c'.fill s')
    (hoffset : c.offset = c'.offset) : c = c' := by
  induction c generalizing c' with
  | hole =>
    cases c' with
    | hole => rfl
    | _ => cases hoffset
  | inBody hint inner ih =>
    cases c' with
    | hole => cases hoffset
    | inBody hint' inner' =>
      obtain ⟨rfl, hbody⟩ := Term.abs.inj hfill
      rw [ih hbody (Nat.succ.inj hoffset)]
    | inFn _ _ => cases hfill
    | inArg _ _ => cases hfill
  | inFn inner arg ih =>
    cases c' with
    | hole => cases hoffset
    | inBody _ _ => cases hfill
    | inFn inner' arg' =>
      obtain ⟨hfn, rfl⟩ := Term.app.inj hfill
      rw [ih hfn (Nat.succ.inj hoffset)]
    | inArg fn' inner' =>
      -- All of the function is visited before the argument.
      have hlt := inner.offset_lt_length s
      rw [(Term.app.inj hfill).1] at hlt
      simp only [offset] at hoffset
      omega
  | inArg fn inner ih =>
    cases c' with
    | hole => cases hoffset
    | inBody _ _ => cases hfill
    | inFn inner' arg' =>
      have hlt := inner'.offset_lt_length s'
      rw [← (Term.app.inj hfill).1] at hlt
      simp only [offset] at hoffset
      omega
    | inArg fn' inner' =>
      obtain ⟨rfl, harg⟩ := Term.app.inj hfill
      rw [ih harg (by simpa [offset] using hoffset)]

end Context

/-- **Each occurrence is visited once**, at its offset. -/
theorem getElem?_subterms_iff {t s : Term} {k : Nat} :
    t.subterms[k]? = some s ↔ ∃! c : Context, c.offset = k ∧ t = c.fill s := by
  constructor
  · intro h
    rw [subterms_eq_preorder] at h
    obtain ⟨c, hoffset, hfill⟩ := Context.exists_fill_of_getElem? h
    refine ⟨c, ⟨hoffset, hfill⟩, ?_⟩
    rintro c' ⟨hoffset', hfill'⟩
    exact Context.eq_of_offset_eq (hfill'.symm.trans hfill) (hoffset'.trans hoffset.symm)
  · rintro ⟨c, ⟨rfl, rfl⟩, -⟩
    exact c.subterms_fill_offset s

/-! ### Free names -/

/-- The set of the names of the free variables. -/
def freeNameSet : Term → Finset String
  | free name => {name}
  | bound _ => ∅
  | abs _ body => body.freeNameSet
  | app fn arg => fn.freeNameSet ∪ arg.freeNameSet

theorem toFinset_freeNames (t : Term) : t.freeNames.toFinset = t.freeNameSet := by
  induction t with
  | free name => rfl
  | bound index => rfl
  | abs hint body ih => exact ih
  | app fn arg ihf iha => rw [freeNames, List.toFinset_append, ihf, iha, freeNameSet]

theorem toFinset_freeVars (t : Term) : t.freeVars.toFinset = t.freeNameSet := by
  rw [← toFinset_freeNames]
  ext name
  rw [List.mem_toFinset, List.mem_toFinset, mem_freeVars]

theorem nodup_eraseDups (names : List String) : names.eraseDups.Nodup := by
  match names with
  | [] => exact List.nodup_nil
  | name :: names =>
    rw [List.eraseDups_cons, List.nodup_cons, List.mem_eraseDups]
    exact ⟨by simp, nodup_eraseDups _⟩
termination_by names.length
decreasing_by exact Nat.lt_succ_of_le (List.length_filter_le _ _)

/-! ### Scopes -/

/-- What stands in a hole has the binders around the hole too. -/
theorem WellScoped.of_fill {c : Context} {s : Term} {depth : Int}
    (h : (c.fill s).WellScoped depth) : s.WellScoped (depth + c.binders) := by
  induction c generalizing depth with
  | hole => rwa [Context.binders, Int.natCast_zero, Int.add_zero]
  | inBody hint inner ih =>
    have hbody : (inner.fill s).WellScoped (depth + 1) := h
    rw [Context.binders, Int.natCast_succ, ← Int.add_assoc, Int.add_right_comm]
    exact ih hbody
  | inFn inner arg ih => exact ih h.1
  | inArg fn inner ih => exact ih h.2

/-- **A term is well scoped if every bound variable has its binder where it occurs.** -/
theorem wellScoped_iff_forall_fill {t : Term} {depth : Int} :
    t.WellScoped depth ↔ ∀ (c : Context) (index : Nat), t = c.fill (bound index) →
      (index : Int) < depth + c.binders := by
  constructor
  · rintro h c index rfl
    exact h.of_fill
  · intro h
    induction t generalizing depth with
    | free name => trivial
    | bound index => simpa [WellScoped, Context.binders] using h .hole index rfl
    | abs hint body ih =>
      refine ih fun c index hfill => ?_
      have hlt := h (.inBody hint c) index (congrArg (abs hint) hfill)
      rwa [Context.binders, Int.natCast_succ, ← Int.add_assoc, Int.add_right_comm] at hlt
    | app fn arg ihf iha =>
      refine ⟨ihf fun c index hfill => ?_, iha fun c index hfill => ?_⟩
      · exact h (.inFn c arg) index (congrArg (app · arg) hfill)
      · exact h (.inArg fn c) index (congrArg (app fn) hfill)

/-- **The walks over a worklist agree with the recursive readings.**  The subterms are visited in
pre-order, and each visit is that of one occurrence; the free variables are the set of free names,
each listed once; and a term is well-formed below `depth` binders, which may be any integer, exactly
if each bound variable that occurs in it below `k` abstractions has an index less than
`depth + k`. -/
theorem walks_agree (t : Term) :
    t.subterms = t.preorder ∧
    (∀ (k : Nat) (s : Term),
      t.subterms[k]? = some s ↔ ∃! c : Context, c.offset = k ∧ t = c.fill s) ∧
    t.freeVars.toFinset = t.freeNameSet ∧ t.freeVars.Nodup ∧
    ∀ depth : Int, t.isWellFormed depth = true ↔
      ∀ (c : Context) (index : Nat), t = c.fill (bound index) →
        (index : Int) < depth + c.binders :=
  ⟨subterms_eq_preorder t, fun _ _ => getElem?_subterms_iff, toFinset_freeVars t,
    nodup_eraseDups _, fun depth => (t.isWellFormed_iff depth).trans wellScoped_iff_forall_fill⟩

end Term

end NormalOrder
