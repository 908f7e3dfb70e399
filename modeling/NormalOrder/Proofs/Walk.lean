import NormalOrder.Term.Subterms

/-!
# Walks are what they read

A walk over a worklist visits the terms on the stack one after the other, each with all of its
subterms before the next.  So `Term.subterms` is `Term.preorder` (`subterms_eq_preorder`), the
names in `Term.freeVars` are those in `Term.freeNames` (`mem_freeVars`), and `Term.isWellFormed`
decides `Term.WellScoped` (`isWellFormed_iff`).
-/

namespace NormalOrder

namespace Term

/-- A walk adds the terms of the stack, in pre-order, to what has been seen. -/
theorem visit_eq (seen stack : List Term) :
    visit seen stack = seen.reverse ++ stack.flatMap preorder := by
  fun_induction visit seen stack with
  | case1 seen => simp
  | case2 seen name stack ih => simp [ih, preorder]
  | case3 seen index stack ih => simp [ih, preorder]
  | case4 seen hint body stack ih => simp [ih, preorder]
  | case5 seen fn arg stack ih => simp [ih, preorder]

theorem subterms_eq_preorder (t : Term) : t.subterms = t.preorder := by
  rw [subterms, visit_eq]
  simp

theorem filterMap_preorder (t : Term) : t.preorder.filterMap freeName? = t.freeNames := by
  induction t with
  | free name => rfl
  | bound index => rfl
  | abs hint body ih =>
    rw [preorder, List.filterMap_cons_none rfl]
    exact ih
  | app fn arg ihf iha =>
    rw [preorder, List.filterMap_cons_none rfl, List.filterMap_append, ihf, iha]
    rfl

@[simp] theorem mem_freeVars {t : Term} {name : String} :
    name ∈ t.freeVars ↔ name ∈ t.freeNames := by
  rw [freeVars, List.mem_eraseDups, subterms_eq_preorder, filterMap_preorder]

theorem checkScopes_iff (stack : List (Term × Int)) :
    checkScopes stack = true ↔ ∀ entry ∈ stack, entry.1.WellScoped entry.2 := by
  fun_induction checkScopes stack with
  | case1 => simp
  | case2 name depth stack ih => simp [ih, WellScoped]
  | case3 index depth stack ih => simp [ih, WellScoped]
  | case4 hint body depth stack ih => simp [ih, WellScoped]
  | case5 fn arg depth stack ih =>
    -- The walk takes the argument first; the order does not matter to the answer.
    simp only [ih, List.forall_mem_cons, WellScoped]
    rw [and_assoc, and_left_comm]

theorem isWellFormed_iff (t : Term) (depth : Int) :
    t.isWellFormed depth = true ↔ t.WellScoped depth := by
  rw [isWellFormed, checkScopes_iff]
  simp

end Term

end NormalOrder
