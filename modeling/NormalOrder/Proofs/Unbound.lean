import NormalOrder.Bounded.Printer
import NormalOrder.Proofs.NumeralSize
import NormalOrder.Proofs.Walk

/-!
# Printing fails at the first unbound variable

A bound variable has a binder if there are more abstractions around it than its index says.
`Term.enclosed` lists the subterms in pre-order, each with the number of abstractions around it, and
`Term.firstUnbound?` is the index of the first variable in this list that has no binder.  There is
no such variable exactly when the term is well scoped (`Term.firstUnbound?_eq_none_iff`).

The printer has one name for each abstraction around the term that it prints, in a header or not,
so it lacks a name for exactly the variables without a binder.  What it does not look into, because
it is written as a number, is a numeral and has no such variable (`Term.wellScoped_of_numeral?`).
Hence a term that is well scoped has a text (`Printer.exists_render`), and any other one has not,
because of its first unbound variable (`Printer.render_of_firstUnbound?`).  Together:
`pretty_fails_at_first_unbound`.
-/

namespace NormalOrder

namespace Term

/-! ### Subterms and the abstractions around them -/

/-- The subterms of a term in pre-order, each with `depth` plus the number of abstractions around
it. -/
def enclosed (depth : Nat) : Term → List (Term × Nat)
  | free name => [(free name, depth)]
  | bound index => [(bound index, depth)]
  | abs hint body => (abs hint body, depth) :: body.enclosed (depth + 1)
  | app fn arg => (app fn arg, depth) :: (fn.enclosed depth ++ arg.enclosed depth)

theorem map_fst_enclosed (depth : Nat) (t : Term) :
    (t.enclosed depth).map Prod.fst = t.preorder := by
  induction t generalizing depth with
  | free name => rfl
  | bound index => rfl
  | abs hint body ih => rw [enclosed, List.map_cons, ih, preorder]
  | app fn arg ihf iha => rw [enclosed, List.map_cons, List.map_append, ihf, iha, preorder]

/-- The index of a bound variable that has no binder among the abstractions around it. -/
def unboundIndex? : Term × Nat → Option Nat
  | (bound index, depth) => if index < depth then none else some index
  | _ => none

/-- The index of the first variable without a binder, below `depth` further abstractions. -/
def firstUnbound? (depth : Nat) (t : Term) : Option Nat :=
  (t.enclosed depth).findSome? unboundIndex?

theorem firstUnbound?_bound (depth index : Nat) :
    (bound index).firstUnbound? depth = if index < depth then none else some index := by
  unfold firstUnbound?
  by_cases h : index < depth
  · simp [enclosed, unboundIndex?, h]
  · simp [enclosed, unboundIndex?, h]

theorem firstUnbound?_abs (depth : Nat) (hint : String) (body : Term) :
    (abs hint body).firstUnbound? depth = body.firstUnbound? (depth + 1) := rfl

theorem firstUnbound?_app (depth : Nat) (fn arg : Term) :
    (app fn arg).firstUnbound? depth = (fn.firstUnbound? depth).or (arg.firstUnbound? depth) :=
  List.findSome?_append

/-- **No variable is unbound exactly when the term is well scoped.** -/
theorem firstUnbound?_eq_none_iff {depth : Nat} {t : Term} :
    t.firstUnbound? depth = none ↔ t.WellScoped depth := by
  induction t generalizing depth with
  | free name => exact iff_of_true rfl trivial
  | bound index =>
    rw [firstUnbound?_bound, WellScoped, Int.ofNat_lt]
    by_cases h : index < depth
    · simp [h]
    · simp [h]
  | abs hint body ih => exact ih
  | app fn arg ihf iha => rw [firstUnbound?_app, Option.or_eq_none_iff, ihf, iha, WellScoped]

/-- The first unbound variable has no binder, and all variables before it have one. -/
theorem exists_append_of_firstUnbound? {depth index : Nat} {t : Term}
    (h : t.firstUnbound? depth = some index) :
    ∃ before later around, t.enclosed depth = before ++ (bound index, around) :: later ∧
      around ≤ index ∧ ∀ i d, (bound i, d) ∈ before → i < d := by
  obtain ⟨before, ⟨s, around⟩, later, henclosed, hs, hbefore⟩ := List.findSome?_eq_some_iff.1 h
  cases s with
  | bound i =>
    rw [unboundIndex?, Option.ite_none_left_eq_some, Option.some.injEq] at hs
    obtain ⟨hle, rfl⟩ := hs
    refine ⟨before, later, around, henclosed, Nat.le_of_not_lt hle, fun j d hmem => ?_⟩
    simpa [unboundIndex?] using hbefore _ hmem
  | _ => cases hs

/-! ### Numerals -/

theorem wellScoped_spine (n depth : Nat) : (spine (bound 0) n).WellScoped (depth + 1 + 1) := by
  induction n with
  | zero =>
    rw [spine, WellScoped]
    omega
  | succ n ih =>
    rw [spine_succ]
    refine ⟨?_, ih⟩
    rw [WellScoped]
    omega

theorem wellScoped_of_numeral? {t : Term} {n : Nat} (h : t.numeral? = some n) (depth : Nat) :
    t.WellScoped depth := by
  obtain ⟨hint, hint', rfl⟩ := eq_abs_of_numeral? h
  exact wellScoped_spine n depth

end Term

open Term

namespace Printer

variable {numerals : Bool} {free names : List String} {t : Term}

theorem wellScoped_of_asNumber? {n : Nat} (h : asNumber? numerals t = some n) (depth : Nat) :
    t.WellScoped depth := by
  cases numerals with
  | false => cases h
  | true => exact wellScoped_of_numeral? h depth

/-- **A well-scoped term has a text.** -/
theorem exists_render (h : t.WellScoped names.length) (inHeader : Bool) :
    ∃ text, render numerals free inHeader names t = .ok text := by
  induction t generalizing names inHeader with
  | free name => exact ⟨_, rfl⟩
  | bound index =>
    have hlt : index < names.length := Int.ofNat_lt.1 h
    exact ⟨arrow inHeader ++ names[index], by simp [render, hlt]⟩
  | abs hint body ih =>
    unfold render
    cases asNumber? (numerals && !inHeader) (.abs hint body) with
    | some n => exact ⟨_, rfl⟩
    | none =>
      obtain ⟨text, htext⟩ := @ih (binderName free names hint :: names) h true
      exact ⟨_, by simp only [htext]; rfl⟩
  | app fn arg ihf iha =>
    obtain ⟨left, hleft⟩ := ihf h.1 false
    obtain ⟨right, hright⟩ := iha h.2 false
    exact ⟨_, by rw [render, hleft, hright]; rfl⟩

/-- **Printing fails at the first variable without a binder.** -/
theorem render_of_firstUnbound? {index : Nat} (h : t.firstUnbound? names.length = some index)
    (inHeader : Bool) : render numerals free inHeader names t = .error ⟨index⟩ := by
  induction t generalizing names inHeader with
  | free name => cases h
  | bound i =>
    rw [firstUnbound?_bound] at h
    by_cases hlt : i < names.length
    · simp [hlt] at h
    · obtain rfl : i = index := by simpa [hlt] using h
      have hnone : names[i]? = none := List.getElem?_eq_none (Nat.le_of_not_lt hlt)
      simp only [render, hnone]
  | abs hint body ih =>
    unfold render
    cases hn : asNumber? (numerals && !inHeader) (.abs hint body) with
    | some n =>
      rw [firstUnbound?_eq_none_iff.2 (wellScoped_of_asNumber? hn names.length)] at h
      cases h
    | none =>
      rw [firstUnbound?_abs] at h
      simp only [@ih (binderName free names hint :: names) h true]
      rfl
  | app fn arg ihf iha =>
    rw [firstUnbound?_app] at h
    unfold render
    cases hfn : fn.firstUnbound? names.length with
    | some i =>
      obtain rfl : i = index := by simpa [hfn] using h
      rw [ihf hfn false]
      rfl
    | none =>
      -- The function is printed in full before the argument is looked at.
      obtain ⟨left, hleft⟩ := exists_render (firstUnbound?_eq_none_iff.1 hfn) false
      rw [hfn, Option.none_or] at h
      rw [hleft, iha h false]
      rfl

end Printer

/-- **Printing fails exactly on terms that are not well-formed, at their first unbound variable.**
Whatever its names and hints are, a term has a text if and only if it is well-formed.  Otherwise
there is a first variable, among the subterms in pre-order, whose index is not below the number of
abstractions around it, and printing fails with a message that names this index. -/
theorem pretty_fails_at_first_unbound (t : Term) (numerals : Bool) :
    ((∃ text, pretty t numerals = .ok text) ↔ t.isWellFormed 0 = true) ∧
    (t.enclosed 0).map Prod.fst = t.subterms ∧
    (t.isWellFormed 0 = false → ∃ before later index depth,
      t.enclosed 0 = before ++ (.bound index, depth) :: later ∧ depth ≤ index ∧
      (∀ i d, (.bound i, d) ∈ before → i < d) ∧
      pretty t numerals = .error ⟨index⟩ ∧
      UnboundIndex.message ⟨index⟩ = "unbound de Bruijn index " ++ toString index) := by
  have hiff : t.firstUnbound? 0 = none ↔ t.isWellFormed 0 = true :=
    firstUnbound?_eq_none_iff.trans (t.isWellFormed_iff 0).symm
  have hfails : ∀ index, t.firstUnbound? 0 = some index → pretty t numerals = .error ⟨index⟩ :=
    fun index hfirst => @Printer.render_of_firstUnbound? numerals _ [] t index hfirst false
  refine ⟨⟨?_, fun hwf => ?_⟩, ?_, fun hill => ?_⟩
  · rintro ⟨text, htext⟩
    rw [← hiff, Option.eq_none_iff_forall_ne_some]
    intro index hfirst
    rw [hfails index hfirst] at htext
    cases htext
  · exact @Printer.exists_render numerals _ [] t ((t.isWellFormed_iff 0).1 hwf) false
  · rw [map_fst_enclosed, subterms_eq_preorder]
  · rw [← Bool.not_eq_true, ← hiff, ← ne_eq, Option.ne_none_iff_exists'] at hill
    obtain ⟨index, hfirst⟩ := hill
    obtain ⟨before, later, depth, henclosed, hle, hbefore⟩ := exists_append_of_firstUnbound? hfirst
    exact ⟨before, later, index, depth, henclosed, hle, hbefore, hfails index hfirst, rfl⟩

-- The hint may be empty; of the two unbound variables, the first one is reported.
example : pretty (.app (.abs "" (.app (.bound 0) (.bound 1))) (.bound 4)) true = .error ⟨1⟩ :=
  rfl

end NormalOrder
