import NormalOrder.Proofs.Hints
import NormalOrder.Term.Numeral

/-!
# Reading Church numerals back

The body of a numeral has no abstraction in it, so it is the same up to hints only if it is the
same (`eq_spine_of_alike`).  `Term.numeral?` recognises the numerals, whatever hints they carry,
and nothing else (`numeral?_eq_some_iff`).
-/

namespace NormalOrder

namespace Term

/-- A spine grows at its outer end just as well. -/
theorem spine_succ (inner : Term) (n : Nat) :
    spine inner (n + 1) = app (bound 1) (spine inner n) := by
  induction n generalizing inner with
  | zero => rfl
  | succ n ih => exact ih (app (bound 1) inner)

theorem spineLength?_eq_some_iff {count n : Nat} {t : Term} :
    spineLength? count t = some n ↔ ∃ k, n = count + k ∧ t = spine (bound 0) k := by
  -- The count runs ahead of the spine that is left, so the statement is about their sum.
  fun_induction spineLength? count t with
  | case1 count rest ih =>
    rw [ih]
    constructor
    · rintro ⟨k, rfl, rfl⟩
      exact ⟨k + 1, by omega, (spine_succ _ k).symm⟩
    · rintro ⟨k, rfl, hk⟩
      cases k with
      | zero => cases hk
      | succ k =>
        rw [spine_succ] at hk
        exact ⟨k, by omega, (app.inj hk).2⟩
  | case2 count =>
    constructor
    · intro h
      exact ⟨0, (Option.some.inj h).symm, rfl⟩
    · rintro ⟨k, rfl, hk⟩
      cases k with
      | zero => rfl
      | succ k =>
        rw [spine_succ] at hk
        cases hk
  | case3 count t happ hbound =>
    constructor
    · intro h
      cases h
    · rintro ⟨k, -, rfl⟩
      cases k with
      | zero => exact absurd rfl hbound
      | succ k => exact absurd (spine_succ _ k) (happ _)

theorem eq_spine_of_alike {t : Term} {n : Nat} (h : t.Alike (spine (bound 0) n)) :
    t = spine (bound 0) n := by
  induction n generalizing t with
  | zero =>
    cases t with
    | bound index => exact h
    | _ => cases h
  | succ n ih =>
    rw [spine_succ] at h ⊢
    cases t with
    | app fn arg =>
      obtain ⟨hfn, harg⟩ := app.inj h
      cases fn with
      | bound index =>
        obtain rfl := bound.inj hfn
        rw [ih harg]
      | _ => cases hfn
    | _ => cases h

/-- **A term is read as `n` exactly when it is the Church numeral of `n`**, up to hints. -/
theorem numeral?_eq_some_iff {t : Term} {n : Nat} : t.numeral? = some n ↔ t.Alike (numeral n) := by
  constructor
  · intro h
    fun_cases numeral? t with
    | case1 hint hint' body =>
      obtain ⟨k, hn, rfl⟩ := spineLength?_eq_some_iff.1 h
      rw [Nat.zero_add] at hn
      subst hn
      exact .abs _ _ (.abs _ _ (.refl _))
    | case2 t hshape =>
      rw [numeral?] at h
      cases h
      exact hshape
  · intro h
    cases t with
    | abs hint t =>
      cases t with
      | abs hint' body =>
        have hbody := eq_spine_of_alike (t := body) (abs.inj (abs.inj h).2).2
        exact spineLength?_eq_some_iff.2 ⟨n, (Nat.zero_add n).symm, hbody⟩
      | _ => cases (abs.inj h).2
    | _ => cases h

end Term

end NormalOrder
