import NormalOrder.Proofs.Preservation

/-!
# Redexes keep their places

Shifting and instantiation replace variables and leave the rest of a term as it is.  So a redex
stays a redex and keeps its place, which is given by the *route* to it: `Term.contractAt` contracts
the redex at the end of a route, and every contraction is at the end of one
(`contracts_iff_exists_contractAt`).

* A lift neither makes nor breaks a redex, so it commutes with normal-order steps (`step_liftFrom`).
* An instantiation can make redexes, but it breaks none: it commutes with the contraction of a redex
  that is there (`contractAt_instantiateAt`).

For a redex by itself, both are laws of substitution (`liftFrom_instantiate`,
`instantiateAt_instantiate`); on the way to it, nothing but the depth changes.  The main statement
is `contraction_commutes_with_substitution`.
-/

namespace NormalOrder

namespace Term

/-! ### Routes -/

/-- One step down into a term. -/
inductive Turn where
  /-- Into the body of an abstraction. -/
  | body
  /-- Into the function of an application. -/
  | fn
  /-- Into the argument of an application. -/
  | arg
  deriving DecidableEq, Repr

/-- The term after contracting the redex at the end of a route, if there is one. -/
def contractAt : List Turn → Term → Option Term
  | [], app (abs _ body) arg => some (instantiate arg body)
  | .body :: route, abs hint body => (contractAt route body).map (abs hint)
  | .fn :: route, app fn arg => (contractAt route fn).map (app · arg)
  | .arg :: route, app fn arg => (contractAt route arg).map (app fn)
  | _, _ => none

/-- **Every contraction is at the end of a route.** -/
theorem contracts_iff_exists_contractAt {t u : Term} :
    Contracts t u ↔ ∃ route, t.contractAt route = some u := by
  constructor
  · intro h
    induction h with
    | redex hint body arg => exact ⟨[], rfl⟩
    | abs hint _ ih =>
      obtain ⟨route, hroute⟩ := ih
      exact ⟨.body :: route, by rw [contractAt, hroute, Option.map_some]⟩
    | fn arg _ ih =>
      obtain ⟨route, hroute⟩ := ih
      exact ⟨.fn :: route, by rw [contractAt, hroute, Option.map_some]⟩
    | arg fn _ ih =>
      obtain ⟨route, hroute⟩ := ih
      exact ⟨.arg :: route, by rw [contractAt, hroute, Option.map_some]⟩
  · rintro ⟨route, h⟩
    fun_induction contractAt route t generalizing u with
    | case1 hint body arg =>
      obtain rfl := Option.some.inj h
      exact .redex hint body arg
    | case2 route hint body ih =>
      obtain ⟨body', hbody, rfl⟩ := Option.map_eq_some_iff.1 h
      exact .abs hint (ih hbody)
    | case3 route fn arg ih =>
      obtain ⟨fn', hfn, rfl⟩ := Option.map_eq_some_iff.1 h
      exact .fn arg (ih hfn)
    | case4 route fn arg ih =>
      obtain ⟨arg', harg, rfl⟩ := Option.map_eq_some_iff.1 h
      exact .arg fn (ih harg)
    | case5 => cases h

/-! ### Instantiation -/

/-- **An instantiation commutes with the contraction of a redex**, wherever the redex is. -/
theorem contractAt_instantiateAt {route : List Turn} {t u : Term} (h : t.contractAt route = some u)
    (depth : Nat) (image : Term) :
    (t.instantiateAt depth image).contractAt route = some (u.instantiateAt depth image) := by
  fun_induction contractAt route t generalizing u depth with
  | case1 hint body arg =>
    obtain rfl := Option.some.inj h
    rw [instantiateAt_app, instantiateAt_abs, contractAt, instantiateAt_instantiate]
  | case2 route hint body ih =>
    obtain ⟨body', hbody, rfl⟩ := Option.map_eq_some_iff.1 h
    rw [instantiateAt_abs, contractAt, ih hbody, Option.map_some, instantiateAt_abs]
  | case3 route fn arg ih =>
    obtain ⟨fn', hfn, rfl⟩ := Option.map_eq_some_iff.1 h
    rw [instantiateAt_app, contractAt, ih hfn, Option.map_some, instantiateAt_app]
  | case4 route fn arg ih =>
    obtain ⟨arg', harg, rfl⟩ := Option.map_eq_some_iff.1 h
    rw [instantiateAt_app, contractAt, ih harg, Option.map_some, instantiateAt_app]
  | case5 => cases h

/-! ### Lifting -/

theorem liftFrom_ne_abs {t : Term} (h : ∀ hint body, t ≠ abs hint body) (cutoff amount : Nat) :
    ∀ hint body, t.liftFrom cutoff amount ≠ abs hint body := by
  intro hint body
  cases t with
  | free name => simp
  | bound index =>
    by_cases hc : cutoff ≤ index
    · simp [liftFrom_bound_of_le amount hc]
    · simp [liftFrom_bound_of_lt amount (Nat.not_le.1 hc)]
  | abs hint' body' => exact absurd rfl (h hint' body')
  | app fn arg => simp

theorem step_liftFrom (t : Term) (cutoff amount : Nat) :
    (t.liftFrom cutoff amount).step = t.step.map (·.liftFrom cutoff amount) := by
  induction t generalizing cutoff with
  | free name => rfl
  | bound index =>
    by_cases hc : cutoff ≤ index
    · rw [liftFrom_bound_of_le amount hc]
      rfl
    · rw [liftFrom_bound_of_lt amount (Nat.not_le.1 hc)]
      rfl
  | abs hint body ih =>
    rw [liftFrom_abs, step, step, ih, Option.map_map, Option.map_map]
    rfl
  | app fn arg ihf iha =>
    by_cases hfn : ∃ hint body, fn = abs hint body
    · obtain ⟨hint, body, rfl⟩ := hfn
      rw [liftFrom_app, liftFrom_abs, step, step, Option.map_some, liftFrom_instantiate]
    · have hne : ∀ hint body, fn ≠ abs hint body := fun hint body h => hfn ⟨hint, body, h⟩
      rw [liftFrom_app, step_app (liftFrom_ne_abs hne cutoff amount), step_app hne, ihf, iha]
      cases fn.step with
      | some fn' => rfl
      | none =>
        cases arg.step with
        | some arg' => rfl
        | none => rfl

/-! ### Contractions under substitution -/

/-- **Contraction commutes with substitution.**  The shift by a natural amount is the lift that
instantiation moves its image by.  A redex that is instantiated or shifted is again a redex, and
contracting it leads to what the first contraction led to, instantiated or shifted.  Hence a shifted
term steps to the shifted step, or does not step if the term does not; and a contraction anywhere in
a term, at the end of some route, is one at the end of the same route in the term with `image` put
for the variable of its abstraction.  No variable need have a binder. -/
theorem contraction_commutes_with_substitution (image : Term) :
    (∀ (t : Term) (amount : Nat), t.shift amount = .ok (t.lift amount)) ∧
    (∀ (hint : String) (body arg : Term), ∃ body' arg',
      instantiate image (app (abs hint body) arg) = app (abs hint body') arg' ∧
      instantiate arg' body' = instantiate image (instantiate arg body)) ∧
    (∀ (hint : String) (body arg : Term) (amount : Nat), ∃ body' arg',
      (app (abs hint body) arg).shift amount = .ok (app (abs hint body') arg') ∧
      (instantiate arg body).shift amount = .ok (instantiate arg' body')) ∧
    (∀ (t : Term) (amount : Nat), ∃ t', t.shift amount = .ok t' ∧
      (t.step = none → t'.step = none) ∧
      ∀ u, t.step = some u → ∃ u', u.shift amount = .ok u' ∧ t'.step = some u') ∧
    (∀ t u : Term, Contracts t u ↔ ∃ route, t.contractAt route = some u) ∧
    ∀ (route : List Turn) (t u : Term), t.contractAt route = some u →
      (instantiate image t).contractAt route = some (instantiate image u) := by
  refine ⟨shift_natCast, fun hint body arg => ?_, fun hint body arg amount => ?_,
    fun t amount => ?_, fun t u => contracts_iff_exists_contractAt,
    fun route t u h => contractAt_instantiateAt h 0 image⟩
  · refine ⟨body.instantiateAt 1 image, arg.instantiateAt 0 image, rfl, ?_⟩
    exact (instantiateAt_instantiate 0 arg image body).symm
  · refine ⟨body.liftFrom 1 amount, arg.liftFrom 0 amount, ?_, ?_⟩
    · rw [shift_natCast, lift_eq_liftFrom, liftFrom_app, liftFrom_abs]
    · rw [shift_natCast, lift_eq_liftFrom, liftFrom_instantiate]
  · have hstep := step_liftFrom t 0 amount
    refine ⟨t.liftFrom 0 amount, by rw [shift_natCast, lift_eq_liftFrom], fun hnone => ?_,
      fun u hu => ⟨u.liftFrom 0 amount, by rw [shift_natCast, lift_eq_liftFrom], ?_⟩⟩
    · rw [hstep, hnone, Option.map_none]
    · rw [hstep, hu, Option.map_some]

/-- The redex is under a binder, and both of its parts refer past it: to the abstraction whose
variable is instantiated, and past that one to a variable that has no binder. -/
theorem contraction_commutes_with_substitution_open :
    let image : Term := app (bound 0) (free "z")
    let t : Term := abs "y" (app (bound 1) (app (abs "x" (app (bound 0) (bound 2))) (bound 2)))
    let u : Term := abs "y" (app (bound 1) (app (bound 2) (bound 1)))
    t.contractAt [.body, .arg] = some u ∧ t.step = some u ∧
      (∃ t', t.shift 3 = .ok t' ∧ ∃ u', u.shift 3 = .ok u' ∧ t'.step = some u') ∧
      (instantiate image t).contractAt [.body, .arg] = some (instantiate image u) ∧
      instantiate image u = abs "y" (app (app (bound 1) (free "z"))
        (app (bound 1) (app (bound 1) (free "z")))) := by
  intro image t u
  have hroute : t.contractAt [.body, .arg] = some u := rfl
  have hstep : t.step = some u := rfl
  obtain ⟨-, -, -, hshift, -, hcontract⟩ := contraction_commutes_with_substitution image
  obtain ⟨t', ht', -, hsteps⟩ := hshift t 3
  exact ⟨hroute, hstep, ⟨t', ht', hsteps u hstep⟩, hcontract _ t u hroute, rfl⟩

end Term

end NormalOrder
