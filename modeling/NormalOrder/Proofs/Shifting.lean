import NormalOrder.Proofs.Preservation

/-!
# The algebra of shifting

`Term.shift` adds an integer to the loose variables of a term.  A negative amount may take an index
below zero, and then the shift fails, at the first such variable from left to right.  Below some
binders it goes on as `Term.shiftFrom`; adding zero, which `Term.shift` does not look into the term
for, is no exception there (`shift_eq_shiftFrom`).

A shift after a lift can be made by one traversal (`traverseVars_mapVars`), which meets the same
variables in the same order, and what is a loose variable stays one in a lift.  So both amounts may
be added at once, with the same outcome (`shiftFrom_liftFrom`): the same term, or the same failure.
-/

namespace NormalOrder

namespace Term

/-! ### Traversals -/

/-- A traversal of a term whose variables have been replaced traverses what has been put in their
place, below the binders where it stands. -/
theorem traverseVars_mapVars {m : Type → Type} [Monad m] (f : Var → Nat → Term)
    (g : Var → Nat → m Term) (depth : Nat) (t : Term) :
    (t.mapVars f depth).traverseVars g depth =
      t.traverseVars (fun v d => (f v d).traverseVars g d) depth := by
  induction t generalizing depth with
  | free name => rfl
  | bound index => rfl
  | abs hint body ih => simp only [mapVars, traverseVars, ih]
  | app fn arg ihf iha => simp only [mapVars, traverseVars, ihf, iha]

/-! ### Below some binders -/

/-- The term with `amount` added to every variable that refers past `cutoff` binders around the
term. -/
def shiftFrom (t : Term) (cutoff : Nat) (amount : Int) : Except NegativeIndex Term :=
  t.traverseVars (shiftVar amount) cutoff

section Equations

variable (amount : Int) {cutoff : Nat}

theorem shiftFrom_bound_of_lt {index : Nat} (h : index < cutoff) :
    (bound index).shiftFrom cutoff amount = .ok (bound index) := if_neg (Nat.not_le.2 h)

theorem shiftFrom_abs {hint : String} {body body' : Term}
    (h : body.shiftFrom (cutoff + 1) amount = .ok body') :
    (abs hint body).shiftFrom cutoff amount = .ok (abs hint body') := by
  rw [shiftFrom] at h
  simp only [shiftFrom, traverseVars, h]
  rfl

theorem shiftFrom_app {fn fn' arg arg' : Term} (hfn : fn.shiftFrom cutoff amount = .ok fn')
    (harg : arg.shiftFrom cutoff amount = .ok arg') :
    (app fn arg).shiftFrom cutoff amount = .ok (app fn' arg') := by
  rw [shiftFrom] at hfn harg
  simp only [shiftFrom, traverseVars, hfn, harg]
  rfl

end Equations

/-- What is well scoped below the binders around it has no loose variable to shift. -/
theorem WellScoped.shiftFrom_eq {t : Term} {depth : Nat} (h : t.WellScoped depth) (amount : Int) :
    t.shiftFrom depth amount = .ok t := by
  induction t generalizing depth with
  | free name => rfl
  | bound index => exact shiftFrom_bound_of_lt amount (Int.ofNat_lt.1 h)
  | abs hint body ih =>
    have hbody : body.WellScoped ((depth + 1 : Nat) : Int) := h
    exact shiftFrom_abs amount (ih hbody)
  | app fn arg ihf iha => exact shiftFrom_app amount (ihf h.1) (iha h.2)

theorem shiftFrom_natCast (t : Term) (cutoff amount : Nat) :
    t.shiftFrom cutoff amount = .ok (t.liftFrom cutoff amount) := by
  rw [shiftFrom, shiftVar_natCast, traverseVars_ok, liftFrom]

theorem shift_eq_shiftFrom (t : Term) (amount : Int) : t.shift amount = t.shiftFrom 0 amount := by
  unfold shift
  split
  · rename_i h
    have hzero := shiftFrom_natCast t 0 0
    rw [liftFrom_zero] at hzero
    rw [h]
    exact hzero.symm
  · rfl

/-! ### Shifts after lifts -/

/-- **A shift after a lift adds both amounts at once**, with the same outcome. -/
theorem shiftFrom_liftFrom (t : Term) (cutoff amount : Nat) (more : Int) :
    (t.liftFrom cutoff amount).shiftFrom cutoff more = t.shiftFrom cutoff (amount + more) := by
  have hvar : (fun v d => (liftVar amount v d).traverseVars (shiftVar more) d) =
      shiftVar (amount + more) := by
    funext v d
    cases v with
    | free name => rfl
    | bound index =>
      -- A loose variable is still loose when it has been lifted.
      by_cases h : d ≤ index
      · have hlifted : d ≤ index + amount := Nat.le_add_right_of_le h
        simp only [liftVar, shiftVar, traverseVars, if_pos h, if_pos hlifted, Int.natCast_add,
          Int.add_assoc]
      · simp only [liftVar, shiftVar, traverseVars, if_neg h]
  rw [shiftFrom, liftFrom, traverseVars_mapVars, hvar, shiftFrom]

theorem shift_lift (t : Term) (amount : Nat) (more : Int) :
    (t.lift amount).shift more = t.shift (amount + more) := by
  rw [lift_eq_liftFrom, shift_eq_shiftFrom, shift_eq_shiftFrom, shiftFrom_liftFrom]

/-- **The laws of shifting.**  A shift by a natural amount and then by any integer has the outcome
of one shift by the sum: the same term, or the same index is refused.  Instantiating what was
shifted by one gives the term back, whatever the image, and refuses no index.  A term that is
well-formed is not changed by any shift. -/
theorem shift_laws (t : Term) :
    (∀ (amount : Nat) (more : Int),
      (t.shift amount >>= fun u => u.shift more) = t.shift (amount + more)) ∧
    (∀ image : Term, ∃ u, t.shift 1 = .ok u ∧ instantiate image u = t ∧
      instantiateChecked image u = .ok t) ∧
    (t.isWellFormed 0 = true → ∀ amount : Int, t.shift amount = .ok t) := by
  refine ⟨fun amount more => ?_, fun image => ⟨t.lift 1, shift_natCast t 1, ?_⟩,
    fun hwf amount => ?_⟩
  · rw [shift_natCast]
    exact shift_lift t amount more
  · have hback : instantiate image (t.lift 1) = t := by
      rw [lift_eq_liftFrom, instantiate_eq_instantiateAt, instantiateAt_liftFrom_one]
    exact ⟨hback, by rw [instantiateChecked_eq, hback]⟩
  · rw [shift_eq_shiftFrom]
    exact ((t.isWellFormed_iff 0).1 hwf).shiftFrom_eq amount

/-- Two of the three loose variables would get a negative index.  The one below the binder comes
first and is refused, at once as well as in two shifts. -/
theorem shift_laws_refused :
    let t : Term := .app (.bound 2) (.app (.abs "x" (.app (.bound 0) (.bound 1))) (.bound 0))
    let closed : Term := .abs "x" (.app (.bound 0) (.free "y"))
    (t.shift (1 : Nat) >>= fun u => u.shift (-3)) = t.shift ((1 : Nat) + -3) ∧
      t.shift ((1 : Nat) + -3) = .error ⟨-1⟩ ∧
      closed.isWellFormed 0 = true ∧ closed.shift (-5) = .ok closed := by
  intro t closed
  have hwf : closed.isWellFormed 0 = true := by
    rw [isWellFormed_iff]
    simp [closed, WellScoped]
  exact ⟨(shift_laws t).1 1 (-3), rfl, hwf, (shift_laws closed).2.2 hwf (-5)⟩

end Term

end NormalOrder
