import NormalOrder.Term.Traverse

/-!
# The algebra of lifting and instantiation

`Term.lift` and `Term.instantiate` start outside all binders of their term.  Below some binders
they go on as `Term.liftFrom` and `Term.instantiateAt`, and it is for these that laws can be
proved by induction.

* Two lifts compose (`liftFrom_liftFrom`) and commute (`liftFrom_comm`).
* A lift makes room that an instantiation takes away again (`instantiateAt_liftFrom`).
* A lift commutes with an instantiation, above it (`liftFrom_instantiateAt`) and below it
  (`liftFrom_instantiateAt_of_le`).
* Two instantiations commute (`instantiateAt_instantiateAt`): the substitution lemma.
-/

namespace NormalOrder

namespace Term

/-! ### Below some binders -/

/-- The term with `amount` added to every variable that refers past `cutoff` binders around the
term. -/
def liftFrom (t : Term) (cutoff amount : Nat) : Term := t.mapVars (liftVar amount) cutoff

/-- The term with `image` put for the variable that refers to the binder outside `depth` binders
around the term. -/
def instantiateAt (t : Term) (depth : Nat) (image : Term) : Term :=
  t.mapVars (instantiateVar image) depth

section Equations

variable (cutoff depth amount : Nat) (image : Term)

@[simp] theorem liftFrom_free (name : String) :
    (free name).liftFrom cutoff amount = free name := rfl

@[simp] theorem liftFrom_abs (hint : String) (body : Term) :
    (abs hint body).liftFrom cutoff amount = abs hint (body.liftFrom (cutoff + 1) amount) := rfl

@[simp] theorem liftFrom_app (fn arg : Term) :
    (app fn arg).liftFrom cutoff amount =
      app (fn.liftFrom cutoff amount) (arg.liftFrom cutoff amount) := rfl

@[simp] theorem instantiateAt_free (name : String) :
    (free name).instantiateAt depth image = free name := rfl

@[simp] theorem instantiateAt_abs (hint : String) (body : Term) :
    (abs hint body).instantiateAt depth image =
      abs hint (body.instantiateAt (depth + 1) image) := rfl

@[simp] theorem instantiateAt_app (fn arg : Term) :
    (app fn arg).instantiateAt depth image =
      app (fn.instantiateAt depth image) (arg.instantiateAt depth image) := rfl

variable {cutoff depth}

theorem liftFrom_bound_of_le {index : Nat} (h : cutoff ≤ index) :
    (bound index).liftFrom cutoff amount = bound (index + amount) := if_pos h

theorem liftFrom_bound_of_lt {index : Nat} (h : index < cutoff) :
    (bound index).liftFrom cutoff amount = bound index := if_neg (Nat.not_le.2 h)

theorem instantiateAt_bound_of_lt {index : Nat} (h : index < depth) :
    (bound index).instantiateAt depth image = bound index := if_pos h

theorem instantiateAt_bound_of_gt {index : Nat} (h : depth < index) :
    (bound index).instantiateAt depth image = bound (index - 1) := by
  have hlt : ¬ index < depth := by omega
  have hne : index ≠ depth := by omega
  exact (if_neg hlt).trans (if_neg hne)

end Equations

theorem liftFrom_zero (cutoff : Nat) (t : Term) : t.liftFrom cutoff 0 = t := by
  induction t generalizing cutoff with
  | free name => rfl
  | bound index =>
    by_cases h : cutoff ≤ index
    · rw [liftFrom_bound_of_le _ h, Nat.add_zero]
    · rw [liftFrom_bound_of_lt _ (by omega)]
  | abs hint body ih => rw [liftFrom_abs, ih]
  | app fn arg ihf iha => rw [liftFrom_app, ihf, iha]

theorem lift_eq_liftFrom (t : Term) (amount : Nat) : t.lift amount = t.liftFrom 0 amount := by
  unfold lift
  split
  · rename_i h; rw [h, liftFrom_zero]
  · rfl

theorem instantiate_eq_instantiateAt (image scope : Term) :
    instantiate image scope = scope.instantiateAt 0 image := rfl

theorem instantiateAt_bound_self (depth : Nat) (image : Term) :
    (bound depth).instantiateAt depth image = image.liftFrom 0 depth := by
  rw [← lift_eq_liftFrom]
  exact (if_neg (Nat.lt_irrefl depth)).trans (if_pos rfl)

/-! ### Lifts among each other -/

theorem liftFrom_liftFrom {cutoff inner : Nat} (amount more : Nat) (t : Term)
    (hle : cutoff ≤ inner) (hge : inner ≤ cutoff + amount) :
    (t.liftFrom cutoff amount).liftFrom inner more = t.liftFrom cutoff (amount + more) := by
  induction t generalizing cutoff inner with
  | free name => rfl
  | bound index =>
    by_cases h : cutoff ≤ index
    · rw [liftFrom_bound_of_le _ h, liftFrom_bound_of_le _ h, liftFrom_bound_of_le _ (by omega),
        Nat.add_assoc]
    · rw [liftFrom_bound_of_lt _ (by omega), liftFrom_bound_of_lt _ (by omega),
        liftFrom_bound_of_lt _ (by omega)]
  | abs hint body ih =>
    rw [liftFrom_abs, liftFrom_abs, liftFrom_abs, ih (by omega) (by omega)]
  | app fn arg ihf iha =>
    rw [liftFrom_app, liftFrom_app, liftFrom_app, ihf hle hge, iha hle hge]

theorem liftFrom_comm {cutoff outer : Nat} (amount more : Nat) (t : Term) (h : cutoff ≤ outer) :
    (t.liftFrom outer amount).liftFrom cutoff more =
      (t.liftFrom cutoff more).liftFrom (outer + more) amount := by
  induction t generalizing cutoff outer with
  | free name => rfl
  | bound index =>
    by_cases ho : outer ≤ index
    · rw [liftFrom_bound_of_le _ ho, liftFrom_bound_of_le _ (by omega),
        liftFrom_bound_of_le _ (by omega), liftFrom_bound_of_le _ (by omega), Nat.add_right_comm]
    · rw [liftFrom_bound_of_lt _ (by omega)]
      by_cases hc : cutoff ≤ index
      · rw [liftFrom_bound_of_le _ hc, liftFrom_bound_of_lt _ (by omega)]
      · rw [liftFrom_bound_of_lt _ (by omega), liftFrom_bound_of_lt _ (by omega)]
  | abs hint body ih =>
    simp only [liftFrom_abs]
    rw [ih (by omega), Nat.add_right_comm]
  | app fn arg ihf iha => simp only [liftFrom_app, ihf h, iha h]

/-! ### Lifts and instantiations -/

/-- A lift by one more than `amount` makes room for the variable that is instantiated. -/
theorem instantiateAt_liftFrom {cutoff depth amount : Nat} (image t : Term)
    (hle : cutoff ≤ depth) (hge : depth ≤ cutoff + amount) :
    (t.liftFrom cutoff (amount + 1)).instantiateAt depth image = t.liftFrom cutoff amount := by
  induction t generalizing cutoff depth with
  | free name => rfl
  | bound index =>
    by_cases h : cutoff ≤ index
    · rw [liftFrom_bound_of_le _ h, liftFrom_bound_of_le _ h,
        instantiateAt_bound_of_gt _ (by omega), ← Nat.add_assoc, Nat.add_sub_cancel]
    · rw [liftFrom_bound_of_lt _ (by omega), liftFrom_bound_of_lt _ (by omega),
        instantiateAt_bound_of_lt _ (by omega)]
  | abs hint body ih =>
    simp only [liftFrom_abs, instantiateAt_abs, ih (Nat.succ_le_succ hle) (by omega)]
  | app fn arg ihf iha => simp only [liftFrom_app, instantiateAt_app, ihf hle hge, iha hle hge]

theorem instantiateAt_liftFrom_one (depth : Nat) (image t : Term) :
    (t.liftFrom depth 1).instantiateAt depth image = t := by
  rw [instantiateAt_liftFrom image t (Nat.le_refl depth) (Nat.le_refl depth), liftFrom_zero]

/-- Making room outside a variable and then putting the variable made room for in its place
changes nothing. -/
theorem instantiateAt_liftFrom_bound (depth : Nat) (t : Term) :
    (t.liftFrom (depth + 1) 1).instantiateAt depth (bound 0) = t := by
  induction t generalizing depth with
  | free name => rfl
  | bound index =>
    rcases Nat.lt_trichotomy index depth with h | rfl | h
    · rw [liftFrom_bound_of_lt _ (by omega), instantiateAt_bound_of_lt _ h]
    · rw [liftFrom_bound_of_lt _ (by omega), instantiateAt_bound_self,
        liftFrom_bound_of_le _ (Nat.zero_le 0), Nat.zero_add]
    · rw [liftFrom_bound_of_le _ h, instantiateAt_bound_of_gt _ (by omega), Nat.add_sub_cancel]
  | abs hint body ih => rw [liftFrom_abs, instantiateAt_abs, ih]
  | app fn arg ihf iha => rw [liftFrom_app, instantiateAt_app, ihf, iha]

/-- A lift above an instantiation: the image is lifted as well. -/
theorem liftFrom_instantiateAt (depth above amount : Nat) (image t : Term) :
    (t.instantiateAt depth image).liftFrom (depth + above) amount =
      (t.liftFrom (depth + above + 1) amount).instantiateAt depth
        (image.liftFrom above amount) := by
  induction t generalizing depth with
  | free name => rfl
  | bound index =>
    rcases Nat.lt_trichotomy index depth with h | rfl | h
    · rw [instantiateAt_bound_of_lt _ h, liftFrom_bound_of_lt _ (by omega),
        liftFrom_bound_of_lt _ (by omega), instantiateAt_bound_of_lt _ h]
    · rw [liftFrom_bound_of_lt _ (by omega), instantiateAt_bound_self, instantiateAt_bound_self,
        liftFrom_comm _ _ _ (Nat.zero_le above), Nat.add_comm]
    · rw [instantiateAt_bound_of_gt _ h]
      by_cases hc : depth + above ≤ index - 1
      · rw [liftFrom_bound_of_le _ hc, liftFrom_bound_of_le _ (by omega),
          instantiateAt_bound_of_gt _ (by omega)]
        congr 1
        omega
      · rw [liftFrom_bound_of_lt _ (by omega), liftFrom_bound_of_lt _ (by omega),
          instantiateAt_bound_of_gt _ h]
  | abs hint body ih =>
    have h := ih (depth + 1)
    rw [Nat.add_right_comm] at h
    simp only [liftFrom_abs, instantiateAt_abs, h]
  | app fn arg ihf iha => simp only [liftFrom_app, instantiateAt_app, ihf, iha]

/-- A lift below an instantiation moves it further out. -/
theorem liftFrom_instantiateAt_of_le {cutoff depth : Nat} (amount : Nat) (image t : Term)
    (hle : cutoff ≤ depth) :
    (t.instantiateAt depth image).liftFrom cutoff amount =
      (t.liftFrom cutoff amount).instantiateAt (depth + amount) image := by
  induction t generalizing cutoff depth with
  | free name => rfl
  | bound index =>
    rcases Nat.lt_trichotomy index depth with h | rfl | h
    · rw [instantiateAt_bound_of_lt _ h]
      by_cases hc : cutoff ≤ index
      · rw [liftFrom_bound_of_le _ hc, instantiateAt_bound_of_lt _ (by omega)]
      · rw [liftFrom_bound_of_lt _ (by omega), instantiateAt_bound_of_lt _ (by omega)]
    · rw [liftFrom_bound_of_le _ hle, instantiateAt_bound_self, instantiateAt_bound_self,
        liftFrom_liftFrom _ _ _ (Nat.zero_le cutoff) (by omega)]
    · rw [instantiateAt_bound_of_gt _ h, liftFrom_bound_of_le _ (by omega),
        liftFrom_bound_of_le _ (by omega), instantiateAt_bound_of_gt _ (by omega)]
      congr 1
      omega
  | abs hint body ih =>
    have h := ih (Nat.succ_le_succ hle)
    rw [Nat.succ_add] at h
    simp only [liftFrom_abs, instantiateAt_abs]
    exact congrArg (abs hint) h
  | app fn arg ihf iha => simp only [liftFrom_app, instantiateAt_app, ihf hle, iha hle]

/-! ### Instantiations among each other -/

/-- **The substitution lemma.**  Of two instantiations the outer one can be made first, if it is
made in the image of the inner one too. -/
theorem instantiateAt_instantiateAt (depth above : Nat) (image outer t : Term) :
    (t.instantiateAt depth image).instantiateAt (depth + above) outer =
      (t.instantiateAt (depth + above + 1) outer).instantiateAt depth
        (image.instantiateAt above outer) := by
  induction t generalizing depth with
  | free name => rfl
  | bound index =>
    rcases Nat.lt_trichotomy index depth with h | rfl | h
    · rw [instantiateAt_bound_of_lt _ h, instantiateAt_bound_of_lt _ (by omega),
        instantiateAt_bound_of_lt _ (by omega), instantiateAt_bound_of_lt _ h]
    · have hlt : index < index + above + 1 := by omega
      rw [instantiateAt_bound_of_lt _ hlt, instantiateAt_bound_self, instantiateAt_bound_self,
        liftFrom_instantiateAt_of_le _ _ _ (Nat.zero_le above), Nat.add_comm]
    · rw [instantiateAt_bound_of_gt _ h]
      rcases Nat.lt_trichotomy index (depth + above + 1) with hi | rfl | hi
      · rw [instantiateAt_bound_of_lt _ (by omega), instantiateAt_bound_of_lt _ hi,
          instantiateAt_bound_of_gt _ h]
      -- the outer image was lifted past the inner variable, which is now taken away
      · rw [Nat.add_sub_cancel, instantiateAt_bound_self, instantiateAt_bound_self,
          instantiateAt_liftFrom _ _ (Nat.zero_le depth) (by omega)]
      · rw [instantiateAt_bound_of_gt _ (by omega), instantiateAt_bound_of_gt _ hi,
          instantiateAt_bound_of_gt _ (by omega)]
  | abs hint body ih =>
    have h := ih (depth + 1)
    rw [Nat.add_right_comm] at h
    simp only [instantiateAt_abs, h]
  | app fn arg ihf iha => simp only [instantiateAt_app, ihf, iha]

/-! ### The outermost instantiation -/

theorem liftFrom_instantiate (cutoff amount : Nat) (image t : Term) :
    (instantiate image t).liftFrom cutoff amount =
      instantiate (image.liftFrom cutoff amount) (t.liftFrom (cutoff + 1) amount) := by
  have h := liftFrom_instantiateAt 0 cutoff amount image t
  rwa [Nat.zero_add] at h

theorem instantiateAt_instantiate (depth : Nat) (image outer t : Term) :
    (instantiate image t).instantiateAt depth outer =
      instantiate (image.instantiateAt depth outer) (t.instantiateAt (depth + 1) outer) := by
  have h := instantiateAt_instantiateAt 0 depth image outer t
  rwa [Nat.zero_add] at h

end Term

end NormalOrder
