import Mathlib.Data.List.Forall2
import NormalOrder.Proofs.Evaluation
import NormalOrder.Proofs.Hints

/-!
# Names do not influence reduction

`Term.mapNames` applies one function to the names of free variables and another to hints; neither
has to be injective.  No operation of reduction looks at names, so each of them commutes with it:
replacement of variables (`mapNames_mapVars`), instantiation, and steps (`step_mapNames`).

Blanking all hints is one such map and renaming free variables is another.  Hence a step does not
depend on hints (`step_unhinted`), and a term with other hints, in which free variables have been
renamed or even identified, runs like the term itself (`evaluate_renamed`).
-/

namespace NormalOrder

/-- The variable with its name changed, if it has one. -/
def Var.mapName (onFree : String → String) : Var → Var
  | .free name => .free (onFree name)
  | .bound index => .bound index

namespace Term

/-! ### Changing names -/

/-- The term with the names of free variables changed by `onFree` and hints by `onHint`. -/
def mapNames (onFree onHint : String → String) : Term → Term
  | free name => free (onFree name)
  | bound index => bound index
  | abs hint body => abs (onHint hint) (body.mapNames onFree onHint)
  | app fn arg => app (fn.mapNames onFree onHint) (arg.mapNames onFree onHint)

/-- What a renaming puts for a variable. -/
def renameVar (rename : String → String) (v : Var) (_depth : Nat) : Term := v.mapName rename

/-- The term with each free variable renamed. -/
def renamed (rename : String → String) (t : Term) : Term := t.mapVars (renameVar rename) 0

section

variable (onFree onHint : String → String)

/-- Names can be changed before or after a replacement that treats them alike. -/
theorem mapNames_mapVars {f g : Var → Nat → Term}
    (h : ∀ v d, (f v d).mapNames onFree onHint = g (v.mapName onFree) d) (depth : Nat) (t : Term) :
    (t.mapVars f depth).mapNames onFree onHint = (t.mapNames onFree onHint).mapVars g depth := by
  induction t generalizing depth with
  | free name => exact h (.free name) depth
  | bound index => exact h (.bound index) depth
  | abs hint body ih => rw [mapVars, mapNames, mapNames, mapVars, ih]
  | app fn arg ihf iha => rw [mapVars, mapNames, mapNames, mapVars, ihf, iha]

theorem mapNames_lift (t : Term) (amount : Nat) :
    (t.lift amount).mapNames onFree onHint = (t.mapNames onFree onHint).lift amount := by
  rw [lift_eq_liftFrom, lift_eq_liftFrom]
  refine mapNames_mapVars onFree onHint (fun v d => ?_) 0 t
  cases v with
  | free name => rfl
  | bound index =>
    simp only [liftVar, Var.mapName]
    split <;> rfl

theorem mapNames_instantiate (image scope : Term) :
    (instantiate image scope).mapNames onFree onHint =
      instantiate (image.mapNames onFree onHint) (scope.mapNames onFree onHint) := by
  refine mapNames_mapVars onFree onHint (fun v d => ?_) 0 scope
  cases v with
  | free name => rfl
  | bound index =>
    simp only [instantiateVar, Var.mapName]
    split
    · rfl
    split
    · exact mapNames_lift onFree onHint image d
    · rfl

theorem mapNames_ne_abs {t : Term} (h : ∀ hint body, t ≠ abs hint body) :
    ∀ hint body, t.mapNames onFree onHint ≠ abs hint body := by
  intro hint body
  cases t with
  | abs hint' body' => exact absurd rfl (h hint' body')
  | _ => simp [mapNames]

/-- **A step does not look at names.** -/
theorem step_mapNames (t : Term) :
    (t.mapNames onFree onHint).step = t.step.map (mapNames onFree onHint) := by
  induction t with
  | free name => rfl
  | bound index => rfl
  | abs hint body ih =>
    rw [mapNames, step, step, ih, Option.map_map, Option.map_map]
    rfl
  | app fn arg ihf iha =>
    by_cases hfn : ∃ hint body, fn = abs hint body
    · obtain ⟨hint, body, rfl⟩ := hfn
      rw [mapNames, mapNames, step, step, Option.map_some, mapNames_instantiate]
    · have hne : ∀ hint body, fn ≠ abs hint body := fun hint body h => hfn ⟨hint, body, h⟩
      rw [mapNames, step_app (mapNames_ne_abs onFree onHint hne), step_app hne, ihf, iha]
      cases fn.step with
      | some fn' => rfl
      | none =>
        cases arg.step with
        | some arg' => rfl
        | none => rfl

end

/-! ### Blank hints and renamed variables -/

theorem unhinted_eq_mapNames : unhinted = mapNames id fun _ => "" := by
  funext t
  induction t with
  | free name => rfl
  | bound index => rfl
  | abs hint body ih => rw [unhinted, mapNames, ih]
  | app fn arg ihf iha => rw [unhinted, mapNames, ihf, iha]

theorem renamed_eq_mapNames (rename : String → String) : renamed rename = mapNames rename id := by
  have hmap : ∀ (depth : Nat) (t : Term),
      t.mapVars (renameVar rename) depth = t.mapNames rename id := by
    intro depth t
    induction t generalizing depth with
    | free name => rfl
    | bound index => rfl
    | abs hint body ih => rw [mapVars, mapNames, ih, id]
    | app fn arg ihf iha => rw [mapVars, mapNames, ihf, iha]
  funext t
  exact hmap 0 t

/-- **A step does not depend on hints.** -/
theorem step_unhinted (t : Term) : t.unhinted.step = t.step.map unhinted := by
  rw [unhinted_eq_mapNames]
  exact step_mapNames _ _ t

theorem step_renamed (rename : String → String) (t : Term) :
    (t.renamed rename).step = t.step.map (renamed rename) := by
  rw [renamed_eq_mapNames]
  exact step_mapNames _ _ t

theorem Alike.step {t u v : Term} (h : t.Alike u) (hstep : u.step = some v) :
    ∃ w, t.step = some w ∧ w.Alike v := by
  have heq := t.step_unhinted
  rw [h, u.step_unhinted, hstep] at heq
  obtain ⟨w, hw, hunhinted⟩ := Option.map_eq_some_iff.1 heq.symm
  exact ⟨w, hw, hunhinted⟩

end Term

/-! ### Evaluation -/

/-- Terms that are alike after a renaming of the second have traces that are. -/
theorem map_unhinted_evaluate {rename : String → String} {t u : Term}
    (h : u.Alike (t.renamed rename)) (limit : Nat) :
    (evaluate limit u).map Term.unhinted =
      ((evaluate limit t).map (Term.renamed rename)).map Term.unhinted := by
  calc
    (evaluate limit u).map Term.unhinted = evaluate limit u.unhinted :=
      (evaluate_map Term.step_unhinted limit u).symm
    _ = evaluate limit (t.renamed rename).unhinted := by rw [h]
    _ = (evaluate limit (t.renamed rename)).map Term.unhinted :=
      evaluate_map Term.step_unhinted limit _
    _ = ((evaluate limit t).map (Term.renamed rename)).map Term.unhinted := by
      rw [evaluate_map (Term.step_renamed rename)]

/-- **Names never influence evaluation.**  If a term is, up to hints, another one with its free
variables renamed, perhaps several to the same name, then the evaluations of the two take the same
number of steps, agree on whether they end in a normal form, and stay the same up to hints and the
renaming at every step.  A negative limit counts as zero. -/
theorem evaluate_renamed (rename : String → String) (t u : Term) (h : u.Alike (t.renamed rename))
    (limit : Int) :
    (evaluate limit.toNat u).steps.length = (evaluate limit.toNat t).steps.length ∧
    (evaluate limit.toNat u).normal = (evaluate limit.toNat t).normal ∧
    List.Forall₂ (fun v w => v.Alike (w.renamed rename)) (evaluate limit.toNat u).steps
      (evaluate limit.toNat t).steps := by
  have hmap := map_unhinted_evaluate h limit.toNat
  have hsteps : (evaluate limit.toNat u).steps.map Term.unhinted =
      (evaluate limit.toNat t).steps.map fun w => (w.renamed rename).unhinted := by
    rw [← Trace.steps_map, hmap, Trace.steps_map, Trace.steps_map, List.map_map]
    rfl
  have hlength := congrArg List.length hsteps
  have hnormal := congrArg Trace.normal hmap
  rw [List.length_map, List.length_map] at hlength
  refine ⟨hlength, hnormal, ?_⟩
  rwa [← List.forall₂_eq_eq_eq, List.forall₂_map_left_iff, List.forall₂_map_right_iff] at hsteps

/-- Two free variables become one, and all hints the same; the runs go on side by side. -/
theorem evaluate_renamed_merged :
    let rename : String → String := fun _ => "c"
    let t : Term := .app (.app (.abs "x" (.abs "y" (.app (.bound 1) (.bound 0)))) (.free "a"))
      (.free "b")
    let u : Term := .app (.app (.abs "z" (.abs "z" (.app (.bound 1) (.bound 0)))) (.free "c"))
      (.free "c")
    u.Alike (t.renamed rename) ∧ (evaluate 2 t).result = .app (.free "a") (.free "b") ∧
      (evaluate 2 u).result = .app (.free "c") (.free "c") ∧
      (evaluate 2 u).steps.length = (evaluate 2 t).steps.length ∧
      (evaluate 2 u).normal = (evaluate 2 t).normal ∧
      List.Forall₂ (fun v w => v.Alike (w.renamed rename)) (evaluate 2 u).steps
        (evaluate 2 t).steps := by
  intro rename t u
  have halike : u.Alike (t.renamed rename) := rfl
  exact ⟨halike, rfl, rfl, evaluate_renamed rename t u halike 2⟩

end NormalOrder
