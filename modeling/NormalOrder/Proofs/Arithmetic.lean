import Mathlib.Logic.Function.Iterate
import NormalOrder.Proofs.Evaluation
import NormalOrder.Proofs.NamedProgram
import NormalOrder.Proofs.Preservation
import NormalOrder.Proofs.Printing
import NormalOrder.Proofs.Unbound

/-!
# Computing with numerals

The numeral `n`, applied to any two terms, becomes in two steps the first one, applied `n` times to
the second (`Term.numeral_iterates`).  The first step moves the function below the inner binder of
the numeral, and lifts it there; the second takes the binder away, and the lift with it.

The function `λm n f x -> m f (n f x)` therefore adds.  Its two arguments take a step each.  Then
each numeral is applied to the variable `f` and takes two steps more, below the binders of `f` and
`x` and, for the second one, in the innermost argument of the first one's applications of `f`.
These are no redexes (`Term.step_iterate_bound`), so the sum of any two numerals is reached in six
contractions (`reaches_sum`).  `evaluate_addition` says so of the program, from its text on.
-/

namespace NormalOrder

open Grammar

namespace Term

/-! ### Iterated application -/

theorem spine_eq_iterate (inner : Term) (n : Nat) : spine inner n = (app (bound 1))^[n] inner := by
  induction n generalizing inner with
  | zero => rfl
  | succ n ih => rw [spine, ih, Function.iterate_succ_apply]

theorem instantiateAt_iterate (depth n : Nat) (image fn arg : Term) :
    ((app fn)^[n] arg).instantiateAt depth image =
      (app (fn.instantiateAt depth image))^[n] (arg.instantiateAt depth image) := by
  induction n with
  | zero => rfl
  | succ n ih =>
    rw [Function.iterate_succ_apply', Function.iterate_succ_apply', instantiateAt_app, ih]

/-- A variable is no redex, so that a step of its applications is one in the innermost argument. -/
theorem step_iterate_bound (index n : Nat) (arg : Term) :
    ((app (bound index))^[n] arg).step = arg.step.map (app (bound index))^[n] := by
  induction n with
  | zero => exact Option.map_id_apply.symm
  | succ n ih =>
    rw [Function.iterate_succ_apply', step_app (by simp), ih, Function.iterate_succ',
      Option.map_map]
    rfl

/-! ### Numerals -/

/-- The function that applies `fn` to its argument `n` times. -/
def iterator (n : Nat) (fn : Term) : Term := abs "x" ((app (fn.lift 1))^[n] (bound 0))

/-- Below the inner binder of the numeral, the function is lifted in each of its copies. -/
theorem step_numeral_app (n : Nat) (fn : Term) :
    (app (numeral n) fn).step = some (iterator n fn) := by
  rw [numeral, step, instantiate_eq_instantiateAt, instantiateAt_abs, spine_eq_iterate,
    instantiateAt_iterate, instantiateAt_bound_self, instantiateAt_bound_of_lt _ (Nat.zero_lt_one),
    iterator, lift_eq_liftFrom]

/-- The argument takes away the binder, and the lift with it. -/
theorem step_iterator_app (n : Nat) (fn arg : Term) :
    (app (iterator n fn) arg).step = some ((app fn)^[n] arg) := by
  rw [iterator, step, instantiate_eq_instantiateAt, instantiateAt_iterate, lift_eq_liftFrom,
    instantiateAt_liftFrom_one, instantiateAt_bound_self, liftFrom_zero]

theorem step_numeral_app_app (n : Nat) (fn arg : Term) :
    (app (app (numeral n) fn) arg).step = some (app (iterator n fn) arg) := by
  rw [step_app (by simp), step_numeral_app]

/-- **A numeral iterates.**  Two steps lead from the numeral `n`, applied to any two terms, to `n`
applications of the first one to the second. -/
theorem numeral_iterates (n : Nat) (fn arg : Term) :
    ∃ u, ((numeral n).applyAll [fn, arg]).step = some u ∧ u.step = some ((app fn)^[n] arg) :=
  ⟨app (iterator n fn) arg, step_numeral_app_app n fn arg, step_iterator_app n fn arg⟩

/-! ### Addition -/

theorem WellScoped.instantiateAt_eq {t : Term} (h : t.WellScoped 0) (depth : Nat) (image : Term) :
    t.instantiateAt depth image = t := by
  calc
    t.instantiateAt depth image = (t.liftFrom 0 (depth + 1)).instantiateAt depth image := by
      rw [h.liftFrom_eq (depth + 1)]
    _ = t.liftFrom 0 depth := instantiateAt_liftFrom image t (Nat.zero_le depth) (by omega)
    _ = t := h.liftFrom_eq depth

/-- The function that adds two numerals: `λm n f x -> m f (n f x)`. -/
def adder : Term :=
  absAll ["m", "n", "f", "x"]
    (app (app (bound 3) (bound 1)) (app (app (bound 2) (bound 1)) (bound 0)))

/-- The function that adds `m` to its argument. -/
def adding (m : Term) : Term :=
  absAll ["n", "f", "x"] (app (app m (bound 1)) (app (app (bound 2) (bound 1)) (bound 0)))

/-- The sum of `m` and `n`, below the binders of its function and its argument. -/
def sumBody (m n : Term) : Term := app (app m (bound 1)) (app (app n (bound 1)) (bound 0))

/-- A first addend without loose variables is not changed by the binders that it is moved below. -/
theorem step_adder_app {m : Term} (hm : m.WellScoped 0) :
    (app adder m).step = some (adding m) := by
  have himage : (bound 3).instantiateAt 3 m = m :=
    (instantiateAt_bound_self 3 m).trans (hm.liftFrom_eq 3)
  show some (absAll ["n", "f", "x"] (app (app ((bound 3).instantiateAt 3 m) _) _)) = _
  rw [himage]
  rfl

/-- Neither is a second one, and nothing is put into the first. -/
theorem step_adding_app {m n : Term} (hm : m.WellScoped 0) (hn : n.WellScoped 0) :
    (app (adding m) n).step = some (absAll ["f", "x"] (sumBody m n)) := by
  have himage : (bound 2).instantiateAt 2 n = n :=
    (instantiateAt_bound_self 2 n).trans (hn.liftFrom_eq 2)
  show some (absAll ["f", "x"]
    (app (app (m.instantiateAt 2 n) _) (app (app ((bound 2).instantiateAt 2 n) _) _))) = _
  rw [himage, hm.instantiateAt_eq]
  rfl

end Term

open Term

/-! ### How many contractions a trace makes -/

/-- The trace makes `k` contractions and ends in `u`, a normal form. -/
structure Trace.Reaches (trace : Trace) (k : Nat) (u : Term) : Prop where
  /-- The number of contractions. -/
  length : trace.later.length = k
  /-- The last term is known to be a normal form. -/
  normal : trace.normal = true
  /-- The last term. -/
  result : trace.result = u

namespace Trace.Reaches

variable {trace : Trace} {k : Nat} {u : Term}

theorem after (h : trace.Reaches k u) (t : Term) : (Trace.after t trace).Reaches (k + 1) u where
  length := congrArg Nat.succ h.length
  normal := h.normal
  result := (Trace.result_after t trace).trans h.result

theorem map (h : trace.Reaches k u) (f : Term → Term) : (trace.map f).Reaches k (f u) where
  length := (List.length_map f).trans h.length
  normal := h.normal
  result := by
    rw [← h.result, Trace.result, Trace.result, Trace.map]
    exact List.getLastD_map

theorem normalForm?_eq (h : trace.Reaches k u) : trace.normalForm? = some u := by
  rw [Trace.normalForm?, h.normal, if_pos rfl, h.result]

theorem not_hasRedex {t : Term} {limit : Nat} (h : (evaluate limit t).Reaches k u) :
    ¬u.HasRedex := by
  rw [← step_eq_none_iff, ← h.result, ← Option.isNone_iff_eq_none, ← evaluate_normal_eq]
  exact h.normal

end Trace.Reaches

theorem reaches_of_normal {t : Term} (h : t.step = none) (limit : Nat) :
    (evaluate limit t).Reaches 0 t := by
  rw [evaluate_of_normal h]
  exact ⟨rfl, rfl, rfl⟩

theorem reaches_of_step {t u v : Term} {k limit : Nat} (h : t.step = some u)
    (hu : (evaluate limit u).Reaches k v) : (evaluate (limit + 1) t).Reaches (k + 1) v := by
  rw [evaluate_of_step h]
  exact hu.after t

theorem reaches_numeral_app {n k limit : Nat} {fn arg u : Term}
    (h : (evaluate limit ((app fn)^[n] arg)).Reaches k u) :
    (evaluate (limit + 2) (app (app (numeral n) fn) arg)).Reaches (k + 2) u :=
  reaches_of_step (step_numeral_app_app n fn arg) (reaches_of_step (step_iterator_app n fn arg) h)

theorem reaches_iterate_bound {n k limit : Nat} (index : Nat) {arg u : Term}
    (h : (evaluate limit arg).Reaches k u) :
    (evaluate limit ((app (bound index))^[n] arg)).Reaches k ((app (bound index))^[n] u) := by
  rw [evaluate_map (step_iterate_bound index n)]
  exact h.map _

theorem reaches_abs {k limit : Nat} (hint : String) {body u : Term}
    (h : (evaluate limit body).Reaches k u) :
    (evaluate limit (abs hint body)).Reaches k (abs hint u) := by
  rw [evaluate_map (f := abs hint) (fun _ => rfl)]
  exact h.map _

/-- **The sum of two numerals is reached in six contractions**: two for the arguments, two for each
numeral. -/
theorem reaches_sum (m n limit : Nat) :
    (evaluate (limit + 6) (adder.applyAll [numeral m, numeral n])).Reaches 6 (numeral (m + n)) := by
  have hm : (numeral m).WellScoped 0 := wellScoped_spine m 0
  have hn : (numeral n).WellScoped 0 := wellScoped_spine n 0
  have hfirst : (adder.applyAll [numeral m, numeral n]).step =
      some (app (adding (numeral m)) (numeral n)) := by
    show (app (app adder (numeral m)) (numeral n)).step = _
    rw [step_app (by simp), step_adder_app hm]
  -- From the inside out: the spine of `n`, then `n`, then the spine of `m` around it, then `m`.
  have hspine : (evaluate limit ((app (bound 1))^[n] (bound 0))).Reaches 0 _ :=
    reaches_iterate_bound 1 (reaches_of_normal rfl limit)
  have hbody : (evaluate (limit + 4) (sumBody (numeral m) (numeral n))).Reaches 4 _ :=
    reaches_numeral_app (reaches_iterate_bound 1 (reaches_numeral_app hspine))
  rw [← Function.iterate_add_apply, ← spine_eq_iterate] at hbody
  exact reaches_of_step hfirst
    (reaches_of_step (step_adding_app hm hn) (reaches_abs "f" (reaches_abs "x" hbody)))

/-! ### The program -/

/-- The derivation of a function applied to two arguments. -/
def callDerivation (fn first second : Derivation .atom) : Derivation .term :=
  .ofApplication (.application fn (.argument first (.argument second .noArguments)))

/-- The derivation of a variable. -/
def variableDerivation (name : String) : Derivation .atom := .identifier (.spelled name)

/-- The derivation of `λm n f x -> m f (n f x)`. -/
def adderDerivation : Derivation .term :=
  .ofAbstraction (.abstraction (.spelled "λ") (.spelled "m")
    [.spelled "n", .spelled "f", .spelled "x"] (.spelled "->")
    (callDerivation (variableDerivation "m") (variableDerivation "f")
      (callDerivation (variableDerivation "n") (variableDerivation "f")
        (variableDerivation "x")).inBrackets))

/-- The derivation of the sum of the numbers with the given digits. -/
def sumDerivation (m n : String) : Derivation .term :=
  callDerivation adderDerivation.inBrackets (.natural (.spelled m)) (.natural (.spelled n))

theorem meaning_sumDerivation (m n : String) : (sumDerivation m n).meaning [] =
    adder.applyAll [numeral (decimalValue m), numeral (decimalValue n)] := rfl

theorem written_adderDerivation : Written "λm n f x -> m f (n f x)" adderDerivation.tokens := by
  have hm : Written "m" _ := .identifier (isIdentifier_of_letter 'm' rfl (fun _ => rfl) rfl)
  have hn : Written "n" _ := .identifier (isIdentifier_of_letter 'n' rfl (fun _ => rfl) rfl)
  have hf : Written "f" _ := .identifier isIdentifier_f
  have hx : Written "x" _ := .identifier isIdentifier_x
  have hinner := ((hn.space_append hf).space_append hx).bracketed
  have hbody := ((hm.space_append hf).space_append hinner).arrow
  have hbinders := hm.space_append (hn.space_append (hf.space_append (hx.space_append hbody)))
  have hadder := hbinders.lambda
  simp only [String.reduceAppend] at hadder
  exact hadder

theorem written_sumDerivation (m n : Nat) :
    Written ("(λm n f x -> m f (n f x)) " ++ toString m ++ " " ++ toString n)
      (sumDerivation (toString m) (toString n)).tokens := by
  have hsum :=
    (written_adderDerivation.bracketed.space_append (.natural m)).space_append (.natural n)
  simp only [String.reduceAppend] at hsum
  exact hsum

theorem numbersFit_sumDerivation {m n : String} (hm : m.length ≤ Text.Integer.maxDigits)
    (hn : n.length ≤ Text.Integer.maxDigits) : NumbersFit (sumDerivation m n).tokens := by
  have hadder : NumbersFit adderDerivation.tokens := by
    unfold NumbersFit
    decide
  refine numbersFit_append.2 ⟨hadder.inBrackets, ?_⟩
  exact numbersFit_cons.2
    ⟨fun _ => hm, numbersFit_cons.2 ⟨fun _ => hn, List.forall_mem_nil _⟩⟩

/-- **Addition in the calculus adds.**  The program that applies `λm n f x -> m f (n f x)` to two
numbers, with no more digits than are read, reaches a normal form after six contractions, whatever
the numbers are, and the normal form is the numeral of their sum. -/
theorem evaluate_addition (m n limit : Nat) (hm : (toString m).length ≤ Text.Integer.maxDigits)
    (hn : (toString n).length ≤ Text.Integer.maxDigits) (hlimit : 6 ≤ limit) :
    ∃ t, parse ("(λm n f x -> m f (n f x)) " ++ toString m ++ " " ++ toString n) = .ok t ∧
      (evaluate limit t).later.length = 6 ∧ (evaluate limit t).normal = true ∧
      ∃ u, (evaluate limit t).normalForm? = some u ∧ ¬u.HasRedex ∧ u.numeral? = some (m + n) := by
  have hparse := (written_sumDerivation m n).parse_eq_ok (numbersFit_sumDerivation hm hn)
  rw [meaning_sumDerivation, decimalValue_toString, decimalValue_toString] at hparse
  obtain ⟨fewer, rfl⟩ : ∃ fewer, limit = fewer + 6 := ⟨limit - 6, by omega⟩
  have hreaches := reaches_sum m n fewer
  exact ⟨_, hparse, hreaches.length, hreaches.normal, _, hreaches.normalForm?_eq,
    hreaches.not_hasRedex, numeral?_eq_some_iff.2 (.refl _)⟩

/-- The first number is zero, and its numeral drops its function. -/
theorem evaluate_addition_zero :
    (toString 0).length ≤ Text.Integer.maxDigits ∧ (toString 12).length ≤ Text.Integer.maxDigits ∧
      ∃ t, parse "(λm n f x -> m f (n f x)) 0 12" = .ok t ∧ (evaluate 6 t).later.length = 6 ∧
        (evaluate 6 t).normal = true ∧
        ∃ u, (evaluate 6 t).normalForm? = some u ∧ ¬u.HasRedex ∧ u.numeral? = some 12 := by
  have hzero : (toString 0).length ≤ Text.Integer.maxDigits := by decide
  have htwelve : (toString 12).length ≤ Text.Integer.maxDigits := by decide
  exact ⟨hzero, htwelve, evaluate_addition 0 12 6 hzero htwelve (Nat.le_refl 6)⟩

end NormalOrder
