import NormalOrder.Bounded.Refusal
import NormalOrder.Term.Traverse

/-!
# Bounded comparison

Two terms are compared from left to right, down to the first difference.  Putting them into a set
looks at all of both first.

Two results of one step have much in common, and a comparison does not look at what they share.  A
step shares with its term all that it leaves as it is: the terms beside the way to the redex, an
argument that is moved under no binder, and every subterm in which no variable changes.  The rest
is new.  `Term.stepRenewal` is the number of new levels at the top of the result, on the way with
the most of them.
-/

namespace NormalOrder

/-! ### What a step builds anew -/

namespace Term

/-- The new levels of an application whose parts have these; none if both parts are left as they
are. -/
def renewalOfParts : Option Nat → Option Nat → Option Nat
  | none, none => none
  | fn, arg => some (max (fn.getD 0) (arg.getD 0) + 1)

/-- The new levels of a term whose variables are replaced, if any of them is; `f v d` is the number
of new levels that replace the variable `v` under `d` binders, if it changes. -/
@[specialize] def renewal (f : Var → Nat → Option Nat) (depth : Nat) : Term → Option Nat
  | free name => f (.free name) depth
  | bound index => f (.bound index) depth
  | abs _ body => (body.renewal f (depth + 1)).map (· + 1)
  | app fn arg => renewalOfParts (fn.renewal f depth) (arg.renewal f depth)

/-- The new levels of `lift`: a variable changes if it is loose. -/
def liftRenewal (t : Term) (amount : Nat) : Option Nat :=
  if amount = 0 then none
  else t.renewal (fun v depth =>
    match v with
    | .free _ => none
    | .bound index => if depth ≤ index then some 1 else none) 0

/-- The new levels of `instantiate`: `image` itself is not new, unless it is lifted. -/
def instantiateRenewal (image scope : Term) : Option Nat :=
  scope.renewal (fun v depth =>
    match v with
    | .free _ => none
    | .bound index =>
      if index < depth then none
      else if index = depth then some ((image.liftRenewal depth).getD 0)
      else some 1) 0

/-- The new levels of `step`, if there is a redex. -/
def stepRenewal : Term → Option Nat
  | free _ => none
  | bound _ => none
  | abs _ body => body.stepRenewal.map (· + 1)
  | app (abs _ body) arg => some ((instantiateRenewal arg body).getD 0)
  | app fn arg =>
    match fn.stepRenewal with
    | some levels => some (levels + 1)
    | none => arg.stepRenewal.map (· + 1)

/-! ### Comparison -/

/-- Does `alike` within `levels` levels. -/
def alikeWithin (levels : Nat) : Term → Term → Except (Refusal Empty) Bool
  | free x, free y => .ok (x == y)
  | bound i, bound j => .ok (i == j)
  | abs _ b, abs _ c => descend levels fun levels => alikeWithin levels b c
  | app f a, app g b => descend levels fun levels => do
    let same ← alikeWithin levels f g
    if same then alikeWithin levels a b else pure false
  | _, _ => .ok false

theorem follows_alikeWithin (levels : Nat) (t u : Term) :
    Follows (t.alikeWithin levels u) (.ok (t.alike u)) := by
  induction t generalizing levels u with
  | free x => cases u <;> exact .ok _
  | bound i => cases u <;> exact .ok _
  | abs hint b ih =>
    cases u with
    | abs hint' c => exact .descend (fun n => ih n c) levels
    | _ => exact .ok false
  | app f a ihf iha =>
    cases u with
    | app g b =>
      refine .descend (fun n => ?_) levels
      obtain h | h := ihf n g <;> rw [h]
      · exact .inl rfl
      · rw [alike]
        cases f.alike g with
        | true => exact iha n b
        | false => exact .ok false
    | _ => exact .ok false

/-- The number of different terms among two, each of at most `levels` levels. -/
def distinctWithin (levels : Nat) (t u : Term) : Except (Refusal Empty) Nat :=
  if t.fits levels && u.fits levels then .ok (if t.alike u then 1 else 2) else .error .tooDeep

/-- Whether two results of the same step are alike.  They always are; finding it out takes a level
for each level that the step builds anew. -/
def reductsAlikeWithin (levels : Nat) (t : Term) : Except (Refusal Empty) Bool :=
  if t.stepRenewal.getD 0 ≤ levels then .ok true else .error .tooDeep

end Term

end NormalOrder
