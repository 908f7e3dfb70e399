import NormalOrder.Bounded.Refusal
import NormalOrder.Term.Traverse

/-!
# Bounded replacement of variables

Shifting, instantiation and relabelling with a number of levels.  Every node on the way down takes
a level, and a replacement that traverses another term, as instantiation does under binders, goes
on with the levels left at its variable.  A shift by zero looks at no node and takes none.

Each of them follows its plain counterpart (`Term.follows_shiftWithin`,
`Term.follows_instantiateWithin`, `Term.follows_relabelWithin`).
-/

namespace NormalOrder

namespace Term

/-- Does `traverseVars` within `levels` levels; a replacement gets those that are left. -/
@[specialize] def traverseVarsWithin {ε : Type}
    (f : Nat → Var → Nat → Except (Refusal ε) Term) (levels depth : Nat) :
    Term → Except (Refusal ε) Term
  | free name => descend levels fun levels => f levels (.free name) depth
  | bound index => descend levels fun levels => f levels (.bound index) depth
  | abs hint body => descend levels fun levels => do
    let body ← body.traverseVarsWithin f levels (depth + 1)
    pure (abs hint body)
  | app fn arg => descend levels fun levels => do
    let fn ← fn.traverseVarsWithin f levels depth
    let arg ← arg.traverseVarsWithin f levels depth
    pure (app fn arg)

theorem follows_traverseVarsWithin {ε : Type} {f : Nat → Var → Nat → Except (Refusal ε) Term}
    {g : Var → Nat → Except ε Term} (h : ∀ levels v depth, Follows (f levels v depth) (g v depth))
    (levels depth : Nat) (t : Term) :
    Follows (t.traverseVarsWithin f levels depth) (t.traverseVars g depth) := by
  induction t generalizing levels depth with
  | free name => exact .descend (fun n => h n _ _) levels
  | bound index => exact .descend (fun n => h n _ _) levels
  | abs hint body ih =>
    rw [traverseVarsWithin, traverseVars]
    exact .descend (fun n => (ih n (depth + 1)).bind fun body => .ok (abs hint body)) levels
  | app fn arg ihf iha =>
    rw [traverseVarsWithin, traverseVars]
    exact .descend (fun n => (ihf n depth).bind fun fn =>
      (iha n depth).bind fun arg => .ok (app fn arg)) levels

/-! ### Shifting -/

/-- Does `shift` within `levels` levels. -/
def shiftWithin (levels : Nat) (t : Term) (amount : Int) :
    Except (Refusal NegativeIndex) Term :=
  if amount = 0 then .ok t
  else t.traverseVarsWithin (fun _ v depth => (shiftVar amount v depth).mapError .failed) levels 0

theorem follows_shiftWithin (levels : Nat) (t : Term) (amount : Int) :
    Follows (t.shiftWithin levels amount) (t.shift amount) := by
  unfold shiftWithin shift
  split
  · exact .ok t
  · exact follows_traverseVarsWithin (fun _ v depth => .mapError (shiftVar amount v depth))
      levels 0 t

/-- Does `lift` within `levels` levels. -/
def liftWithin (levels : Nat) (t : Term) (amount : Nat) : Except (Refusal Empty) Term :=
  if amount = 0 then .ok t
  else t.traverseVarsWithin (fun _ v depth => .ok (liftVar amount v depth)) levels 0

theorem follows_liftWithin (levels : Nat) (t : Term) (amount : Nat) :
    Follows (t.liftWithin levels amount) (.ok (t.lift amount)) := by
  unfold liftWithin lift
  split
  · exact .ok t
  · rw [← traverseVars_ok]
    exact follows_traverseVarsWithin (fun _ v depth => .ok (liftVar amount v depth)) levels 0 t

/-! ### Instantiation -/

/-- Does `instantiateVar` within `levels` levels. -/
def instantiateVarWithin (image : Term) (levels : Nat) (v : Var) (depth : Nat) :
    Except (Refusal Empty) Term :=
  match v with
  | .free name => .ok (free name)
  | .bound index =>
    if index < depth then .ok (bound index)
    else if index = depth then image.liftWithin levels depth
    else .ok (bound (index - 1))

theorem follows_instantiateVarWithin (image : Term) (levels : Nat) (v : Var) (depth : Nat) :
    Follows (instantiateVarWithin image levels v depth) (.ok (instantiateVar image v depth)) := by
  unfold instantiateVarWithin instantiateVar
  cases v with
  | free name => exact .ok _
  | bound index =>
    dsimp only
    split
    · exact .ok _
    · split
      · exact follows_liftWithin levels image depth
      · exact .ok _

/-- Does `instantiate` within `levels` levels. -/
def instantiateWithin (levels : Nat) (image scope : Term) : Except (Refusal Empty) Term :=
  scope.traverseVarsWithin (instantiateVarWithin image) levels 0

theorem follows_instantiateWithin (levels : Nat) (image scope : Term) :
    Follows (instantiateWithin levels image scope) (.ok (instantiate image scope)) := by
  unfold instantiateWithin instantiate
  rw [← traverseVars_ok]
  exact follows_traverseVarsWithin (follows_instantiateVarWithin image) levels 0 scope

/-! ### Relabelling -/

/-- Does `relabel` within `levels` levels. -/
def relabelWithin (levels : Nat) (t : Term) (r : Relabelling) (depth : Int) :
    Except (Refusal NegativeIndex) Term :=
  t.traverseVarsWithin (fun _ v crossed => (r.apply v (depth + crossed)).mapError .failed) levels 0

theorem follows_relabelWithin (levels : Nat) (t : Term) (r : Relabelling) (depth : Int) :
    Follows (t.relabelWithin levels r depth) (t.relabel r depth) :=
  follows_traverseVarsWithin (fun _ v crossed => .mapError (r.apply v (depth + crossed))) levels 0 t

end Term

end NormalOrder
