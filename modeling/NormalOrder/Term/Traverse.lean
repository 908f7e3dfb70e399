import NormalOrder.Term.Basic

/-!
# Replacing the variables of a term

Every operation on terms that moves under binders replaces variables and leaves the rest of the
tree as it is.  `Term.mapVars` is that traversal for a function, `Term.traverseVars` the same in
a monad, for replacements that can fail.  Both hand each variable, together with the number of
binders crossed on the way to it, to the replacement, from left to right; `Term.occurrences` lists
what they hand over.

A bound variable that refers past the binders of its own term is *loose*.  `Term.shift` adds an
integer to every loose variable and fails on one that would become negative; `Term.lift` is the
case of a natural amount, which cannot fail.  `Term.instantiate image scope` is the body `scope` of
an abstraction with its variable replaced by `image`: an occurrence under `d` binders receives
`image` lifted by `d`, and variables that refer past the removed abstraction lose one.
-/

namespace NormalOrder

namespace Term

/-- The term with each variable `v` replaced by `f v d`, where `d` is `depth` plus the number of
binders around `v`. -/
@[specialize] def mapVars (f : Var → Nat → Term) (depth : Nat) : Term → Term
  | free name => f (.free name) depth
  | bound index => f (.bound index) depth
  | abs hint body => abs hint (body.mapVars f (depth + 1))
  | app fn arg => app (fn.mapVars f depth) (arg.mapVars f depth)

/-- The term with each variable `v` replaced by the result of `f v d`, where `d` is `depth` plus
the number of binders around `v`; variables are handed over from left to right. -/
@[specialize] def traverseVars {m : Type → Type} [Monad m] (f : Var → Nat → m Term)
    (depth : Nat) : Term → m Term
  | free name => f (.free name) depth
  | bound index => f (.bound index) depth
  | abs hint body => do
    let body ← body.traverseVars f (depth + 1)
    pure (abs hint body)
  | app fn arg => do
    let fn ← fn.traverseVars f depth
    let arg ← arg.traverseVars f depth
    pure (app fn arg)

/-- A traversal whose replacements never fail is a map. -/
theorem traverseVars_ok {ε : Type} (f : Var → Nat → Term) (depth : Nat) (t : Term) :
    t.traverseVars (fun v d => (.ok (f v d) : Except ε Term)) depth = .ok (t.mapVars f depth) := by
  induction t generalizing depth with
  | free name => rfl
  | bound index => rfl
  | abs hint body ih => simp only [traverseVars, mapVars, ih]; rfl
  | app fn arg ihf iha => simp only [traverseVars, mapVars, ihf, iha]; rfl

/-- The variables of a term from left to right, each with `depth` plus the number of binders
around it, and then those in `rest`. -/
def occurrences (depth : Nat) : Term → List (Var × Nat) → List (Var × Nat)
  | free name, rest => (.free name, depth) :: rest
  | bound index, rest => (.bound index, depth) :: rest
  | abs _ body, rest => body.occurrences (depth + 1) rest
  | app fn arg, rest => fn.occurrences depth (arg.occurrences depth rest)

/-! ### Indices that may be negative -/

/-- An index below zero, which no bound variable can have. -/
structure NegativeIndex where
  /-- The offending index. -/
  index : Int
  deriving DecidableEq, Repr

namespace NegativeIndex

/-- The complaint about a negative index. -/
def message (e : NegativeIndex) : String :=
  "de Bruijn index must be non-negative, got " ++ toString e.index

end NegativeIndex

/-- The bound variable with a given index, which must not be negative. -/
def ofIndex : Int → Except NegativeIndex Term
  | .ofNat index => .ok (bound index)
  | .negSucc n => .error ⟨.negSucc n⟩

/-! ### Names and binders -/

/-- What a traversal does to the variables it meets. -/
inductive Relabelling where
  /-- Leave every variable alone. -/
  | identity
  /-- Give the free variable `old` the name `new`. -/
  | rename (old new : String)
  /-- Bind the free variable `old` to the binder outside the term. -/
  | close (old : String)
  /-- Free the variable that is bound outside the term, under the name `new`. -/
  | release (new : String)
  deriving DecidableEq, Repr

/-- The replacement of one variable under `depth` binders. -/
def Relabelling.apply (r : Relabelling) (v : Var) (depth : Int) : Except NegativeIndex Term :=
  match r, v with
  | .rename old new, .free name => .ok (free (if name = old then new else name))
  | .close old, .free name => if name = old then ofIndex depth else .ok (free name)
  | .release new, .bound index => .ok (if (index : Int) = depth then free new else bound index)
  | _, v => .ok v.toTerm

/-- The relabelled term, which stands under `depth` binders. -/
def relabel (t : Term) (r : Relabelling) (depth : Int) : Except NegativeIndex Term :=
  t.traverseVars (fun v crossed => r.apply v (depth + crossed)) 0

/-- The variables that relabelling meets under `depth` binders, from left to right, each with all
the binders around it. -/
def visits (t : Term) (depth : Int) : List (Var × Int) :=
  (t.occurrences 0 []).map fun (v, crossed) => (v, depth + crossed)

/-! ### Shifting and instantiation -/

/-- The variable `v`, met under `depth` binders, after `amount` is added if it is loose. -/
def shiftVar (amount : Int) (v : Var) (depth : Nat) : Except NegativeIndex Term :=
  match v with
  | .free name => .ok (free name)
  | .bound index =>
    if depth ≤ index then ofIndex ((index : Int) + amount) else .ok (bound index)

/-- The term with `amount` added to every loose variable. -/
def shift (t : Term) (amount : Int) : Except NegativeIndex Term :=
  if amount = 0 then .ok t else t.traverseVars (shiftVar amount) 0

/-- The variable `v`, met under `depth` binders, after `amount` is added if it is loose. -/
def liftVar (amount : Nat) (v : Var) (depth : Nat) : Term :=
  match v with
  | .free name => free name
  | .bound index => if depth ≤ index then bound (index + amount) else bound index

/-- The term with `amount` added to every loose variable. -/
def lift (t : Term) (amount : Nat) : Term :=
  if amount = 0 then t else t.mapVars (liftVar amount) 0

/-- What becomes of the variable `v`, met under `depth` binders, when the variable of the
enclosing abstraction is replaced by `image`. -/
def instantiateVar (image : Term) (v : Var) (depth : Nat) : Term :=
  match v with
  | .free name => free name
  | .bound index =>
    if index < depth then bound index
    else if index = depth then image.lift depth
    else bound (index - 1)

/-- The body `scope` of an abstraction with its variable replaced by `image`. -/
def instantiate (image scope : Term) : Term := scope.mapVars (instantiateVar image) 0

end Term

end NormalOrder
