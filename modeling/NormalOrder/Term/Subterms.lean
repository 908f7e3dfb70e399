import NormalOrder.Term.Basic

/-!
# Walking through a term

The subterms of a term, its free variables and the check that its bound variables have binders
are computed over a worklist rather than by recursion, so the length of an application spine
costs no stack.

Beside each walk stands its recursive reading: `Term.preorder` for `Term.subterms`,
`Term.freeNames` for `Term.freeVars`, and `Term.WellScoped` for `Term.isWellFormed`.
-/

namespace NormalOrder

namespace Term

/-! ### Recursive readings -/

/-- A term followed by its subterms: the body of an abstraction, or all of the function and then
all of the argument of an application. -/
def preorder : Term → List Term
  | free name => [free name]
  | bound index => [bound index]
  | abs hint body => abs hint body :: body.preorder
  | app fn arg => app fn arg :: (fn.preorder ++ arg.preorder)

/-- The names of the free variables, each occurrence once, from left to right. -/
def freeNames : Term → List String
  | free name => [name]
  | bound _ => []
  | abs _ body => body.freeNames
  | app fn arg => fn.freeNames ++ arg.freeNames

/-- Under `depth` further binders, every bound variable has its binder. -/
def WellScoped (depth : Int) : Term → Prop
  | free _ => True
  | bound index => (index : Int) < depth
  | abs _ body => body.WellScoped (depth + 1)
  | app fn arg => fn.WellScoped depth ∧ arg.WellScoped depth

instance decidableWellScoped (depth : Int) : (t : Term) → Decidable (t.WellScoped depth)
  | free _ => inferInstanceAs (Decidable True)
  | bound index => inferInstanceAs (Decidable ((index : Int) < depth))
  | abs _ body => decidableWellScoped (depth + 1) body
  | app fn arg =>
    have := decidableWellScoped depth fn
    have := decidableWellScoped depth arg
    inferInstanceAs (Decidable (_ ∧ _))

/-! ### Walks over a worklist -/

/-- The number of nodes left to visit. -/
def pending : List Term → Nat
  | [] => 0
  | t :: stack => t.size + pending stack

/-- Visits the terms of a stack and their subterms; `seen` holds those visited before, the latest
first. -/
def visit (seen : List Term) : List Term → List Term
  | [] => seen.reverse
  | free name :: stack => visit (free name :: seen) stack
  | bound index :: stack => visit (bound index :: seen) stack
  | abs hint body :: stack => visit (abs hint body :: seen) (body :: stack)
  | app fn arg :: stack => visit (app fn arg :: seen) (fn :: arg :: stack)
termination_by stack => pending stack
decreasing_by all_goals simp only [pending, size]; omega

/-- A term and all of its subterms, in pre-order. -/
def subterms (t : Term) : List Term := visit [] [t]

/-- The name of a free variable. -/
def freeName? : Term → Option String
  | free name => some name
  | _ => none

/-- The names of the free variables, each once, in the order of their first occurrence. -/
def freeVars (t : Term) : List String := (t.subterms.filterMap freeName?).eraseDups

/-- The names of the free variables in the order of their code points. -/
def sortedFreeVars (t : Term) : List String := t.freeVars.mergeSort fun a b => decide (a ≤ b)

/-- A term without free variables is closed. -/
def isClosed (t : Term) : Bool := t.freeVars.isEmpty

/-- The number of nodes left to check. -/
def pendingAt : List (Term × Int) → Nat
  | [] => 0
  | (t, _) :: stack => t.size + pendingAt stack

/-- Checks the terms of a stack, each with the number of binders around it. -/
def checkScopes : List (Term × Int) → Bool
  | [] => true
  | (free _, _) :: stack => checkScopes stack
  | (bound index, depth) :: stack => decide ((index : Int) < depth) && checkScopes stack
  | (abs _ body, depth) :: stack => checkScopes ((body, depth + 1) :: stack)
  | (app fn arg, depth) :: stack => checkScopes ((arg, depth) :: (fn, depth) :: stack)
termination_by stack => pendingAt stack
decreasing_by all_goals simp only [pendingAt, size]; omega

/-- Decides whether every bound variable has its binder, given `depth` binders around the term. -/
def isWellFormed (t : Term) (depth : Int) : Bool := checkScopes [(t, depth)]

end Term

end NormalOrder
