/-!
# Terms of the λ-calculus

A `Term` is written in the locally nameless style.  A bound variable is the number of
abstractions that stand strictly between it and its binder, so `λx -> λy -> x` is
`abs "x" (abs "y" (bound 1))`; a free variable keeps its name.  No bound variable has a name,
hence no substitution can capture one.

An abstraction also carries a *hint*, the name its variable had in the program.  Hints are for
printing only: `Term.Alike` is equality up to hints, decided by `Term.alike`
(`Term.alike_iff`), and it is α-equivalence.
-/

namespace NormalOrder

/-- An occurrence of a variable. -/
inductive Var where
  /-- A variable that no abstraction binds. -/
  | free (name : String)
  /-- A variable bound by the `index`-th enclosing abstraction, counted outwards from zero. -/
  | bound (index : Nat)
  deriving DecidableEq, Repr

/-- A term of the λ-calculus. -/
inductive Term where
  /-- A variable that no abstraction binds. -/
  | free (name : String)
  /-- A variable bound by the `index`-th enclosing abstraction, counted outwards from zero. -/
  | bound (index : Nat)
  /-- An abstraction over `body`, whose variable was called `hint`. -/
  | abs (hint : String) (body : Term)
  /-- The application of `fn` to `arg`. -/
  | app (fn arg : Term)
  deriving DecidableEq, Repr, Inhabited

/-- A variable as a term. -/
def Var.toTerm : Var → Term
  | .free name => .free name
  | .bound index => .bound index

namespace Term

/-- A variable, as a term, is that variable. -/
instance : Coe Var Term := ⟨Var.toTerm⟩

/-- The application of a term to some arguments, from left to right. -/
def applyAll (fn : Term) (args : List Term) : Term := args.foldl app fn

/-- The abstraction over several variables at once, the last of them innermost. -/
def absAll (names : List String) (body : Term) : Term := names.foldr abs body

/-! ### Equality up to hints -/

/-- The same term with every hint blank. -/
def unhinted : Term → Term
  | free name => free name
  | bound index => bound index
  | abs _ body => abs "" body.unhinted
  | app fn arg => app fn.unhinted arg.unhinted

/-- Two terms are alike when they differ in hints at most. -/
def Alike (t u : Term) : Prop := t.unhinted = u.unhinted

/-- Decides whether two terms are alike. -/
def alike : Term → Term → Bool
  | free x, free y => x == y
  | bound i, bound j => i == j
  | abs _ b, abs _ c => alike b c
  | app f a, app g b => alike f g && alike a b
  | _, _ => false

theorem alike_iff (t u : Term) : t.alike u = true ↔ t.Alike u := by
  unfold Alike
  induction t generalizing u with
  | free x => cases u <;> simp [alike, unhinted]
  | bound i => cases u <;> simp [alike, unhinted]
  | abs h b ih => cases u <;> simp [alike, unhinted, ih]
  | app f a ihf iha => cases u <;> simp [alike, unhinted, ihf, iha]

instance (t u : Term) : Decidable (t.Alike u) := decidable_of_iff _ (alike_iff t u)

/-! ### Size and depth -/

/-- The number of nodes of a term. -/
def size : Term → Nat
  | free _ => 1
  | bound _ => 1
  | abs _ body => body.size + 1
  | app fn arg => fn.size + arg.size + 1

/-- The number of nodes on the longest path into a term. -/
def depth : Term → Nat
  | free _ => 1
  | bound _ => 1
  | abs _ body => body.depth + 1
  | app fn arg => max fn.depth arg.depth + 1

/-- Decides whether a term has at most `levels` levels, looking no deeper than that. -/
def fits : Nat → Term → Bool
  | 0, _ => false
  | _ + 1, free _ => true
  | _ + 1, bound _ => true
  | levels + 1, abs _ body => fits levels body
  | levels + 1, app fn arg => fits levels fn && fits levels arg

theorem fits_iff (levels : Nat) (t : Term) : t.fits levels = true ↔ t.depth ≤ levels := by
  induction levels generalizing t with
  | zero => cases t <;> simp [fits, depth]
  | succ n ih =>
    cases t with
    | free x => simp [fits, depth]
    | bound i => simp [fits, depth]
    | abs h b => simp [fits, depth, ih]
    | app f a =>
      simp only [fits, depth, Bool.and_eq_true, ih]
      omega

end Term

end NormalOrder
