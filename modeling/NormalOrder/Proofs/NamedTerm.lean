import NormalOrder.Proofs.FreshName
import NormalOrder.Proofs.Hints
import NormalOrder.Proofs.Substitution
import NormalOrder.Surface.Grammar

/-!
# Substitution among named terms

In a `NamedTerm` bound variables have names, so substitution has to take care that it captures
none.  `NamedTerm.Substitutes` gives its rules: a bound variable is renamed to a fresh name
whenever it would capture a free name of the image.  Any fresh name will do;
`NamedTerm.substitute` takes the first one.

`NamedTerm.resolve` turns names into indices, as it is done when a program is read.  Then there is
nothing to capture, and substitution becomes `Term.instantiate` (`instantiate_resolve`).

* Names that are brought into scope but do not occur lift the rest (`resolve_insert`).
* A name that does not occur can be instantiated by anything (`instantiateAt_resolve_of_absent`).
* Substitution under binders is instantiation below them (`Substitutes.instantiateAt_resolve`).
-/

namespace NormalOrder

/-! ### Names and indices -/

namespace Grammar

theorem resolve_cons_self (scope : Scope) (name : String) :
    resolve (name :: scope) name = .bound 0 := by
  simp [resolve, List.idxOf?_cons]

theorem resolve_cons_of_ne {binder name : String} (h : binder ≠ name) (scope : Scope) :
    resolve (binder :: scope) name = (resolve scope name).liftFrom 0 1 := by
  simp only [resolve, List.idxOf?_cons, beq_eq_false_iff_ne.2 h, Bool.false_eq_true, if_false]
  cases scope.idxOf? name with
  | none => rfl
  | some index => exact (Term.liftFrom_bound_of_le _ (Nat.zero_le index)).symm

theorem resolve_append_of_notMem {name : String} {inner : Scope} (h : name ∉ inner)
    (scope : Scope) :
    resolve (inner ++ scope) name = (resolve scope name).liftFrom 0 inner.length := by
  induction inner with
  | nil => exact (Term.liftFrom_zero 0 _).symm
  | cons binder inner ih =>
    rw [List.mem_cons, not_or] at h
    rw [List.cons_append, resolve_cons_of_ne (Ne.symm h.1), ih h.2,
      Term.liftFrom_liftFrom _ _ _ (Nat.le_refl 0) (Nat.zero_le _), List.length_cons]

theorem resolve_append_of_mem {name : String} {inner : Scope} (h : name ∈ inner) :
    ∃ index < inner.length, ∀ scope, resolve (inner ++ scope) name = .bound index := by
  induction inner with
  | nil => cases h
  | cons binder inner ih =>
    by_cases hb : binder = name
    · subst hb
      exact ⟨0, Nat.succ_pos _, fun scope => resolve_cons_self _ _⟩
    · obtain ⟨index, hlt, hindex⟩ := ih ((List.mem_cons.1 h).resolve_left (Ne.symm hb))
      refine ⟨index + 1, Nat.succ_lt_succ hlt, fun scope => ?_⟩
      rw [List.cons_append, resolve_cons_of_ne hb, hindex,
        Term.liftFrom_bound_of_le _ (Nat.zero_le _)]

end Grammar

/-- A term whose bound variables have names. -/
inductive NamedTerm where
  /-- A variable. -/
  | var (name : String)
  /-- An abstraction over the variable `name`. -/
  | lam (name : String) (body : NamedTerm)
  /-- The application of `fn` to `arg`. -/
  | app (fn arg : NamedTerm)
  deriving DecidableEq, Repr

namespace NamedTerm

/-- The names of the free variables. -/
def freeNames : NamedTerm → List String
  | var name => [name]
  | lam name body => body.freeNames.filter (· ≠ name)
  | app fn arg => fn.freeNames ++ arg.freeNames

@[simp] theorem mem_freeNames_lam {x y : String} {body : NamedTerm} :
    x ∈ (lam y body).freeNames ↔ x ∈ body.freeNames ∧ x ≠ y := by
  simp [freeNames]

@[simp] theorem mem_freeNames_app {x : String} {fn arg : NamedTerm} :
    x ∈ (app fn arg).freeNames ↔ x ∈ fn.freeNames ∨ x ∈ arg.freeNames := List.mem_append

/-- The term with indices for its bound variables, in a scope whose innermost name comes first. -/
def resolve (scope : Grammar.Scope) : NamedTerm → Term
  | var name => Grammar.resolve scope name
  | lam name body => .abs name (body.resolve (name :: scope))
  | app fn arg => .app (fn.resolve scope) (arg.resolve scope)

/-! ### Substitution -/

/-- `Substitutes x image t u` says that `u` is `t` with `image` put for the free variable `x`,
without capturing a free variable of `image`. -/
inductive Substitutes : String → NamedTerm → NamedTerm → NamedTerm → Prop where
  /-- The variable itself. -/
  | hit (x : String) (image : NamedTerm) : Substitutes x image (var x) image
  /-- Another variable. -/
  | miss {x y : String} (image : NamedTerm) (hne : y ≠ x) : Substitutes x image (var y) (var y)
  /-- Both parts of an application. -/
  | app {x : String} {image fn fn' arg arg' : NamedTerm} (hfn : Substitutes x image fn fn')
      (harg : Substitutes x image arg arg') : Substitutes x image (app fn arg) (app fn' arg')
  /-- An abstraction in which the variable is not free: it binds the variable itself, or the
  variable does not occur. -/
  | absent {x y : String} (image : NamedTerm) {body : NamedTerm}
      (habsent : x ∉ (lam y body).freeNames) : Substitutes x image (lam y body) (lam y body)
  /-- An abstraction that captures nothing. -/
  | under {x y : String} {image body body' : NamedTerm} (hne : y ≠ x)
      (hoccurs : x ∈ body.freeNames) (hsafe : y ∉ image.freeNames)
      (hbody : Substitutes x image body body') : Substitutes x image (lam y body) (lam y body')
  /-- An abstraction that would capture: its variable gets a fresh name first. -/
  | rename {x y z : String} {image body mid body' : NamedTerm} (hne : y ≠ x)
      (hoccurs : x ∈ body.freeNames) (hcaptures : y ∈ image.freeNames)
      (himage : z ∉ image.freeNames) (hfresh : z ∉ body.freeNames)
      (hmid : Substitutes y (var z) body mid) (hbody : Substitutes x image mid body') :
      Substitutes x image (lam y body) (lam z body')

/-- The number of nodes of a term. -/
def size : NamedTerm → Nat
  | var _ => 1
  | lam _ body => body.size + 1
  | app fn arg => fn.size + arg.size + 1

/-- Substitution in a term of at most `nodes` nodes. -/
def substituteWithin : Nat → String → NamedTerm → NamedTerm → NamedTerm
  | 0, _, _, t => t
  | _ + 1, x, image, var y => if y = x then image else var y
  | nodes + 1, x, image, app fn arg =>
    app (substituteWithin nodes x image fn) (substituteWithin nodes x image arg)
  | nodes + 1, x, image, lam y body =>
    if x ∈ (lam y body).freeNames then
      if y ∈ image.freeNames then
        let z := freshName y (image.freeNames ++ body.freeNames)
        lam z (substituteWithin nodes x image (substituteWithin nodes y (var z) body))
      else lam y (substituteWithin nodes x image body)
    else lam y body

/-- The term with `image` put for the free variable `x`. -/
def substitute (t : NamedTerm) (x : String) (image : NamedTerm) : NamedTerm :=
  substituteWithin t.size x image t

/-- Putting a variable for a variable keeps the size, also where bound variables are renamed. -/
theorem Substitutes.size_eq {x : String} {image t u : NamedTerm} (h : Substitutes x image t u)
    (himage : ∃ z, image = var z) : u.size = t.size := by
  induction h with
  | hit x image =>
    obtain ⟨z, rfl⟩ := himage
    rfl
  | miss _ _ => rfl
  | app _ _ ihf iha => rw [size, size, ihf himage, iha himage]
  | absent _ _ => rfl
  | under _ _ _ _ ih => rw [size, size, ih himage]
  | rename _ _ _ _ _ _ _ ihm ihb => rw [size, size, ihb himage, ihm ⟨_, rfl⟩]

theorem substitutes_substituteWithin {nodes : Nat} {t : NamedTerm} (h : t.size ≤ nodes)
    (x : String) (image : NamedTerm) :
    Substitutes x image t (substituteWithin nodes x image t) := by
  induction nodes generalizing t x image with
  | zero => cases t <;> simp [size] at h
  | succ nodes ih =>
    cases t with
    | var y =>
      rw [substituteWithin]
      split_ifs with hy
      · subst hy; exact .hit y image
      · exact .miss image hy
    | app fn arg =>
      simp only [size] at h
      exact .app (ih (by omega) x image) (ih (by omega) x image)
    | lam y body =>
      simp only [size] at h
      rw [substituteWithin]
      split_ifs with hoccurs hcaptures
      · rw [mem_freeNames_lam] at hoccurs
        have hz := freshName_notMem y (image.freeNames ++ body.freeNames)
        rw [List.mem_append, not_or] at hz
        have hmid := ih (t := body) (by omega) y
          (var (freshName y (image.freeNames ++ body.freeNames)))
        have hsize := hmid.size_eq ⟨_, rfl⟩
        exact .rename (Ne.symm hoccurs.2) hoccurs.1 hcaptures hz.1 hz.2 hmid
          (ih (by omega) x image)
      · rw [mem_freeNames_lam] at hoccurs
        exact .under (Ne.symm hoccurs.2) hoccurs.1 hcaptures (ih (by omega) x image)
      · exact .absent image hoccurs

theorem substitutes_substitute (t : NamedTerm) (x : String) (image : NamedTerm) :
    Substitutes x image t (t.substitute x image) :=
  substitutes_substituteWithin (Nat.le_refl _) x image

/-! ### Names that do not occur -/

/-- Names brought into scope between two scopes lift the term, if they do not occur in it or are
hidden by the inner scope. -/
theorem resolve_insert (t : NamedTerm) (inner names scope : Grammar.Scope)
    (h : ∀ y ∈ names, y ∈ t.freeNames → y ∈ inner) :
    t.resolve (inner ++ (names ++ scope)) =
      (t.resolve (inner ++ scope)).liftFrom inner.length names.length := by
  induction t generalizing inner with
  | var x =>
    simp only [resolve]
    by_cases hx : x ∈ inner
    · obtain ⟨index, hlt, hindex⟩ := Grammar.resolve_append_of_mem hx
      rw [hindex, hindex, Term.liftFrom_bound_of_lt _ hlt]
    · have hn : x ∉ names := fun hm => hx (h x hm (List.mem_singleton.2 rfl))
      rw [Grammar.resolve_append_of_notMem hx, Grammar.resolve_append_of_notMem hx,
        Grammar.resolve_append_of_notMem hn,
        Term.liftFrom_liftFrom _ _ _ (Nat.le_refl 0) (Nat.zero_le _),
        Term.liftFrom_liftFrom _ _ _ (Nat.zero_le _) (Nat.le_of_eq (Nat.zero_add _).symm),
        Nat.add_comm]
  | lam y body ih =>
    have hbody := ih (y :: inner) fun z hz hz' => by
      by_cases hzy : z = y
      · exact List.mem_cons.2 (.inl hzy)
      · exact List.mem_cons_of_mem y (h z hz (mem_freeNames_lam.2 ⟨hz', hzy⟩))
    rw [resolve, resolve, Term.liftFrom_abs]
    exact congrArg (Term.abs y) hbody
  | app fn arg ihf iha =>
    rw [resolve, resolve, Term.liftFrom_app,
      ihf inner fun z hz hz' => h z hz (mem_freeNames_app.2 (.inl hz')),
      iha inner fun z hz hz' => h z hz (mem_freeNames_app.2 (.inr hz'))]

/-- A name that is not free in a term, or is hidden by the inner scope, can be instantiated by
anything. -/
theorem instantiateAt_resolve_of_absent (t : NamedTerm) (inner : Grammar.Scope) (x : String)
    (scope : Grammar.Scope) (image : Term) (h : x ∈ t.freeNames → x ∈ inner) :
    (t.resolve (inner ++ x :: scope)).instantiateAt inner.length image =
      t.resolve (inner ++ scope) := by
  have hinsert := t.resolve_insert inner [x] scope fun y hy hfree => by
    rw [List.mem_singleton] at hy
    subst hy
    exact h hfree
  rw [List.singleton_append, List.length_singleton] at hinsert
  rw [hinsert, Term.instantiateAt_liftFrom_one]

/-! ### Substitution is instantiation -/

/-- Renaming a bound variable changes no index: if `z` does not occur, then `body` in the scope of
`y` and `mid` in the scope of `z` are the same term. -/
theorem resolve_alike_of_rename {y z : String} {body mid : NamedTerm} (hz : z ∉ body.freeNames)
    (scope : Grammar.Scope)
    (h : (Term.instantiate (resolve (z :: scope) (var z)) (body.resolve (y :: z :: scope))).Alike
      (mid.resolve (z :: scope))) :
    (body.resolve (y :: scope)).Alike (mid.resolve (z :: scope)) := by
  have hinsert := body.resolve_insert [y] [z] scope fun w hw hfree => by
    rw [List.mem_singleton] at hw
    subst hw
    exact absurd hfree hz
  simp only [List.singleton_append, List.length_singleton] at hinsert
  rw [hinsert, resolve, Grammar.resolve_cons_self, Term.instantiate_eq_instantiateAt,
    Term.instantiateAt_liftFrom_bound] at h
  exact h

/-- **Substitution under binders is instantiation below them**, as long as these binders are not
the variable that is replaced and capture nothing of the image. -/
theorem Substitutes.instantiateAt_resolve {x : String} {image t u : NamedTerm}
    (h : Substitutes x image t u) (inner scope : Grammar.Scope) (hx : x ∉ inner)
    (hsafe : ∀ y ∈ inner, y ∉ image.freeNames) :
    ((t.resolve (inner ++ x :: scope)).instantiateAt inner.length (image.resolve scope)).Alike
      (u.resolve (inner ++ scope)) := by
  induction h generalizing inner scope with
  | hit x image =>
    have himage := image.resolve_insert [] inner scope fun y hy hfree => absurd hfree (hsafe y hy)
    rw [List.nil_append, List.nil_append, List.length_nil] at himage
    rw [himage, resolve, Grammar.resolve_append_of_notMem hx, Grammar.resolve_cons_self,
      Term.liftFrom_bound_of_le _ (Nat.zero_le _), Nat.zero_add, Term.instantiateAt_bound_self]
  | @miss x y image hne =>
    rw [instantiateAt_resolve_of_absent]
    intro hmem
    exact absurd (List.mem_singleton.1 hmem).symm hne
  | app _ _ ihf iha => exact .app (ihf inner scope hx hsafe) (iha inner scope hx hsafe)
  | absent image habsent =>
    rw [instantiateAt_resolve_of_absent]
    exact fun hmem => absurd hmem habsent
  | @under x y image body body' hne _ hy _ ih =>
    refine .abs y y (ih (y :: inner) scope ?_ ?_)
    · rw [List.mem_cons, not_or]
      exact ⟨Ne.symm hne, hx⟩
    · exact List.forall_mem_cons.2 ⟨hy, hsafe⟩
  | @rename x y z image body mid body' _ hoccurs _ himage hfresh _ _ ihm ihb =>
    have hzx : z ≠ x := by
      rintro rfl
      exact hfresh hoccurs
    -- renaming the variable is a substitution outside all binders
    have hmid := resolve_alike_of_rename hfresh (inner ++ x :: scope)
      (ihm [] (z :: (inner ++ x :: scope)) List.not_mem_nil (fun _ h => absurd h List.not_mem_nil))
    refine .abs y z ((hmid.mapVars _ (inner.length + 1)).trans (ihb (z :: inner) scope ?_ ?_))
    · rw [List.mem_cons, not_or]
      exact ⟨Ne.symm hzx, hx⟩
    · exact List.forall_mem_cons.2 ⟨himage, hsafe⟩

/-- **Contraction of terms with indices is capture-avoiding substitution of named terms.**  In
every scope, the body `t` of an abstraction over `x`, instantiated by `image`, is what any
substitution of `image` for `x` in `t` stands for; and there is such a substitution. -/
theorem instantiate_resolve (t image : NamedTerm) (x : String) (scope : Grammar.Scope) :
    Substitutes x image t (t.substitute x image) ∧
      ∀ u, Substitutes x image t u →
        (Term.instantiate (image.resolve scope) (t.resolve (x :: scope))).Alike
          (u.resolve scope) := by
  refine ⟨t.substitutes_substitute x image, fun u hu => ?_⟩
  exact hu.instantiateAt_resolve [] scope List.not_mem_nil fun _ h => absurd h List.not_mem_nil

/-- The bound `y` would capture the image; any fresh name will do in its place. -/
theorem instantiate_resolve_capture :
    let t : NamedTerm := .lam "y" (.app (.var "x") (.var "y"))
    let u : NamedTerm := .lam "z" (.app (.var "y") (.var "z"))
    Substitutes "x" (.var "y") t u ∧
      (Term.instantiate ((NamedTerm.var "y").resolve ["y"]) (t.resolve ["x", "y"])).Alike
        (u.resolve ["y"]) := by
  intro t u
  have hsub : Substitutes "x" (.var "y") t u :=
    .rename (by decide) (by decide) (by decide) (by decide) (by decide)
      (.app (.miss _ (by decide)) (.hit _ _)) (.app (.hit _ _) (.miss _ (by decide)))
  exact ⟨hsub, (instantiate_resolve t (.var "y") "x" ["y"]).2 u hsub⟩

end NamedTerm

end NormalOrder
