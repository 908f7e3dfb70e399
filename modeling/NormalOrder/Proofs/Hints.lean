import NormalOrder.Term.Traverse

/-!
# Terms up to hints

`Term.Alike` is an equivalence that the constructors keep, whatever hints they carry, and so does
every replacement of variables (`Alike.mapVars`).
-/

namespace NormalOrder

namespace Term

/-- The hints of the abstractions of a term, from left to right. -/
def hints : Term → List String
  | free _ => []
  | bound _ => []
  | abs hint body => hint :: body.hints
  | app fn arg => fn.hints ++ arg.hints

namespace Alike

variable {t u v : Term}

@[refl] theorem refl (t : Term) : t.Alike t := rfl

theorem symm (h : t.Alike u) : u.Alike t := Eq.symm h

theorem trans (h : t.Alike u) (h' : u.Alike v) : t.Alike v := Eq.trans h h'

theorem abs {body body' : Term} (hint hint' : String) (h : body.Alike body') :
    (Term.abs hint body).Alike (Term.abs hint' body') :=
  congrArg (Term.abs "") h

theorem app {fn fn' arg arg' : Term} (hfn : fn.Alike fn') (harg : arg.Alike arg') :
    (Term.app fn arg).Alike (Term.app fn' arg') := by
  rw [Alike, unhinted, unhinted, hfn, harg]

theorem mapVars (h : t.Alike u) (f : Var → Nat → Term) (depth : Nat) :
    (t.mapVars f depth).Alike (u.mapVars f depth) := by
  induction t generalizing u depth with
  | free name =>
    cases u with
    | free name' => cases h; rfl
    | _ => cases h
  | bound index =>
    cases u with
    | bound index' => cases h; rfl
    | _ => cases h
  | abs hint body ih =>
    cases u with
    | abs hint' body' =>
      have hbody : body.Alike body' := (Term.abs.inj h).2
      exact .abs hint hint' (ih hbody (depth + 1))
    | _ => cases h
  | app fn arg ihf iha =>
    cases u with
    | app fn' arg' =>
      obtain ⟨hfn, harg⟩ := Term.app.inj h
      exact .app (ihf hfn depth) (iha harg depth)
    | _ => cases h

end Alike

end Term

end NormalOrder
