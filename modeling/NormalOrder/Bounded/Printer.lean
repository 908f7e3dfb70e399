import NormalOrder.Bounded.Refusal
import NormalOrder.Surface.Printer

/-!
# Bounded printing

Printing with a number of levels takes one for every application and variable, and one for every
header, however many names it has; a term that is written as a number takes none.  `prettyWithin`
follows `pretty` (`follows_prettyWithin`).
-/

namespace NormalOrder

namespace Printer

/-- What stands before a body: its header, if there is one, and the arrow. -/
def opening : Option String → String
  | none => ""
  | some header => header ++ " -> "

/-- The text of a term below binders called `names`, the innermost first, behind the header read
so far. -/
def renderWithin (numerals : Bool) (free : List String) (levels : Nat) (header : Option String)
    (names : List String) : Term → Except (Refusal UnboundIndex) String
  | .free name => descend levels fun _ => .ok (opening header ++ name)
  | .bound index => descend levels fun _ =>
    match names[index]? with
    | some name => .ok (opening header ++ name)
    | none => .error (.failed ⟨index⟩)
  | .abs hint body =>
    match header with
    | some header =>
      let name := binderName free names hint
      renderWithin numerals free levels (some (header ++ " " ++ name)) (name :: names) body
    | none =>
      match asNumber? numerals (.abs hint body) with
      | some n => .ok (toString n)
      | none => descend levels fun levels =>
        let name := binderName free names hint
        renderWithin numerals free levels (some ("λ" ++ name)) (name :: names) body
  | .app fn arg => descend levels fun levels => do
    let left ← renderWithin numerals free levels none names fn
    let right ← renderWithin numerals free levels none names arg
    pure (opening header ++ applicationText numerals fn arg left right)

theorem opening_append (header : Option String) (text : String) :
    opening header ++ text = header.getD "" ++ (arrow header.isSome ++ text) := by
  cases header <;> simp [opening, arrow, String.append_assoc]

/-- Within a header, an abstraction is written as its name and then what its body goes on with. -/
theorem render_abs_header (numerals : Bool) (free names : List String) (hint : String)
    (body : Term) :
    render numerals free true names (.abs hint body) =
      (render numerals free true (binderName free names hint :: names) body).map
        (" " ++ binderName free names hint ++ ·) := by
  simp only [render, asNumber?, Bool.not_true, Bool.and_false, Bool.false_eq_true, if_false,
    if_true]
  cases render numerals free true (binderName free names hint :: names) body <;> rfl

/-- An abstraction that is not written as a number begins a header. -/
theorem render_abs_of_none {numerals : Bool} {hint : String} {body : Term}
    (h : asNumber? numerals (.abs hint body) = none) (free names : List String) :
    render numerals free false names (.abs hint body) =
      (render numerals free true (binderName free names hint :: names) body).map
        ("λ" ++ binderName free names hint ++ ·) := by
  simp only [render, Bool.not_false, Bool.and_true, h, Bool.false_eq_true, if_false]
  cases render numerals free true (binderName free names hint :: names) body <;> rfl

theorem map_map_append (before after : String) (r : Except UnboundIndex String) :
    (r.map (after ++ ·)).map (before ++ ·) = r.map (before ++ after ++ ·) := by
  cases r with
  | error e => rfl
  | ok text => exact congrArg Except.ok (String.append_assoc ..).symm

@[simp] theorem map_empty_append (r : Except UnboundIndex String) : r.map ("" ++ ·) = r := by
  cases r with
  | error e => rfl
  | ok text => exact congrArg Except.ok String.empty_append

/-- What stands before an application can be put before its finished text. -/
theorem map_bind_append (before : String) (f : String → String → String)
    (left right : Except UnboundIndex String) :
    (do let l ← left; let r ← right; pure (f l r) : Except UnboundIndex String).map (before ++ ·) =
      (do let l ← left; let r ← right; pure (before ++ f l r)) := by
  cases left <;> cases right <;> rfl

theorem follows_renderWithin (numerals : Bool) (free : List String) (levels : Nat)
    (header : Option String) (names : List String) (t : Term) :
    Follows (renderWithin numerals free levels header names t)
      ((render numerals free header.isSome names t).map (header.getD "" ++ ·)) := by
  induction t generalizing levels header names with
  | free name =>
    refine .descend (fun n => ?_) levels
    rw [opening_append]
    exact .ok _
  | bound index =>
    refine .descend (fun n => ?_) levels
    rw [render]
    cases names[index]? with
    | none => exact .inr rfl
    | some name =>
      simp only [opening_append]
      exact .ok _
  | abs hint body ih =>
    cases header with
    | some header =>
      have h := ih levels (some (header ++ " " ++ binderName free names hint))
        (binderName free names hint :: names)
      rw [renderWithin, Option.isSome_some, render_abs_header, Option.getD_some, map_map_append,
        ← String.append_assoc]
      exact h
    | none =>
      rw [renderWithin, Option.isSome_none]
      cases hn : asNumber? numerals (.abs hint body) with
      | some n =>
        rw [render, Bool.not_false, Bool.and_true, hn]
        exact .inr (congrArg Except.ok String.empty_append.symm)
      | none =>
        rw [render_abs_of_none hn, Option.getD_none, map_map_append]
        exact .descend (fun n => ih n (some ("λ" ++ binderName free names hint))
          (binderName free names hint :: names)) levels
  | app fn arg ihf iha =>
    rw [renderWithin, render]
    refine .descend (fun n => ?_) levels
    have hf := ihf n none names
    have ha := iha n none names
    rw [Option.isSome_none, Option.getD_none, map_empty_append] at hf ha
    simp only [map_bind_append, opening_append]
    exact hf.bind fun left => ha.bind fun right => .ok _

end Printer

/-- Does `pretty` within `levels` levels. -/
def prettyWithin (levels : Nat) (t : Term) (numerals : Bool) :
    Except (Refusal UnboundIndex) String :=
  Printer.renderWithin numerals t.freeVars levels none [] t

theorem follows_prettyWithin (levels : Nat) (t : Term) (numerals : Bool) :
    Follows (prettyWithin levels t numerals) (pretty t numerals) := by
  have h := Printer.follows_renderWithin numerals t.freeVars levels none [] t
  rwa [Option.isSome_none, Option.getD_none, Printer.map_empty_append] at h

end NormalOrder
