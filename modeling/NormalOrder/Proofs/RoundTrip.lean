import NormalOrder.Proofs.NumeralSize
import NormalOrder.Proofs.Printing

/-!
# Printing, then parsing

The text of a term is written for the derivation behind it: as a term by itself
(`Printer.Writes`), or as what goes on after a header (`Printer.Continues`).  Both are proved for
each kind of term from the same facts about its parts, and then for all terms by induction
(`Printer.writes`).  So `parse` reads the text as what the derivation means, which is the term that
was printed, up to hints (`parse_pretty`).
-/

namespace NormalOrder

open Grammar

namespace Printer

variable {numerals : Bool} {free names : List String} {hint : String} {t fn arg body : Term}
  {text left right : String}

/-- The term is printed as the text, which is written for its derivation. -/
def Writes (numerals : Bool) (free names : List String) (t : Term) (text : String) : Prop :=
  render numerals free false names t = .ok text ∧
    Written text (derivation numerals free false names t).tokens

/-- After a header and a space, the term is printed as the text, which is written for what the
derivation goes on with. -/
def Continues (numerals : Bool) (free names : List String) (t : Term) (text : String) : Prop :=
  render numerals free true names t = .ok (" " ++ text) ∧
    Written text (derivation numerals free true names t).afterHeader

/-! ### Brackets -/

theorem Writes.toAtom (h : Writes numerals free names t text) :
    Written (bracketed (isApplication t || isAbstraction numerals t) text)
      (derivation numerals free false names t).toAtom.tokens := by
  obtain ⟨-, hwritten⟩ := h
  obtain ⟨happ, habs, atom, hd⟩ | ⟨happ, habs, name, d, hd⟩ | ⟨happ, habs, d, last, hd⟩ :=
    derivation_cases numerals free names t
  · rw [happ, habs, hd]
    rw [hd, Derivation.tokens_ofAtom] at hwritten
    exact hwritten
  · rw [happ, habs, hd, Derivation.toAtom_under, Derivation.tokens_inBrackets, ← hd]
    exact hwritten.bracketed
  · rw [happ, habs, hd, Derivation.toAtom_applyTo, Derivation.tokens_inBrackets, ← hd]
    exact hwritten.bracketed

theorem Writes.toApplication (h : Writes numerals free names t text) :
    Written (bracketed (isAbstraction numerals t) text)
      (derivation numerals free false names t).toApplication.tokens := by
  obtain ⟨-, hwritten⟩ := h
  obtain ⟨-, habs, atom, hd⟩ | ⟨-, habs, name, d, hd⟩ | ⟨-, habs, d, last, hd⟩ :=
    derivation_cases numerals free names t
  · rw [habs, hd]
    rw [hd] at hwritten
    exact hwritten
  · rw [habs, hd, Derivation.toApplication_under, Derivation.tokens_noArguments,
      Derivation.tokens_inBrackets, ← hd]
    exact hwritten.bracketed
  · rw [habs, hd]
    rw [hd] at hwritten
    exact hwritten

/-! ### One kind of term at a time -/

theorem writes_free {name : String} (h : IsIdentifier name) :
    Writes numerals free names (.free name) name := by
  refine ⟨?_, Written.identifier h⟩
  simp [render, arrow]

theorem writes_bound (hnames : Legible free names) {index : Nat} (h : index < names.length) :
    Writes numerals free names (.bound index) (names.getD index "") := by
  have hget : names.getD index "" = names[index] := by simp [List.getD_eq_getElem?_getD, h]
  refine ⟨?_, Written.identifier (hnames.identifiers _ (hget ▸ List.getElem_mem h))⟩
  simp [render, arrow, h]

theorem render_header_of_ne (ht : ∀ hint body, t ≠ .abs hint body) :
    render numerals free true names t =
      (render numerals free false names t).map (" -> " ++ ·) := by
  cases t with
  | free name => simp [render, arrow, Except.map]
  | bound index =>
    simp only [render]
    cases names[index]? with
    | none => rfl
    | some name => simp [arrow, Except.map]
  | abs hint body => exact absurd rfl (ht hint body)
  | app fn arg =>
    simp only [render, map_bind_append]
    simp [arrow]

theorem Writes.continues (h : Writes numerals free names t text)
    (ht : ∀ hint body, t ≠ .abs hint body) : Continues numerals free names t ("-> " ++ text) := by
  constructor
  · rw [render_header_of_ne ht, h.1, ← String.append_assoc]
    rfl
  · rw [afterHeader_derivation_of_ne ht]
    exact h.2.arrow

theorem Writes.app (hfn : Writes numerals free names fn left)
    (harg : Writes numerals free names arg right) :
    Writes numerals free names (.app fn arg) (applicationText numerals fn arg left right) := by
  constructor
  · rw [render, hfn.1, harg.1]
    rfl
  · rw [derivation, Derivation.tokens, Derivation.tokens_applyTo]
    exact hfn.toApplication.space_append harg.toAtom

theorem Writes.number {n : Nat} (h : asNumber? numerals (.abs hint body) = some n) :
    Writes numerals free names (.abs hint body) (toString n) := by
  constructor
  · simp [render, h]
  · rw [derivation_abs_of_some h, Derivation.tokens_ofAtom]
    exact .natural n

/-- An abstraction begins a header, and what its body goes on with belongs to it. -/
theorem Continues.abs (hname : IsIdentifier (binderName free names hint))
    (h : Continues numerals free (binderName free names hint :: names) body text)
    (hn : asNumber? numerals (.abs hint body) = none) :
    Writes numerals free names (.abs hint body)
      ("λ" ++ (binderName free names hint ++ " " ++ text)) := by
  constructor
  · rw [render_abs_of_none hn, h.1]
    simp [Except.map, String.append_assoc]
  · rw [derivation_abs_of_none hn, Derivation.tokens_under]
    exact ((Written.identifier hname).space_append h.2).lambda

/-- An abstraction after a header adds its name to it. -/
theorem Continues.abs_header (hname : IsIdentifier (binderName free names hint))
    (h : Continues numerals free (binderName free names hint :: names) body text) :
    Continues numerals free names (.abs hint body) (binderName free names hint ++ " " ++ text) := by
  constructor
  · rw [render_abs_header, h.1]
    simp [Except.map, String.append_assoc]
  · rw [derivation_abs_header, Derivation.afterHeader_under]
    exact (Written.identifier hname).space_append h.2

/-! ### All terms -/

/-- **The text of a term is written for the derivation behind it**, as a term by itself and as what
goes on after a header. -/
theorem writes (hnames : Legible free names) (ht : Printable numerals free names.length t) :
    (∃ text, Writes numerals free names t text) ∧ ∃ text, Continues numerals free names t text := by
  induction t generalizing names with
  | free name =>
    have hwrites : Writes numerals free names (.free name) name :=
      writes_free (ht.freeNames name List.mem_cons_self).2
    exact ⟨⟨_, hwrites⟩, _, hwrites.continues (by simp)⟩
  | bound index =>
    have hwrites : Writes numerals free names (.bound index) (names.getD index "") :=
      writes_bound hnames (Int.ofNat_lt.1 ht.wellScoped)
    exact ⟨⟨_, hwrites⟩, _, hwrites.continues (by simp)⟩
  | abs hint body ih =>
    have hbinder := hnames.cons (ht.hints hint List.mem_cons_self)
    have hname := hbinder.identifiers _ List.mem_cons_self
    -- The body always goes on after a header: this one, or the one this abstraction belongs to.
    obtain ⟨-, text, hcontinues⟩ := ih hbinder ht.body
    refine ⟨?_, _, hcontinues.abs_header hname⟩
    cases hn : asNumber? numerals (.abs hint body) with
    | some n => exact ⟨_, .number hn⟩
    | none => exact ⟨_, hcontinues.abs hname hn⟩
  | app fn arg ihf iha =>
    obtain ⟨⟨left, hleft⟩, -⟩ := ihf hnames ht.fn
    obtain ⟨⟨right, hright⟩, -⟩ := iha hnames ht.arg
    have hwrites := hleft.app hright
    exact ⟨⟨_, hwrites⟩, _, hwrites.continues (by simp)⟩

end Printer

/-- **Printing then parsing gives the term back**, up to hints: closed or open, with its Church
numerals written as numbers or not. -/
theorem parse_pretty (t : Term) (numerals : Bool) (hwf : t.isWellFormed 0 = true)
    (hfree : ∀ name ∈ t.freeVars, IsIdentifier name)
    (hhints : ∀ hint ∈ t.hints, IsIdentifier hint)
    (hnumerals : numerals = true → ∀ s ∈ t.subterms, ∀ n, s.Alike (.numeral n) →
      n < 10 ^ Text.Integer.maxDigits) :
    ∃ text, pretty t numerals = .ok text ∧ ∃ u, parse text = .ok u ∧ u.Alike t := by
  have hlegible := Printer.legible_nil t.freeVars
  have hprintable := Printer.printable_of_isWellFormed hwf hfree hhints hnumerals
  obtain ⟨⟨text, htext, hwritten⟩, -⟩ := Printer.writes hlegible hprintable
  refine ⟨text, htext, _, hwritten.parse_eq_ok ?_, ?_⟩
  · exact Printer.derivation_numbersFit hprintable false []
  · exact Printer.derivation_meaning hlegible hprintable false

/-- The inner `x` clashes with the outer one, and its first new name with a free variable. -/
theorem parse_pretty_clash :
    let t : Term := .abs "x" (.abs "x" (.app (.bound 1) (.app (.free "x'") (.numeral 2))))
    t.isWellFormed 0 = true ∧ (∀ name ∈ t.freeVars, IsIdentifier name) ∧
      (∀ hint ∈ t.hints, IsIdentifier hint) ∧
      ∃ text, pretty t true = .ok text ∧ ∃ u, parse text = .ok u ∧ u.Alike t := by
  intro t
  have hx' : IsIdentifier "x'" := isIdentifier_nameCandidate isIdentifier_x 0
  have hnames : ∀ name ∈ ["x'", "f", "x"], IsIdentifier name :=
    List.forall_mem_cons.2 ⟨hx', forall_isIdentifier_f_x⟩
  obtain ⟨hwf, hfree, hhints⟩ :=
    Printer.isWellFormed_and_identifiers (t := t) (by decide) (by decide) hnames
  exact ⟨hwf, hfree, hhints, parse_pretty t true hwf hfree hhints fun _ =>
    Term.numerals_lt_of_depth_le (by decide)⟩

end NormalOrder
