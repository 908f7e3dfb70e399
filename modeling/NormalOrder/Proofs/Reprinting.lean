import NormalOrder.Proofs.NumeralSize
import NormalOrder.Proofs.RoundTrip

/-!
# Printing what was printed

Where a hint clashes, the printer gives the binder another name, and reading the text makes this
name the hint.  So the term that is read differs from the one that was printed, in its hints.  It is
printed as the same text nevertheless (`pretty_parse_pretty`):

* a name that the printer has chosen does not clash with anything, so that it is chosen again
  (`Printer.binderName_binderName`), and
* nothing else depends on hints: neither the free variables (`Term.Alike.freeVars_eq`), nor what is
  written as a number (`Printer.asNumber?_congr`), nor where brackets stand
  (`Printer.applicationText_congr`).
-/

namespace NormalOrder

open Grammar

/-! ### What does not depend on hints -/

namespace Term

theorem freeNames_unhinted (t : Term) : t.unhinted.freeNames = t.freeNames := by
  induction t with
  | free name => rfl
  | bound index => rfl
  | abs hint body ih => exact ih
  | app fn arg ihf iha => rw [unhinted, freeNames, freeNames, ihf, iha]

namespace Alike

variable {t u : Term}

theorem freeVars_eq (h : t.Alike u) : t.freeVars = u.freeVars := by
  have hnames : t.freeNames = u.freeNames := by
    rw [← freeNames_unhinted t, h, freeNames_unhinted]
  rw [freeVars, freeVars, subterms_eq_preorder, subterms_eq_preorder, filterMap_preorder,
    filterMap_preorder, hnames]

theorem numeral?_eq (h : t.Alike u) : t.numeral? = u.numeral? := by
  refine Option.ext fun n => ?_
  rw [numeral?_eq_some_iff, numeral?_eq_some_iff]
  exact ⟨h.symm.trans, h.trans⟩

end Alike

end Term

namespace Printer

variable {numerals : Bool} {free names : List String} {t u fn fn' arg arg' : Term}

theorem asNumber?_congr (h : t.Alike u) : asNumber? numerals t = asNumber? numerals u := by
  rw [asNumber?, asNumber?, h.numeral?_eq]

theorem isAbstraction_congr (h : t.Alike u) :
    isAbstraction numerals t = isAbstraction numerals u := by
  cases t with
  | abs hint body =>
    cases u with
    | abs hint' body' => rw [isAbstraction, isAbstraction, asNumber?_congr h]
    | _ => cases h
  | _ =>
    cases u with
    | abs hint' body' => cases h
    | _ => rfl

theorem isApplication_congr (h : t.Alike u) : isApplication t = isApplication u := by
  cases t with
  | app fn arg =>
    cases u with
    | app fn' arg' => rfl
    | _ => cases h
  | _ =>
    cases u with
    | app fn' arg' => cases h
    | _ => rfl

theorem applicationText_congr (hfn : fn.Alike fn') (harg : arg.Alike arg') (left right : String) :
    applicationText numerals fn arg left right = applicationText numerals fn' arg' left right := by
  rw [applicationText, applicationText, isAbstraction_congr hfn, isAbstraction_congr harg,
    isApplication_congr harg]

/-! ### Names that are chosen again -/

/-- A name that is chosen for a binder clashes with nothing, so it is chosen for itself. -/
theorem binderName_binderName (free names : List String) (hint : String) :
    binderName free names (binderName free names hint) = binderName free names hint := by
  have hfresh := binderName_notMem free names hint
  rw [List.mem_append] at hfresh
  exact if_neg hfresh

/-- **What a printed term means is printed in the same way.** -/
theorem render_meaning (hnames : Legible free names) (ht : Printable numerals free names.length t)
    (inHeader : Bool) :
    render numerals free inHeader names
      ((derivation numerals free inHeader names t).meaning names) =
      render numerals free inHeader names t := by
  have halike := derivation_meaning hnames ht inHeader
  induction t generalizing inHeader names with
  | free name =>
    have hfree := (ht.freeNames name List.mem_cons_self).1
    have hnot : name ∉ names := fun hmem => hnames.notFree name hmem hfree
    show render numerals free inHeader names (variableOf names name) = _
    rw [variableOf_of_notMem hnot]
  | bound index =>
    have hlt : index < names.length := Int.ofNat_lt.1 ht.wellScoped
    show render numerals free inHeader names (variableOf names (names.getD index "")) = _
    rw [variableOf_getD hnames.nodup hlt]
  | abs hint body ih =>
    rw [derivation] at halike ⊢
    cases hn : asNumber? (numerals && !inHeader) (.abs hint body) with
    | some n =>
      -- The number is read as a numeral, whatever hints the term had.
      have hmeaning : (Derivation.ofAtom (.natural (.spelled (toString n)))).meaning names =
          Term.numeral n := congrArg Term.numeral (decimalValue_toString n)
      have hnumber : asNumber? (numerals && !inHeader) (.numeral n) = some n := by
        rw [← hn, asNumber?_congr (asNumber?_eq_some hn).2]
      simp only [hmeaning]
      simp only [Term.numeral] at hnumber ⊢
      simp only [render, hnumber, hn]
    | none =>
      have hbinder := hnames.cons (ht.hints hint List.mem_cons_self)
      have hbody := ih hbinder ht.body true (derivation_meaning hbinder ht.body true)
      simp only [hn, Derivation.meaning_under] at halike ⊢
      have hnone : asNumber? (numerals && !inHeader) _ = none := (asNumber?_congr halike).trans hn
      simp only [render, hnone, hn, binderName_binderName, hbody]
  | app fn arg ihf iha =>
    have hfn := derivation_meaning hnames ht.fn false
    have harg := derivation_meaning hnames ht.arg false
    rw [derivation, Derivation.meaning, Derivation.meaning_applyTo,
      Derivation.meaning_toApplication, Derivation.meaning_toAtom]
    simp only [render, ihf hnames ht.fn false hfn, iha hnames ht.arg false harg,
      applicationText_congr hfn harg]

end Printer

/-- **Printing is a fixed point of itself.**  A term that is well-formed, whose free variables and
hints are identifiers, and whose numerals are not too large if they are written as numbers, has a
text that can be read, and what is read is the term up to hints and has the same text. -/
theorem pretty_parse_pretty (t : Term) (numerals : Bool) (hwf : t.isWellFormed 0 = true)
    (hfree : ∀ name ∈ t.freeVars, IsIdentifier name) (hhints : ∀ hint ∈ t.hints, IsIdentifier hint)
    (hnumerals : numerals = true → ∀ s ∈ t.subterms, ∀ n, s.Alike (.numeral n) →
      n < 10 ^ Text.Integer.maxDigits) :
    ∃ text u, pretty t numerals = .ok text ∧ parse text = .ok u ∧ u.Alike t ∧
      pretty u numerals = .ok text := by
  have hprintable := Printer.printable_of_isWellFormed hwf hfree hhints hnumerals
  have hlegible := Printer.legible_nil t.freeVars
  obtain ⟨⟨text, htext, hwritten⟩, -⟩ := Printer.writes hlegible hprintable
  have hparse := hwritten.parse_eq_ok (Printer.derivation_numbersFit hprintable false [])
  have halike := Printer.derivation_meaning hlegible hprintable false
  refine ⟨text, _, htext, hparse, halike, ?_⟩
  calc
    pretty _ numerals = Printer.render numerals t.freeVars false [] _ :=
      congrArg (Printer.render numerals · false [] _) halike.freeVars_eq
    _ = pretty t numerals := Printer.render_meaning hlegible hprintable false
    _ = .ok text := htext

/-- The inner `x` clashes with the outer one and, unless it is written as a number, the numeral has
hints that clash with both and with the free variable. -/
theorem pretty_parse_pretty_clash :
    let t : Term := .abs "x" (.abs "x" (.app (.bound 1) (.app (.free "f") (.numeral 2))))
    t.isWellFormed 0 = true ∧ (∀ name ∈ t.freeVars, IsIdentifier name) ∧
      (∀ hint ∈ t.hints, IsIdentifier hint) ∧
      ∀ numerals, ∃ text u, pretty t numerals = .ok text ∧ parse text = .ok u ∧ u.Alike t ∧
        pretty u numerals = .ok text := by
  intro t
  obtain ⟨hwf, hfree, hhints⟩ :=
    Printer.isWellFormed_and_identifiers (t := t) (by decide) (by decide) forall_isIdentifier_f_x
  have hnumerals := Term.numerals_lt_of_depth_le (t := t) (by decide)
  exact ⟨hwf, hfree, hhints, fun numerals =>
    pretty_parse_pretty t numerals hwf hfree hhints fun _ => hnumerals⟩

end NormalOrder
