import NormalOrder.Proofs.NumeralSize
import NormalOrder.Proofs.Striking
import NormalOrder.Proofs.Weighing

/-!
# No bracket can be spared

A term needs brackets around a function that is an abstraction, and around an argument that is an
abstraction or an application.  `Term.brackets` counts these places.

* Whatever is read as a term has at least as many brackets.  Here a `let` counts for two, since it
  makes an abstraction a function and a definition its argument, and a number counts for the numeral
  with brackets around it (`Derivation.affords`).
* What is printed has just as many (`Printer.weight_bracketScale`).

So if a pair of brackets is struck out of what was printed, what is left cannot be read as the same
term (`pretty_brackets_needed`).
-/

namespace NormalOrder

open Grammar

/-! ### The brackets of a term -/

namespace Term

/-- The number of places in a term where brackets are needed when numerals are not written as
numbers. -/
def brackets : Term → Nat
  | free _ => 0
  | bound _ => 0
  | abs _ body => body.brackets
  | app fn arg =>
    fn.brackets + (if Printer.isAbstraction false fn then 1 else 0) +
      (arg.brackets +
        if Printer.isApplication arg || Printer.isAbstraction false arg then 1 else 0)

/-- The brackets of a function, with those around it. -/
def fnBrackets (t : Term) : Nat :=
  t.brackets + if Printer.isAbstraction false t then 1 else 0

/-- The brackets of an argument, with those around it. -/
def argBrackets (t : Term) : Nat :=
  t.brackets + if Printer.isApplication t || Printer.isAbstraction false t then 1 else 0

theorem brackets_app (fn arg : Term) :
    (app fn arg).brackets = fn.fnBrackets + arg.argBrackets := rfl

theorem fnBrackets_app (fn arg : Term) : (app fn arg).fnBrackets = (app fn arg).brackets := rfl

theorem brackets_le_fnBrackets (t : Term) : t.brackets ≤ t.fnBrackets := Nat.le_add_right _ _

theorem fnBrackets_le_argBrackets (t : Term) : t.fnBrackets ≤ t.argBrackets := by
  cases t with
  | app fn arg => exact Nat.le_succ _
  | _ => exact Nat.le_refl _

theorem argBrackets_le (t : Term) : t.argBrackets ≤ t.brackets + 1 := by
  unfold argBrackets
  split
  · exact Nat.le_refl _
  · exact Nat.le_succ _

theorem brackets_unhinted (t : Term) : t.unhinted.brackets = t.brackets := by
  induction t with
  | free name => rfl
  | bound index => rfl
  | abs hint body ih => exact ih
  | app fn arg ihf iha =>
    have hfn : fn.unhinted.fnBrackets = fn.fnBrackets := by
      unfold fnBrackets
      rw [ihf]
      cases fn <;> rfl
    have harg : arg.unhinted.argBrackets = arg.argBrackets := by
      unfold argBrackets
      rw [iha]
      cases arg <;> rfl
    rw [unhinted, brackets_app, brackets_app, hfn, harg]

theorem Alike.brackets_eq {t u : Term} (h : t.Alike u) : t.brackets = u.brackets := by
  rw [← brackets_unhinted t, h, brackets_unhinted]

end Term

/-! ### What is read has enough brackets -/

namespace Grammar

/-- The scale for brackets: a `let` may be written with two pairs instead, and a number is a numeral
in brackets. -/
def bracketScale : Scale := ⟨1, 2, fun n => (Term.numeral n).argBrackets⟩

/-- A weight is enough for the brackets of what a phrase stands for. -/
def Phrase.Affords (weight : Nat) : (phrase : Phrase) → phrase.Meaning → Prop
  | .arguments => fun args : List Term => (args.map Term.argBrackets).sum ≤ weight
  | .atom => fun t : Term => t.argBrackets ≤ weight
  | .term => fun t : Term => t.brackets ≤ weight
  | .abstraction => fun t : Term => t.brackets ≤ weight
  | .letIn => fun t : Term => t.brackets ≤ weight
  | .application => fun t : Term => t.brackets ≤ weight

theorem brackets_abstractOver {weight : Nat} {body : Scope → Term}
    (h : ∀ scope, (body scope).brackets ≤ weight) (names : List String) (scope : Scope) :
    (abstractOver body names scope).brackets ≤ weight := by
  induction names generalizing scope with
  | nil => exact h scope
  | cons name names ih => exact ih (name :: scope)

theorem brackets_redex (hint : String) (body arg : Term) :
    (Term.app (.abs hint body) arg).brackets ≤ body.brackets + 1 + (arg.brackets + 1) :=
  Nat.add_le_add_left arg.argBrackets_le (body.brackets + 1)

theorem brackets_foldl_app (fn : Term) (args : List Term) :
    (List.foldl Term.app fn args).brackets ≤
      fn.fnBrackets + (args.map Term.argBrackets).sum := by
  induction args generalizing fn with
  | nil => exact fn.brackets_le_fnBrackets
  | cons arg args ih =>
    have hle := ih (.app fn arg)
    rw [Term.fnBrackets_app, Term.brackets_app] at hle
    rw [List.foldl_cons, List.map_cons, List.sum_cons]
    omega

/-- **What is read as a term has enough brackets for it.** -/
theorem Derivation.affords {phrase : Phrase} (d : Derivation phrase) (scope : Scope) :
    phrase.Affords (bracketScale.weigh d.tokens) (d.meaning scope) := by
  -- Every phrase affords the brackets inside of it, and an atom those around it as well.
  induction d generalizing scope with
  | ofAbstraction d ih => exact ih scope
  | ofLetIn d ih => exact ih scope
  | ofApplication d ih => exact ih scope
  | abstraction head name names arrow body ih =>
    have hbody : bracketScale.weigh body.tokens ≤
        bracketScale.weigh (abstraction head name names arrow body).tokens := by
      simp only [tokens, Scale.weigh_cons, Scale.weigh_append]
      omega
    exact Nat.le_trans (brackets_abstractOver ih _ scope) hbody
  | letIn word name sign definition inWord body ihd ihb =>
    have hd : Term.brackets (definition.meaning scope) ≤ _ := ihd scope
    have hb : Term.brackets (body.meaning (name.lexeme :: scope)) ≤ _ := ihb (name.lexeme :: scope)
    have hword : bracketScale.token word.val = 2 := bracketScale.token_letWord word
    refine Nat.le_trans (brackets_redex _ _ _) ?_
    simp only [tokens, Scale.weigh_cons, Scale.weigh_append, hword]
    omega
  | application fn args ihf iha =>
    have hf : Term.argBrackets (fn.meaning scope) ≤ _ := ihf scope
    have ha : (List.map Term.argBrackets (args.meaning scope)).sum ≤ _ := iha scope
    have hfn := Term.fnBrackets_le_argBrackets (fn.meaning scope)
    have hfold := brackets_foldl_app (fn.meaning scope) (args.meaning scope)
    show Term.brackets (List.foldl Term.app (fn.meaning scope) (args.meaning scope)) ≤ _
    rw [tokens, Scale.weigh_append]
    omega
  | noArguments => exact Nat.le_refl 0
  | argument arg further iha ihf =>
    rw [tokens, Scale.weigh_append]
    exact Nat.add_le_add (iha scope) (ihf scope)
  | identifier leaf =>
    show Term.argBrackets (variableOf scope leaf.lexeme) ≤ _
    unfold variableOf
    split <;> exact Nat.zero_le _
  | natural leaf =>
    rw [tokens, Scale.weigh_cons, Scale.token_natural]
    exact Nat.le_add_right _ _
  | bracketed opening inner closing ih =>
    have hi : Term.brackets (inner.meaning scope) ≤ _ := ih scope
    have hinner := Term.argBrackets_le (inner.meaning scope)
    have hopening : bracketScale.token opening.val = 1 := bracketScale.token_openBracket opening
    show Term.argBrackets (inner.meaning scope) ≤ _
    simp only [tokens, Scale.weigh_cons, Scale.weigh_append, hopening]
    omega

end Grammar

/-! ### What is printed has no more -/

namespace Printer

/-- The brackets of what is printed for a term: those that it needs, and a pair for a number. -/
def printedBrackets (numerals : Bool) (t : Term) : Nat :=
  t.brackets + if (asNumber? numerals t).isSome then 1 else 0

/-- Brackets are put around a function, or an argument, that needs them and is no number. -/
theorem printedBrackets_add (numerals isArg : Bool) (t : Term) :
    (printedBrackets numerals t +
        if isArg && isApplication t || isAbstraction numerals t then 1 else 0) =
      t.brackets + if isArg && isApplication t || isAbstraction false t then 1 else 0 := by
  rw [printedBrackets, Nat.add_assoc, Nat.add_left_cancel_iff]
  cases t with
  | abs hint body =>
    simp only [isApplication, isAbstraction, Bool.and_false, Bool.false_or]
    cases asNumber? numerals (.abs hint body) <;> rfl
  | _ => cases numerals <;> cases isArg <;> rfl

/-- **What is printed has no more brackets than are needed.** -/
theorem weight_bracketScale (numerals inHeader : Bool) (t : Term) :
    weight bracketScale numerals inHeader t = printedBrackets (numerals && !inHeader) t := by
  induction t generalizing inHeader with
  | free name => cases numerals <;> cases inHeader <;> rfl
  | bound index => cases numerals <;> cases inHeader <;> rfl
  | abs hint body ih =>
    rw [weight, printedBrackets]
    cases hn : asNumber? (numerals && !inHeader) (.abs hint body) with
    | some n => exact congrArg (· + 1) (asNumber?_eq_some hn).2.brackets_eq.symm
    | none =>
      have hbody := ih true
      rw [Bool.not_true, Bool.and_false] at hbody
      exact hbody
  | app fn arg ihf iha =>
    have hf := ihf false
    have ha := iha false
    rw [Bool.not_false, Bool.and_true] at hf ha
    calc
      weight bracketScale numerals inHeader (.app fn arg) =
          printedBrackets numerals fn + (if isAbstraction numerals fn then 1 else 0) +
            (printedBrackets numerals arg +
              if isApplication arg || isAbstraction numerals arg then 1 else 0) := by
        rw [weight, hf, ha]
        rfl
      _ = (Term.app fn arg).brackets :=
        congrArg₂ (· + ·) (printedBrackets_add numerals false fn)
          (printedBrackets_add numerals true arg)
      _ = printedBrackets (numerals && !inHeader) (.app fn arg) := by
        cases numerals <;> cases inHeader <;> rfl

theorem printedBrackets_of_none {numerals : Bool} {t : Term} (h : asNumber? numerals t = none) :
    printedBrackets numerals t = t.brackets := by
  rw [printedBrackets, h]
  rfl

theorem asNumber?_eq_none_of_openBracket {numerals : Bool} {free names : List String} {t : Term}
    (h : ⟨.openBracket, "(", 0⟩ ∈ (derivation numerals free false names t).tokens) :
    asNumber? numerals t = none := by
  cases hn : asNumber? numerals t with
  | none => rfl
  | some n =>
    cases t with
    | abs hint body =>
      rw [derivation_abs_of_some hn, Derivation.tokens_ofAtom] at h
      cases List.mem_singleton.1 h
    | _ => cases numerals <;> cases hn

end Printer

/-! ### Texts without a pair of brackets -/

theorem Loses.weigh {token : Token} {tokens struck : List Token} (h : Loses token tokens struck)
    (scale : Scale) : scale.weigh tokens = scale.weigh struck + scale.token token := by
  obtain ⟨front, back, htokens, hstruck⟩ := h
  rw [← scale.weigh_unplaced tokens, ← scale.weigh_unplaced struck, htokens, hstruck,
    scale.weigh_append, scale.weigh_append, scale.weigh_cons]
  omega

/-- Both brackets of a pair can be struck out of a text in which brackets stand apart. -/
theorem exists_tokenize_of_strike {before inside after : String} {tokens : List Token}
    (h : tokenize (before ++ "(" ++ inside ++ ")" ++ after) = .ok tokens)
    (hapart : SetApart (before ++ "(" ++ inside ++ ")" ++ after)) :
    ∃ struck left, tokenize (before ++ inside ++ after) = .ok left ∧
      Loses ⟨.openBracket, "(", 0⟩ tokens struck ∧ Loses ⟨.closeBracket, ")", 0⟩ struck left := by
  have htext : (before ++ "(" ++ inside ++ ")" ++ after).toList =
      before.toList ++ '(' :: (inside.toList ++ ')' :: after.toList) := by simp
  rw [tokenize_eq_ok_iff, htext] at h
  rw [SetApart, htext] at hapart
  obtain ⟨struck, hscans, hopening⟩ := h.strike .opening hapart
  have hapart' := isChain_strike .opening hapart
  rw [← List.append_assoc] at hscans hapart'
  obtain ⟨left, hscans', hclosing⟩ := hscans.strike .closing hapart'
  refine ⟨struck, left, ?_, hopening, hclosing⟩
  rw [tokenize_eq_ok_iff, String.toList_append, String.toList_append]
  exact hscans'

/-- **No bracket can be spared.**  A term that is well-formed, whose free variables and hints are
identifiers, and whose numerals are not too large if they are written as numbers, has a text from
which no pair of brackets can be deleted: what is left is refused, or read as another term.  This
holds for an opening bracket with any closing bracket after it, so for the one that it matches. -/
theorem pretty_brackets_needed (t : Term) (numerals : Bool) (hwf : t.isWellFormed 0 = true)
    (hfree : ∀ name ∈ t.freeVars, IsIdentifier name) (hhints : ∀ hint ∈ t.hints, IsIdentifier hint)
    (hnumerals : numerals = true → ∀ s ∈ t.subterms, ∀ n, s.Alike (.numeral n) →
      n < 10 ^ Text.Integer.maxDigits) :
    ∃ text, pretty t numerals = .ok text ∧
      ∀ before inside after : String, text = before ++ "(" ++ inside ++ ")" ++ after →
        ∀ u, parse (before ++ inside ++ after) = .ok u → ¬ u.Alike t := by
  have hprintable := Printer.printable_of_isWellFormed hwf hfree hhints hnumerals
  have hlegible := Printer.legible_nil t.freeVars
  obtain ⟨⟨text, htext, hwritten⟩, -⟩ := Printer.writes hlegible hprintable
  have hapart := Printer.setApart_render hlegible hprintable htext
  obtain ⟨placed, htokenize, hplaced⟩ := hwritten.exists_tokenize
  refine ⟨text, htext, ?_⟩
  rintro before inside after rfl u hparse halike
  obtain ⟨struck, left, hleft, hopening, hclosing⟩ := exists_tokenize_of_strike htokenize hapart
  obtain ⟨d, rfl, rfl, -⟩ := exists_derivation_of_parse hleft hparse
  -- What is left has the brackets that the term needs, and had one more before.
  have hneeded : Term.brackets (d.meaning []) ≤ bracketScale.weigh d.tokens := d.affords []
  have hopen : bracketScale.weigh placed = bracketScale.weigh struck + 1 :=
    hopening.weigh bracketScale
  have hclose : bracketScale.weigh struck = bracketScale.weigh d.tokens :=
    hclosing.weigh bracketScale
  -- But what is printed has no more than it needs, since it is not a single number.
  have hprinted : bracketScale.weigh placed = Printer.printedBrackets numerals t := by
    rw [← Scale.weigh_unplaced, hplaced, Printer.weigh_derivation, Printer.weight_bracketScale,
      Bool.not_false, Bool.and_true]
  have hbracket : ⟨.openBracket, "(", 0⟩ ∈
      (Printer.derivation numerals t.freeVars false [] t).tokens := hplaced ▸ hopening.mem
  have hnone := Printer.asNumber?_eq_none_of_openBracket hbracket
  rw [Printer.printedBrackets_of_none hnone] at hprinted
  rw [halike.brackets_eq] at hneeded
  omega

/-- An abstraction that is a function, and an application that is an argument: without either pair
of brackets, the text is read as another term. -/
theorem pretty_brackets_needed_both :
    let t : Term := .app (.abs "x" (.bound 0)) (.app (.free "f") (.numeral 2))
    pretty t true = .ok "(λx -> x) (f 2)" ∧
      (∃ u, parse "λx -> x (f 2)" = .ok u ∧ ¬ u.Alike t) ∧
      ∃ u, parse "(λx -> x) f 2" = .ok u ∧ ¬ u.Alike t := by
  intro t
  obtain ⟨hwf, hfree, hhints⟩ :=
    Printer.isWellFormed_and_identifiers (t := t) (by decide) (by decide) forall_isIdentifier_f_x
  have hfreeVars : t.freeVars = ["f"] := by
    rw [Term.freeVars, Term.subterms_eq_preorder]
    decide +kernel
  have hpretty : pretty t true = .ok "(λx -> x) (f 2)" := by
    rw [pretty, hfreeVars]
    decide +kernel
  obtain ⟨text, htext, hneeded⟩ := pretty_brackets_needed t true hwf hfree hhints fun _ =>
    Term.numerals_lt_of_depth_le (by decide)
  obtain rfl := Except.ok.inj (hpretty.symm.trans htext)
  have hfn : parse "λx -> x (f 2)" =
      .ok (.abs "x" (.app (.bound 0) (.app (.free "f") (.numeral 2)))) := by decide +kernel
  have harg : parse "(λx -> x) f 2" =
      .ok (.app (.app (.abs "x" (.bound 0)) (.free "f")) (.numeral 2)) := by decide +kernel
  exact ⟨hpretty, ⟨_, hfn, hneeded "" "λx -> x" " (f 2)" rfl _ hfn⟩,
    _, harg, hneeded "(λx -> x) " "f 2" "" rfl _ harg⟩

end NormalOrder
