import NormalOrder.Proofs.NumeralSize
import NormalOrder.Proofs.RoundTrip
import NormalOrder.Proofs.Weighing

/-!
# Which numerals are printed as numbers

With numerals as numbers, the printer asks whether a term is a numeral before it writes a header,
but not again while it writes one.  So a numeral that is the body of an abstraction is taken up by
the header of that abstraction and spelled out: `λn -> 2` is printed as `λn f x -> f (f x)`
(`pretty_spells_out_body`).

These are the only numerals that are spelled out (`Printer.weight_add_countP`).  Hence there are as
many numbers in the text as there are numerals in the term, less those that are bodies of
abstractions, and all numerals are printed as numbers exactly when none is such a body
(`pretty_numbers`).
-/

namespace NormalOrder

open Grammar

namespace Term

/-! ### Numerals and bodies -/

/-- The term is a numeral. -/
def isNumeral (t : Term) : Bool := t.numeral?.isSome

/-- The term is an abstraction whose body is a numeral. -/
def buriesNumeral : Term → Bool
  | abs _ body => body.isNumeral
  | _ => false

theorem countP_preorder_app {p : Term → Bool} {fn arg : Term} (h : p (app fn arg) = false) :
    (app fn arg).preorder.countP p = fn.preorder.countP p + arg.preorder.countP p := by
  rw [preorder, List.countP_cons_of_neg (Bool.eq_false_iff.1 h), List.countP_append]

/-- There are only applications and bound variables in the body of a numeral. -/
theorem countP_preorder_spine {p : Term → Bool} (happ : ∀ fn arg, p (app fn arg) = false)
    (hbound : ∀ index, p (bound index) = false) (n : Nat) :
    (spine (bound 0) n).preorder.countP p = 0 := by
  induction n with
  | zero => simp [spine, preorder, hbound]
  | succ n ih =>
    rw [spine_succ, countP_preorder_app (happ _ _), ih]
    simp [preorder, hbound]

theorem isNumeral_abs_spine (hint : String) (n : Nat) :
    (abs hint (spine (bound 0) n)).isNumeral = false := by
  rw [isNumeral, Option.isSome_eq_false_iff, Option.isNone_iff_eq_none,
    Option.eq_none_iff_forall_ne_some]
  intro k hk
  obtain ⟨_, _, heq⟩ := eq_abs_of_numeral? hk
  exact spine_ne_abs n (abs.inj heq).2

theorem isNumeral_spine (n : Nat) : (spine (bound 0) n).isNumeral = false := by
  cases n with
  | zero => rfl
  | succ n => rw [spine_succ]; rfl

theorem countP_preorder_of_isNumeral {t : Term} (h : t.isNumeral = true) :
    t.preorder.countP isNumeral = 1 ∧ t.preorder.countP buriesNumeral = 0 := by
  obtain ⟨n, hn⟩ := Option.isSome_iff_exists.1 h
  obtain ⟨hint, hint', rfl⟩ := eq_abs_of_numeral? hn
  have hnumerals : (spine (bound 0) n).preorder.countP isNumeral = 0 :=
    countP_preorder_spine (fun _ _ => rfl) (fun _ => rfl) n
  have hbodies : (spine (bound 0) n).preorder.countP buriesNumeral = 0 :=
    countP_preorder_spine (fun _ _ => rfl) (fun _ => rfl) n
  simp only [preorder, List.countP_cons, hnumerals, hbodies, buriesNumeral, h,
    isNumeral_abs_spine, isNumeral_spine]
  exact ⟨rfl, rfl⟩

end Term

namespace Printer

/-- The scale that counts numbers. -/
def countNumbers : Scale := ⟨0, 0, fun _ => 1⟩

theorem weigh_countNumbers (tokens : List Token) :
    countNumbers.weigh tokens = tokens.countP (·.kind = .natural) := by
  induction tokens with
  | nil => rfl
  | cons token tokens ih =>
    rw [Scale.weigh_cons, List.countP_cons, ih, Nat.add_comm]
    congr 1
    obtain ⟨kind, lexeme, position⟩ := token
    cases kind <;> rfl

theorem asNumber?_isSome (numerals : Bool) (t : Term) :
    (asNumber? numerals t).isSome = (numerals && t.isNumeral) := by
  cases numerals <;> rfl

/-- **Every numeral is printed as a number, unless it is the body of an abstraction** or follows a
header, which is then the header of an abstraction around it. -/
theorem weight_add_countP (inHeader : Bool) (t : Term) :
    weight countNumbers true inHeader t + t.preorder.countP Term.buriesNumeral +
      (if inHeader && t.isNumeral then 1 else 0) = t.preorder.countP Term.isNumeral := by
  induction t generalizing inHeader with
  | free name => cases inHeader <;> rfl
  | bound index => cases inHeader <;> rfl
  | abs hint body ih =>
    have hsome := asNumber?_isSome (!inHeader) (.abs hint body)
    rw [weight, Bool.true_and]
    cases hn : asNumber? (!inHeader) (.abs hint body) with
    | some n =>
      rw [hn, Option.isSome_some, eq_comm, Bool.and_eq_true, Bool.not_eq_true'] at hsome
      obtain ⟨rfl, hnumeral⟩ := hsome
      obtain ⟨hnumerals, hbodies⟩ := Term.countP_preorder_of_isNumeral hnumeral
      rw [hnumerals, hbodies]
      rfl
    | none =>
      -- The body follows the header of this abstraction, so it is buried if it is a numeral.
      have hbody : weight countNumbers true true body + body.preorder.countP Term.buriesNumeral +
          (if (Term.abs hint body).buriesNumeral then 1 else 0) =
          body.preorder.countP Term.isNumeral := ih true
      have hself :
          (inHeader && (Term.abs hint body).isNumeral) = (Term.abs hint body).isNumeral := by
        rw [hn, Option.isSome_none] at hsome
        cases inHeader with
        | false => exact hsome
        | true => rfl
      rw [hself]
      simp only [Term.preorder, List.countP_cons]
      omega
  | app fn arg ihf iha =>
    have hf : weight countNumbers true false fn + fn.preorder.countP Term.buriesNumeral =
        fn.preorder.countP Term.isNumeral := ihf false
    have ha : weight countNumbers true false arg + arg.preorder.countP Term.buriesNumeral =
        arg.preorder.countP Term.isNumeral := iha false
    have hweight : weight countNumbers true inHeader (.app fn arg) =
        weight countNumbers true false fn + weight countNumbers true false arg := by
      simp [weight, countNumbers]
    rw [hweight, Term.countP_preorder_app rfl, Term.countP_preorder_app rfl, ← hf, ← ha,
      show (Term.app fn arg).isNumeral = false from rfl, Bool.and_false, if_neg Bool.false_ne_true]
    omega

end Printer

/-! ### The numbers in a text -/

/-- **Printed numbers are the numerals that are no bodies of abstractions.**  A term that is
well-formed, whose free variables and hints are identifiers, and whose numerals are not too large,
is printed as a text with one number for each numeral in the term, except for the numerals that are
bodies of abstractions.  So there is a number for each numeral exactly when no abstraction has a
numeral as its body. -/
theorem pretty_numbers (t : Term) (hwf : t.isWellFormed 0 = true)
    (hfree : ∀ name ∈ t.freeVars, IsIdentifier name) (hhints : ∀ hint ∈ t.hints, IsIdentifier hint)
    (hnumerals : ∀ s ∈ t.subterms, ∀ n, s.Alike (.numeral n) → n < 10 ^ Text.Integer.maxDigits) :
    ∃ text tokens, pretty t true = .ok text ∧ lex text = .ok tokens ∧
      tokens.countP (·.kind = .natural) + t.subterms.countP Term.buriesNumeral =
        t.subterms.countP Term.isNumeral ∧
      (tokens.countP (·.kind = .natural) = t.subterms.countP Term.isNumeral ↔
        ∀ hint body, .abs hint body ∈ t.subterms → body.numeral? = none) := by
  have hprintable : Printer.Printable true t.freeVars 0 t :=
    Printer.printable_of_isWellFormed hwf hfree hhints fun _ => hnumerals
  obtain ⟨⟨text, htext, hwritten⟩, -⟩ := Printer.writes (Printer.legible_nil t.freeVars) hprintable
  obtain ⟨placed, htokenize, hplaced⟩ := hwritten.exists_tokenize
  have hcount : (placed ++ [Token.atEnd text.length]).countP (·.kind = .natural) =
      Printer.weight Printer.countNumbers true false t := by
    rw [List.countP_append, ← Printer.weigh_countNumbers, ← Scale.weigh_unplaced, hplaced,
      Printer.weigh_derivation]
    rfl
  have hsum : _ + t.preorder.countP Term.buriesNumeral = _ := Printer.weight_add_countP false t
  rw [t.subterms_eq_preorder]
  refine ⟨text, _, htext, lex_eq_ok_iff.2 htokenize, by rw [hcount, hsum], ?_⟩
  rw [hcount, ← hsum, eq_comm, Nat.add_eq_left, List.countP_eq_zero]
  constructor
  · intro hnone hint body hmem
    exact Option.not_isSome_iff_eq_none.1 (hnone (.abs hint body) hmem)
  · intro hnone s hs
    cases s with
    | abs hint body =>
      show ¬ body.numeral?.isSome = true
      rw [hnone hint body hs]
      exact Bool.false_ne_true
    | _ => exact Bool.false_ne_true

/-- The numeral `3` is an argument, and the numeral `2` is a body. -/
theorem pretty_numbers_argument_and_body :
    let t : Term := .app (.app (.free "f") (.numeral 3)) (.abs "x" (.numeral 2))
    t.isWellFormed 0 = true ∧ (∀ name ∈ t.freeVars, IsIdentifier name) ∧
      (∀ hint ∈ t.hints, IsIdentifier hint) ∧ t.subterms.countP Term.isNumeral = 2 ∧
      ∃ text tokens, pretty t true = .ok text ∧ lex text = .ok tokens ∧
        tokens.countP (·.kind = .natural) = 1 := by
  intro t
  obtain ⟨hwf, hfree, hhints⟩ :=
    Printer.isWellFormed_and_identifiers (t := t) (by decide) (by decide) forall_isIdentifier_f_x
  obtain ⟨text, tokens, htext, hlex, hcount, -⟩ :=
    pretty_numbers t hwf hfree hhints (Term.numerals_lt_of_depth_le (by decide))
  have hnumerals : t.subterms.countP Term.isNumeral = 2 := by
    rw [Term.subterms_eq_preorder]
    rfl
  have hbodies : t.subterms.countP Term.buriesNumeral = 1 := by
    rw [Term.subterms_eq_preorder]
    rfl
  rw [hnumerals, hbodies] at hcount
  exact ⟨hwf, hfree, hhints, hnumerals, text, tokens, htext, hlex, Nat.succ.inj hcount⟩

/-- A numeral in the body of an abstraction is spelled out, also when numerals are to be written as
numbers. -/
theorem pretty_spells_out_body :
    let t : Term := .abs "n" (.numeral 2)
    t.isWellFormed 0 = true ∧ t.freeVars = [] ∧ (∀ hint ∈ t.hints, IsIdentifier hint) ∧
      pretty t true = .ok "λn f x -> f (f x)" ∧
      (lex "λn f x -> f (f x)").map (·.countP (·.kind = .natural)) = .ok 0 ∧
      t.subterms.countP Term.isNumeral = 1 := by
  intro t
  have hn : IsIdentifier "n" := isIdentifier_of_letter 'n' rfl (fun _ => rfl) rfl
  have hnames : ∀ name ∈ ["n", "f", "x"], IsIdentifier name :=
    List.forall_mem_cons.2 ⟨hn, forall_isIdentifier_f_x⟩
  obtain ⟨hwf, -, hhints⟩ :=
    Printer.isWellFormed_and_identifiers (t := t) (by decide) (by decide) hnames
  have hfree : t.freeVars = [] := by
    rw [Term.freeVars, Term.subterms_eq_preorder]
    rfl
  have hpretty : pretty t true = .ok "λn f x -> f (f x)" := by
    rw [pretty, hfree]
    simp only [t]
    decide +kernel
  have hnumerals : t.subterms.countP Term.isNumeral = 1 := by
    rw [Term.subterms_eq_preorder]
    rfl
  exact ⟨hwf, hfree, hhints, hpretty, by decide +kernel, hnumerals⟩

end NormalOrder
