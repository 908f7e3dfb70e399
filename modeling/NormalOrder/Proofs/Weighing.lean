import NormalOrder.Proofs.Printing

/-!
# Weighing the tokens of a printed term

A `Grammar.Scale` gives a weight to opening brackets, to the word `let`, and to numbers by their
value; all other tokens weigh nothing.  So the weight of a list of tokens counts something about it:
its brackets, its numbers, or both together.

What is printed for a term has a weight that can be told from the term, without the names that are
chosen for its binders: `Printer.weight`, which goes through the term as the printer does
(`Printer.weigh_derivation`).
-/

namespace NormalOrder

namespace Grammar

/-- What tokens weigh. -/
structure Scale where
  /-- The weight of an opening bracket. -/
  bracket : Nat
  /-- The weight of the word `let`. -/
  letWord : Nat
  /-- The weight of a number. -/
  number : Nat → Nat

namespace Scale

variable (scale : Scale)

/-- The weight of a token. -/
def token (token : Token) : Nat :=
  match token.kind with
  | .openBracket => scale.bracket
  | .letWord => scale.letWord
  | .natural => scale.number (decimalValue token.lexeme)
  | _ => 0

/-- The weight of some tokens together. -/
def weigh (tokens : List Token) : Nat := (tokens.map scale.token).sum

@[simp] theorem weigh_nil : scale.weigh [] = 0 := rfl

@[simp] theorem weigh_cons (token : Token) (tokens : List Token) :
    scale.weigh (token :: tokens) = scale.token token + scale.weigh tokens := by simp [weigh]

@[simp] theorem weigh_append (tokens tokens' : List Token) :
    scale.weigh (tokens ++ tokens') = scale.weigh tokens + scale.weigh tokens' := by simp [weigh]

@[simp] theorem weigh_unplaced (tokens : List Token) :
    scale.weigh (tokens.map Token.unplaced) = scale.weigh tokens := by
  rw [weigh, weigh, List.map_map]
  rfl

/-! ### Derivations -/

theorem token_openBracket (leaf : Leaf .openBracket) : scale.token leaf.val = scale.bracket := by
  rw [token, leaf.property]

theorem token_letWord (leaf : Leaf .letWord) : scale.token leaf.val = scale.letWord := by
  rw [token, leaf.property]

theorem token_natural (leaf : Leaf .natural) :
    scale.token leaf.val = scale.number (decimalValue leaf.lexeme) := by
  rw [token, leaf.property]
  rfl

theorem token_leaf {kind : TokenKind} (leaf : Leaf kind) (hbracket : kind ≠ .openBracket)
    (hlet : kind ≠ .letWord) (hnumber : kind ≠ .natural) : scale.token leaf.val = 0 := by
  rw [token, leaf.property]
  cases kind <;> trivial

theorem weigh_inBrackets (d : Derivation .term) :
    scale.weigh d.inBrackets.tokens = scale.weigh d.tokens + scale.bracket := by
  rw [Derivation.tokens_inBrackets, weigh_cons, weigh_append, Nat.add_comm]
  rfl

/-- The names and the arrow of a header weigh nothing, wherever they are counted. -/
theorem weigh_afterHeader (d : Derivation .term) :
    scale.weigh d.afterHeader = scale.weigh d.tokens := by
  fun_cases Derivation.afterHeader d with
  | case1 head first names arrow body =>
    have hhead := scale.token_leaf head (by decide) (by decide) (by decide)
    rw [Derivation.tokens, Derivation.tokens, weigh_cons _ head.val, hhead, Nat.zero_add]
  | case2 d => exact Nat.zero_add _
  | case3 d => exact Nat.zero_add _

theorem weigh_under (name : String) (d : Derivation .term) :
    scale.weigh (d.under name).tokens = scale.weigh d.tokens := by
  rw [Derivation.tokens_under, weigh_cons, weigh_cons, weigh_afterHeader]
  exact (Nat.zero_add _).trans (Nat.zero_add _)

end Scale

end Grammar

open Grammar

namespace Printer

variable (scale : Scale) {numerals : Bool} {free names : List String}

/-- The weight of what is printed for a term. -/
def weight (numerals : Bool) : Bool → Term → Nat
  | _, .free _ => 0
  | _, .bound _ => 0
  | inHeader, .abs hint body =>
    match asNumber? (numerals && !inHeader) (.abs hint body) with
    | some n => scale.number n
    | none => weight numerals true body
  | _, .app fn arg =>
    weight numerals false fn + (if isAbstraction numerals fn then scale.bracket else 0) +
      (weight numerals false arg +
        if isApplication arg || isAbstraction numerals arg then scale.bracket else 0)

theorem weigh_toAtom (t : Term) :
    scale.weigh (derivation numerals free false names t).toAtom.tokens =
      scale.weigh (derivation numerals free false names t).tokens +
        if isApplication t || isAbstraction numerals t then scale.bracket else 0 := by
  obtain ⟨happ, habs, atom, hd⟩ | ⟨happ, habs, name, d, hd⟩ | ⟨happ, habs, d, last, hd⟩ :=
    derivation_cases numerals free names t
  · rw [happ, habs, hd, Derivation.tokens_ofAtom]
    rfl
  · rw [happ, habs, hd, Derivation.toAtom_under, scale.weigh_inBrackets]
    rfl
  · rw [happ, habs, hd, Derivation.toAtom_applyTo, scale.weigh_inBrackets]
    rfl

theorem weigh_toApplication (t : Term) :
    scale.weigh (derivation numerals free false names t).toApplication.tokens =
      scale.weigh (derivation numerals free false names t).tokens +
        if isAbstraction numerals t then scale.bracket else 0 := by
  obtain ⟨-, habs, atom, hd⟩ | ⟨-, habs, name, d, hd⟩ | ⟨-, habs, d, last, hd⟩ :=
    derivation_cases numerals free names t
  · rw [habs, hd]
    rfl
  · rw [habs, hd, Derivation.toApplication_under, Derivation.tokens_noArguments,
      scale.weigh_inBrackets]
    rfl
  · rw [habs, hd]
    rfl

/-- **The weight of what is printed does not depend on names.** -/
theorem weigh_derivation (free names : List String) (inHeader : Bool) (t : Term) :
    scale.weigh (derivation numerals free inHeader names t).tokens =
      weight scale numerals inHeader t := by
  induction t generalizing inHeader names with
  | free name => rfl
  | bound index => rfl
  | abs hint body ih =>
    cases hn : asNumber? (numerals && !inHeader) (.abs hint body) with
    | some n =>
      simp only [derivation, weight, hn, Derivation.tokens_ofAtom, Derivation.tokens,
        scale.weigh_cons, scale.weigh_nil, Nat.add_zero]
      exact congrArg scale.number (decimalValue_toString n)
    | none => simp only [derivation, weight, hn, scale.weigh_under, ih]
  | app fn arg ihf iha =>
    rw [derivation, weight, Derivation.tokens, Derivation.tokens_applyTo, scale.weigh_append,
      weigh_toApplication, weigh_toAtom, ihf, iha]

end Printer

end NormalOrder
