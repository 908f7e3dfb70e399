import NormalOrder.Proofs.ViablePrefix

/-!
# Offsets do not matter

The rules of the grammar look at the kinds and the lexemes of tokens, never at their offsets.  On
tokens that differ in their offsets only (`SameWords`), every rule comes to the same result or fails
for the same reason, and what it leaves differs in offsets only, too (`placeless_program`).

So two sources with the same words have the same verdict (`sameVerdict_of_sameWords`): the same term,
or the same complaint about the same token, wherever that token stands.
-/

namespace NormalOrder

/-- Two tokens have the same kind and the same lexeme. -/
def Token.SameWord (token token' : Token) : Prop :=
  token.kind = token'.kind ∧ token.lexeme = token'.lexeme

/-- Tokens that differ in their offsets only. -/
abbrev SameWords : List Token → List Token → Prop := List.Forall₂ Token.SameWord

namespace Grammar

/-! ### Outcomes -/

/-- Two outcomes of a rule are the same up to offsets, with results that `R` relates. -/
inductive Agrees {α : Type} (R : α → α → Prop) :
    Except Failure (α × List Token) → Except Failure (α × List Token) → Prop where
  /-- The rule reads. -/
  | read {a b : α} {rest rest' : List Token} (hab : R a b) (hrest : SameWords rest rest') :
      Agrees R (.ok (a, rest)) (.ok (b, rest'))
  /-- The rule fails. -/
  | failed {reason : Reason} {rest rest' : List Token} (hrest : SameWords rest rest') :
      Agrees R (.error ⟨reason, rest⟩) (.error ⟨reason, rest'⟩)

/-- The rule does not look at offsets. -/
def Placeless {α : Type} (R : α → α → Prop) (rule : Rule α) : Prop :=
  ∀ ⦃tokens tokens' : List Token⦄, SameWords tokens tokens' →
    Agrees R (rule tokens) (rule tokens')

section

variable {α β : Type} {R : α → α → Prop} {S : β → β → Prop}

theorem placeless_pure {a : α} (h : R a a) : Placeless R (pure a : Rule α) :=
  fun _ _ htokens => .read h htokens

theorem Agrees.bind {rule : Rule α} {next : α → Rule β} {tokens tokens' : List Token}
    (hrule : Agrees R (rule tokens) (rule tokens'))
    (hnext : ∀ a b, R a b → ∀ mid mid', SameWords mid mid' → Agrees S (next a mid) (next b mid')) :
    Agrees S ((rule >>= next) tokens) ((rule >>= next) tokens') := by
  rw [Rule.bind_apply, Rule.bind_apply]
  generalize rule tokens = outcome at hrule ⊢
  generalize rule tokens' = outcome' at hrule ⊢
  cases hrule with
  | read hab hrest => exact hnext _ _ hab _ _ hrest
  | failed hrest => exact .failed hrest

theorem Placeless.bind {rule : Rule α} {next : α → Rule β} (hrule : Placeless Eq rule)
    (hnext : ∀ a, Placeless S (next a)) : Placeless S (rule >>= next) := by
  intro tokens tokens' htokens
  refine (hrule htokens).bind ?_
  rintro a _ rfl mid mid' hmid
  exact hnext a hmid

end

/-! ### The rules -/

theorem placeless_expect (kind : TokenKind) (phrase : String) :
    Placeless Token.SameWord (expect kind phrase) := by
  intro tokens tokens' htokens
  cases htokens with
  | nil => exact .failed .nil
  | @cons token token' rest rest' hword hrest =>
    have hdescribed : token.described = token'.described := by
      rw [Token.described, Token.described, hword.1, hword.2]
    rw [expect, expect, ← hword.1]
    split
    · exact .read hword hrest
    · rw [hdescribed]
      exact .failed (.cons hword hrest)

theorem placeless_expect_bind {β : Type} {S : β → β → Prop} {rule : Rule β} (kind : TokenKind)
    (phrase : String) (h : Placeless S rule) : Placeless S (expect kind phrase >>= fun _ => rule) :=
  fun _ _ htokens => (placeless_expect kind phrase htokens).bind fun _ _ _ _ _ hmid => h hmid

theorem placeless_identifier : Placeless Eq identifier :=
  fun _ _ htokens => (placeless_expect _ _ htokens).bind fun _ _ hword _ _ hmid => .read hword.2 hmid

theorem placeless_furtherIdentifiers : Placeless Eq furtherIdentifiers := by
  intro tokens tokens' htokens
  have hrun : (identifierRun tokens).1 = (identifierRun tokens').1 ∧
      SameWords (identifierRun tokens).2 (identifierRun tokens').2 := by
    induction htokens with
    | nil => exact ⟨rfl, .nil⟩
    | @cons token token' rest rest' hword hrest ih =>
      rw [identifierRun, identifierRun, ← hword.1]
      split
      · exact ⟨congrArg₂ List.cons hword.2 ih.1, ih.2⟩
      · exact ⟨rfl, .cons hword hrest⟩
  exact .read hrun.1 hrun.2

theorem atAtom_congr {tokens tokens' : List Token} (h : SameWords tokens tokens') :
    atAtom tokens = atAtom tokens' := by
  cases h with
  | nil => rfl
  | cons hword _ => exact congrArg TokenKind.startsAtom hword.1

section

variable {nested : Scope → Rule Term} (hnested : ∀ scope, Placeless Eq (nested scope))
  (scope : Scope)

include hnested

theorem placeless_bracketed : Placeless Eq (bracketed nested scope) :=
  (hnested scope).bind fun _ => placeless_expect_bind _ _ (placeless_pure rfl)

theorem placeless_atom : Placeless Eq (atom nested scope) := by
  intro tokens tokens' htokens
  cases htokens with
  | nil => exact .failed .nil
  | @cons token token' rest rest' hword hrest =>
    rw [atom, atom, ← hword.1, ← hword.2]
    split
    · exact .read rfl hrest
    · rw [literal, literal]
      split
      · exact .read rfl hrest
      · exact .failed hrest
    · exact placeless_bracketed hnested scope hrest
    · exact .failed (.cons hword hrest)

theorem agrees_arguments {budget budget' : List Token} (hbudget : SameWords budget budget')
    (fn : Term) : ∀ {tokens tokens' : List Token}, SameWords tokens tokens' →
      Agrees Eq (arguments nested scope budget fn tokens)
        (arguments nested scope budget' fn tokens') := by
  induction hbudget generalizing fn with
  | nil => exact fun htokens => .read rfl htokens
  | @cons first first' budget budget' _ _ ih =>
    intro tokens tokens' htokens
    rw [arguments, arguments, ← atAtom_congr htokens]
    split
    · have hatom := placeless_atom hnested scope htokens
      generalize atom nested scope tokens = outcome at hatom ⊢
      generalize atom nested scope tokens' = outcome' at hatom ⊢
      cases hatom with
      | read hab hrest =>
        obtain rfl := hab
        exact ih _ hrest
      | failed hrest => exact .failed hrest
    · exact .read rfl htokens

theorem placeless_application : Placeless Eq (application nested scope) :=
  (placeless_atom hnested scope).bind fun fn _ _ htokens =>
    agrees_arguments hnested scope htokens fn htokens

theorem placeless_abstraction : Placeless Eq (abstraction nested scope) :=
  placeless_expect_bind _ _ <| placeless_identifier.bind fun _ =>
    placeless_furtherIdentifiers.bind fun _ => placeless_expect_bind _ _ <|
      (hnested _).bind fun _ => placeless_pure rfl

theorem placeless_letIn : Placeless Eq (letIn nested scope) :=
  placeless_expect_bind _ _ <| placeless_identifier.bind fun _ => placeless_expect_bind _ _ <|
    (hnested scope).bind fun _ => placeless_expect_bind _ _ <|
      (hnested _).bind fun _ => placeless_pure rfl

end

theorem placeless_term (levels : Nat) (scope : Scope) : Placeless Eq (term levels scope) := by
  induction levels using Nat.strongRecOn generalizing scope with
  | ind levels ih =>
    intro tokens tokens' htokens
    match levels, ih with
    | 0, _ => exact .failed htokens
    | 1, _ => exact .failed htokens
    | 2, _ => exact .failed htokens
    | levels + 3, ih =>
      have hhead : tokens.head?.map Token.kind = tokens'.head?.map Token.kind := by
        cases htokens with
        | nil => rfl
        | cons hword _ => exact congrArg some hword.1
      rw [term, term, ← hhead]
      split
      · exact placeless_abstraction (ih (levels + 1) (by omega)) scope htokens
      · exact placeless_letIn (ih (levels + 1) (by omega)) scope htokens
      · exact placeless_application (ih levels (by omega)) scope htokens

/-- **Reading a program does not depend on offsets.** -/
theorem placeless_program (levels : Nat) (scope : Scope) : Placeless Eq (program levels scope) := by
  refine (placeless_term levels scope).bind fun t => ?_
  intro tokens tokens' htokens
  cases htokens with
  | nil => exact .read rfl .nil
  | @cons token token' rest rest' hword hrest =>
    show Agrees Eq (.error (.of (.leftover token.lexeme) (token :: rest)))
      (.error (.of (.leftover token'.lexeme) (token' :: rest')))
    rw [← hword.2]
    exact .failed (.cons hword hrest)

end Grammar

open Grammar

/-! ### Verdicts -/

/-- Two results of parsing are the same up to offsets.  The tokens are those of the two sources, with
the ones that mark their ends. -/
inductive SameVerdict (tokens tokens' : List Token) :
    Except Rejection Term → Except Rejection Term → Prop where
  /-- The same term. -/
  | term (t : Term) : SameVerdict tokens tokens' (.ok t) (.ok t)
  /-- The same complaint about the same token. -/
  | complaint (what : Complaint) {k : Nat} {token token' : Token} (htoken : tokens[k]? = some token)
      (htoken' : tokens'[k]? = some token') (hword : token.SameWord token') :
      SameVerdict tokens tokens'
        (.error (.grammatical ⟨what, token.position, token.lexeme.length⟩))
        (.error (.grammatical ⟨what, token'.position, token'.lexeme.length⟩))
  /-- A number with the same number of digits. -/
  | digits (count : Nat) :
      SameVerdict tokens tokens' (.error (.digits count)) (.error (.digits count))

theorem SameWords.front {length length' : Nat} {rest rest' : List Token} (h : SameWords rest rest') :
    (rest.head?.getD (.atEnd length)).SameWord (rest'.head?.getD (.atEnd length')) := by
  cases h with
  | nil => exact ⟨rfl, rfl⟩
  | cons hword _ => exact hword

/-- **Sources with the same words have the same verdict.** -/
theorem sameVerdict_of_sameWords {levels length length' : Nat} {tokens tokens' : List Token}
    (h : SameWords tokens tokens') :
    SameVerdict (tokens ++ [.atEnd length]) (tokens' ++ [.atEnd length'])
      (parseTokens levels length tokens) (parseTokens levels length' tokens') := by
  have hagrees := placeless_program levels [] h
  have hleft := recognizes_program levels [] tokens
  have hleft' := recognizes_program levels [] tokens'
  rw [parseTokens, parseTokens]
  generalize program levels [] tokens = outcome at hagrees hleft ⊢
  generalize program levels [] tokens' = outcome' at hagrees hleft' ⊢
  cases hagrees with
  | read hab _ =>
    obtain rfl := hab
    exact .term _
  | @failed reason rest rest' hrest =>
    obtain ⟨read, rfl⟩ := hleft.exists_append
    obtain ⟨read', rfl⟩ := hleft'.exists_append
    -- The same number of tokens has been read on both sides.
    have hlength : read'.length = read.length := by
      have hall := h.length_eq
      have hrests := hrest.length_eq
      rw [List.length_append, List.length_append] at hall
      omega
    have htoken : (read ++ rest ++ [.atEnd length])[read.length]? =
        some (rest.head?.getD (.atEnd length)) := by cases rest <;> simp
    have htoken' : (read' ++ rest' ++ [.atEnd length'])[read.length]? =
        some (rest'.head?.getD (.atEnd length')) := by
      rw [← hlength]
      cases rest' <;> simp
    cases reason with
    | complaint what => exact .complaint what htoken htoken' hrest.front
    | levels => exact .complaint .tooDeep htoken htoken' hrest.front
    | digits count => exact .digits count

end NormalOrder
