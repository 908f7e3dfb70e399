import Mathlib.Data.List.Induction
import NormalOrder.Proofs.Derivation
import NormalOrder.Proofs.Scanning
import NormalOrder.Surface.Program

/-!
# Parsing follows the grammar

Each rule of the grammar is a function that takes its phrase off the front of some tokens.

* What a rule takes off has a derivation, and the rule's result is its meaning (`term_sound`).
  The numbers in it are not too long, and it is nested no deeper than there are levels
  (`Derivation.Within`).
* A rule takes off every phrase that has a derivation, if what follows does not prolong the phrase
  and the numbers in it are not too long (`Complete`, `complete`).

Both are proved rule by rule, for any function that reads nested terms in the same way, and then
by induction: on the levels for the one, on the derivation for the other.  So `parse` accepts the
grammar and nothing else, and every program means what its only derivation means
(`parse_follows_grammar`).
-/

namespace NormalOrder

namespace Grammar

/-! ### Names and numbers -/

theorem resolve_eq_variableOf (scope : Scope) (name : String) :
    resolve scope name = variableOf scope name := by
  have h : scope.idxOf? name = distance? name scope := by
    induction scope with
    | nil => rfl
    | cons binder scope ih =>
      rw [List.idxOf?_cons, distance?, ih]
      by_cases hb : binder = name
      · simp [hb]
      · simp [hb]
  cases hd : distance? name scope with
  | none => rw [resolve, variableOf, h, hd]
  | some index => rw [resolve, variableOf, h, hd]

theorem absAll_eq_abstractOver (body : Scope → Term) (names : List String) (scope : Scope) :
    Term.absAll names (body (names.reverse ++ scope)) = abstractOver body names scope := by
  induction names generalizing scope with
  | nil => rfl
  | cons name names ih =>
    rw [List.reverse_cons, List.append_assoc, List.singleton_append, abstractOver, ← ih]
    rfl

theorem ofDigitChars_eq_ofDigits (cs : List Char) :
    Nat.ofDigitChars 10 cs 0 = Nat.ofDigits 10 (cs.reverse.map fun c => c.toNat - '0'.toNat) := by
  induction cs using List.reverseRecOn with
  | nil => rfl
  | append_singleton cs c ih =>
    rw [Nat.ofDigitChars_append, ih, List.reverse_append, Nat.ofDigitChars_cons,
      Nat.ofDigitChars_nil, List.reverse_singleton, List.singleton_append, List.map_cons,
      Nat.ofDigits_cons, Nat.add_comm]

/-- The numbers among some tokens are not too long to be read. -/
def NumbersFit (tokens : List Token) : Prop :=
  ∀ token ∈ tokens, token.kind = .natural → token.lexeme.length ≤ Text.Integer.maxDigits

theorem literal_of_fits {lexeme : String} (h : lexeme.length ≤ Text.Integer.maxDigits)
    (rest : List Token) :
    literal lexeme rest = .ok (.numeral (decimalValue lexeme), rest) := by
  rw [literal, if_pos h, ofDigitChars_eq_ofDigits, decimalValue]

theorem of_literal_eq_ok {lexeme : String} {rest rest' : List Token} {t : Term}
    (h : literal lexeme rest = .ok (t, rest')) :
    t = .numeral (decimalValue lexeme) ∧ rest = rest' ∧
      lexeme.length ≤ Text.Integer.maxDigits := by
  rw [literal] at h
  split at h
  · rename_i hlength
    cases h
    exact ⟨by rw [ofDigitChars_eq_ofDigits, decimalValue], rfl, hlength⟩
  · cases h

/-! ### Single tokens -/

theorem Rule.bind_eq_ok_iff {α β : Type} {rule : Rule α} {next : α → Rule β}
    {tokens : List Token} {result : β × List Token} :
    (rule >>= next) tokens = .ok result ↔
      ∃ a mid, rule tokens = .ok (a, mid) ∧ next a mid = .ok result := by
  rw [Rule.bind_apply]
  cases rule tokens with
  | error failure => simp
  | ok pair =>
    obtain ⟨a, mid⟩ := pair
    simp

theorem Rule.bind_of_ok {α β : Type} {rule : Rule α} {tokens rest : List Token} {a : α}
    (h : rule tokens = .ok (a, rest)) (next : α → Rule β) :
    (rule >>= next) tokens = next a rest := by
  rw [Rule.bind_apply, h]

theorem expect_leaf {kind : TokenKind} (leaf : Leaf kind) (phrase : String)
    (rest : List Token) : expect kind phrase (leaf.val :: rest) = .ok (leaf.val, rest) := by
  rw [expect, if_pos leaf.property]

theorem of_expect_eq_ok {kind : TokenKind} {phrase : String} {tokens rest : List Token}
    {token : Token} (h : expect kind phrase tokens = .ok (token, rest)) :
    ∃ leaf : Leaf kind, leaf.val = token ∧ tokens = leaf.val :: rest := by
  cases tokens with
  | nil => cases h
  | cons first tokens =>
    rw [expect] at h
    split at h
    · rename_i hkind
      cases h
      exact ⟨⟨_, hkind⟩, rfl, rfl⟩
    · cases h

theorem identifier_leaf (leaf : Leaf .identifier) (rest : List Token) :
    identifier (leaf.val :: rest) = .ok (leaf.lexeme, rest) :=
  Rule.bind_of_ok (expect_leaf leaf _ rest) _

theorem of_identifier_eq_ok {tokens rest : List Token} {name : String}
    (h : identifier tokens = .ok (name, rest)) :
    ∃ leaf : Leaf .identifier, leaf.lexeme = name ∧ tokens = leaf.val :: rest := by
  obtain ⟨token, mid, hexpect, hpure⟩ := Rule.bind_eq_ok_iff.1 h
  obtain ⟨leaf, rfl, rfl⟩ := of_expect_eq_ok hexpect
  cases hpure
  exact ⟨leaf, rfl, rfl⟩

theorem identifierRun_leaves (leaves : List (Leaf .identifier)) (arrow : Leaf .arrow)
    (rest : List Token) :
    identifierRun (leaves.map Subtype.val ++ arrow.val :: rest) =
      (leaves.map Leaf.lexeme, arrow.val :: rest) := by
  induction leaves with
  | nil =>
    have hkind : arrow.val.kind ≠ .identifier := by
      rw [arrow.property]
      decide
    simp [identifierRun, hkind]
  | cons leaf leaves ih =>
    rw [List.map_cons, List.cons_append, identifierRun, if_pos leaf.property, ih]
    rfl

theorem exists_leaves_identifierRun (tokens : List Token) :
    ∃ leaves : List (Leaf .identifier), leaves.map Leaf.lexeme = (identifierRun tokens).1 ∧
      tokens = leaves.map Subtype.val ++ (identifierRun tokens).2 := by
  induction tokens with
  | nil => exact ⟨[], rfl, rfl⟩
  | cons token tokens ih =>
    rw [identifierRun]
    split
    · rename_i hkind
      obtain ⟨leaves, hnames, htokens⟩ := ih
      refine ⟨⟨token, hkind⟩ :: leaves, ?_, ?_⟩
      · rw [List.map_cons, hnames]
        rfl
      · rw [List.map_cons, List.cons_append, ← htokens]
    · exact ⟨[], rfl, rfl⟩

/-! ### What is read has a derivation -/

theorem numbersFit_cons {token : Token} {tokens : List Token} :
    NumbersFit (token :: tokens) ↔
      (token.kind = .natural → token.lexeme.length ≤ Text.Integer.maxDigits) ∧
        NumbersFit tokens := List.forall_mem_cons

theorem numbersFit_append {tokens tokens' : List Token} :
    NumbersFit (tokens ++ tokens') ↔ NumbersFit tokens ∧ NumbersFit tokens' :=
  List.forall_mem_append

/-- A leaf that is no number is no number that is too long. -/
theorem Leaf.fits {kind : TokenKind} (hkind : kind ≠ .natural) (leaf : Leaf kind) :
    leaf.val.kind = .natural → leaf.val.lexeme.length ≤ Text.Integer.maxDigits :=
  fun h => absurd (leaf.property.symm.trans h) hkind

theorem numbersFit_leaves {kind : TokenKind} (hkind : kind ≠ .natural)
    (leaves : List (Leaf kind)) : NumbersFit (leaves.map Subtype.val) := by
  intro token htoken
  obtain ⟨leaf, -, rfl⟩ := List.mem_map.1 htoken
  exact Leaf.fits hkind leaf

/-- The number of terms that are nested in each other within a phrase. -/
def Derivation.nesting : {phrase : Phrase} → Derivation phrase → Nat
  | _, ofAbstraction d => d.nesting
  | _, ofLetIn d => d.nesting
  | _, ofApplication d => d.nesting
  | _, abstraction _ _ _ _ body => body.nesting + 1
  | _, letIn _ _ _ definition _ body => max definition.nesting body.nesting + 1
  | _, application fn args => max fn.nesting args.nesting
  | _, noArguments => 0
  | _, argument arg further => max arg.nesting further.nesting
  | _, identifier _ => 0
  | _, natural _ => 0
  | _, bracketed _ inner _ => inner.nesting + 1

/-- A phrase is nested no deeper than `bound`, and its numbers are not too long. -/
structure Derivation.Within {phrase : Phrase} (d : Derivation phrase) (bound : Nat) : Prop where
  /-- The numbers are not too long. -/
  numbers : NumbersFit d.tokens
  /-- At most `bound` terms are nested in each other. -/
  nesting : d.nesting ≤ bound

/-- What `nested` takes off the front of some tokens is a term with the meaning it returns, nested
no deeper than `bound`. -/
def Sound (bound : Nat) (nested : Scope → Rule Term) : Prop :=
  ∀ {scope : Scope} {tokens rest : List Token} {t : Term}, nested scope tokens = .ok (t, rest) →
    ∃ d : Derivation .term, tokens = d.tokens ++ rest ∧ d.meaning scope = t ∧ d.Within bound

section Soundness

variable {nested : Scope → Rule Term} {bound : Nat} (hnested : Sound bound nested) {scope : Scope}
  {tokens rest : List Token} {t : Term}

include hnested

theorem atom_sound (h : atom nested scope tokens = .ok (t, rest)) :
    ∃ d : Derivation .atom, tokens = d.tokens ++ rest ∧ d.meaning scope = t ∧
      d.Within (bound + 1) := by
  cases tokens with
  | nil => cases h
  | cons token tokens =>
    rw [atom] at h
    split at h
    · rename_i hkind
      cases h
      let leaf : Leaf .identifier := ⟨token, hkind⟩
      refine ⟨.identifier leaf, rfl, (resolve_eq_variableOf _ _).symm, ?_, Nat.zero_le _⟩
      exact numbersFit_leaves (by decide) [leaf]
    · rename_i hkind
      obtain ⟨rfl, rfl, hlength⟩ := of_literal_eq_ok h
      refine ⟨.natural ⟨token, hkind⟩, rfl, rfl, ?_, Nat.zero_le _⟩
      exact List.forall_mem_singleton.2 fun _ => hlength
    · rename_i hkind
      obtain ⟨inner, mid, hinner, hclose⟩ := Rule.bind_eq_ok_iff.1 h
      obtain ⟨d, rfl, rfl, hd⟩ := hnested hinner
      obtain ⟨closing, mid, hclosing, hpure⟩ := Rule.bind_eq_ok_iff.1 hclose
      obtain ⟨closing, rfl, rfl⟩ := of_expect_eq_ok hclosing
      cases hpure
      let opening : Leaf .openBracket := ⟨token, hkind⟩
      refine ⟨.bracketed opening d closing, ?_, rfl, ?_, Nat.succ_le_succ hd.nesting⟩
      · simp [Derivation.tokens, opening]
      · simp only [Derivation.tokens, numbersFit_cons, numbersFit_append]
        exact ⟨Leaf.fits (by decide) opening, hd.numbers, Leaf.fits (by decide) closing,
          List.forall_mem_nil _⟩
    · cases h

theorem arguments_sound {budget : List Token} {fn : Term}
    (h : arguments nested scope budget fn tokens = .ok (t, rest)) :
    ∃ d : Derivation .arguments, tokens = d.tokens ++ rest ∧
      List.foldl Term.app fn (d.meaning scope) = t ∧ d.Within (bound + 1) := by
  have hnone : Derivation.noArguments.Within (bound + 1) :=
    ⟨List.forall_mem_nil _, Nat.zero_le _⟩
  -- The rule carries the function along, applied to the arguments read so far.
  induction budget generalizing fn tokens with
  | nil =>
    cases h
    exact ⟨.noArguments, rfl, rfl, hnone⟩
  | cons _ budget ih =>
    rw [arguments] at h
    split at h
    · split at h
      · cases h
      · rename_i arg mid harg
        obtain ⟨d, rfl, rfl, hd⟩ := atom_sound hnested harg
        obtain ⟨further, rfl, hmeaning, hfurther⟩ := ih h
        refine ⟨.argument d further, ?_, hmeaning, ?_, Nat.max_le.2 ⟨hd.nesting, hfurther.nesting⟩⟩
        · rw [Derivation.tokens, List.append_assoc]
        · exact numbersFit_append.2 ⟨hd.numbers, hfurther.numbers⟩
    · cases h
      exact ⟨.noArguments, rfl, rfl, hnone⟩

theorem application_sound (h : application nested scope tokens = .ok (t, rest)) :
    ∃ d : Derivation .application, tokens = d.tokens ++ rest ∧ d.meaning scope = t ∧
      d.Within (bound + 1) := by
  obtain ⟨fn, mid, hfn, hargs⟩ := Rule.bind_eq_ok_iff.1 h
  obtain ⟨fn, rfl, rfl, hf⟩ := atom_sound hnested hfn
  obtain ⟨args, rfl, hmeaning, ha⟩ := arguments_sound hnested hargs
  refine ⟨.application fn args, ?_, hmeaning, ?_, Nat.max_le.2 ⟨hf.nesting, ha.nesting⟩⟩
  · rw [Derivation.tokens, List.append_assoc]
  · exact numbersFit_append.2 ⟨hf.numbers, ha.numbers⟩

theorem abstraction_sound (h : abstraction nested scope tokens = .ok (t, rest)) :
    ∃ d : Derivation .abstraction, tokens = d.tokens ++ rest ∧ d.meaning scope = t ∧
      d.Within (bound + 1) := by
  obtain ⟨head, mid, hhead, h₁⟩ := Rule.bind_eq_ok_iff.1 h
  obtain ⟨head, -, rfl⟩ := of_expect_eq_ok hhead
  obtain ⟨name, mid, hname, h₂⟩ := Rule.bind_eq_ok_iff.1 h₁
  obtain ⟨name, rfl, rfl⟩ := of_identifier_eq_ok hname
  obtain ⟨names, mid', hnames, h₃⟩ := Rule.bind_eq_ok_iff.1 h₂
  obtain ⟨leaves, hleaves, hmid⟩ := exists_leaves_identifierRun mid
  rw [Except.ok.inj hnames] at hleaves hmid
  obtain ⟨arrow, mid'', harrow, h₄⟩ := Rule.bind_eq_ok_iff.1 h₃
  obtain ⟨arrow, -, rfl⟩ := of_expect_eq_ok harrow
  obtain ⟨body, mid'', hbody, hpure⟩ := Rule.bind_eq_ok_iff.1 h₄
  obtain ⟨body, rfl, rfl, hb⟩ := hnested hbody
  cases hpure
  refine ⟨.abstraction head name leaves arrow body, ?_, ?_, ?_, Nat.succ_le_succ hb.nesting⟩
  · rw [hmid]
    simp [Derivation.tokens]
  · rw [Derivation.meaning, hleaves]
    exact (absAll_eq_abstractOver body.meaning _ scope).symm
  · simp only [Derivation.tokens, numbersFit_cons, numbersFit_append]
    exact ⟨Leaf.fits (by decide) head, Leaf.fits (by decide) name,
      numbersFit_leaves (by decide) leaves, Leaf.fits (by decide) arrow, hb.numbers⟩

theorem letIn_sound (h : letIn nested scope tokens = .ok (t, rest)) :
    ∃ d : Derivation .letIn, tokens = d.tokens ++ rest ∧ d.meaning scope = t ∧
      d.Within (bound + 1) := by
  obtain ⟨word, mid, hword, h₁⟩ := Rule.bind_eq_ok_iff.1 h
  obtain ⟨word, -, rfl⟩ := of_expect_eq_ok hword
  obtain ⟨name, mid, hname, h₂⟩ := Rule.bind_eq_ok_iff.1 h₁
  obtain ⟨name, rfl, rfl⟩ := of_identifier_eq_ok hname
  obtain ⟨sign, mid, hsign, h₃⟩ := Rule.bind_eq_ok_iff.1 h₂
  obtain ⟨sign, -, rfl⟩ := of_expect_eq_ok hsign
  obtain ⟨definition, mid, hdefinition, h₄⟩ := Rule.bind_eq_ok_iff.1 h₃
  obtain ⟨definition, rfl, rfl, hd⟩ := hnested hdefinition
  obtain ⟨inWord, mid, hin, h₅⟩ := Rule.bind_eq_ok_iff.1 h₄
  obtain ⟨inWord, -, rfl⟩ := of_expect_eq_ok hin
  obtain ⟨body, mid, hbody, hpure⟩ := Rule.bind_eq_ok_iff.1 h₅
  obtain ⟨body, rfl, rfl, hb⟩ := hnested hbody
  cases hpure
  refine ⟨.letIn word name sign definition inWord body, ?_, rfl, ?_,
    Nat.succ_le_succ (Nat.max_le.2 ⟨hd.nesting, hb.nesting⟩)⟩
  · simp [Derivation.tokens]
  · simp only [Derivation.tokens, numbersFit_cons, numbersFit_append]
    exact ⟨Leaf.fits (by decide) word, Leaf.fits (by decide) name, Leaf.fits (by decide) sign,
      hd.numbers, Leaf.fits (by decide) inWord, hb.numbers⟩

end Soundness

/-- **What is read as a term is one**, and has the meaning that is returned. -/
theorem term_sound (levels : Nat) : Sound levels (term levels) := by
  induction levels using Nat.strongRecOn with
  | ind levels ih =>
    intro scope tokens rest t h
    match levels, ih, h with
    | 0, _, h => cases h
    | 1, _, h => cases h
    | 2, _, h => cases h
    | levels + 3, ih, h =>
      rw [term] at h
      split at h
      · obtain ⟨d, htokens, hmeaning, hd⟩ := abstraction_sound (ih (levels + 1) (by omega)) h
        exact ⟨.ofAbstraction d, htokens, hmeaning, hd.numbers, Nat.le_succ_of_le hd.nesting⟩
      · obtain ⟨d, htokens, hmeaning, hd⟩ := letIn_sound (ih (levels + 1) (by omega)) h
        exact ⟨.ofLetIn d, htokens, hmeaning, hd.numbers, Nat.le_succ_of_le hd.nesting⟩
      · obtain ⟨d, htokens, hmeaning, hd⟩ := application_sound (ih levels (by omega)) h
        exact ⟨.ofApplication d, htokens, hmeaning, hd.numbers,
          Nat.le_add_right_of_le (k := 2) hd.nesting⟩

/-! ### What has a derivation is read -/

/-- The rule for a phrase takes it off the front of any tokens, if there are three levels for each
of its tokens and what follows does not prolong it.  The rules within a term have fewer levels,
since some are taken by the rules they are nested in. -/
def Complete : {phrase : Phrase} → Derivation phrase → Prop
  | .term, d => ∀ levels scope rest, 3 * d.tokens.length ≤ levels → NumbersFit d.tokens →
      atAtom rest = false → term levels scope (d.tokens ++ rest) = .ok (d.meaning scope, rest)
  | .abstraction, d => ∀ levels scope rest, 3 * d.tokens.length ≤ levels + 2 →
      NumbersFit d.tokens → atAtom rest = false →
      abstraction (term levels) scope (d.tokens ++ rest) = .ok (d.meaning scope, rest)
  | .letIn, d => ∀ levels scope rest, 3 * d.tokens.length ≤ levels + 2 → NumbersFit d.tokens →
      atAtom rest = false →
      letIn (term levels) scope (d.tokens ++ rest) = .ok (d.meaning scope, rest)
  | .application, d => ∀ levels scope rest, 3 * d.tokens.length ≤ levels + 3 →
      NumbersFit d.tokens → atAtom rest = false →
      application (term levels) scope (d.tokens ++ rest) = .ok (d.meaning scope, rest)
  | .arguments, d => ∀ levels scope budget fn rest, 3 * d.tokens.length ≤ levels + 3 →
      d.tokens.length ≤ List.length budget → NumbersFit d.tokens → atAtom rest = false →
      arguments (term levels) scope budget fn (d.tokens ++ rest) =
        .ok (List.foldl Term.app fn (d.meaning scope), rest)
  | .atom, d => ∀ levels scope rest, 3 * d.tokens.length ≤ levels + 3 → NumbersFit d.tokens →
      atom (term levels) scope (d.tokens ++ rest) = .ok (d.meaning scope, rest)

/-- A term is read by the rule for its alternative, nested in the rule for terms. -/
def alternativeRule (levels : Nat) : Phrase → Scope → Rule Term
  | .abstraction => abstraction (term (levels + 1))
  | .letIn => letIn (term (levels + 1))
  | _ => application (term levels)

theorem term_cons (levels : Nat) (scope : Scope) (token : Token) (tokens : List Token) :
    term (levels + 3) scope (token :: tokens) =
      alternativeRule levels (alternative token.kind) scope (token :: tokens) := by
  rw [term, List.head?_cons, Option.map_some]
  cases token.kind <;> rfl

/-- The first token of a term leads to the rule for its alternative. -/
theorem term_of_alternative {phrase : Phrase} (d : Derivation phrase)
    (hphrase : phrase = .abstraction ∨ phrase = .letIn ∨ phrase = .application) {levels : Nat}
    (hlevels : 3 * d.tokens.length ≤ levels) (scope : Scope) (rest : List Token) :
    ∃ n, levels = n + 3 ∧
      term levels scope (d.tokens ++ rest) =
        alternativeRule n phrase scope (d.tokens ++ rest) := by
  obtain ⟨token, later, htokens, rfl⟩ := d.alternative_head hphrase
  rw [htokens, List.length_cons] at hlevels
  refine ⟨levels - 3, by omega, ?_⟩
  obtain ⟨n, rfl⟩ : ∃ n, levels = n + 3 := ⟨levels - 3, by omega⟩
  rw [htokens, List.cons_append, term_cons, Nat.add_sub_cancel]

namespace Complete

theorem abstraction (head : Leaf .lambda) (name : Leaf .identifier)
    (names : List (Leaf .identifier)) (arrow : Leaf .arrow) {body : Derivation .term}
    (hbody : Complete body) : Complete (.abstraction head name names arrow body) := by
  intro levels scope rest hlevels hfit hend
  simp only [Derivation.tokens, List.length_cons, List.length_append, List.length_map,
    numbersFit_cons, numbersFit_append] at hlevels hfit
  have hread := hbody levels ((name.lexeme :: names.map Leaf.lexeme).reverse ++ scope) rest
    (by omega) hfit.2.2.2.2 hend
  have hnames : furtherIdentifiers (names.map Subtype.val ++ arrow.val :: (body.tokens ++ rest)) =
      .ok (names.map Leaf.lexeme, arrow.val :: (body.tokens ++ rest)) := by
    rw [furtherIdentifiers, identifierRun_leaves]
  simp only [Derivation.tokens, List.cons_append, List.append_assoc]
  rw [Grammar.abstraction, Rule.bind_of_ok (expect_leaf head _ _),
    Rule.bind_of_ok (identifier_leaf name _), Rule.bind_of_ok hnames,
    Rule.bind_of_ok (expect_leaf arrow _ _), Rule.bind_of_ok hread, Rule.pure_apply,
    absAll_eq_abstractOver body.meaning, Derivation.meaning]

theorem letIn (word : Leaf .letWord) (name : Leaf .identifier) (sign : Leaf .assign)
    {definition : Derivation .term} (inWord : Leaf .inWord) {body : Derivation .term}
    (hdefinition : Complete definition) (hbody : Complete body) :
    Complete (.letIn word name sign definition inWord body) := by
  intro levels scope rest hlevels hfit hend
  simp only [Derivation.tokens, List.length_cons, List.length_append, numbersFit_cons,
    numbersFit_append] at hlevels hfit
  have hread := hdefinition levels scope (inWord.val :: (body.tokens ++ rest)) (by omega)
    hfit.2.2.2.1 (inWord.endsBefore rfl .term _)
  have hread' := hbody levels (name.lexeme :: scope) rest (by omega) hfit.2.2.2.2.2 hend
  simp only [Derivation.tokens, List.cons_append, List.append_assoc]
  rw [Grammar.letIn, Rule.bind_of_ok (expect_leaf word _ _),
    Rule.bind_of_ok (identifier_leaf name _), Rule.bind_of_ok (expect_leaf sign _ _),
    Rule.bind_of_ok hread, Rule.bind_of_ok (expect_leaf inWord _ _), Rule.bind_of_ok hread',
    Rule.pure_apply, Derivation.meaning]

theorem application {fn : Derivation .atom} {args : Derivation .arguments} (hfn : Complete fn)
    (hargs : Complete args) : Complete (.application fn args) := by
  intro levels scope rest hlevels hfit hend
  simp only [Derivation.tokens, List.length_append, numbersFit_append] at hlevels hfit
  have hread := hfn levels scope (args.tokens ++ rest) (by omega) hfit.1
  have hread' := hargs levels scope (args.tokens ++ rest) (fn.meaning scope) rest (by omega)
    (by rw [List.length_append]; omega) hfit.2 hend
  rw [Derivation.tokens, List.append_assoc, Grammar.application, Rule.bind_of_ok hread]
  exact hread'

theorem noArguments : Complete .noArguments := by
  intro levels scope budget fn rest _ _ _ hend
  cases budget with
  | nil => rfl
  | cons _ budget =>
    rw [Derivation.tokens, List.nil_append, Grammar.arguments, if_neg (by simp [hend])]
    rfl

theorem argument {arg : Derivation .atom} {further : Derivation .arguments} (harg : Complete arg)
    (hfurther : Complete further) : Complete (.argument arg further) := by
  intro levels scope budget fn rest hlevels hbudget hfit hend
  simp only [Derivation.tokens, List.length_append, numbersFit_append] at hlevels hbudget hfit
  have hpos := List.length_pos_iff.2 arg.tokens_ne_nil
  obtain _ | ⟨first, budget⟩ := budget
  · rw [List.length_nil] at hbudget
    omega
  · rw [List.length_cons] at hbudget
    have hread := harg levels scope (further.tokens ++ rest) (by omega) hfit.1
    rw [Derivation.tokens, List.append_assoc, arguments, if_pos (arg.atAtom_tokens _), hread]
    exact hfurther levels scope budget _ rest (by omega) (by omega) hfit.2 hend

theorem identifier (leaf : Leaf .identifier) : Complete (.identifier leaf) := by
  intro levels scope rest _ _
  rw [Derivation.tokens, List.singleton_append, atom, leaf.property, resolve_eq_variableOf,
    Derivation.meaning, Leaf.lexeme]

theorem natural (leaf : Leaf .natural) : Complete (.natural leaf) := by
  intro levels scope rest _ hfit
  have hlength := hfit leaf.val (List.mem_singleton.2 rfl) leaf.property
  rw [Derivation.tokens, List.singleton_append, atom, leaf.property, literal_of_fits hlength,
    Derivation.meaning, Leaf.lexeme]

theorem bracketed (opening : Leaf .openBracket) {inner : Derivation .term}
    (closing : Leaf .closeBracket) (hinner : Complete inner) :
    Complete (.bracketed opening inner closing) := by
  intro levels scope rest hlevels hfit
  simp only [Derivation.tokens, List.length_cons, List.length_append, List.length_nil,
    numbersFit_cons, numbersFit_append] at hlevels hfit
  have hread := hinner levels scope (closing.val :: rest) (by omega) hfit.2.1
    (closing.endsBefore rfl .term rest)
  simp only [Derivation.tokens, List.cons_append, List.append_assoc, List.nil_append]
  rw [atom, opening.property, Grammar.bracketed, Rule.bind_of_ok hread,
    Rule.bind_of_ok (expect_leaf closing _ _)]
  rfl

theorem ofAbstraction {d : Derivation .abstraction} (hd : Complete d) :
    Complete (.ofAbstraction d) := by
  intro levels scope rest hlevels hfit hend
  obtain ⟨n, rfl, hterm⟩ := term_of_alternative d (by simp) hlevels scope rest
  exact hterm.trans (hd (n + 1) scope rest hlevels hfit hend)

theorem ofLetIn {d : Derivation .letIn} (hd : Complete d) : Complete (.ofLetIn d) := by
  intro levels scope rest hlevels hfit hend
  obtain ⟨n, rfl, hterm⟩ := term_of_alternative d (by simp) hlevels scope rest
  exact hterm.trans (hd (n + 1) scope rest hlevels hfit hend)

theorem ofApplication {d : Derivation .application} (hd : Complete d) :
    Complete (.ofApplication d) := by
  intro levels scope rest hlevels hfit hend
  obtain ⟨n, rfl, hterm⟩ := term_of_alternative d (by simp) hlevels scope rest
  exact hterm.trans (hd n scope rest hlevels hfit hend)

end Complete

/-- **Every phrase with a derivation is read**, and as what the derivation means. -/
theorem complete {phrase : Phrase} (d : Derivation phrase) : Complete d := by
  induction d with
  | ofAbstraction d ih => exact ih.ofAbstraction
  | ofLetIn d ih => exact ih.ofLetIn
  | ofApplication d ih => exact ih.ofApplication
  | abstraction head name names arrow body ih => exact .abstraction head name names arrow ih
  | letIn word name sign definition inWord body ihd ihb =>
    exact .letIn word name sign inWord ihd ihb
  | application fn args ihf iha => exact .application ihf iha
  | noArguments => exact .noArguments
  | argument arg further iha ihf => exact .argument iha ihf
  | identifier leaf => exact .identifier leaf
  | natural leaf => exact .natural leaf
  | bracketed opening inner closing ih => exact .bracketed opening closing ih

/-! ### Programs -/

theorem program_of_derivation {levels : Nat} (d : Derivation .term)
    (hlevels : 3 * d.tokens.length ≤ levels) (hfit : NumbersFit d.tokens) (scope : Scope) :
    program levels scope d.tokens = .ok (d.meaning scope, []) := by
  have hread := complete d levels scope [] hlevels hfit rfl
  rw [List.append_nil] at hread
  rw [program, Rule.bind_of_ok hread]
  rfl

theorem exists_derivation_of_program {levels : Nat} {scope : Scope} {tokens rest : List Token}
    {t : Term} (h : program levels scope tokens = .ok (t, rest)) :
    ∃ d : Derivation .term, d.tokens = tokens ∧ d.meaning scope = t ∧ d.Within levels := by
  obtain ⟨t, mid, hterm, hdone⟩ := Rule.bind_eq_ok_iff.1 h
  obtain ⟨d, rfl, rfl, hd⟩ := term_sound levels hterm
  cases mid with
  | nil =>
    cases hdone
    exact ⟨d, (List.append_nil _).symm, rfl, hd⟩
  | cons token mid => cases hdone

end Grammar

open Grammar

theorem parse_of_derivation {source : String} (d : Derivation .term)
    (h : tokenize source = .ok d.tokens) (hfit : NumbersFit d.tokens) :
    parse source = .ok (d.meaning []) := by
  rw [parse, h]
  simp only [parseTokens]
  rw [program_of_derivation d (by omega) hfit]

theorem exists_derivation_of_parseTokens {levels length : Nat} {tokens : List Token} {t : Term}
    (h : parseTokens levels length tokens = .ok t) :
    ∃ d : Derivation .term, d.tokens = tokens ∧ d.meaning [] = t ∧ d.Within levels := by
  rw [parseTokens] at h
  split at h
  · cases h
  · rename_i u rest hprogram
    obtain rfl := Except.ok.inj h
    exact exists_derivation_of_program hprogram

theorem exists_derivation_of_parse {source : String} {tokens : List Token} {t : Term}
    (h : tokenize source = .ok tokens) (hparse : parse source = .ok t) :
    ∃ d : Derivation .term, d.tokens = tokens ∧ d.meaning [] = t ∧ NumbersFit tokens := by
  rw [parse, h] at hparse
  obtain ⟨d, rfl, hmeaning, hd⟩ := exists_derivation_of_parseTokens hparse
  exact ⟨d, rfl, hmeaning, hd.numbers⟩

theorem exists_derivation_of_parseWithin {levels : Nat} {source : String} {t : Term}
    (h : parseWithin levels source = .ok t) : ∃ d : Derivation .term,
      tokenize source = .ok d.tokens ∧ d.meaning [] = t ∧ d.Within levels := by
  rw [parseWithin] at h
  split at h
  · cases h
  · rename_i tokens htokens
    obtain ⟨d, rfl, hmeaning, hd⟩ := exists_derivation_of_parseTokens h
    exact ⟨d, htokens, hmeaning, hd⟩

theorem parse_of_parseWithin {levels : Nat} {source : String} {t : Term}
    (h : parseWithin levels source = .ok t) : parse source = .ok t := by
  obtain ⟨d, htokens, rfl, hd⟩ := exists_derivation_of_parseWithin h
  exact parse_of_derivation d htokens hd.numbers

/-- **Parsing accepts the grammar and returns what it means.**  A source whose tokens are known,
with no number too long, is parsed as a term exactly when the kinds of its tokens can be derived
from the grammar.  Then its tokens have one derivation, and the term is what that derivation
means. -/
theorem parse_follows_grammar (source : String) (tokens : List Token)
    (hlex : lex source = .ok (tokens ++ [.atEnd source.length])) (hfit : NumbersFit tokens) :
    ((∃ t, parse source = .ok t) ↔ Derivable .term (tokens.map Token.kind)) ∧
    (Derivable .term (tokens.map Token.kind) → ∃! d : Derivation .term, d.tokens = tokens) ∧
    ∀ d : Derivation .term, d.tokens = tokens → parse source = .ok (d.meaning []) := by
  have htokens := lex_eq_ok_iff.1 hlex
  -- A derivation of the kinds is one of the tokens themselves, with other leaves.
  have hderivation : Derivable .term (tokens.map Token.kind) →
      ∃ d : Derivation .term, d.tokens = tokens := by
    rintro ⟨d, hkinds⟩
    exact d.exists_tokens_eq hkinds.symm
  have hparse : ∀ d : Derivation .term, d.tokens = tokens → parse source = .ok (d.meaning []) := by
    rintro d rfl
    exact parse_of_derivation d htokens hfit
  refine ⟨⟨?_, ?_⟩, ?_, hparse⟩
  · rintro ⟨t, ht⟩
    obtain ⟨d, rfl, -⟩ := exists_derivation_of_parse htokens ht
    exact ⟨d, rfl⟩
  · intro hderivable
    obtain ⟨d, hd⟩ := hderivation hderivable
    exact ⟨_, hparse d hd⟩
  · intro hderivable
    obtain ⟨d, hd⟩ := hderivation hderivable
    exact ⟨d, hd, fun e he => derivation_unique (he.trans hd.symm)⟩

/-- A `let` over an abstraction: the definition is outside the scope of its name. -/
theorem parse_follows_grammar_let :
    let source := "let x := 12 in \\y -> x y"
    let tokens : List Token := [⟨.letWord, "let", 0⟩, ⟨.identifier, "x", 4⟩, ⟨.assign, ":=", 6⟩,
      ⟨.natural, "12", 9⟩, ⟨.inWord, "in", 12⟩, ⟨.lambda, "\\", 15⟩, ⟨.identifier, "y", 16⟩,
      ⟨.arrow, "->", 18⟩, ⟨.identifier, "x", 21⟩, ⟨.identifier, "y", 23⟩]
    lex source = .ok (tokens ++ [.atEnd source.length]) ∧ NumbersFit tokens ∧
      Derivable .term (tokens.map Token.kind) ∧
      parse source =
        .ok (.app (.abs "x" (.abs "y" (.app (.bound 1) (.bound 0)))) (.numeral 12)) := by
  intro source tokens
  have hlex : lex source = .ok (tokens ++ [.atEnd source.length]) := by
    simp only [source, tokens]
    decide +kernel
  have hfit : NumbersFit tokens := by
    simp only [tokens, NumbersFit]
    decide
  let d : Derivation .term :=
    .ofLetIn (.letIn ⟨⟨.letWord, "let", 0⟩, rfl⟩ ⟨⟨.identifier, "x", 4⟩, rfl⟩
      ⟨⟨.assign, ":=", 6⟩, rfl⟩
      (.ofApplication (.application (.natural ⟨⟨.natural, "12", 9⟩, rfl⟩) .noArguments))
      ⟨⟨.inWord, "in", 12⟩, rfl⟩
      (.ofAbstraction (.abstraction ⟨⟨.lambda, "\\", 15⟩, rfl⟩ ⟨⟨.identifier, "y", 16⟩, rfl⟩ []
        ⟨⟨.arrow, "->", 18⟩, rfl⟩
        (.ofApplication (.application (.identifier ⟨⟨.identifier, "x", 21⟩, rfl⟩)
          (.argument (.identifier ⟨⟨.identifier, "y", 23⟩, rfl⟩) .noArguments))))))
  obtain ⟨-, -, hparse⟩ := parse_follows_grammar source tokens hlex hfit
  refine ⟨hlex, hfit, ⟨d, rfl⟩, (hparse d rfl).trans ?_⟩
  have hvalue : decimalValue "12" = 12 := by simp [decimalValue, Nat.ofDigits]
  show Except.ok (Term.app _ (.numeral (decimalValue "12"))) = _
  rw [hvalue]
  rfl

end NormalOrder
