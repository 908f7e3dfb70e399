import Mathlib.Data.Nat.Digits.Defs
import NormalOrder.Surface.Grammar

/-!
# Derivations of the grammar

A `Grammar.Derivation` shows how the tokens at its leaves form a phrase of the grammar.  It has one
constructor for each alternative of

* `term ::= abstraction | letIn | application`
* `abstraction ::= λ identifier+ -> term`
* `letIn ::= let identifier := term in term`
* `application ::= atom arguments`, with `arguments ::= | atom arguments`
* `atom ::= identifier | natural | ( term )`

and a leaf can only hold a token of the kind that stands at its place.  `Derivation.meaning` is the
term that a derivation stands for, given the names in scope.

The grammar is unambiguous: a derivation is determined by its tokens (`derivation_unique`), because
what follows a phrase is determined too, as long as it cannot prolong the arguments of an
application (`tokens_append_cancel`).
-/

namespace NormalOrder

namespace Grammar

/-! ### Derivations -/

/-- What the rules of the grammar describe. -/
inductive Phrase where
  /-- A term. -/
  | term
  /-- An abstraction over one name or more. -/
  | abstraction
  /-- A definition and the term it is for. -/
  | letIn
  /-- A function and its arguments. -/
  | application
  /-- The arguments of a function, any number of them. -/
  | arguments
  /-- A name, a number, or a term in brackets. -/
  | atom
  deriving DecidableEq, Repr

/-- A token of a given kind. -/
abbrev Leaf (kind : TokenKind) : Type := { token : Token // token.kind = kind }

/-- The text of a leaf. -/
def Leaf.lexeme {kind : TokenKind} (leaf : Leaf kind) : String := leaf.val.lexeme

/-- A derivation of a phrase from the rules of the grammar. -/
inductive Derivation : Phrase → Type where
  /-- A term that is an abstraction. -/
  | ofAbstraction (d : Derivation .abstraction) : Derivation .term
  /-- A term that is a `let`. -/
  | ofLetIn (d : Derivation .letIn) : Derivation .term
  /-- A term that is an application. -/
  | ofApplication (d : Derivation .application) : Derivation .term
  /-- `λ name names -> body` -/
  | abstraction (head : Leaf .lambda) (name : Leaf .identifier) (names : List (Leaf .identifier))
      (arrow : Leaf .arrow) (body : Derivation .term) : Derivation .abstraction
  /-- `let name := definition in body` -/
  | letIn (word : Leaf .letWord) (name : Leaf .identifier) (sign : Leaf .assign)
      (definition : Derivation .term) (inWord : Leaf .inWord) (body : Derivation .term) :
      Derivation .letIn
  /-- `fn args` -/
  | application (fn : Derivation .atom) (args : Derivation .arguments) : Derivation .application
  /-- No arguments. -/
  | noArguments : Derivation .arguments
  /-- An argument, and further ones. -/
  | argument (arg : Derivation .atom) (further : Derivation .arguments) : Derivation .arguments
  /-- A name. -/
  | identifier (leaf : Leaf .identifier) : Derivation .atom
  /-- A number. -/
  | natural (leaf : Leaf .natural) : Derivation .atom
  /-- `( inner )` -/
  | bracketed (opening : Leaf .openBracket) (inner : Derivation .term)
      (closing : Leaf .closeBracket) : Derivation .atom

namespace Derivation

/-- The tokens at the leaves, from left to right. -/
def tokens : {phrase : Phrase} → Derivation phrase → List Token
  | _, ofAbstraction d => d.tokens
  | _, ofLetIn d => d.tokens
  | _, ofApplication d => d.tokens
  | _, abstraction head name names arrow body =>
    head.val :: name.val :: (names.map Subtype.val ++ arrow.val :: body.tokens)
  | _, letIn word name sign definition inWord body =>
    word.val :: name.val :: sign.val :: (definition.tokens ++ inWord.val :: body.tokens)
  | _, application fn args => fn.tokens ++ args.tokens
  | _, noArguments => []
  | _, argument arg further => arg.tokens ++ further.tokens
  | _, identifier leaf => [leaf.val]
  | _, natural leaf => [leaf.val]
  | _, bracketed opening inner closing => opening.val :: (inner.tokens ++ [closing.val])

end Derivation

/-- The phrase can be derived with tokens of these kinds. -/
def Derivable (phrase : Phrase) (kinds : List TokenKind) : Prop :=
  ∃ d : Derivation phrase, d.tokens.map Token.kind = kinds

/-! ### The meaning of a derivation -/

/-- The number of binders between a name and the innermost binder of that name, in a scope whose
innermost binder comes first. -/
def distance? (name : String) : Scope → Option Nat
  | [] => none
  | binder :: scope => if binder = name then some 0 else (distance? name scope).map (· + 1)

/-- The variable that a name is in a scope. -/
def variableOf (scope : Scope) (name : String) : Term :=
  match distance? name scope with
  | some index => .bound index
  | none => .free name

/-- Nested abstractions over some names, the first outermost, around a body that is read in their
scope. -/
def abstractOver (body : Scope → Term) : List String → Scope → Term
  | [], scope => body scope
  | name :: names, scope => .abs name (abstractOver body names (name :: scope))

/-- The number that decimal digits write, the last digit being the units. -/
def decimalValue (lexeme : String) : Nat :=
  Nat.ofDigits 10 (lexeme.toList.reverse.map fun c => c.toNat - '0'.toNat)

/-- What a phrase stands for: arguments for several terms, everything else for one. -/
def Phrase.Meaning : Phrase → Type
  | .arguments => List Term
  | _ => Term

/-- What a derivation stands for in a scope. -/
def Derivation.meaning : {phrase : Phrase} → Derivation phrase → Scope → phrase.Meaning
  | _, ofAbstraction d, scope => d.meaning scope
  | _, ofLetIn d, scope => d.meaning scope
  | _, ofApplication d, scope => d.meaning scope
  | _, abstraction _ name names _ body, scope =>
    abstractOver body.meaning (name.lexeme :: names.map Leaf.lexeme) scope
  | _, letIn _ name _ definition _ body, scope =>
    Term.app (.abs name.lexeme (body.meaning (name.lexeme :: scope))) (definition.meaning scope)
  | _, application fn args, scope =>
    List.foldl Term.app (fn.meaning scope) (args.meaning scope)
  | _, noArguments, _ => ([] : List Term)
  | _, argument arg further, scope => (arg.meaning scope :: further.meaning scope : List Term)
  | _, identifier leaf, scope => variableOf scope leaf.lexeme
  | _, natural leaf, _ => Term.numeral (decimalValue leaf.lexeme)
  | _, bracketed _ inner _, scope => inner.meaning scope

/-! ### First tokens -/

/-- The alternative for a term that begins with a token of a given kind. -/
def alternative : TokenKind → Phrase
  | .lambda => .abstraction
  | .letWord => .letIn
  | _ => .application

theorem Leaf.kind_eq {kind kind' : TokenKind} {leaf : Leaf kind} {leaf' : Leaf kind'}
    (h : leaf.val = leaf'.val) : kind = kind' := by
  rw [← leaf.property, h, leaf'.property]

namespace Derivation

theorem atAtom_tokens (d : Derivation .atom) (rest : List Token) :
    atAtom (d.tokens ++ rest) = true := by
  cases d with
  | identifier leaf => simp [tokens, atAtom, leaf.property, TokenKind.startsAtom]
  | natural leaf => simp [tokens, atAtom, leaf.property, TokenKind.startsAtom]
  | bracketed opening inner closing =>
    simp [tokens, atAtom, opening.property, TokenKind.startsAtom]

theorem tokens_ne_nil (d : Derivation .atom) : d.tokens ≠ [] := by
  cases d <;> simp [tokens]

/-- The first token of an abstraction, a `let` or an application says which of them it is. -/
theorem alternative_head {phrase : Phrase} (d : Derivation phrase)
    (hphrase : phrase = .abstraction ∨ phrase = .letIn ∨ phrase = .application) :
    ∃ token later, d.tokens = token :: later ∧ alternative token.kind = phrase := by
  cases d with
  | abstraction head name names arrow body => exact ⟨_, _, rfl, by rw [head.property]; rfl⟩
  | letIn word name sign definition inWord body => exact ⟨_, _, rfl, by rw [word.property]; rfl⟩
  | application fn args =>
    cases fn with
    | identifier leaf => exact ⟨_, _, rfl, by rw [leaf.property]; rfl⟩
    | natural leaf => exact ⟨_, _, rfl, by rw [leaf.property]; rfl⟩
    | bracketed opening inner closing => exact ⟨_, _, rfl, by rw [opening.property]; rfl⟩
  | _ => simp at hphrase

theorem tokens_append_ne {phrase phrase' : Phrase} (d : Derivation phrase)
    (e : Derivation phrase')
    (hd : phrase = .abstraction ∨ phrase = .letIn ∨ phrase = .application)
    (he : phrase' = .abstraction ∨ phrase' = .letIn ∨ phrase' = .application)
    (hne : phrase ≠ phrase') (r s : List Token) : d.tokens ++ r ≠ e.tokens ++ s := by
  obtain ⟨token, later, htokens, hkind⟩ := d.alternative_head hd
  obtain ⟨token', later', htokens', hkind'⟩ := e.alternative_head he
  rw [htokens, htokens']
  intro h
  have hhead : token = token' := (List.cons.inj h).1
  rw [← hkind, hhead, hkind'] at hne
  exact hne rfl

end Derivation

/-! ### Unambiguity -/

/-- The tokens after a phrase do not prolong it.  An atom shows its end itself; everything else may
end in arguments. -/
def Phrase.EndsBefore : Phrase → List Token → Prop
  | .atom, _ => True
  | _, rest => atAtom rest = false

theorem Leaf.endsBefore {kind : TokenKind} (h : kind.startsAtom = false) (leaf : Leaf kind)
    (phrase : Phrase) (rest : List Token) : phrase.EndsBefore (leaf.val :: rest) := by
  cases phrase <;> simp [Phrase.EndsBefore, atAtom, leaf.property, h]

theorem Derivation.not_endsBefore_argument (arg : Derivation .atom)
    (further : Derivation .arguments) (rest : List Token) :
    ¬ Phrase.EndsBefore .arguments ((argument arg further).tokens ++ rest) := by
  intro h
  have hatom := arg.atAtom_tokens (further.tokens ++ rest)
  rw [← List.append_assoc] at hatom
  exact absurd (hatom.symm.trans h) (by decide)

/-- A run of names ends where a token of another kind stands. -/
theorem leaves_append_cancel {names names' : List (Leaf .identifier)} {r s : List Token}
    {arrow arrow' : Leaf .arrow}
    (h : names.map Subtype.val ++ arrow.val :: r = names'.map Subtype.val ++ arrow'.val :: s) :
    names = names' ∧ arrow = arrow' ∧ r = s := by
  induction names generalizing names' with
  | nil =>
    cases names' with
    | nil =>
      obtain ⟨harrow, hrest⟩ := List.cons.inj h
      exact ⟨rfl, Subtype.ext harrow, hrest⟩
    | cons name' names' => exact absurd (Leaf.kind_eq (List.cons.inj h).1) (by decide)
  | cons name names ih =>
    cases names' with
    | nil => exact absurd (Leaf.kind_eq (List.cons.inj h).1) (by decide)
    | cons name' names' =>
      obtain ⟨hname, hrest⟩ := List.cons.inj h
      obtain ⟨rfl, harrow, hrs⟩ := ih hrest
      obtain rfl := Subtype.ext hname
      exact ⟨rfl, harrow, hrs⟩

/-- **What follows a phrase tells the phrase apart.**  The same tokens cannot be cut into a phrase
and a rest in two ways. -/
theorem tokens_append_cancel {phrase : Phrase} (d e : Derivation phrase) {r s : List Token}
    (hr : phrase.EndsBefore r) (hs : phrase.EndsBefore s)
    (h : d.tokens ++ r = e.tokens ++ s) : d = e ∧ r = s := by
  -- The first token settles which constructor the other derivation has; then the parts are
  -- compared from left to right, each with all that comes after it as its rest.
  induction d generalizing r s with
  | ofAbstraction d ih =>
    cases e with
    | ofAbstraction e =>
      obtain ⟨rfl, hrs⟩ := ih e hr hs h
      exact ⟨rfl, hrs⟩
    | ofLetIn e => exact absurd h (d.tokens_append_ne e (by simp) (by simp) (by decide) r s)
    | ofApplication e => exact absurd h (d.tokens_append_ne e (by simp) (by simp) (by decide) r s)
  | ofLetIn d ih =>
    cases e with
    | ofAbstraction e => exact absurd h (d.tokens_append_ne e (by simp) (by simp) (by decide) r s)
    | ofLetIn e =>
      obtain ⟨rfl, hrs⟩ := ih e hr hs h
      exact ⟨rfl, hrs⟩
    | ofApplication e => exact absurd h (d.tokens_append_ne e (by simp) (by simp) (by decide) r s)
  | ofApplication d ih =>
    cases e with
    | ofAbstraction e => exact absurd h (d.tokens_append_ne e (by simp) (by simp) (by decide) r s)
    | ofLetIn e => exact absurd h (d.tokens_append_ne e (by simp) (by simp) (by decide) r s)
    | ofApplication e =>
      obtain ⟨rfl, hrs⟩ := ih e hr hs h
      exact ⟨rfl, hrs⟩
  | abstraction head name names arrow body ih =>
    cases e with
    | abstraction head' name' names' arrow' body' =>
      simp only [Derivation.tokens, List.cons_append, List.append_assoc, List.cons.injEq] at h
      obtain ⟨hhead, hname, hrest⟩ := h
      obtain ⟨rfl, rfl, hbody⟩ := leaves_append_cancel hrest
      obtain ⟨rfl, hrs⟩ := ih body' hr hs hbody
      obtain rfl := Subtype.ext hhead
      obtain rfl := Subtype.ext hname
      exact ⟨rfl, hrs⟩
  | letIn word name sign definition inWord body ihd ihb =>
    cases e with
    | letIn word' name' sign' definition' inWord' body' =>
      simp only [Derivation.tokens, List.cons_append, List.append_assoc, List.cons.injEq] at h
      obtain ⟨hword, hname, hsign, hrest⟩ := h
      obtain ⟨rfl, hin⟩ := ihd definition' (inWord.endsBefore rfl .term _)
        (inWord'.endsBefore rfl .term _) hrest
      obtain ⟨hinWord, hbody⟩ := List.cons.inj hin
      obtain ⟨rfl, hrs⟩ := ihb body' hr hs hbody
      obtain rfl := Subtype.ext hword
      obtain rfl := Subtype.ext hname
      obtain rfl := Subtype.ext hsign
      obtain rfl := Subtype.ext hinWord
      exact ⟨rfl, hrs⟩
  | application fn args ihf iha =>
    cases e with
    | application fn' args' =>
      simp only [Derivation.tokens, List.append_assoc] at h
      obtain ⟨rfl, hargs⟩ := ihf fn' trivial trivial h
      obtain ⟨rfl, hrs⟩ := iha args' hr hs hargs
      exact ⟨rfl, hrs⟩
  | noArguments =>
    cases e with
    | noArguments => exact ⟨rfl, h⟩
    | argument arg further =>
      rw [show r = _ from h] at hr
      exact absurd hr (arg.not_endsBefore_argument further s)
  | argument arg further iha ihf =>
    cases e with
    | noArguments =>
      rw [show s = _ from h.symm] at hs
      exact absurd hs (arg.not_endsBefore_argument further r)
    | argument arg' further' =>
      simp only [Derivation.tokens, List.append_assoc] at h
      obtain ⟨rfl, hfurther⟩ := iha arg' trivial trivial h
      obtain ⟨rfl, hrs⟩ := ihf further' hr hs hfurther
      exact ⟨rfl, hrs⟩
  | identifier leaf =>
    cases e with
    | identifier leaf' =>
      obtain ⟨hleaf, hrs⟩ := List.cons.inj h
      obtain rfl := Subtype.ext hleaf
      exact ⟨rfl, hrs⟩
    | natural leaf' => exact absurd (Leaf.kind_eq (List.cons.inj h).1) (by decide)
    | bracketed opening inner closing =>
      exact absurd (Leaf.kind_eq (List.cons.inj h).1) (by decide)
  | natural leaf =>
    cases e with
    | identifier leaf' => exact absurd (Leaf.kind_eq (List.cons.inj h).1) (by decide)
    | natural leaf' =>
      obtain ⟨hleaf, hrs⟩ := List.cons.inj h
      obtain rfl := Subtype.ext hleaf
      exact ⟨rfl, hrs⟩
    | bracketed opening inner closing =>
      exact absurd (Leaf.kind_eq (List.cons.inj h).1) (by decide)
  | bracketed opening inner closing ih =>
    cases e with
    | identifier leaf' => exact absurd (Leaf.kind_eq (List.cons.inj h).1) (by decide)
    | natural leaf' => exact absurd (Leaf.kind_eq (List.cons.inj h).1) (by decide)
    | bracketed opening' inner' closing' =>
      simp only [Derivation.tokens, List.cons_append, List.append_assoc, List.nil_append,
        List.cons.injEq] at h
      obtain ⟨hopening, hrest⟩ := h
      obtain ⟨rfl, hclosing⟩ := ih inner' (closing.endsBefore rfl .term r)
        (closing'.endsBefore rfl .term s) hrest
      obtain ⟨hclosing, hrs⟩ := List.cons.inj hclosing
      obtain rfl := Subtype.ext hopening
      obtain rfl := Subtype.ext hclosing
      exact ⟨rfl, hrs⟩

/-- **The grammar is unambiguous.** -/
theorem derivation_unique {phrase : Phrase} {d e : Derivation phrase}
    (h : d.tokens = e.tokens) : d = e := by
  have hend : phrase.EndsBefore [] := by cases phrase <;> trivial
  exact (tokens_append_cancel d e hend hend (by rw [h])).1

/-! ### Derivations depend on kinds only -/

theorem exists_leaf {kind : TokenKind} (leaf : Leaf kind) {token : Token}
    (h : token.kind = leaf.val.kind) : ∃ leaf' : Leaf kind, leaf'.val = token :=
  ⟨⟨token, h.trans leaf.property⟩, rfl⟩

theorem exists_leaves {kind : TokenKind} (leaves : List (Leaf kind)) {tokens : List Token}
    (h : tokens.map Token.kind = (leaves.map Subtype.val).map Token.kind) :
    ∃ leaves' : List (Leaf kind), leaves'.map Subtype.val = tokens := by
  induction leaves generalizing tokens with
  | nil => exact ⟨[], (List.map_eq_nil_iff.1 h).symm⟩
  | cons leaf leaves ih =>
    obtain ⟨token, tokens, rfl, htoken, hrest⟩ := List.map_eq_cons_iff.1 h
    obtain ⟨leaf', rfl⟩ := exists_leaf leaf htoken
    obtain ⟨leaves', rfl⟩ := ih hrest
    exact ⟨leaf' :: leaves', rfl⟩

/-- Tokens of the same kinds as those of a derivation have a derivation, too. -/
theorem Derivation.exists_tokens_eq {phrase : Phrase} (d : Derivation phrase) {tokens : List Token}
    (h : tokens.map Token.kind = d.tokens.map Token.kind) :
    ∃ e : Derivation phrase, e.tokens = tokens := by
  induction d generalizing tokens with
  | ofAbstraction d ih =>
    obtain ⟨e, he⟩ := ih h
    exact ⟨.ofAbstraction e, he⟩
  | ofLetIn d ih =>
    obtain ⟨e, he⟩ := ih h
    exact ⟨.ofLetIn e, he⟩
  | ofApplication d ih =>
    obtain ⟨e, he⟩ := ih h
    exact ⟨.ofApplication e, he⟩
  | abstraction head name names arrow body ih =>
    simp only [Derivation.tokens, List.map_cons, List.map_append, List.map_eq_cons_iff,
      List.map_eq_append_iff] at h
    obtain ⟨_, _, rfl, hhead, _, _, rfl, hname, _, _, rfl, hnames, _, _, rfl, harrow, hbody⟩ := h
    obtain ⟨head', rfl⟩ := exists_leaf head hhead
    obtain ⟨name', rfl⟩ := exists_leaf name hname
    obtain ⟨names', rfl⟩ := exists_leaves names hnames
    obtain ⟨arrow', rfl⟩ := exists_leaf arrow harrow
    obtain ⟨body', rfl⟩ := ih hbody
    exact ⟨.abstraction head' name' names' arrow' body', rfl⟩
  | letIn word name sign definition inWord body ihd ihb =>
    simp only [Derivation.tokens, List.map_cons, List.map_append, List.map_eq_cons_iff,
      List.map_eq_append_iff] at h
    obtain ⟨_, _, rfl, hword, _, _, rfl, hname, _, _, rfl, hsign, _, _, rfl, hdefinition,
      _, _, rfl, hin, hbody⟩ := h
    obtain ⟨word', rfl⟩ := exists_leaf word hword
    obtain ⟨name', rfl⟩ := exists_leaf name hname
    obtain ⟨sign', rfl⟩ := exists_leaf sign hsign
    obtain ⟨definition', rfl⟩ := ihd hdefinition
    obtain ⟨inWord', rfl⟩ := exists_leaf inWord hin
    obtain ⟨body', rfl⟩ := ihb hbody
    exact ⟨.letIn word' name' sign' definition' inWord' body', rfl⟩
  | application fn args ihf iha =>
    simp only [Derivation.tokens, List.map_append, List.map_eq_append_iff] at h
    obtain ⟨_, _, rfl, hfn, hargs⟩ := h
    obtain ⟨fn', rfl⟩ := ihf hfn
    obtain ⟨args', rfl⟩ := iha hargs
    exact ⟨.application fn' args', rfl⟩
  | noArguments => exact ⟨.noArguments, (List.map_eq_nil_iff.1 h).symm⟩
  | argument arg further iha ihf =>
    simp only [Derivation.tokens, List.map_append, List.map_eq_append_iff] at h
    obtain ⟨_, _, rfl, harg, hfurther⟩ := h
    obtain ⟨arg', rfl⟩ := iha harg
    obtain ⟨further', rfl⟩ := ihf hfurther
    exact ⟨.argument arg' further', rfl⟩
  | identifier leaf =>
    simp only [Derivation.tokens, List.map_cons, List.map_nil, List.map_eq_cons_iff,
      List.map_eq_nil_iff] at h
    obtain ⟨_, _, rfl, hleaf, rfl⟩ := h
    obtain ⟨leaf', rfl⟩ := exists_leaf leaf hleaf
    exact ⟨.identifier leaf', rfl⟩
  | natural leaf =>
    simp only [Derivation.tokens, List.map_cons, List.map_nil, List.map_eq_cons_iff,
      List.map_eq_nil_iff] at h
    obtain ⟨_, _, rfl, hleaf, rfl⟩ := h
    obtain ⟨leaf', rfl⟩ := exists_leaf leaf hleaf
    exact ⟨.natural leaf', rfl⟩
  | bracketed opening inner closing ih =>
    simp only [Derivation.tokens, List.map_cons, List.map_append, List.map_nil,
      List.map_eq_cons_iff, List.map_eq_append_iff, List.map_eq_nil_iff] at h
    obtain ⟨_, _, rfl, hopening, _, _, rfl, hinner, _, _, rfl, hclosing, rfl⟩ := h
    obtain ⟨opening', rfl⟩ := exists_leaf opening hopening
    obtain ⟨inner', rfl⟩ := ih hinner
    obtain ⟨closing', rfl⟩ := exists_leaf closing hclosing
    exact ⟨.bracketed opening' inner' closing', rfl⟩

end Grammar

end NormalOrder
