import NormalOrder.Proofs.Parsing

/-!
# Texts written for given tokens

What a program means depends on its tokens, but not on where they stand in the source.
`Written text tokens` says that `text` is cut into `tokens`, up to their offsets, wherever it stands
and whatever follows it, as long as that cannot prolong its last word.

Written texts can be put together: after a word, a space or a closing bracket is needed
(`Written.space_append`, `Written.bracketed`), after a sign nothing (`Written.lambda`).  A text that
is written for the tokens of a derivation is parsed as what that derivation means
(`Written.parse_eq_ok`).
-/

namespace NormalOrder

/-! ### Tokens without offsets -/

/-- The token at offset zero. -/
def Token.unplaced (token : Token) : Token := { token with position := 0 }

namespace Grammar

/-- The leaf at offset zero. -/
def Leaf.unplaced {kind : TokenKind} (leaf : Leaf kind) : Leaf kind :=
  ⟨leaf.val.unplaced, leaf.property⟩

theorem NumbersFit.of_unplaced {tokens : List Token}
    (h : NumbersFit (tokens.map Token.unplaced)) : NumbersFit tokens :=
  fun token htoken => h token.unplaced (List.mem_map_of_mem htoken)

namespace Derivation

/-- The derivation with all its tokens at offset zero. -/
def unplaced : {phrase : Phrase} → Derivation phrase → Derivation phrase
  | _, ofAbstraction d => .ofAbstraction d.unplaced
  | _, ofLetIn d => .ofLetIn d.unplaced
  | _, ofApplication d => .ofApplication d.unplaced
  | _, abstraction head name names arrow body =>
    .abstraction head.unplaced name.unplaced (names.map Leaf.unplaced) arrow.unplaced body.unplaced
  | _, letIn word name sign definition inWord body =>
    .letIn word.unplaced name.unplaced sign.unplaced definition.unplaced inWord.unplaced
      body.unplaced
  | _, application fn args => .application fn.unplaced args.unplaced
  | _, noArguments => .noArguments
  | _, argument arg further => .argument arg.unplaced further.unplaced
  | _, identifier leaf => .identifier leaf.unplaced
  | _, natural leaf => .natural leaf.unplaced
  | _, bracketed opening inner closing =>
    .bracketed opening.unplaced inner.unplaced closing.unplaced

theorem tokens_unplaced {phrase : Phrase} (d : Derivation phrase) :
    d.unplaced.tokens = d.tokens.map Token.unplaced := by
  induction d with
  | ofAbstraction d ih => exact ih
  | ofLetIn d ih => exact ih
  | ofApplication d ih => exact ih
  | abstraction head name names arrow body ih => simp [unplaced, tokens, ih, Leaf.unplaced]
  | letIn word name sign definition inWord body ihd ihb =>
    simp [unplaced, tokens, ihd, ihb, Leaf.unplaced]
  | application fn args ihf iha => simp [unplaced, tokens, ihf, iha]
  | noArguments => rfl
  | argument arg further iha ihf => simp [unplaced, tokens, iha, ihf]
  | identifier leaf => rfl
  | natural leaf => rfl
  | bracketed opening inner closing ih => simp [unplaced, tokens, ih, Leaf.unplaced]

theorem meaning_unplaced {phrase : Phrase} (d : Derivation phrase) :
    d.unplaced.meaning = d.meaning := by
  induction d with
  | ofAbstraction d ih => exact ih
  | ofLetIn d ih => exact ih
  | ofApplication d ih => exact ih
  | abstraction head name names arrow body ih =>
    have hnames : (names.map Leaf.unplaced).map Leaf.lexeme = names.map Leaf.lexeme := by
      rw [List.map_map]
      rfl
    funext scope
    simp only [unplaced, meaning, ih, hnames]
    rfl
  | letIn word name sign definition inWord body ihd ihb =>
    funext scope
    simp only [unplaced, meaning, ihd, ihb]
    rfl
  | application fn args ihf iha =>
    funext scope
    simp only [unplaced, meaning, ihf, iha]
  | noArguments => rfl
  | argument arg further iha ihf =>
    funext scope
    simp only [unplaced, meaning, iha, ihf]
    rfl
  | identifier leaf => rfl
  | natural leaf => rfl
  | bracketed opening inner closing ih => exact ih

end Derivation

end Grammar

open Grammar

/-- A source is parsed as what a derivation means if its tokens are those of the derivation, up to
their offsets. -/
theorem parse_of_unplaced {source : String} {tokens : List Token} (d : Derivation .term)
    (hsource : tokenize source = .ok tokens) (htokens : tokens.map Token.unplaced = d.tokens)
    (hfit : NumbersFit d.tokens) : parse source = .ok (d.meaning []) := by
  have hkinds : tokens.map Token.kind = d.tokens.map Token.kind := by
    rw [← htokens, List.map_map]
    rfl
  obtain ⟨e, rfl⟩ := d.exists_tokens_eq hkinds
  -- The grammar is unambiguous, so the derivation of the tokens in place is `d` in place.
  obtain rfl : e.unplaced = d := derivation_unique (e.tokens_unplaced.trans htokens)
  rw [e.meaning_unplaced]
  exact parse_of_derivation e hsource (.of_unplaced (htokens ▸ hfit))

/-! ### Written texts -/

/-- The text is cut into the tokens, up to their offsets, wherever it stands, if what follows does
not prolong its last word. -/
def Written (text : String) (tokens : List Token) : Prop :=
  ∀ position, ∃ placed : List Token, placed.map Token.unplaced = tokens ∧
    ∀ rest later, EndsWord rest → Scans (position + text.length) rest later →
      Scans position (text.toList ++ rest) (placed ++ later)

namespace Written

theorem exists_tokenize {text : String} {tokens : List Token} (h : Written text tokens) :
    ∃ placed, tokenize text = .ok placed ∧ placed.map Token.unplaced = tokens := by
  obtain ⟨placed, hplaced, hscans⟩ := h 0
  have htext := hscans [] [] endsWord_nil (.done _)
  rw [List.append_nil, List.append_nil] at htext
  exact ⟨placed, tokenize_eq_ok_iff.2 htext, hplaced⟩

theorem parse_eq_ok {text : String} {d : Derivation .term} (h : Written text d.tokens)
    (hfit : NumbersFit d.tokens) : parse text = .ok (d.meaning []) := by
  obtain ⟨placed, htokenize, hplaced⟩ := h.exists_tokenize
  exact parse_of_unplaced d htokenize hplaced hfit

theorem identifier {name : String} (h : IsIdentifier name) :
    Written name [⟨.identifier, name, 0⟩] := by
  intro position
  refine ⟨[⟨.identifier, name, position⟩], rfl, fun rest later hrest hlater => ?_⟩
  exact h.scans hrest hlater

theorem natural (n : Nat) : Written (toString n) [⟨.natural, toString n, 0⟩] := by
  intro position
  refine ⟨[⟨.natural, toString n, position⟩], rfl, fun rest later hrest hlater => ?_⟩
  exact scans_number n hrest hlater

variable {text text' : String} {tokens tokens' : List Token}

theorem lambda (h : Written text tokens) :
    Written ("λ" ++ text) (⟨.lambda, "λ", 0⟩ :: tokens) := by
  intro position
  obtain ⟨placed, hplaced, hscans⟩ := h (position + 1)
  refine ⟨⟨.lambda, "λ", position⟩ :: placed, congrArg _ hplaced, fun rest later hrest hlater => ?_⟩
  rw [String.length_append, ← Nat.add_assoc] at hlater
  rw [String.toList_append]
  exact .lambda (hscans rest later hrest hlater)

theorem arrow (h : Written text tokens) :
    Written ("-> " ++ text) (⟨.arrow, "->", 0⟩ :: tokens) := by
  intro position
  obtain ⟨placed, hplaced, hscans⟩ := h (position + 2 + 1)
  refine ⟨⟨.arrow, "->", position⟩ :: placed, congrArg _ hplaced, fun rest later hrest hlater => ?_⟩
  rw [String.length_append, ← Nat.add_assoc] at hlater
  rw [String.toList_append]
  exact .arrow (.whiteSpace rfl (hscans rest later hrest hlater))

theorem space_append (h : Written text tokens) (h' : Written text' tokens') :
    Written (text ++ " " ++ text') (tokens ++ tokens') := by
  intro position
  obtain ⟨placed, hplaced, hscans⟩ := h position
  obtain ⟨placed', hplaced', hscans'⟩ := h' (position + text.length + 1)
  refine ⟨placed ++ placed', ?_, fun rest later hrest hlater => ?_⟩
  · rw [List.map_append, hplaced, hplaced']
  · rw [String.length_append, String.length_append, ← Nat.add_assoc, ← Nat.add_assoc] at hlater
    rw [String.toList_append, String.toList_append, List.append_assoc, List.append_assoc,
      List.append_assoc]
    exact hscans _ _ (endsWord_space _) (.whiteSpace rfl (hscans' rest later hrest hlater))

theorem bracketed (h : Written text tokens) :
    Written ("(" ++ text ++ ")")
      (⟨.openBracket, "(", 0⟩ :: (tokens ++ [⟨.closeBracket, ")", 0⟩])) := by
  intro position
  obtain ⟨placed, hplaced, hscans⟩ := h (position + 1)
  refine ⟨⟨.openBracket, "(", position⟩ ::
    (placed ++ [⟨.closeBracket, ")", position + 1 + text.length⟩]), ?_,
    fun rest later hrest hlater => ?_⟩
  · rw [List.map_cons, List.map_append, hplaced]
    rfl
  · rw [String.length_append, String.length_append, ← Nat.add_assoc, ← Nat.add_assoc] at hlater
    rw [String.toList_append, String.toList_append, List.append_assoc, List.append_assoc,
      List.cons_append, List.append_assoc]
    exact .openBracket (hscans _ _ (endsWord_closeBracket _) (.closeBracket hlater))

end Written

end NormalOrder
