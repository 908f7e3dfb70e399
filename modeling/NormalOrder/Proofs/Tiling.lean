import NormalOrder.Proofs.Pieces

/-!
# The tokens of a source tile it

What a token of each kind looks like is said here without the scanner: `TokenKind.Spells` holds of a
kind and its lexemes, and `Layout` of the texts that may stand between tokens.  Against these, the
result of `lex` is described for every source.

* If there are tokens, they are a `Tiling` of the source: in order, without overlap, with nothing
  but layout between them, each the longest lexeme where it stands, and closed by the token that
  marks the end.
* If there is an error, the source before its position has just the tokens that were found, and
  nothing begins at the position (`NothingBegins`).

The bridge between a lexeme and the scanner is `TokenKind.Spells.munch`: where a lexeme stands,
`munch` finds a token that is at least as long.
-/

namespace NormalOrder

/-! ### Layout -/

/-- A text consists of white space and comments, and `rest` follows it.  A comment goes on to the
end of its line or, in the last line, to the end of the source. -/
inductive Layout (rest : List Char) : List Char → Prop where
  /-- Nothing at all. -/
  | nil : Layout rest []
  /-- White space, and then layout. -/
  | whiteSpace {c : Char} {text : List Char} (hc : isWhiteSpace c = true)
      (later : Layout rest text) : Layout rest (c :: text)
  /-- A comment with the end of its line, and then layout. -/
  | comment {line text : List Char} (hline : '\n' ∉ line) (later : Layout rest text) :
      Layout rest ('-' :: '-' :: (line ++ '\n' :: text))
  /-- A comment that nothing follows. -/
  | lastComment {line : List Char} (hline : '\n' ∉ line) (hrest : rest = []) :
      Layout rest ('-' :: '-' :: line)

namespace Layout

variable {text more rest : List Char}

theorem whiteSpaces {run : List Char} (hrun : ∀ d ∈ run, isWhiteSpace d = true) :
    Layout rest run := by
  induction run with
  | nil => exact .nil
  | cons c run ih =>
    obtain ⟨hc, hrun⟩ := List.forall_mem_cons.1 hrun
    exact .whiteSpace hc (ih hrun)

theorem append (h : Layout (more ++ rest) text) (hmore : Layout rest more) (hne : more ≠ []) :
    Layout rest (text ++ more) := by
  induction h with
  | nil => exact hmore
  | whiteSpace hc _ ih => exact .whiteSpace hc ih
  | @comment line text hline _ ih =>
    have hlayout := Layout.comment hline ih
    simpa using hlayout
  | lastComment _ hnil => exact absurd (List.append_eq_nil_iff.1 hnil).1 hne

end Layout

theorem Cuts.layout {text rest : List Char} (h : Cuts .layout text rest) : Layout rest text := by
  cases h with
  | whiteSpace hc hrun _ => exact .whiteSpaces (List.forall_mem_cons.2 ⟨hc, hrun⟩)
  | comment hline => exact .comment hline .nil
  | lastComment hline => exact .lastComment hline rfl

/-! ### Lexemes -/

/-- A name or a reserved word: a character that begins identifiers, other than `λ`, characters that
continue them, and apostrophes. -/
def IsWord (text : List Char) : Prop :=
  ∃ c run quotes, text = c :: (run ++ quotes) ∧ c ≠ 'λ' ∧ Text.isIdentifierStart c = true ∧
    (∀ d ∈ run, Text.isIdentifierContinue d = true) ∧ ∀ d ∈ quotes, d = '\''

/-- The lexemes of each kind of token; the end of the source has none. -/
def TokenKind.Spells : TokenKind → List Char → Prop
  | lambda, text => text = ['λ'] ∨ text = ['\\']
  | letWord, text => text = "let".toList
  | assign, text => text = [':', '=']
  | inWord, text => text = "in".toList
  | arrow, text => text = ['-', '>']
  | openBracket, text => text = ['(']
  | closeBracket, text => text = [')']
  | identifier, text => IsWord text ∧ text ≠ "let".toList ∧ text ≠ "in".toList
  | natural, text => text ≠ [] ∧ ∀ d ∈ text, d.isDigit = true
  | endOfInput, _ => False

theorem SpellsWord.isWord {c : Char} {run quotes : List Char} (h : SpellsWord c run quotes) :
    IsWord (c :: (run ++ quotes)) := by
  have hne : c ≠ 'λ' := by
    rintro rfl
    cases h.start []
  refine ⟨c, run, quotes, rfl, hne, ?_, h.run, h.quotes⟩
  -- Only the branch for names cuts off a word.
  have hstart := h.start []
  simp only [NormalOrder.munch, Piece.name] at hstart
  repeat' split at hstart
  all_goals first
    | assumption
    | cases hstart

theorem isWord_let : IsWord "let".toList := spellsWord_let.isWord

theorem isWord_in : IsWord "in".toList := spellsWord_in.isWord

theorem IsWord.spells {word : String} (h : IsWord word.toList) :
    (TokenKind.ofWord word).Spells word.toList := by
  unfold TokenKind.ofWord
  split
  · rename_i hlet
    rw [hlet]
    rfl
  split
  · rename_i hin
    rw [hin]
    rfl
  · rename_i hlet hin
    exact ⟨h, fun heq => hlet (String.toList_inj.1 heq), fun heq => hin (String.toList_inj.1 heq)⟩

theorem Cuts.spells {kind : PieceKind} {text rest : List Char} (h : Cuts kind text rest)
    {tokenKind : TokenKind} (hkind : kind.tokenKind? (String.ofList text) = some tokenKind) :
    tokenKind.Spells text := by
  cases h with
  | lambda hc =>
    obtain rfl := Option.some.inj hkind
    exact hc.imp (fun h => by rw [h]) (fun h => by rw [h])
  | arrow => obtain rfl := Option.some.inj hkind; rfl
  | assign => obtain rfl := Option.some.inj hkind; rfl
  | openBracket => obtain rfl := Option.some.inj hkind; rfl
  | closeBracket => obtain rfl := Option.some.inj hkind; rfl
  | whiteSpace => cases hkind
  | comment => cases hkind
  | lastComment => cases hkind
  | @word c run quotes _ hspells =>
    obtain rfl := Option.some.inj hkind
    have hword := hspells.isWord
    rw [← String.toList_ofList (l := c :: (run ++ quotes))] at hword
    have hspelled := hword.spells
    rwa [String.toList_ofList] at hspelled
  | number hc hrun =>
    obtain rfl := Option.some.inj hkind
    exact ⟨List.cons_ne_nil _ _, List.forall_mem_cons.2 ⟨hc, hrun⟩⟩

/-- Where a word stands, the longest word there begins with it. -/
theorem IsWord.munch {text : List Char} (h : IsWord text) (rest : List Char) :
    ∃ c cs piece, text ++ rest = c :: cs ∧ munch c cs = .ok piece ∧ text <+: piece.text ∧
      piece.kind = .word := by
  obtain ⟨c, run, quotes, rfl, hne, hstart, hrun, hquotes⟩ := h
  refine ⟨c, run ++ (quotes ++ rest), _, by simp, munch_eq_name hne hstart _, ?_, rfl⟩
  simp only [Piece.name, List.takeWhile_append_of_pos hrun, List.dropWhile_append_of_pos hrun,
    List.append_assoc]
  rw [List.cons_prefix_cons]
  refine ⟨rfl, ?_⟩
  rw [List.prefix_append_right_inj]
  cases quotes with
  | nil => exact List.nil_prefix
  | cons quote quotes =>
    -- The run is over, and the apostrophes are taken by themselves.
    obtain rfl := hquotes quote List.mem_cons_self
    have hstop : ¬Text.isIdentifierContinue '\'' = true := by
      rw [isIdentifierContinue_of_lt (by decide)]
      decide
    have hquote : ∀ d ∈ '\'' :: quotes, decide (d = '\'') = true := by simpa using hquotes
    rw [List.cons_append, List.takeWhile_cons_of_neg hstop, List.dropWhile_cons_of_neg hstop,
      ← List.cons_append, List.takeWhile_append_of_pos hquote, List.nil_append]
    exact List.prefix_append _ _

/-- **Where a lexeme stands, there is a token that begins with it**, and the lexeme by itself would
be a token of its own kind. -/
theorem TokenKind.Spells.munch {kind : TokenKind} {text : List Char} (h : kind.Spells text)
    (rest : List Char) : ∃ c cs piece, text ++ rest = c :: cs ∧ munch c cs = .ok piece ∧
      text <+: piece.text ∧ piece.kind.tokenKind? (String.ofList text) = some kind := by
  cases kind with
  | lambda =>
    rcases h with rfl | rfl
    · exact ⟨_, _, _, rfl, rfl, List.prefix_refl _, rfl⟩
    · exact ⟨_, _, _, rfl, rfl, List.prefix_refl _, rfl⟩
  | letWord =>
    obtain rfl := h
    obtain ⟨c, cs, piece, htext, hmunch, hbegins, hkind⟩ := isWord_let.munch rest
    exact ⟨c, cs, piece, htext, hmunch, hbegins, by rw [hkind]; rfl⟩
  | assign =>
    obtain rfl := h
    exact ⟨_, _, _, rfl, rfl, List.prefix_refl _, rfl⟩
  | inWord =>
    obtain rfl := h
    obtain ⟨c, cs, piece, htext, hmunch, hbegins, hkind⟩ := isWord_in.munch rest
    exact ⟨c, cs, piece, htext, hmunch, hbegins, by rw [hkind]; rfl⟩
  | arrow =>
    obtain rfl := h
    exact ⟨_, _, _, rfl, rfl, List.prefix_refl _, rfl⟩
  | openBracket =>
    obtain rfl := h
    exact ⟨_, _, _, rfl, rfl, List.prefix_refl _, rfl⟩
  | closeBracket =>
    obtain rfl := h
    exact ⟨_, _, _, rfl, rfl, List.prefix_refl _, rfl⟩
  | identifier =>
    obtain ⟨hword, hlet, hin⟩ := h
    obtain ⟨c, cs, piece, htext, hmunch, hbegins, hkind⟩ := hword.munch rest
    refine ⟨c, cs, piece, htext, hmunch, hbegins, ?_⟩
    rw [hkind, PieceKind.tokenKind?, TokenKind.ofWord, if_neg, if_neg]
    · intro heq
      exact hin (by rw [← heq, String.toList_ofList])
    · intro heq
      exact hlet (by rw [← heq, String.toList_ofList])
  | natural =>
    obtain ⟨hne, hdigits⟩ := h
    obtain ⟨c, run, rfl⟩ := List.exists_cons_of_ne_nil hne
    obtain ⟨hc, hrun⟩ := List.forall_mem_cons.1 hdigits
    refine ⟨c, run ++ rest, _, rfl, munch_digit hc _, ?_, rfl⟩
    rw [Piece.run, List.takeWhile_append_of_pos hrun, List.cons_prefix_cons]
    exact ⟨rfl, List.prefix_append _ _⟩
  | endOfInput => cases h

theorem TokenKind.Spells.kind_eq {kind kind' : TokenKind} {text : List Char} (h : kind.Spells text)
    (h' : kind'.Spells text) : kind = kind' := by
  obtain ⟨c, cs, piece, htext, hmunch, -, hkind⟩ := h.munch []
  obtain ⟨c', cs', piece', htext', hmunch', -, hkind'⟩ := h'.munch []
  obtain ⟨rfl, rfl⟩ := List.cons.inj (htext.symm.trans htext')
  obtain rfl := Except.ok.inj (hmunch.symm.trans hmunch')
  exact Option.some.inj (hkind.symm.trans hkind')

theorem TokenKind.Spells.ne_nil {kind : TokenKind} {text : List Char} (h : kind.Spells text) :
    text ≠ [] := by
  rintro rfl
  obtain ⟨c, cs, piece, htext, hmunch, -, -⟩ := h.munch []
  cases htext

theorem IsWord.notMem {text : List Char} (h : IsWord text) {d : Char} (hd : d.toNat < '0'.toNat)
    (hquote : d ≠ '\'') : d ∉ text := by
  obtain ⟨c, run, quotes, rfl, -, hstart, hrun, hquotes⟩ := h
  have hcontinue := isIdentifierContinue_of_lt hd
  rw [List.mem_cons, List.mem_append]
  rintro (rfl | hmem | hmem)
  · cases hcontinue.symm.trans (Text.isIdentifierContinue_of_isIdentifierStart hstart)
  · cases hcontinue.symm.trans (hrun _ hmem)
  · exact hquote (hquotes _ hmem)

theorem IsWord.newline_notMem {text : List Char} (h : IsWord text) : '\n' ∉ text :=
  h.notMem (by decide) (by decide)

/-- **Lexemes are written on one line.** -/
theorem TokenKind.Spells.newline_notMem {kind : TokenKind} {text : List Char}
    (h : kind.Spells text) : '\n' ∉ text := by
  cases kind with
  | identifier => exact h.1.newline_notMem
  | natural => exact fun hmem => absurd (h.2 _ hmem) (by decide)
  | lambda => rcases h with rfl | rfl <;> decide
  | letWord | assign | inWord | arrow | openBracket | closeBracket =>
    rw [show text = _ from h]
    decide
  | endOfInput => exact h.elim

theorem TokenKind.Spells.length_le {kind : TokenKind} {text : List Char} (h : kind.Spells text)
    {c : Char} {cs : List Char} {piece : Piece} (hmunch : NormalOrder.munch c cs = .ok piece)
    (hbegins : text <+: c :: cs) : text.length ≤ piece.text.length := by
  obtain ⟨rest, hrest⟩ := hbegins
  obtain ⟨c', cs', piece', htext, hmunch', hle, -⟩ := h.munch rest
  obtain ⟨rfl, rfl⟩ := List.cons.inj (htext.symm.trans hrest)
  obtain rfl := Except.ok.inj (hmunch'.symm.trans hmunch)
  exact hle.length_le

/-! ### Tokens and the text between them -/

/-- The offset behind the last character of a token. -/
def Token.stop (token : Token) : Nat := token.position + token.lexeme.length

/-- The characters of a source from one offset to another. -/
def slice (source : List Char) (start stop : Nat) : List Char :=
  (source.drop start).take (stop - start)

/-- Between `start` and the first token, and between each token and the next, there is nothing but
layout. -/
def Spaced (source : List Char) : Nat → List Token → Prop
  | _, [] => True
  | start, token :: later => start ≤ token.position ∧
      Layout (source.drop token.position) (slice source start token.position) ∧
      Spaced source token.stop later

/-- A token has the kind that its lexeme determines, and it is the longest lexeme where it
stands. -/
structure Token.IsLongest (source : List Char) (token : Token) : Prop where
  /-- The lexeme is one of the kind of the token. -/
  spells : token.kind.Spells token.lexeme.toList
  /-- It is none of another kind. -/
  determined : ∀ kind : TokenKind, kind.Spells token.lexeme.toList → kind = token.kind
  /-- No lexeme of any kind that stands there is longer. -/
  longest : ∀ (kind : TokenKind) (text : List Char), kind.Spells text →
    text <+: source.drop token.position → text.length ≤ token.lexeme.length

/-- Tokens cover a source except for its layout. -/
structure Tiling (source : List Char) (tokens : List Token) : Prop where
  /-- The last token marks the end, and it is the only one to do so. -/
  ends : ∃ front, tokens = front ++ [.atEnd source.length] ∧
    ∀ token ∈ front, token.kind ≠ .endOfInput
  /-- Every token begins after those before it. -/
  increasing : tokens.Pairwise fun token next => token.position < next.position
  /-- Every token begins when those before it are over. -/
  disjoint : tokens.Pairwise fun token next => token.stop ≤ next.position
  /-- The lexemes are what the source has there. -/
  lexemes : ∀ token ∈ tokens, token.lexeme.toList = slice source token.position token.stop
  /-- Between the tokens, there is layout only. -/
  spaced : Spaced source 0 tokens
  /-- Every token but the last is the longest lexeme where it stands. -/
  longest : ∀ token ∈ tokens, token.kind ≠ .endOfInput → token.IsLongest source

theorem slice_append (before text rest : List Char) :
    slice (before ++ (text ++ rest)) before.length (before.length + text.length) = text := by
  simp [slice]

/-- The scanner leaves nothing but layout between its tokens.  The text `gap` is the layout since
the last token. -/
theorem Scans.spaced {source before gap text : List Char} {position : Nat} {tokens : List Token}
    (h : Scans position text tokens) (hsource : source = before ++ (gap ++ text))
    (hposition : position = before.length + gap.length) (hgap : Layout text gap) :
    Spaced source before.length (tokens ++ [.atEnd source.length]) := by
  induction h generalizing before gap with
  | done position =>
    subst hsource
    have hlength : (before ++ (gap ++ [])).length = before.length + gap.length := by simp
    refine ⟨by simp [Token.atEnd], ?_, trivial⟩
    simp only [Token.atEnd, hlength, slice_append]
    simpa using hgap
  | @piece position c cs piece tokens front later ih =>
    obtain ⟨kind, text, rest⟩ := piece
    have happend : text ++ rest = c :: cs := munch_append front
    have hcut : Cuts kind text rest := cuts_of_munch front
    rw [← happend] at hsource hgap
    cases htoken : (⟨kind, text, rest⟩ : Piece).token? position with
    | none =>
      have hlayout : kind = .layout := by
        cases kind with
        | layout => rfl
        | word => cases htoken
        | token kind => cases htoken
      subst hlayout
      refine ih ?_ ?_ (hgap.append hcut.layout (munch_text_ne_nil front))
      · rw [hsource, List.append_assoc]
      · rw [List.length_append, hposition, Nat.add_assoc]
    | some token =>
      obtain ⟨tokenKind, hkind, rfl⟩ := Option.map_eq_some_iff.1 htoken
      have hnext : source = (before ++ gap ++ text) ++ ([] ++ rest) := by simp [hsource]
      have hspaced := ih hnext (by simp [hposition, Nat.add_assoc]) .nil
      refine ⟨by simp [hposition], ?_, ?_⟩
      · simp only [hposition, hsource, slice_append]
        simpa using hgap
      · simp only [Token.stop, String.length_ofList, hposition]
        simpa [Nat.add_assoc] using hspaced

theorem Scans.exists_munch {source before text : List Char} {position : Nat} {tokens : List Token}
    (h : Scans position text tokens) (hsource : source = before ++ text)
    (hposition : position = before.length) : ∀ token ∈ tokens, ∃ c cs piece,
      source.drop token.position = c :: cs ∧ munch c cs = .ok piece ∧
      piece.token? token.position = some token := by
  induction h generalizing before with
  | done position => simp
  | @piece position c cs piece tokens front later ih =>
    intro token htoken
    rcases List.mem_append.1 htoken with hfirst | hlater
    · have htoken := Option.mem_toList.1 hfirst
      obtain ⟨kind, hkind, rfl⟩ := Option.map_eq_some_iff.1 htoken
      exact ⟨c, cs, piece, by simp [hsource, hposition], front, htoken⟩
    · have hnext : source = (before ++ piece.text) ++ piece.rest := by
        rw [hsource, List.append_assoc, munch_append front]
      exact ih hnext (by simp [hposition]) token hlater

/-! ### The tiling of a source -/

theorem Token.isLongest_of_munch {source : List Char} {token : Token} {c : Char} {cs : List Char}
    {piece : Piece} (hdrop : source.drop token.position = c :: cs) (front : munch c cs = .ok piece)
    (htoken : piece.token? token.position = some token) : token.IsLongest source := by
  obtain ⟨kind, hkind, heq⟩ := Option.map_eq_some_iff.1 htoken
  have hkind' : token.kind = kind := by rw [← heq]
  have hlexeme : token.lexeme = String.ofList piece.text := by rw [← heq]
  have hspells : token.kind.Spells token.lexeme.toList := by
    rw [hkind', hlexeme, String.toList_ofList]
    exact (cuts_of_munch front).spells hkind
  refine ⟨hspells, fun other h => h.kind_eq hspells, fun other text h hbegins => ?_⟩
  rw [hdrop] at hbegins
  rw [hlexeme, String.length_ofList]
  exact h.length_le front hbegins

theorem Token.lexeme_eq_slice {source : List Char} {token : Token} {c : Char} {cs : List Char}
    {piece : Piece} (hdrop : source.drop token.position = c :: cs) (front : munch c cs = .ok piece)
    (htoken : piece.token? token.position = some token) :
    token.lexeme.toList = slice source token.position token.stop := by
  obtain ⟨kind, hkind, heq⟩ := Option.map_eq_some_iff.1 htoken
  have hlexeme : token.lexeme = String.ofList piece.text := by rw [← heq]
  rw [slice, hdrop, ← munch_append front, Token.stop, Nat.add_sub_cancel_left, hlexeme,
    String.length_ofList, String.toList_ofList, List.take_left]

theorem Spaced.le_position {source : List Char} {start : Nat} {tokens : List Token}
    (h : Spaced source start tokens) : ∀ token ∈ tokens, start ≤ token.position := by
  induction tokens generalizing start with
  | nil => simp
  | cons token later ih =>
    obtain ⟨hle, -, hlater⟩ := h
    refine List.forall_mem_cons.2 ⟨hle, fun next hnext => ?_⟩
    have hstop := ih hlater next hnext
    rw [Token.stop] at hstop
    omega

theorem Spaced.pairwise_stop_le {source : List Char} {start : Nat} {tokens : List Token}
    (h : Spaced source start tokens) :
    tokens.Pairwise fun token next => token.stop ≤ next.position := by
  induction tokens generalizing start with
  | nil => exact .nil
  | cons token later ih =>
    obtain ⟨-, -, hlater⟩ := h
    exact .cons hlater.le_position (ih hlater)

/-- Only the last of some tokens can be empty, so their beginnings increase. -/
theorem pairwise_position_lt {front : List Token} {last : Token}
    (h : (front ++ [last]).Pairwise fun token next => token.stop ≤ next.position)
    (hne : ∀ token ∈ front, token.lexeme.toList ≠ []) :
    (front ++ [last]).Pairwise fun token next => token.position < next.position := by
  have hlt : ∀ token ∈ front, token.position < token.stop := by
    intro token htoken
    have hpos := List.length_pos_iff.2 (hne token htoken)
    rw [String.length_toList] at hpos
    rw [Token.stop]
    omega
  rw [List.pairwise_append] at h ⊢
  obtain ⟨hfront, -, hlast⟩ := h
  refine ⟨?_, List.pairwise_singleton _ _, fun token htoken next hnext => ?_⟩
  · exact hfront.imp_of_mem fun htoken _ hle => Nat.lt_of_lt_of_le (hlt _ htoken) hle
  · exact Nat.lt_of_lt_of_le (hlt token htoken) (hlast token htoken next hnext)

theorem Scans.tiling {source : List Char} {tokens : List Token} (h : Scans 0 source tokens) :
    Tiling source (tokens ++ [.atEnd source.length]) := by
  have hsource : source = [] ++ ([] ++ source) := rfl
  have hmunch := h.exists_munch hsource rfl
  have hlongest : ∀ token ∈ tokens, token.IsLongest source := by
    intro token htoken
    obtain ⟨c, cs, piece, hdrop, front, hpiece⟩ := hmunch token htoken
    exact Token.isLongest_of_munch hdrop front hpiece
  have hspaced := h.spaced hsource rfl .nil
  have hdisjoint := hspaced.pairwise_stop_le
  refine ⟨⟨tokens, rfl, fun token htoken hend => ?_⟩, ?_, hdisjoint, fun token htoken => ?_,
    hspaced, fun token htoken hend => ?_⟩
  · have hspells := (hlongest token htoken).spells
    rw [hend] at hspells
    exact hspells
  · exact pairwise_position_lt hdisjoint fun token htoken => (hlongest token htoken).spells.ne_nil
  · rcases List.mem_append.1 htoken with hfront | hlast
    · obtain ⟨c, cs, piece, hdrop, front, hpiece⟩ := hmunch token hfront
      exact Token.lexeme_eq_slice hdrop front hpiece
    · obtain rfl := List.mem_singleton.1 hlast
      simp [slice, Token.atEnd, Token.stop]
  · rcases List.mem_append.1 htoken with hfront | hlast
    · exact hlongest token hfront
    · obtain rfl := List.mem_singleton.1 hlast
      exact absurd rfl hend

theorem Scans.kind_ne_endOfInput {source : List Char} {tokens : List Token}
    (h : Scans 0 source tokens) : ∀ token ∈ tokens, token.kind ≠ .endOfInput := by
  obtain ⟨front, heq, hfront⟩ := h.tiling.ends
  obtain ⟨rfl, -⟩ := List.append_inj' heq rfl
  exact hfront

theorem Scans.stop_le {source : List Char} {tokens : List Token} (h : Scans 0 source tokens) :
    ∀ token ∈ tokens, token.stop ≤ source.length := by
  intro token htoken
  have hlast := (List.pairwise_append.1 h.tiling.disjoint).2.2
  exact hlast token htoken (.atEnd source.length) (List.mem_singleton_self _)

/-! ### Where a scan stops -/

/-- Neither a token nor white space nor a comment begins at the front of a text. -/
structure NothingBegins (text : List Char) : Prop where
  /-- No lexeme stands there. -/
  token : ∀ (kind : TokenKind) (lexeme : List Char), kind.Spells lexeme → ¬lexeme <+: text
  /-- The first character is no white space. -/
  whiteSpace : ∀ c ∈ text.head?, isWhiteSpace c = false
  /-- No comment stands there. -/
  comment : ¬['-', '-'] <+: text

theorem nothingBegins_of_munch {c : Char} {cs : List Char} {fault : ScanFault}
    (h : munch c cs = .error fault) : NothingBegins (c :: cs) := by
  refine ⟨fun kind lexeme hspells hbegins => ?_, fun d hd => ?_, fun hbegins => ?_⟩
  · obtain ⟨rest, hrest⟩ := hbegins
    obtain ⟨c', cs', piece, htext, hmunch, -⟩ := hspells.munch rest
    obtain ⟨rfl, rfl⟩ := List.cons.inj (htext.symm.trans hrest)
    rw [h] at hmunch
    cases hmunch
  · obtain rfl := Option.some.inj hd
    by_contra hspace
    rw [munch_whiteSpace (Bool.not_eq_false _ ▸ hspace)] at h
    cases h
  · obtain ⟨rest, hrest⟩ := hbegins
    obtain ⟨rfl, rfl⟩ := List.cons.inj hrest
    cases h

/-- **A scan that stops has scanned all that comes before**, and nothing begins where it stops. -/
theorem scans_of_scan_stops {s : Scan} {text : List Char} {fault : ScanFault}
    (h : (scan s text).2 = some fault) : ∃ front c cs found,
      text = front ++ c :: cs ∧ munch c cs = .error fault ∧ Scans s.position front found ∧
      (scan s text).1.start = s.position + front.length ∧
      (scan s text).1.tokens = found.reverse ++ s.tokens := by
  fun_induction scan s text with
  | case1 s => cases h
  | case2 s c cs fault' front =>
    obtain rfl := Option.some.inj h
    exact ⟨[], c, cs, [], rfl, front, .done _, rfl, rfl⟩
  | case3 s c cs piece front ih =>
    obtain ⟨before, d, ds, found, hrest, hfault, hscans, hstart, htokens⟩ := ih h
    have hcut := cuts_of_munch front
    rw [hrest] at hcut
    -- The piece ends just as well when the source ends at the fault.
    have hscans' : Scans s.position (piece.text ++ before)
        ((piece.token? s.position).toList ++ found) := .cuts hcut.of_append hscans
    refine ⟨piece.text ++ before, d, ds, _, ?_, hfault, hscans', ?_, ?_⟩
    · rw [List.append_assoc, ← hrest, munch_append front]
    · rw [hstart, List.length_append]
      exact Nat.add_assoc ..
    · rw [htokens, Scan.record_tokens]
      cases piece.token? s.position <;> simp

theorem lex_eq_ok {source : String} {tokens : List Token} (h : lex source = .ok tokens) :
    ∃ found, tokenize source = .ok found ∧ tokens = found ++ [.atEnd source.length] := by
  rw [lex] at h
  cases hfound : tokenize source with
  | error e =>
    rw [hfound] at h
    cases h
  | ok found =>
    rw [hfound] at h
    exact ⟨found, rfl, (Except.ok.inj h).symm⟩

theorem scan_of_lex_eq_error {source : String} {e : LexError} (h : lex source = .error e) :
    (scan .initial source.toList).2 = some e.fault ∧
      (scan .initial source.toList).1.start = e.position := by
  rw [lex, tokenize] at h
  split at h
  · rename_i s fault hscan
    obtain rfl := Except.error.inj h
    rw [hscan]
    exact ⟨rfl, rfl⟩
  · cases h

/-- The scanner stumbles over a character of the source at which nothing begins. -/
theorem exists_munch_of_lex_eq_error {source : String} {e : LexError}
    (h : lex source = .error e) : ∃ front c cs, source.toList = front ++ c :: cs ∧
      e.position = front.length ∧ munch c cs = .error e.fault := by
  obtain ⟨hfault, hstart⟩ := scan_of_lex_eq_error h
  obtain ⟨front, c, cs, found, hsource, hmunch, -, hposition, -⟩ := scans_of_scan_stops hfault
  exact ⟨front, c, cs, hsource, hstart.symm.trans (hposition.trans (Nat.zero_add _)), hmunch⟩

/-- **Maximal munch.**  Of every source, either the tokens tile it, or there is an error within it;
then the source before the error has just the tokens that were found before it, and neither a token
nor white space nor a comment begins at the error. -/
theorem lex_tiles (source : String) :
    match lex source with
    | .ok tokens => Tiling source.toList tokens
    | .error e => e.position < source.length ∧
        lex (String.ofList (source.toList.take e.position)) =
          .ok ((scan .initial source.toList).1.tokens.reverse ++ [.atEnd e.position]) ∧
        NothingBegins (source.toList.drop e.position) := by
  split
  · rename_i tokens hlex
    obtain ⟨found, hfound, rfl⟩ := lex_eq_ok hlex
    have htiling := (tokenize_eq_ok_iff.1 hfound).tiling
    rwa [String.length_toList] at htiling
  · rename_i e hlex
    obtain ⟨hfault, hstart⟩ := scan_of_lex_eq_error hlex
    obtain ⟨front, c, cs, found, hsource, hmunch, hscans, hposition, htokens⟩ :=
      scans_of_scan_stops hfault
    have hlength : e.position = front.length := by
      rw [← hstart, hposition]
      exact Nat.zero_add _
    have htokens' : (scan .initial source.toList).1.tokens.reverse = found := by
      rw [htokens]
      simp [Scan.initial]
    refine ⟨?_, ?_, ?_⟩
    · rw [← String.length_toList, hsource, hlength, List.length_append, List.length_cons]
      omega
    · rw [htokens', hlength, hsource, List.take_left, ← String.length_ofList (l := front),
        lex_eq_ok_iff, tokenize_eq_ok_iff, String.toList_ofList]
      exact hscans
    · rw [hlength, hsource, List.drop_left]
      exact nothingBegins_of_munch hmunch

end NormalOrder
