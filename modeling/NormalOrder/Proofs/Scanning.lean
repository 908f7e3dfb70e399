import Mathlib.Data.List.TakeWhile
import NormalOrder.Surface.Scanner

/-!
# Scanning, piece by piece

`Scans position text tokens` says what a scan finds in a text, without the state that the scan
carries along: a text that begins at some offset is cut into pieces to its end, and the pieces that
are no layout are the tokens.  `tokenize` finds just these tokens (`tokenize_eq_ok_iff`).

The rest of the module says how the scan of a text begins, given the scan of what comes after its
first piece: a sign (`Scans.lambda`, `Scans.arrow`, …) ends by itself, white space
(`Scans.whiteSpace`) vanishes, and a name (`IsIdentifier.scans`) or a number (`scans_number`) ends
where no character can prolong it (`EndsWord`).
-/

namespace NormalOrder

/-! ### Scans -/

/-- The token that a piece is when it begins at `position`, if it is one. -/
def Piece.token? (piece : Piece) (position : Nat) : Option Token :=
  (piece.kind.tokenKind? (String.ofList piece.text)).map (⟨·, String.ofList piece.text, position⟩)

/-- A text that begins at `position` can be cut into pieces, and `tokens` are those that are no
layout. -/
inductive Scans : Nat → List Char → List Token → Prop where
  /-- Nothing is left. -/
  | done (position : Nat) : Scans position [] []
  /-- A piece, and then a text that can be cut into pieces. -/
  | piece {position : Nat} {c : Char} {cs : List Char} {piece : Piece} {tokens : List Token}
      (front : munch c cs = .ok piece)
      (later : Scans (position + piece.text.length) piece.rest tokens) :
      Scans position (c :: cs) ((piece.token? position).toList ++ tokens)

theorem Scan.record_tokens (s : Scan) (piece : Piece) :
    (s.record piece).tokens = (piece.token? s.position).toList ++ s.tokens := by
  simp only [Scan.record, Piece.token?]
  cases piece.kind.tokenKind? (String.ofList piece.text) <;> rfl

theorem scan_of_munch {c : Char} {cs : List Char} {piece : Piece} (h : munch c cs = .ok piece)
    (s : Scan) : scan s (c :: cs) = scan (s.record piece) piece.rest := by
  rw [scan]
  split
  · rename_i hfault
    rw [h] at hfault
    cases hfault
  · rename_i found hfound
    rw [h] at hfound
    cases hfound
    rfl

theorem scan_of_scans {position : Nat} {text : List Char} {tokens : List Token}
    (h : Scans position text tokens) (s : Scan) (hs : s.position = position) :
    (scan s text).2 = none ∧ (scan s text).1.tokens = tokens.reverse ++ s.tokens := by
  induction h generalizing s with
  | done position =>
    rw [scan]
    exact ⟨rfl, rfl⟩
  | @piece position c cs piece tokens front later ih =>
    subst hs
    rw [scan_of_munch front]
    obtain ⟨hnone, htokens⟩ := ih (s.record piece) rfl
    refine ⟨hnone, ?_⟩
    -- The scan keeps its tokens in reverse, and layout adds none.
    rw [htokens, Scan.record_tokens]
    cases piece.token? s.position <;> simp

theorem scans_of_scan {s : Scan} {text : List Char} (h : (scan s text).2 = none) :
    ∃ tokens, Scans s.position text tokens ∧
      (scan s text).1.tokens = tokens.reverse ++ s.tokens := by
  fun_induction scan s text with
  | case1 s => exact ⟨[], .done _, rfl⟩
  | case2 s c cs fault front => cases h
  | case3 s c cs piece front ih =>
    obtain ⟨tokens, hscans, htokens⟩ := ih h
    refine ⟨_, .piece front hscans, ?_⟩
    rw [htokens, Scan.record_tokens]
    cases piece.token? s.position <;> simp

/-- **Tokenizing a source is scanning it from its beginning to its end.** -/
theorem tokenize_eq_ok_iff {source : String} {tokens : List Token} :
    tokenize source = .ok tokens ↔ Scans 0 source.toList tokens := by
  rw [tokenize]
  constructor
  · intro h
    split at h
    · cases h
    · rename_i s hscan
      obtain ⟨found, hscans, htokens⟩ := scans_of_scan (s := .initial) (congrArg Prod.snd hscan)
      obtain rfl := Except.ok.inj h
      rw [hscan] at htokens
      rw [htokens]
      simpa [Scan.initial] using hscans
  · intro h
    obtain ⟨hnone, htokens⟩ := scan_of_scans h .initial rfl
    split
    · rename_i hscan
      rw [hscan] at hnone
      cases hnone
    · rename_i s hscan
      rw [hscan] at htokens
      rw [htokens]
      simp [Scan.initial]

theorem lex_eq_ok_iff {source : String} {tokens : List Token} :
    lex source = .ok (tokens ++ [.atEnd source.length]) ↔ tokenize source = .ok tokens := by
  rw [lex]
  cases tokenize source with
  | error e => simp [Except.map]
  | ok found => simp [Except.map]

theorem lex_eq_error_iff {source : String} {e : LexError} :
    lex source = .error e ↔ tokenize source = .error e := by
  rw [lex]
  cases tokenize source with
  | error e => simp [Except.map]
  | ok tokens => simp [Except.map]

theorem Scans.le_position {position : Nat} {text : List Char} {tokens : List Token}
    (h : Scans position text tokens) : ∀ token ∈ tokens, position ≤ token.position := by
  induction h with
  | done position => simp
  | @piece position c cs piece tokens front later ih =>
    intro token htoken
    rcases List.mem_append.1 htoken with hfirst | hlater
    · obtain ⟨kind, -, rfl⟩ := Option.map_eq_some_iff.1 (Option.mem_toList.1 hfirst)
      exact Nat.le_refl position
    · have hle := ih token hlater
      omega

/-! ### Signs and spaces -/

theorem munch_whiteSpace {c : Char} (h : isWhiteSpace c = true) (cs : List Char) :
    munch c cs = .ok (.run .layout isWhiteSpace c cs) := by
  simp only [isWhiteSpace, List.mem_cons, List.not_mem_nil, or_false, decide_eq_true_eq] at h
  rcases h with rfl | rfl | rfl | rfl | rfl | rfl | rfl | rfl | rfl | rfl | rfl <;> rfl

namespace Scans

variable {position : Nat} {c : Char} {cs text rest : List Char} {tokens : List Token}

theorem token {kind : TokenKind} (front : munch c cs = .ok ⟨.token kind, text, rest⟩)
    (later : Scans (position + text.length) rest tokens) :
    Scans position (c :: cs) (⟨kind, String.ofList text, position⟩ :: tokens) :=
  .piece front later

theorem lambda (later : Scans (position + 1) cs tokens) :
    Scans position ('λ' :: cs) (⟨.lambda, "λ", position⟩ :: tokens) :=
  .token rfl later

theorem openBracket (later : Scans (position + 1) cs tokens) :
    Scans position ('(' :: cs) (⟨.openBracket, "(", position⟩ :: tokens) :=
  .token rfl later

theorem closeBracket (later : Scans (position + 1) cs tokens) :
    Scans position (')' :: cs) (⟨.closeBracket, ")", position⟩ :: tokens) :=
  .token rfl later

theorem arrow (later : Scans (position + 2) cs tokens) :
    Scans position ('-' :: '>' :: cs) (⟨.arrow, "->", position⟩ :: tokens) :=
  .token rfl later

/-- White space before a text only moves its tokens, also when the text begins with more of it. -/
theorem whiteSpace (hc : isWhiteSpace c = true) (later : Scans (position + 1) cs tokens) :
    Scans position (c :: cs) tokens := by
  have hfront := munch_whiteSpace hc cs
  cases cs with
  | nil =>
    cases later
    exact .piece hfront (.done _)
  | cons d ds =>
    by_cases hd : isWhiteSpace d = true
    · -- The two runs become one, and what is left is the same.
      cases later with
      | piece front later =>
        rw [munch_whiteSpace hd] at front
        cases front
        refine .piece hfront ?_
        simp only [Piece.run, List.takeWhile_cons_of_pos hd, List.dropWhile_cons_of_pos hd,
          List.length_cons] at later ⊢
        rwa [Nat.add_assoc, Nat.add_comm 1] at later
    · refine .piece hfront ?_
      rw [Piece.run, List.takeWhile_cons_of_neg hd, List.dropWhile_cons_of_neg hd]
      exact later

end Scans

/-! ### Where a word ends -/

theorem isIdentifierContinue_of_lt {c : Char} (h : c.toNat < '0'.toNat) :
    Text.isIdentifierContinue c = false := by
  have hparts : Text.identifierParts.covers c.toNat = false := RangeTable.covers_of_lt h
  have hstarts : Text.identifierStarts.covers c.toNat = false :=
    RangeTable.covers_of_lt (Nat.lt_trans h (by decide))
  rw [Text.isIdentifierContinue, hparts, hstarts, Bool.or_false]

theorem covers_of_mem_head {table : RangeTable} {lo hi n : Nat} (hlo : lo ≤ n) (hhi : n ≤ hi) :
    RangeTable.covers ((lo, hi) :: table) n = true := by
  simp [RangeTable.covers, hhi, Nat.not_lt.2 hlo]

theorem isIdentifierContinue_of_isDigit {c : Char} (h : c.isDigit = true) :
    Text.isIdentifierContinue c = true := by
  obtain ⟨hlo, hhi⟩ := Char.isDigit_iff_toNat.1 h
  have hparts : Text.identifierParts.covers c.toNat = true := covers_of_mem_head hlo hhi
  rw [Text.isIdentifierContinue, hparts, Bool.true_or]

/-- The characters after a word cannot prolong it, whether it is a name or a number. -/
def EndsWord (rest : List Char) : Prop :=
  ∀ c ∈ rest.head?, Text.isIdentifierContinue c = false ∧ c ≠ '\''

theorem endsWord_nil : EndsWord [] := by simp [EndsWord]

theorem endsWord_cons {c : Char} (hc : c.toNat < '0'.toNat) (hquote : c ≠ '\'')
    (rest : List Char) : EndsWord (c :: rest) := by
  intro d hd
  obtain rfl := Option.some.inj hd
  exact ⟨isIdentifierContinue_of_lt hc, hquote⟩

theorem endsWord_space (rest : List Char) : EndsWord (' ' :: rest) :=
  endsWord_cons (by decide) (by decide) rest

theorem endsWord_closeBracket (rest : List Char) : EndsWord (')' :: rest) :=
  endsWord_cons (by decide) (by decide) rest

theorem span_run {p : Char → Bool} {run rest : List Char} (hrun : ∀ c ∈ run, p c = true)
    (hrest : ∀ c ∈ rest.head?, p c = false) :
    (run ++ rest).takeWhile p = run ∧ (run ++ rest).dropWhile p = rest := by
  rw [List.takeWhile_append_of_pos hrun, List.dropWhile_append_of_pos hrun]
  cases rest with
  | nil => simp
  | cons c rest => simp [hrest c rfl]

/-! ### Names -/

/-- Some characters spell a name or a reserved word: one that begins a word, a run of characters
that continue it, and apostrophes. -/
structure SpellsWord (c : Char) (run quotes : List Char) : Prop where
  /-- Every text that begins with `c` begins with a word. -/
  start : ∀ cs, munch c cs = .ok (.name c cs)
  /-- The run continues the word. -/
  run : ∀ d ∈ run, Text.isIdentifierContinue d = true
  /-- After the run, there are apostrophes only. -/
  quotes : ∀ d ∈ quotes, d = '\''

theorem SpellsWord.munch {c : Char} {run quotes rest : List Char} (h : SpellsWord c run quotes)
    (hrest : EndsWord rest) :
    munch c (run ++ quotes ++ rest) = .ok ⟨.word, c :: (run ++ quotes), rest⟩ := by
  have hquotes : ∀ d ∈ quotes, decide (d = '\'') = true := by simpa using h.quotes
  have hend : ∀ d ∈ rest.head?, decide (d = '\'') = false := by
    intro d hd
    simpa using (hrest d hd).2
  obtain ⟨htake, hdrop⟩ := span_run hquotes hend
  -- Neither the apostrophes nor what follows them belong to the run.
  have hstop : ∀ d ∈ (quotes ++ rest).head?, Text.isIdentifierContinue d = false := by
    intro d hd
    cases quotes with
    | nil => exact (hrest d hd).1
    | cons quote quotes =>
      obtain rfl : quote = d := Option.some.inj hd
      obtain rfl := h.quotes quote List.mem_cons_self
      exact isIdentifierContinue_of_lt (by decide)
  obtain ⟨htake', hdrop'⟩ := span_run h.run hstop
  rw [h.start, Piece.name, List.append_assoc, htake', hdrop', htake, hdrop]

theorem Piece.comment_kind (cs : List Char) : (comment cs).kind = .layout := by
  simp only [comment]
  split <;> rfl

/-- What is cut off as a name begins with a character that begins words only. -/
theorem munch_of_identifier {c : Char} {cs : List Char} {piece : Piece}
    (h : munch c cs = .ok piece)
    (hkind : piece.kind.tokenKind? (String.ofList piece.text) = some .identifier) :
    ∀ later, munch c later = .ok (.name c later) := by
  simp only [munch] at h
  split at h
  · cases h; cases hkind
  split at h
  · split at h
    · cases h; cases hkind
    · cases h; rw [Piece.comment_kind] at hkind; cases hkind
    · cases h
  split at h
  · split at h
    · cases h; cases hkind
    · cases h
  split at h
  · cases h; cases hkind
  split at h
  · cases h; cases hkind
  split at h
  · cases h; cases hkind
  split at h
  · -- The tests that lead here look at the first character only.
    rename_i hlambda hdash hcolon hopen hclose hspace hstart
    intro later
    simp [munch, hlambda, hdash, hcolon, hopen, hclose, hspace, hstart]
  split at h
  · cases h; cases hkind
  · cases h

theorem SpellsWord.scans {c : Char} {run quotes rest : List Char} {word : String} {position : Nat}
    {tokens : List Token} (h : SpellsWord c run quotes)
    (hword : word.toList = c :: (run ++ quotes)) (hrest : EndsWord rest)
    (later : Scans (position + word.length) rest tokens) :
    Scans position (word.toList ++ rest) (⟨.ofWord word, word, position⟩ :: tokens) := by
  have hofList : String.ofList (c :: (run ++ quotes)) = word := by
    rw [← hword, String.ofList_toList]
  rw [← String.length_toList, hword] at later
  have hscans := Scans.piece (h.munch hrest) later
  simp only [Piece.token?, PieceKind.tokenKind?, hofList] at hscans
  rw [hword]
  exact hscans

/-- The word is a name: scanned by itself, it is one token, an identifier. -/
def IsIdentifier (word : String) : Prop :=
  lex word = .ok [⟨.identifier, word, 0⟩, .atEnd word.length]

theorem isIdentifier_iff_scans {word : String} :
    IsIdentifier word ↔ Scans 0 word.toList [⟨.identifier, word, 0⟩] := by
  rw [← tokenize_eq_ok_iff, ← lex_eq_ok_iff]
  rfl

theorem spellsWord_of_rest {c : Char} {cs : List Char}
    (hstart : ∀ later, munch c later = .ok (.name c later)) (hrest : (Piece.name c cs).rest = []) :
    SpellsWord c (cs.takeWhile Text.isIdentifierContinue)
      (cs.dropWhile Text.isIdentifierContinue) where
  start := hstart
  run := fun _ hd => List.mem_takeWhile_imp hd
  quotes := by
    have hquotes := List.dropWhile_eq_nil_iff.1 hrest
    simpa using hquotes

/-- If a text is a single token, an identifier, then it is cut off in one piece. -/
theorem Scans.name_of_identifier {word : String}
    (h : Scans 0 word.toList [⟨.identifier, word, 0⟩]) :
    ∃ c cs, (∀ later, munch c later = .ok (.name c later)) ∧ word.toList = c :: cs ∧
      (Piece.name c cs).rest = [] ∧ TokenKind.ofWord word = .identifier := by
  generalize hword : word.toList = text at h
  generalize htokens : [Token.mk .identifier word 0] = tokens at h
  cases h with
  | done => cases htokens
  | @piece _ c cs piece tokens front later =>
    cases htoken : piece.token? 0 with
    | none =>
      -- After a piece of layout, the token would begin later.
      rw [htoken, Option.toList_none, List.nil_append] at htokens
      have hle := later.le_position _ (htokens ▸ List.mem_singleton_self _)
      have hpos := List.length_pos_iff.2 (munch_text_ne_nil front)
      simp only at hle
      omega
    | some token =>
      rw [htoken, Option.toList_some, List.singleton_append] at htokens
      obtain ⟨kind, hkind, heq⟩ := Option.map_eq_some_iff.1 htoken
      obtain ⟨rfl, -⟩ := List.cons.inj htokens
      obtain ⟨rfl, htext, -⟩ := Token.mk.inj heq
      have hstart := munch_of_identifier front hkind
      obtain rfl := Except.ok.inj ((hstart cs).symm.trans front)
      have happend := munch_append front
      rw [← hword, ← htext, String.toList_ofList, List.append_right_eq_self] at happend
      rw [htext] at hkind
      exact ⟨c, cs, hstart, rfl, happend, Option.some.inj hkind⟩

/-- A name is spelled like a word, and is not a reserved one. -/
theorem isIdentifier_iff_spells {word : String} :
    IsIdentifier word ↔ (∃ c run quotes, SpellsWord c run quotes ∧
      word.toList = c :: (run ++ quotes)) ∧ TokenKind.ofWord word = .identifier := by
  rw [isIdentifier_iff_scans]
  constructor
  · intro h
    obtain ⟨c, cs, hstart, hword, hrest, hkind⟩ := h.name_of_identifier
    exact ⟨⟨c, _, _, spellsWord_of_rest hstart hrest, by
      rw [hword, List.takeWhile_append_dropWhile]⟩, hkind⟩
  · rintro ⟨⟨c, run, quotes, hspells, hword⟩, hkind⟩
    have hscans := hspells.scans hword endsWord_nil (.done (0 + word.length))
    rwa [List.append_nil, hkind] at hscans

theorem IsIdentifier.scans {word : String} {rest : List Char} {position : Nat}
    {tokens : List Token} (h : IsIdentifier word) (hrest : EndsWord rest)
    (later : Scans (position + word.length) rest tokens) :
    Scans position (word.toList ++ rest) (⟨.identifier, word, position⟩ :: tokens) := by
  obtain ⟨⟨c, run, quotes, hspells, hword⟩, hkind⟩ := isIdentifier_iff_spells.1 h
  rw [← hkind]
  exact hspells.scans hword hrest later

theorem isIdentifier_of_letter {word : String} (c : Char) (hword : word.toList = [c])
    (hstart : ∀ cs, munch c cs = .ok (.name c cs)) (hkind : TokenKind.ofWord word = .identifier) :
    IsIdentifier word :=
  isIdentifier_iff_spells.2 ⟨⟨c, [], [], ⟨hstart, by simp, by simp⟩, hword⟩, hkind⟩

theorem isIdentifier_f : IsIdentifier "f" := isIdentifier_of_letter 'f' rfl (fun _ => rfl) rfl

theorem isIdentifier_x : IsIdentifier "x" := isIdentifier_of_letter 'x' rfl (fun _ => rfl) rfl

theorem forall_isIdentifier_f_x : ∀ name ∈ ["f", "x"], IsIdentifier name :=
  List.forall_mem_cons.2 ⟨isIdentifier_f, List.forall_mem_singleton.2 isIdentifier_x⟩

/-! ### Numbers -/

theorem not_isDigit_of_isWhiteSpace {c : Char} (h : isWhiteSpace c = true) : c.isDigit = false := by
  simp only [isWhiteSpace, List.mem_cons, List.not_mem_nil, or_false, decide_eq_true_eq] at h
  rcases h with rfl | rfl | rfl | rfl | rfl | rfl | rfl | rfl | rfl | rfl | rfl <;> rfl

theorem munch_digit {c : Char} (h : c.isDigit = true) (cs : List Char) :
    munch c cs = .ok (.run (.token .natural) Char.isDigit c cs) := by
  have hne : ∀ d : Char, d.isDigit = false → c ≠ d := by
    rintro d hd rfl
    rw [h] at hd
    cases hd
  have hspace : isWhiteSpace c ≠ true := by
    intro hspace
    rw [not_isDigit_of_isWhiteSpace hspace] at h
    cases h
  have hstart : Text.isIdentifierStart c = false := by
    have hle := (Char.isDigit_iff_toNat.1 h).2
    exact RangeTable.covers_of_lt (Nat.lt_of_le_of_lt hle (by decide))
  simp [munch, hne, hspace, hstart, h]

theorem not_isDigit_of_endsWord {rest : List Char} (h : EndsWord rest) :
    ∀ c ∈ rest.head?, c.isDigit = false := by
  intro c hc
  by_contra hdigit
  have hcontinue := isIdentifierContinue_of_isDigit (Bool.not_eq_false _ ▸ hdigit)
  rw [(h c hc).1] at hcontinue
  cases hcontinue

theorem scans_number (n : Nat) {rest : List Char} {position : Nat} {tokens : List Token}
    (hrest : EndsWord rest) (later : Scans (position + (toString n).length) rest tokens) :
    Scans position ((toString n).toList ++ rest) (⟨.natural, toString n, position⟩ :: tokens) := by
  have hdigits : ∀ c ∈ (toString n).toList, c.isDigit = true := by
    intro c hc
    rw [Nat.toString_eq_ofList_toDigits, String.toList_ofList] at hc
    exact Nat.isDigit_of_mem_toDigits (by decide) (by decide) hc
  have hofList : String.ofList (toString n).toList = toString n := String.ofList_toList
  rw [← String.length_toList] at later
  cases hlist : (toString n).toList with
  | nil => exact absurd hlist (by simp)
  | cons c cs =>
    rw [hlist] at hdigits hofList later
    obtain ⟨htake, hdrop⟩ :=
      span_run (List.forall_mem_cons.1 hdigits).2 (not_isDigit_of_endsWord hrest)
    have hfront := munch_digit (hdigits c List.mem_cons_self) (cs ++ rest)
    rw [Piece.run, htake, hdrop] at hfront
    have hscans := Scans.token hfront later
    rwa [hofList] at hscans

end NormalOrder
