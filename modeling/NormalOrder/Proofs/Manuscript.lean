import NormalOrder.Proofs.Placement

/-!
# Scanning undoes writing

A `Manuscript` is a list of lexemes with layout before each of them and after the last: white space
and comments, with some of it between any two lexemes.  Its text is cut into just these lexemes again,
each at the offset where it was written (`Manuscript.scans_write`), because layout vanishes
(`Layout.scans`) and a lexeme ends where layout begins (`TokenKind.Spells.scans`).

What the text means depends on the lexemes only: manuscripts that differ in their layout have the same
verdict (`lex_manuscript`).
-/

namespace NormalOrder

open Grammar

/-! ### Layout before a text -/

theorem not_isIdentifierContinue_of_isWhiteSpace {c : Char} (h : isWhiteSpace c = true) :
    Text.isIdentifierContinue c = false := by
  simp only [isWhiteSpace, List.mem_cons, List.not_mem_nil, or_false, decide_eq_true_eq] at h
  rcases h with rfl | rfl | rfl | rfl | rfl | rfl | rfl | rfl | rfl | rfl | rfl <;> decide +kernel

namespace Layout

variable {rest rest' text : List Char}

theorem of_ne_nil (h : Layout rest text) (hrest : rest ≠ []) : Layout rest' text := by
  induction h with
  | nil => exact .nil
  | whiteSpace hc _ ih => exact .whiteSpace hc ih
  | comment hline _ ih => exact .comment hline ih
  | lastComment _ hnil => exact absurd hnil hrest

theorem scans {position : Nat} {tokens : List Token} (h : Layout rest text)
    (later : Scans (position + text.length) rest tokens) :
    Scans position (text ++ rest) tokens := by
  induction h generalizing position with
  | nil => exact later
  | @whiteSpace c text hc _ ih =>
    rw [List.length_cons, Nat.add_comm text.length, ← Nat.add_assoc] at later
    exact .whiteSpace hc (ih later)
  | @comment line text hline _ ih =>
    have hlater : Scans (position + ('-' :: '-' :: (line ++ ['\n'])).length + text.length) rest
        tokens := by simpa [Nat.add_assoc, Nat.add_comm, Nat.add_left_comm] using later
    have hscans : Scans position ('-' :: '-' :: (line ++ ['\n']) ++ (text ++ rest)) tokens :=
      .cuts (.comment hline _) (ih hlater)
    simpa using hscans
  | @lastComment line hline hrest =>
    subst hrest
    exact .cuts (.lastComment hline) later

theorem endsWord (h : Layout rest text) (hne : text ≠ []) (more : List Char) :
    EndsWord (text ++ more) := by
  cases h with
  | nil => exact absurd rfl hne
  | whiteSpace hc _ =>
    intro d hd
    obtain rfl := Option.some.inj hd
    refine ⟨not_isIdentifierContinue_of_isWhiteSpace hc, ?_⟩
    rintro rfl
    cases hc
  | comment => exact endsWord_cons (by decide) (by decide) _
  | lastComment => exact endsWord_cons (by decide) (by decide) _

end Layout

/-! ### Lexemes before a text -/

theorem IsWord.exists_spellsWord {text : List Char} (h : IsWord text) :
    ∃ c run quotes, SpellsWord c run quotes ∧ text = c :: (run ++ quotes) := by
  obtain ⟨c, run, quotes, rfl, hne, hstart, hrun, hquotes⟩ := h
  exact ⟨c, run, quotes, ⟨munch_eq_name hne hstart, hrun, hquotes⟩, rfl⟩

/-- The kind of a lexeme that is a word is the kind of that word. -/
theorem TokenKind.Spells.scans_word {kind : TokenKind} {word : String} {rest : List Char}
    {position : Nat} {tokens : List Token} (h : kind.Spells word.toList) (hword : IsWord word.toList)
    (hrest : EndsWord rest) (later : Scans (position + word.length) rest tokens) :
    Scans position (word.toList ++ rest) (⟨kind, word, position⟩ :: tokens) := by
  obtain ⟨c, run, quotes, hspells, htext⟩ := hword.exists_spellsWord
  rw [h.kind_eq hword.spells]
  exact hspells.scans htext hrest later

/-- **A lexeme is one token of its kind, if what follows does not prolong a word.** -/
theorem TokenKind.Spells.scans {kind : TokenKind} {lexeme : String} {rest : List Char}
    {position : Nat} {tokens : List Token} (h : kind.Spells lexeme.toList) (hrest : EndsWord rest)
    (later : Scans (position + lexeme.length) rest tokens) :
    Scans position (lexeme.toList ++ rest) (⟨kind, lexeme, position⟩ :: tokens) := by
  -- A sign is cut off as it stands, whatever follows.
  have hsign : ∀ {text : List Char}, lexeme.toList = text → Cuts (.token kind) text rest →
      Scans position (lexeme.toList ++ rest) (⟨kind, lexeme, position⟩ :: tokens) := by
    rintro _ rfl hcut
    rw [← String.length_toList] at later
    have hscans := Scans.cuts hcut later
    rwa [Piece.token?, PieceKind.tokenKind?, String.ofList_toList] at hscans
  cases kind with
  | lambda =>
    rcases h with h | h
    · exact hsign h (.lambda (.inl rfl) rest)
    · exact hsign h (.lambda (.inr rfl) rest)
  | letWord => exact h.scans_word (h ▸ isWord_let) hrest later
  | assign => exact hsign h (.assign rest)
  | inWord => exact h.scans_word (h ▸ isWord_in) hrest later
  | arrow => exact hsign h (.arrow rest)
  | openBracket => exact hsign h (.openBracket rest)
  | closeBracket => exact hsign h (.closeBracket rest)
  | identifier => exact h.scans_word h.1 hrest later
  | natural =>
    obtain ⟨hne, hdigits⟩ := h
    obtain ⟨c, run, htext⟩ := List.exists_cons_of_ne_nil hne
    rw [htext] at hdigits
    obtain ⟨hc, hrun⟩ := List.forall_mem_cons.1 hdigits
    exact hsign htext (.number hc hrun (not_isDigit_of_endsWord hrest))
  | endOfInput => exact h.elim

/-! ### Manuscripts -/

/-- A lexeme that is written, with the layout in front of it.  Since the lexeme follows, every comment
in the layout ends with its line. -/
structure Inscription where
  /-- The layout. -/
  gap : List Char
  /-- The kind of the lexeme. -/
  kind : TokenKind
  /-- The lexeme. -/
  lexeme : String
  /-- The lexeme is one of its kind. -/
  spells : kind.Spells lexeme.toList
  /-- The gap is white space and comments. -/
  layout : Layout lexeme.toList gap

/-- Lexemes with layout before, between and after them. -/
structure Manuscript where
  /-- The lexemes, each with the layout in front of it. -/
  items : List Inscription
  /-- The layout after the last lexeme. -/
  last : List Char
  /-- Between two lexemes, there is some layout. -/
  spaced : ∀ item ∈ items.tail, item.gap ≠ []
  /-- The layout after the last lexeme may end in a comment without the end of its line. -/
  closing : Layout [] last

namespace Manuscript

/-- The characters of some inscriptions and of the layout after them. -/
def write (last : List Char) : List Inscription → List Char
  | [] => last
  | item :: items => item.gap ++ (item.lexeme.toList ++ write last items)

/-- The tokens of some inscriptions, the first of which begins at `position` with its gap. -/
def place (position : Nat) : List Inscription → List Token
  | [] => []
  | item :: items => ⟨item.kind, item.lexeme, position + item.gap.length⟩ ::
      place (position + item.gap.length + item.lexeme.length) items

/-- The text of a manuscript. -/
def text (m : Manuscript) : String := String.ofList (write m.last m.items)

/-- The tokens of a manuscript, where they are written. -/
def tokens (m : Manuscript) : List Token := place 0 m.items

/-- The kinds and the lexemes of a manuscript. -/
def words (m : Manuscript) : List (TokenKind × String) :=
  m.items.map fun item => (item.kind, item.lexeme)

/-- After a lexeme, nothing prolongs it. -/
theorem endsWord_write {last : List Char} (hlast : Layout [] last) {items : List Inscription}
    (hgaps : ∀ item ∈ items, item.gap ≠ []) : EndsWord (write last items) := by
  cases items with
  | nil =>
    by_cases hne : last = []
    · rw [write, hne]
      exact endsWord_nil
    · have hend := hlast.endsWord hne []
      rwa [List.append_nil] at hend
  | cons item items => exact item.layout.endsWord (hgaps item List.mem_cons_self) _

/-- **Writing lexemes down and scanning the text gives them back**, from any offset on. -/
theorem scans_write {last : List Char} (hlast : Layout [] last) {items : List Inscription}
    (hspaced : ∀ item ∈ items.tail, item.gap ≠ []) (position : Nat) :
    Scans position (write last items) (place position items) := by
  induction items generalizing position with
  | nil =>
    have hscans : Scans position (last ++ []) [] := hlast.scans (.done _)
    rwa [List.append_nil] at hscans
  | cons item items ih =>
    have hlater := ih (fun next hnext => hspaced next (List.mem_of_mem_tail hnext))
      (position + item.gap.length + item.lexeme.length)
    have hlexeme := item.spells.scans (endsWord_write hlast hspaced) hlater
    refine Layout.scans (item.layout.of_ne_nil ?_) hlexeme
    exact item.spells.ne_nil

theorem sameWords_place {items items' : List Inscription}
    (h : items.map (fun item => (item.kind, item.lexeme)) =
      items'.map fun item => (item.kind, item.lexeme)) (position position' : Nat) :
    SameWords (place position items) (place position' items') := by
  induction items generalizing items' position position' with
  | nil =>
    obtain rfl := List.map_eq_nil_iff.1 h.symm
    exact .nil
  | cons item items ih =>
    obtain ⟨item', items', rfl, hword, hwords⟩ := List.map_eq_cons_iff.1 h.symm
    obtain ⟨hkind, hlexeme⟩ := Prod.mk.inj hword
    exact .cons ⟨hkind.symm, hlexeme.symm⟩ (ih hwords.symm _ _)

theorem tokenize_text (m : Manuscript) : tokenize m.text = .ok m.tokens := by
  rw [tokenize_eq_ok_iff, text, String.toList_ofList]
  exact scans_write m.closing m.spaced 0

end Manuscript

/-- **Scanning undoes writing, whatever the layout.**  The text of a manuscript has just the lexemes
of the manuscript as its tokens, each where it was written, and then the one that marks the end.  And
two manuscripts of the same words have the same verdict: the same term, or the same complaint about
the same token. -/
theorem lex_manuscript (m : Manuscript) :
    lex m.text = .ok (m.tokens ++ [.atEnd m.text.length]) ∧
    ∀ m' : Manuscript, m'.words = m.words →
      SameVerdict (m.tokens ++ [.atEnd m.text.length]) (m'.tokens ++ [.atEnd m'.text.length])
        (parse m.text) (parse m'.text) ∧
      ∀ levels, SameVerdict (m.tokens ++ [.atEnd m.text.length])
        (m'.tokens ++ [.atEnd m'.text.length])
        (parseWithin levels m.text) (parseWithin levels m'.text) := by
  refine ⟨lex_eq_ok_iff.2 m.tokenize_text, fun m' hwords => ?_⟩
  have hsame : SameWords m.tokens m'.tokens := Manuscript.sameWords_place hwords.symm 0 0
  refine ⟨?_, fun levels => ?_⟩
  · rw [parse, parse, m.tokenize_text, m'.tokenize_text]
    simp only [hsame.length_eq]
    exact sameVerdict_of_sameWords hsame
  · rw [parseWithin, parseWithin, m.tokenize_text, m'.tokenize_text]
    exact sameVerdict_of_sameWords hsame

/-- A name with an apostrophe right before a comment, and a comment that nothing ends; and the same
words in another layout. -/
theorem lex_manuscript_comments :
    ∃ m m' : Manuscript, m.text = "\\ x'--c\n-> 07 -- end" ∧ m'.text = "-- c\n\\\tx'\r\n->\n07" ∧
      m'.words = m.words ∧
      lex m.text = .ok [⟨.lambda, "\\", 0⟩, ⟨.identifier, "x'", 2⟩, ⟨.arrow, "->", 8⟩,
        ⟨.natural, "07", 11⟩, .atEnd 20] ∧
      SameVerdict (m.tokens ++ [.atEnd m.text.length]) (m'.tokens ++ [.atEnd m'.text.length])
        (parse m.text) (parse m'.text) := by
  have hname : TokenKind.Spells .identifier "x'".toList :=
    ⟨⟨'x', [], ['\''], rfl, by decide, by decide +kernel, by simp, by simp⟩, by decide, by decide⟩
  have hnumber : TokenKind.Spells .natural "07".toList :=
    ⟨by decide, List.forall_mem_cons.2 ⟨rfl, List.forall_mem_singleton.2 rfl⟩⟩
  have hcomment : ∀ rest, Layout rest ['-', '-', 'c', '\n'] :=
    fun rest => @Layout.comment rest ['c'] [] (by simp) .nil
  have hcomment' : ∀ rest, Layout rest ['-', '-', ' ', 'c', '\n'] :=
    fun rest => @Layout.comment rest [' ', 'c'] [] (by simp) .nil
  have hlast : Layout [] ['-', '-', ' ', 'e', 'n', 'd'] :=
    @Layout.lastComment [] [' ', 'e', 'n', 'd'] (by simp) rfl
  have hspaces : ∀ {rest gap : List Char}, (∀ c ∈ gap, isWhiteSpace c = true) → Layout rest gap :=
    fun h => .whiteSpaces h
  let m : Manuscript :=
    { items := [⟨[], .lambda, "\\", .inr rfl, .nil⟩,
        ⟨[' '], .identifier, "x'", hname, hspaces (by simp [isWhiteSpace])⟩,
        ⟨['-', '-', 'c', '\n'], .arrow, "->", rfl, hcomment _⟩,
        ⟨[' '], .natural, "07", hnumber, hspaces (by simp [isWhiteSpace])⟩]
      last := [' ', '-', '-', ' ', 'e', 'n', 'd']
      spaced := by simp
      closing := .whiteSpace rfl hlast }
  let m' : Manuscript :=
    { items := [⟨['-', '-', ' ', 'c', '\n'], .lambda, "\\", .inr rfl, hcomment' _⟩,
        ⟨['\t'], .identifier, "x'", hname, hspaces (by simp [isWhiteSpace])⟩,
        ⟨['\r', '\n'], .arrow, "->", rfl, hspaces (by simp [isWhiteSpace])⟩,
        ⟨['\n'], .natural, "07", hnumber, hspaces (by simp [isWhiteSpace])⟩]
      last := []
      spaced := by simp
      closing := .nil }
  obtain ⟨hlex, hverdict⟩ := lex_manuscript m
  have hwords : m'.words = m.words := rfl
  have htext : m.text = "\\ x'--c\n-> 07 -- end" :=
    String.toList_inj.1 (String.toList_ofList.trans (by simp [m, Manuscript.write]))
  have htext' : m'.text = "-- c\n\\\tx'\r\n->\n07" :=
    String.toList_inj.1 (String.toList_ofList.trans (by simp [m', Manuscript.write]))
  have hlength : m.text.length = 20 := String.length_ofList.trans (by simp [m, Manuscript.write])
  have htokens : m.tokens = [⟨.lambda, "\\", 0⟩, ⟨.identifier, "x'", 2⟩, ⟨.arrow, "->", 8⟩,
      ⟨.natural, "07", 11⟩] := by
    simp only [m, Manuscript.tokens, Manuscript.place]
    decide
  rw [hlength, htokens] at hlex
  exact ⟨m, m', htext, htext', hwords, hlex, (hverdict m' hwords).1⟩

end NormalOrder
