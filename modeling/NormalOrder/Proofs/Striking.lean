import Mathlib.Data.List.Chain
import NormalOrder.Proofs.Definition
import NormalOrder.Proofs.Manuscript
import NormalOrder.Proofs.RoundTrip
import NormalOrder.Proofs.RunDepth

/-!
# Striking out a bracket

A character that is struck out of a source may leave its neighbours to be read as one token, or may
have stood in a comment.  Nothing of this happens to the brackets of a printed text: an opening
bracket stands after a space, after another one or at the beginning, and a closing bracket before a
space, before another one or at the end, and there are no comments (`Printer.setApart_render`).

So striking out a bracket takes its token away, and leaves all others as they are but for their
offsets (`Scans.strike`).  And in the text that is left, brackets stand in the same way
(`isChain_strike`), so that a second one can be struck out.
-/

namespace NormalOrder

open Grammar

/-! ### Brackets and their neighbours -/

/-- `b` may follow `a`: if `b` is an opening bracket, `a` is one or a space; if `a` is a closing
bracket, `b` is one or a space; and they do not begin a comment. -/
structure Apart (a b : Char) : Prop where
  /-- What stands before an opening bracket. -/
  opening : b = '(' → a = ' ' ∨ a = '('
  /-- What stands after a closing bracket. -/
  closing : a = ')' → b = ' ' ∨ b = ')'
  /-- There is no comment. -/
  noComment : a = '-' → b ≠ '-'

instance (a b : Char) : Decidable (Apart a b) :=
  decidable_of_iff ((b = '(' → a = ' ' ∨ a = '(') ∧ (a = ')' → b = ' ' ∨ b = ')') ∧
    (a = '-' → b ≠ '-')) ⟨fun ⟨h, h', h''⟩ => ⟨h, h', h''⟩, fun ⟨h, h', h''⟩ => ⟨h, h', h''⟩⟩

/-- The character is a bracket, with tokens of the given kind. -/
inductive IsBracket : Char → TokenKind → Prop where
  /-- An opening bracket. -/
  | opening : IsBracket '(' .openBracket
  /-- A closing bracket. -/
  | closing : IsBracket ')' .closeBracket

/-- What stood before and after a bracket may stand next to each other. -/
theorem Apart.trans_bracket {a bracket c : Char} {kind : TokenKind} (h : Apart a bracket)
    (hb : IsBracket bracket kind) (h' : Apart bracket c) : Apart a c := by
  cases hb with
  | opening =>
    have ha := h.opening rfl
    exact ⟨fun _ => ha, by rintro rfl; simp at ha, by rintro rfl; simp at ha⟩
  | closing =>
    have hc := h'.closing rfl
    exact ⟨by rintro rfl; simp at hc, fun _ => hc, by rintro - rfl; simp at hc⟩

theorem isChain_strike {bracket : Char} {kind : TokenKind} (hb : IsBracket bracket kind)
    {before after : List Char} (h : (before ++ bracket :: after).IsChain Apart) :
    (before ++ after).IsChain Apart := by
  obtain ⟨hbefore, hafter, hjoin⟩ := List.isChain_append.1 h
  obtain ⟨hhead, hafter⟩ := List.isChain_cons.1 hafter
  refine hbefore.append hafter fun a ha c hc => ?_
  exact (hjoin a ha bracket rfl).trans_bracket hb (hhead c hc)

/-! ### Pieces and brackets -/

theorem notMem_digits {run : List Char} (hrun : ∀ d ∈ run, d.isDigit = true) {c : Char}
    (hc : c.toNat < '0'.toNat) : c ∉ run :=
  fun hmem => Nat.not_le.2 hc (Char.isDigit_iff_toNat.1 (hrun c hmem)).1

/-- A name or a number does not end in a space or an opening bracket, so a token that does ends
whatever follows. -/
theorem Cuts.of_mem {kind : PieceKind} {text rest : List Char} (h : Cuts kind text rest)
    (hkind : kind ≠ .layout) {a : Char} (ha : a = ' ' ∨ a = '(') (hmem : a ∈ text)
    (rest' : List Char) : Cuts kind text rest' := by
  have hlt : a.toNat < '0'.toNat ∧ a ≠ '\'' := by rcases ha with rfl | rfl <;> decide
  cases h with
  | lambda hc => exact .lambda hc _
  | arrow => exact .arrow _
  | assign => exact .assign _
  | openBracket => exact .openBracket _
  | closeBracket => exact .closeBracket _
  | whiteSpace => exact absurd rfl hkind
  | comment => exact absurd rfl hkind
  | lastComment => exact absurd rfl hkind
  | word hspells => exact absurd hmem (hspells.isWord.notMem hlt.1 hlt.2)
  | number hc hrun => exact absurd hmem (notMem_digits (List.forall_mem_cons.2 ⟨hc, hrun⟩) hlt.1)

/-- A token before a bracket still ends when the bracket is struck out. -/
theorem Cuts.strike {kind : PieceKind} {text between after : List Char} {bracket : Char}
    {bracketKind : TokenKind} (h : Cuts kind text (between ++ bracket :: after))
    (hkind : kind ≠ .layout) (hb : IsBracket bracket bracketKind)
    (hchain : (text ++ (between ++ bracket :: after)).IsChain Apart) :
    Cuts kind text (between ++ after) := by
  cases between with
  | cons c between => exact h.of_head hkind (.inl rfl)
  | nil =>
    obtain ⟨-, hafter, hjoin⟩ := List.isChain_append.1 hchain
    cases hb with
    | opening =>
      have hne : text ≠ [] := by
        rintro rfl
        cases h
      have hlast := hjoin _ (List.getLast?_eq_some_getLast hne) '(' rfl
      exact h.of_mem hkind (hlast.opening rfl) (List.getLast_mem hne) after
    | closing =>
      refine h.of_head hkind (.inr fun c hc => ?_)
      obtain ⟨hhead, -⟩ := List.isChain_cons.1 hafter
      rcases (hhead c hc).closing rfl with rfl | rfl
      · exact endsWord_space after ' ' rfl
      · exact endsWord_closeBracket after ')' rfl

/-- A bracket in a piece is the piece, unless the piece is a comment. -/
theorem Cuts.eq_bracket {kind : PieceKind} {text rest : List Char} {bracket : Char}
    {bracketKind : TokenKind} (h : Cuts kind text rest) (hb : IsBracket bracket bracketKind)
    (hchain : text.IsChain Apart) (hmem : bracket ∈ text) :
    kind = .token bracketKind ∧ text = [bracket] := by
  have hlt : bracket.toNat < '0'.toNat ∧ bracket ≠ '\'' := by cases hb <;> decide
  have hspace : isWhiteSpace bracket = false := by cases hb <;> decide
  cases h with
  | lambda hc =>
    obtain rfl := List.mem_singleton.1 hmem
    rcases hc with rfl | rfl <;> cases hb
  | arrow => cases hb <;> simp at hmem
  | assign => cases hb <;> simp at hmem
  | openBracket =>
    obtain rfl := List.mem_singleton.1 hmem
    cases hb
    exact ⟨rfl, rfl⟩
  | closeBracket =>
    obtain rfl := List.mem_singleton.1 hmem
    cases hb
    exact ⟨rfl, rfl⟩
  | @whiteSpace c run _ hc hrun =>
    have hspaces : ∀ d ∈ c :: run, isWhiteSpace d = true := List.forall_mem_cons.2 ⟨hc, hrun⟩
    cases hspace.symm.trans (hspaces bracket hmem)
  | comment => exact absurd rfl ((List.isChain_cons_cons.1 hchain).1.noComment rfl)
  | lastComment => exact absurd rfl ((List.isChain_cons_cons.1 hchain).1.noComment rfl)
  | word hspells => exact absurd hmem (hspells.isWord.notMem hlt.1 hlt.2)
  | number hc hrun => exact absurd hmem (notMem_digits (List.forall_mem_cons.2 ⟨hc, hrun⟩) hlt.1)

/-! ### Scanning without a bracket -/

/-- Up to offsets, `struck` are the tokens `tokens` without one of them, which is `token`. -/
def Loses (token : Token) (tokens struck : List Token) : Prop :=
  ∃ front back, tokens.map Token.unplaced = front ++ token :: back ∧
    struck.map Token.unplaced = front ++ back

theorem Loses.append {token : Token} {tokens struck : List Token} (h : Loses token tokens struck)
    (found : List Token) : Loses token (found ++ tokens) (found ++ struck) := by
  obtain ⟨front, back, htokens, hstruck⟩ := h
  refine ⟨found.map Token.unplaced ++ front, back, ?_, ?_⟩
  · rw [List.map_append, htokens, List.append_assoc]
  · rw [List.map_append, hstruck, List.append_assoc]

theorem Loses.mem {token : Token} {tokens struck : List Token} (h : Loses token tokens struck) :
    token ∈ tokens.map Token.unplaced := by
  obtain ⟨front, back, htokens, -⟩ := h
  rw [htokens]
  exact List.mem_append_right _ List.mem_cons_self

theorem append_cons_eq_append {before after text rest : List Char} {c : Char}
    (h : before ++ c :: after = text ++ rest) :
    (∃ between, before = text ++ between ∧ rest = between ++ c :: after) ∨
      ∃ inner, text = before ++ c :: inner ∧ after = inner ++ rest := by
  rcases List.append_eq_append_iff.1 h with ⟨inner, htext, hinner⟩ | hbetween
  · cases inner with
    | nil => exact .inl ⟨[], by simp [htext], hinner.symm⟩
    | cons d inner =>
      obtain ⟨rfl, hafter⟩ := List.cons.inj hinner
      exact .inr ⟨inner, htext, hafter⟩
  · exact .inl hbetween

namespace Scans

variable {position : Nat} {before after : List Char} {tokens : List Token} {bracket : Char}
  {kind : TokenKind}

theorem piece_strike {pieceKind : PieceKind} {text between : List Char}
    (hb : IsBracket bracket kind) (front : Cuts pieceKind text (between ++ bracket :: after))
    (hchain : (text ++ (between ++ bracket :: after)).IsChain Apart)
    (later : Scans (position + text.length) (between ++ after) tokens) :
    Scans position (text ++ (between ++ after))
      (((⟨pieceKind, text, between ++ after⟩ : Piece).token? position).toList ++ tokens) := by
  by_cases hkind : pieceKind = .layout
  · subst hkind
    exact Layout.scans (front.layout.of_ne_nil (by simp)) later
  · exact .cuts (front.strike hkind hb hchain) later

/-- **A bracket that is struck out leaves the other tokens as they are**, but for their offsets. -/
theorem strike (hb : IsBracket bracket kind)
    (h : Scans position (before ++ bracket :: after) tokens)
    (hchain : (before ++ bracket :: after).IsChain Apart) : ∃ struck,
      Scans position (before ++ after) struck ∧
      Loses ⟨kind, String.singleton bracket, 0⟩ tokens struck := by
  generalize htext : before ++ bracket :: after = text at h
  induction h generalizing before with
  | done position => cases before <;> cases htext
  | @piece position c cs piece tokens front later ih =>
    obtain ⟨pieceKind, text, rest⟩ := piece
    have happend : text ++ rest = c :: cs := munch_append front
    have hcut : Cuts pieceKind text rest := cuts_of_munch front
    rw [← happend] at htext
    rw [htext] at hchain
    rcases append_cons_eq_append htext with ⟨between, rfl, rfl⟩ | ⟨inner, rfl, rfl⟩
    · -- The piece stands before the bracket.
      obtain ⟨struck, hstruck, hloses⟩ := ih hchain.right_of_append rfl
      rw [List.append_assoc]
      exact ⟨_, piece_strike hb hcut hchain hstruck, hloses.append _⟩
    · -- The piece is the bracket.
      obtain ⟨rfl, hbracket⟩ := hcut.eq_bracket hb hchain.left_of_append (by simp)
      obtain ⟨rfl, rfl⟩ : before = [] ∧ inner = [] := by
        simpa [List.append_eq_singleton_iff] using hbracket
      obtain ⟨moved, hmoved, hscans⟩ := later.exists_moved position
      exact ⟨moved, hscans, [], moved.map Token.unplaced, by rw [hmoved]; rfl, rfl⟩

end Scans

/-! ### Brackets in a printed text -/

/-- The brackets of a text stand apart from everything but spaces. -/
def SetApart (text : String) : Prop := text.toList.IsChain Apart

instance (text : String) : Decidable (SetApart text) :=
  inferInstanceAs (Decidable (text.toList.IsChain Apart))

theorem SetApart.space_append {text text' : String} (h : SetApart text) (h' : SetApart text') :
    SetApart (text ++ " " ++ text') := by
  have htext : (text ++ " " ++ text').toList = text.toList ++ ' ' :: text'.toList := by simp
  rw [SetApart, htext]
  refine List.IsChain.append h (List.isChain_cons.2 ⟨fun b _ => ?_, h'⟩) ?_
  · exact ⟨fun _ => .inl rfl, by simp, by simp⟩
  · rintro a - b ⟨⟩
    exact ⟨by simp, fun _ => .inl rfl, by simp⟩

theorem SetApart.of_space {text : String} (h : SetApart (" " ++ text)) : SetApart text := by
  have htext : (" " ++ text).toList = ' ' :: text.toList := by simp
  rw [SetApart, htext] at h
  exact h.tail

theorem SetApart.bracketed {text : String} (h : SetApart text) : SetApart ("(" ++ text ++ ")") := by
  have htext : ("(" ++ text ++ ")").toList = '(' :: (text.toList ++ [')']) := by simp
  rw [SetApart, htext]
  refine List.isChain_cons.2 ⟨fun b _ => ?_, List.IsChain.append h (List.isChain_singleton _) ?_⟩
  · exact ⟨fun _ => .inr rfl, by simp, by simp⟩
  · rintro a - b ⟨⟩
    exact ⟨by simp, fun _ => .inr rfl, by simp⟩

/-- There is no bracket and no dash in a text. -/
def Bare (text : String) : Prop := ∀ c ∈ text.toList, c ≠ '(' ∧ c ≠ ')' ∧ c ≠ '-'

theorem Bare.append {text text' : String} (h : Bare text) (h' : Bare text') :
    Bare (text ++ text') := by
  rw [Bare, String.toList_append, List.forall_mem_append]
  exact ⟨h, h'⟩

theorem Bare.setApart {text : String} (h : Bare text) : SetApart text := by
  refine List.Pairwise.isChain (List.pairwise_of_forall_mem_list fun a ha b hb => ?_)
  exact ⟨fun hopen => absurd hopen (h b hb).1, fun hclose => absurd hclose (h a ha).2.1,
    fun hdash => absurd hdash (h a ha).2.2⟩

theorem IsIdentifier.bare {word : String} (h : IsIdentifier word) : Bare word := by
  obtain ⟨⟨c, run, quotes, hspells, hword⟩, -⟩ := isIdentifier_iff_spells.1 h
  have hnot := fun d => hspells.isWord.notMem (d := d)
  rw [Bare, hword]
  refine fun d hd => ⟨?_, ?_, ?_⟩
  · rintro rfl
    exact hnot _ (by decide) (by decide) hd
  · rintro rfl
    exact hnot _ (by decide) (by decide) hd
  · rintro rfl
    exact hnot _ (by decide) (by decide) hd

theorem bare_toString (n : Nat) : Bare (toString n) := by
  intro c hc
  rw [Nat.toString_eq_ofList_toDigits, String.toList_ofList] at hc
  have hdigit := Nat.isDigit_of_mem_toDigits (by decide) (by decide) hc
  refine ⟨?_, ?_, ?_⟩ <;> rintro rfl <;> cases hdigit

namespace Printer

theorem setApart_bracketed {text : String} (needed : Bool) (h : SetApart text) :
    SetApart (bracketed needed text) := by
  cases needed with
  | false => exact h
  | true => exact h.bracketed

theorem setApart_arrow {text : String} (inHeader : Bool) (h : SetApart text) :
    SetApart (arrow inHeader ++ text) := by
  cases inHeader with
  | false => simpa [arrow] using h
  | true =>
    have hsign : SetApart " ->" := by decide
    exact hsign.space_append h

/-- **In a printed text, brackets stand apart.** -/
theorem setApart_render {numerals : Bool} {free names : List String} {t : Term}
    (hnames : Legible free names) (ht : Printable numerals free names.length t) {inHeader : Bool}
    {text : String} (h : render numerals free inHeader names t = .ok text) : SetApart text := by
  induction t generalizing names inHeader text with
  | free name =>
    obtain rfl := Except.ok.inj h
    exact setApart_arrow inHeader (ht.freeNames name List.mem_cons_self).2.bare.setApart
  | bound index =>
    rw [render] at h
    split at h
    · rename_i name hname
      obtain rfl := Except.ok.inj h
      have hmem := List.mem_of_getElem? hname
      exact setApart_arrow inHeader (hnames.identifiers name hmem).bare.setApart
    · cases h
  | abs hint body ih =>
    have hbinder := hnames.cons (ht.hints hint List.mem_cons_self)
    have hname := (hbinder.identifiers _ List.mem_cons_self).bare
    rw [render] at h
    split at h
    · obtain rfl := Except.ok.inj h
      exact (bare_toString _).setApart
    · obtain ⟨inner, hinner, hpure⟩ := except_bind_eq_ok_iff.1 h
      obtain rfl := Except.ok.inj hpure
      have hsign : Bare (if inHeader then " " else "λ") := by cases inHeader <;> simp [Bare]
      -- What goes on after a header begins with a space.
      obtain ⟨-, text, hcontinues, -⟩ := writes hbinder ht.body
      obtain rfl := Except.ok.inj (hinner.symm.trans hcontinues)
      have htext := (ih hbinder ht.body hinner).of_space
      have hheader := (hsign.append hname).setApart
      rw [← String.append_assoc]
      exact hheader.space_append htext
  | app fn arg ihf iha =>
    obtain ⟨left, hleft, hbind⟩ := except_bind_eq_ok_iff.1 h
    obtain ⟨right, hright, hpure⟩ := except_bind_eq_ok_iff.1 hbind
    obtain rfl := Except.ok.inj hpure
    have hl := setApart_bracketed (isAbstraction numerals fn) (ihf hnames ht.fn hleft)
    have hr := setApart_bracketed (isApplication arg || isAbstraction numerals arg)
      (iha hnames ht.arg hright)
    exact setApart_arrow inHeader (hl.space_append hr)

end Printer

end NormalOrder
