import NormalOrder.Proofs.Scanning

/-!
# Where a piece ends

`munch` takes the longest piece off the front of a text by looking for its end.  `Cuts kind text
rest` says the same about a piece that is already there: `text` is a piece, and what follows in
`rest` does not prolong it.  `munch` finds the pieces that are cut off in this way and no others
(`cuts_of_munch`, `Cuts.munch`).

Said like this, it is plain how much of the rest a piece depends on, namely its first character at
most (`Cuts.of_head`).  So a piece stays a piece when what follows is cut short (`Cuts.of_append`),
and also when a text is put after it that begins with a newline, unless it is layout itself
(`Cuts.append_newline`).  Hence two texts with a newline between them are scanned one after the
other (`Scans.newline`).
-/

namespace NormalOrder

/-! ### Words -/

theorem not_isIdentifierStart_of_isWhiteSpace {c : Char} (h : isWhiteSpace c = true) :
    Text.isIdentifierStart c = false := by
  simp only [isWhiteSpace, List.mem_cons, List.not_mem_nil, or_false, decide_eq_true_eq] at h
  rcases h with rfl | rfl | rfl | rfl | rfl | rfl | rfl | rfl | rfl | rfl | rfl <;> decide +kernel

/-- A word begins with a character that begins identifiers, other than the sign of abstractions. -/
theorem munch_eq_name {c : Char} (hne : c ≠ 'λ') (hstart : Text.isIdentifierStart c = true)
    (cs : List Char) : munch c cs = .ok (.name c cs) := by
  have hsign : ∀ d : Char, Text.isIdentifierStart d = false → c ≠ d := by
    rintro d hd rfl
    rw [hstart] at hd
    cases hd
  have hspace : isWhiteSpace c ≠ true := by
    intro hspace
    rw [not_isIdentifierStart_of_isWhiteSpace hspace] at hstart
    cases hstart
  have hdash := hsign '-' rfl
  have hcolon := hsign ':' rfl
  have hopen := hsign '(' rfl
  have hclose := hsign ')' rfl
  have hbackslash := hsign '\\' rfl
  simp [munch, hne, hbackslash, hdash, hcolon, hopen, hclose, hspace, hstart]

theorem spellsWord_let : SpellsWord 'l' ['e', 't'] [] where
  start := fun _ => rfl
  run := List.forall_mem_cons.2 ⟨rfl, List.forall_mem_singleton.2 rfl⟩
  quotes := List.forall_mem_nil _

theorem spellsWord_in : SpellsWord 'i' ['n'] [] where
  start := fun _ => rfl
  run := List.forall_mem_singleton.2 rfl
  quotes := List.forall_mem_nil _

/-! ### Pieces and their ends -/

/-- `text` is a piece, and `rest`, which follows it, does not prolong it. -/
inductive Cuts : PieceKind → List Char → List Char → Prop where
  /-- The head of an abstraction. -/
  | lambda {c : Char} (hc : c = 'λ' ∨ c = '\\') (rest : List Char) : Cuts (.token .lambda) [c] rest
  /-- An arrow. -/
  | arrow (rest : List Char) : Cuts (.token .arrow) ['-', '>'] rest
  /-- The sign of a definition. -/
  | assign (rest : List Char) : Cuts (.token .assign) [':', '='] rest
  /-- An opening bracket. -/
  | openBracket (rest : List Char) : Cuts (.token .openBracket) ['('] rest
  /-- A closing bracket. -/
  | closeBracket (rest : List Char) : Cuts (.token .closeBracket) [')'] rest
  /-- A run of white space. -/
  | whiteSpace {c : Char} {run rest : List Char} (hc : isWhiteSpace c = true)
      (hrun : ∀ d ∈ run, isWhiteSpace d = true) (hrest : ∀ d ∈ rest.head?, isWhiteSpace d = false) :
      Cuts .layout (c :: run) rest
  /-- A comment with the end of its line. -/
  | comment {line : List Char} (hline : '\n' ∉ line) (rest : List Char) :
      Cuts .layout ('-' :: '-' :: (line ++ ['\n'])) rest
  /-- A comment at the end of the source. -/
  | lastComment {line : List Char} (hline : '\n' ∉ line) : Cuts .layout ('-' :: '-' :: line) []
  /-- A name or a reserved word. -/
  | word {c : Char} {run quotes rest : List Char} (hspells : SpellsWord c run quotes)
      (hrun : ∀ d ∈ (quotes ++ rest).head?, Text.isIdentifierContinue d = false)
      (hquotes : ∀ d ∈ rest.head?, d ≠ '\'') : Cuts .word (c :: (run ++ quotes)) rest
  /-- A number. -/
  | number {c : Char} {run rest : List Char} (hc : c.isDigit = true)
      (hrun : ∀ d ∈ run, d.isDigit = true) (hrest : ∀ d ∈ rest.head?, d.isDigit = false) :
      Cuts (.token .natural) (c :: run) rest

theorem head?_dropWhile {p : Char → Bool} (cs : List Char) :
    ∀ d ∈ (cs.dropWhile p).head?, p d = false := by
  intro d hd
  have h := List.head?_dropWhile_not p cs
  rw [Option.mem_def.1 hd] at h
  exact h

theorem Piece.cuts_run_whiteSpace {c : Char} (hc : isWhiteSpace c = true) (cs : List Char) :
    Cuts .layout (c :: cs.takeWhile isWhiteSpace) (cs.dropWhile isWhiteSpace) :=
  .whiteSpace hc (fun _ hd => List.mem_takeWhile_imp hd) (head?_dropWhile cs)

theorem Piece.cuts_comment (cs : List Char) :
    Cuts (comment cs).kind (comment cs).text (comment cs).rest := by
  have hline : '\n' ∉ cs.takeWhile (· ≠ '\n') := by
    intro hmem
    have h := List.mem_takeWhile_imp hmem
    simp at h
  simp only [comment]
  split
  · exact .lastComment hline
  · rename_i newline rest hrest
    have hnewline := head?_dropWhile (p := (· ≠ '\n')) cs newline (by rw [hrest]; rfl)
    obtain rfl : newline = '\n' := by simpa using hnewline
    exact .comment hline rest

theorem Piece.cuts_name {c : Char} (hstart : ∀ cs, munch c cs = .ok (.name c cs))
    (cs : List Char) : Cuts (name c cs).kind (name c cs).text (name c cs).rest := by
  have hspells : SpellsWord c (cs.takeWhile Text.isIdentifierContinue)
      ((cs.dropWhile Text.isIdentifierContinue).takeWhile (· = '\'')) := by
    refine ⟨hstart, fun _ hd => List.mem_takeWhile_imp hd, fun d hd => ?_⟩
    have h := List.mem_takeWhile_imp hd
    simpa using h
  refine .word hspells ?_ fun d hd => ?_
  · simp only [name, List.takeWhile_append_dropWhile]
    exact head?_dropWhile cs
  · have h := head?_dropWhile _ d hd
    simpa using h

/-- **What `munch` takes off is a piece that ends there.** -/
theorem cuts_of_munch {c : Char} {cs : List Char} {piece : Piece} (h : munch c cs = .ok piece) :
    Cuts piece.kind piece.text piece.rest := by
  simp only [munch] at h
  split at h
  · rename_i hc
    cases h
    exact .lambda hc cs
  split at h
  · subst_vars
    split at h
    · cases h
      exact .arrow _
    · cases h
      exact Piece.cuts_comment _
    · cases h
  split at h
  · subst_vars
    split at h
    · cases h
      exact .assign _
    · cases h
  split at h
  · subst_vars
    cases h
    exact .openBracket cs
  split at h
  · subst_vars
    cases h
    exact .closeBracket cs
  split at h
  · rename_i hc
    cases h
    exact Piece.cuts_run_whiteSpace hc cs
  split at h
  · rename_i hsign _ _ _ _ _ hstart
    cases h
    exact Piece.cuts_name (munch_eq_name (fun hc => hsign (.inl hc)) hstart) cs
  split at h
  · rename_i hc
    cases h
    exact .number hc (fun _ hd => List.mem_takeWhile_imp hd) (head?_dropWhile cs)
  · cases h

theorem ne_newline_of_notMem {line : List Char} (hline : '\n' ∉ line) :
    ∀ d ∈ line, decide (d ≠ '\n') = true := by
  intro d hd
  rw [decide_eq_true_eq]
  rintro rfl
  exact hline hd

theorem Piece.comment_append_newline {line : List Char} (hline : '\n' ∉ line) (rest : List Char) :
    comment (line ++ '\n' :: rest) = ⟨.layout, '-' :: '-' :: (line ++ ['\n']), rest⟩ := by
  have hrun := ne_newline_of_notMem hline
  have hend : ∀ d ∈ ('\n' :: rest).head?, decide (d ≠ '\n') = false := by simp
  obtain ⟨htake, hdrop⟩ := span_run hrun hend
  simp only [comment, htake, hdrop]

theorem Piece.comment_of_notMem {line : List Char} (hline : '\n' ∉ line) :
    comment line = ⟨.layout, '-' :: '-' :: line, []⟩ := by
  have hrun := ne_newline_of_notMem hline
  have htake := List.takeWhile_eq_self_iff.2 hrun
  have hdrop := List.dropWhile_eq_nil_iff.2 hrun
  simp only [comment, htake, hdrop]

/-- **A piece that ends where it is cut off is what `munch` takes off.** -/
theorem Cuts.munch {kind : PieceKind} {text rest : List Char} (h : Cuts kind text rest) :
    ∃ c cs, text ++ rest = c :: cs ∧ munch c cs = .ok ⟨kind, text, rest⟩ := by
  cases h with
  | @lambda c hc =>
    refine ⟨c, rest, rfl, ?_⟩
    rcases hc with rfl | rfl <;> rfl
  | arrow => exact ⟨_, _, rfl, rfl⟩
  | assign => exact ⟨_, _, rfl, rfl⟩
  | openBracket => exact ⟨_, _, rfl, rfl⟩
  | closeBracket => exact ⟨_, _, rfl, rfl⟩
  | @whiteSpace c run rest hc hrun hrest =>
    obtain ⟨htake, hdrop⟩ := span_run hrun hrest
    refine ⟨c, run ++ rest, rfl, ?_⟩
    rw [munch_whiteSpace hc, Piece.run, htake, hdrop]
  | @comment line hline rest =>
    refine ⟨'-', '-' :: (line ++ '\n' :: rest), by simp, ?_⟩
    rw [← Piece.comment_append_newline hline]
    rfl
  | @lastComment line hline =>
    refine ⟨'-', '-' :: line, by simp, ?_⟩
    rw [← Piece.comment_of_notMem hline]
    rfl
  | @word c run quotes rest hspells hrun hquotes =>
    have hquote : ∀ d ∈ quotes, decide (d = '\'') = true := by simpa using hspells.quotes
    have hend : ∀ d ∈ rest.head?, decide (d = '\'') = false := by simpa using hquotes
    obtain ⟨htake, hdrop⟩ := span_run hspells.run hrun
    obtain ⟨htake', hdrop'⟩ := span_run hquote hend
    refine ⟨c, run ++ (quotes ++ rest), by simp, ?_⟩
    rw [hspells.start, Piece.name, htake, hdrop, htake', hdrop']
  | @number c run rest hc hrun hrest =>
    obtain ⟨htake, hdrop⟩ := span_run hrun hrest
    refine ⟨c, run ++ rest, rfl, ?_⟩
    rw [munch_digit hc, Piece.run, htake, hdrop]

/-! ### What follows a piece -/

theorem mem_head?_append {p : Char → Prop} {keep dropped : List Char}
    (h : ∀ d ∈ (keep ++ dropped).head?, p d) : ∀ d ∈ keep.head?, p d := by
  intro d hd
  cases keep with
  | nil => cases hd
  | cons e keep => exact h d hd

/-- A piece still ends when what follows it is cut short. -/
theorem Cuts.of_append {kind : PieceKind} {text keep dropped : List Char}
    (h : Cuts kind text (keep ++ dropped)) : Cuts kind text keep := by
  generalize hrest : keep ++ dropped = rest at h
  cases h with
  | lambda hc => exact .lambda hc keep
  | arrow => exact .arrow keep
  | assign => exact .assign keep
  | openBracket => exact .openBracket keep
  | closeBracket => exact .closeBracket keep
  | whiteSpace hc hrun hend =>
    subst hrest
    exact .whiteSpace hc hrun (mem_head?_append hend)
  | comment hline => exact .comment hline keep
  | lastComment hline =>
    obtain ⟨rfl, -⟩ := List.append_eq_nil_iff.1 hrest
    exact .lastComment hline
  | word hspells hrun hquotes =>
    subst hrest
    rw [← List.append_assoc] at hrun
    exact .word hspells (mem_head?_append hrun) (mem_head?_append hquotes)
  | number hc hrun hend =>
    subst hrest
    exact .number hc hrun (mem_head?_append hend)

/-- A token still ends when something else follows that begins like what followed before, or that
does not prolong words. -/
theorem Cuts.of_head {kind : PieceKind} {text rest rest' : List Char} (h : Cuts kind text rest)
    (hkind : kind ≠ .layout) (hend : rest'.head? = rest.head? ∨ EndsWord rest') :
    Cuts kind text rest' := by
  cases h with
  | lambda hc => exact .lambda hc _
  | arrow => exact .arrow _
  | assign => exact .assign _
  | openBracket => exact .openBracket _
  | closeBracket => exact .closeBracket _
  | whiteSpace => exact absurd rfl hkind
  | comment => exact absurd rfl hkind
  | lastComment => exact absurd rfl hkind
  | @word c run quotes _ hspells hrun hquotes =>
    rcases hend with hhead | hends
    · refine .word hspells ?_ (hhead ▸ hquotes)
      rwa [List.head?_append, hhead, ← List.head?_append]
    · refine .word hspells (fun d hd => ?_) fun d hd => (hends d hd).2
      cases quotes with
      | nil => exact (hends d hd).1
      | cons quote quotes => exact hrun d hd
  | number hc hrun hrest =>
    rcases hend with hhead | hends
    · exact .number hc hrun (hhead ▸ hrest)
    · exact .number hc hrun (not_isDigit_of_endsWord hends)

/-- A token still ends when a text is put behind that begins with a newline. -/
theorem Cuts.append_newline {kind : PieceKind} {text rest : List Char} (h : Cuts kind text rest)
    (hkind : kind ≠ .layout) (later : List Char) : Cuts kind text (rest ++ '\n' :: later) := by
  refine h.of_head hkind ?_
  cases rest with
  | nil => exact .inr (endsWord_cons (by decide) (by decide) later)
  | cons c rest => exact .inl rfl

/-! ### Scanning across the end of a piece -/

namespace Scans

variable {position : Nat} {text rest : List Char} {tokens later : List Token}

theorem cuts {kind : PieceKind} (front : Cuts kind text rest)
    (hrest : Scans (position + text.length) rest tokens) :
    Scans position (text ++ rest)
      (((⟨kind, text, rest⟩ : Piece).token? position).toList ++ tokens) := by
  obtain ⟨c, cs, htext, hmunch⟩ := front.munch
  rw [htext]
  exact .piece hmunch hrest

theorem whiteSpaces {run : List Char} (hrun : ∀ d ∈ run, isWhiteSpace d = true)
    (hrest : Scans (position + run.length) rest tokens) : Scans position (run ++ rest) tokens := by
  induction run generalizing position with
  | nil => exact hrest
  | cons c run ih =>
    obtain ⟨hc, hrun⟩ := List.forall_mem_cons.1 hrun
    rw [List.length_cons, Nat.add_comm run.length, ← Nat.add_assoc] at hrest
    exact .whiteSpace hc (ih hrun hrest)

/-- A text after layout that ends with it or at a newline is scanned after both. -/
theorem layout_newline {after : List Char} (front : Cuts .layout text after)
    (hdone : after = [] → Scans (position + text.length + 1) rest tokens)
    (hrest : Scans (position + text.length) (after ++ '\n' :: rest) tokens) :
    Scans position (text ++ (after ++ '\n' :: rest)) tokens := by
  cases front with
  | @whiteSpace c run _ hc hrun _ => exact whiteSpaces (List.forall_mem_cons.2 ⟨hc, hrun⟩) hrest
  | comment hline => exact cuts (.comment hline _) hrest
  | @lastComment line hline =>
    -- The newline ends the comment that the end of the source ended before.
    have hlater : Scans (position + ('-' :: '-' :: (line ++ ['\n'])).length) rest tokens := by
      simpa [Nat.add_assoc] using hdone rfl
    have hscans : Scans position ('-' :: '-' :: (line ++ ['\n']) ++ rest) tokens :=
      cuts (.comment hline rest) hlater
    simpa using hscans

/-- **Two texts with a newline between them are scanned one after the other.**  The newline ends
every word, and it ends a comment. -/
theorem newline (h : Scans position text tokens)
    (hrest : Scans (position + text.length + 1) rest later) :
    Scans position (text ++ '\n' :: rest) (tokens ++ later) := by
  induction h with
  | done position => exact .whiteSpace rfl hrest
  | @piece position c cs piece tokens front found ih =>
    obtain ⟨kind, text, after⟩ := piece
    have happend : text ++ after = c :: cs := munch_append front
    have hcut : Cuts kind text after := cuts_of_munch front
    have hlength := congrArg List.length happend
    rw [List.length_append] at hlength
    rw [← hlength, ← Nat.add_assoc] at hrest
    have hscans := ih hrest
    rw [← happend, List.append_assoc, List.append_assoc]
    by_cases hkind : kind = .layout
    · subst hkind
      refine layout_newline hcut (fun hafter => ?_) hscans
      subst hafter
      cases found
      exact hrest
    · exact .cuts (hcut.append_newline hkind rest) hscans

end Scans

end NormalOrder
