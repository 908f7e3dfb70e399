import Mathlib.Data.List.Forall2
import NormalOrder.CommandLine.Run
import NormalOrder.Proofs.NamedProgram
import NormalOrder.Proofs.NumeralSize
import NormalOrder.Proofs.Preservation
import NormalOrder.Proofs.Renaming
import NormalOrder.Proofs.RoundTrip
import NormalOrder.Proofs.Tiling

/-!
# The written trace can be run again

A run writes the terms of its trace, each on a line of its own.  Every line can be read, and what
is read is the term of the trace up to hints, because

* the terms of a run keep all that printing needs: scopes, identifiers for names, and numerals that
  are not too large (`printable_of_run`), and
* what is printed then has no newline in it (`Printer.oneLine_render`).

Printing gives binders other names, but a step does not depend on hints (`step_unhinted`).  So each
line that is read leads to the next by a step (`Transcribes`, `run_writes_trace`).
-/

namespace NormalOrder

/-! ### Texts on one line -/

/-- There is no newline in a text. -/
def OneLine (text : String) : Prop := '\n' ∉ text.toList

instance (text : String) : Decidable (OneLine text) := inferInstanceAs (Decidable (_ ∉ _))

theorem OneLine.append {text text' : String} (h : OneLine text) (h' : OneLine text') :
    OneLine (text ++ text') := by
  rw [OneLine, String.toList_append, List.mem_append, not_or]
  exact ⟨h, h'⟩

theorem IsIdentifier.oneLine {word : String} (h : IsIdentifier word) : OneLine word := by
  obtain ⟨⟨c, run, quotes, hspells, hword⟩, -⟩ := isIdentifier_iff_spells.1 h
  rw [OneLine, hword]
  exact hspells.isWord.newline_notMem

theorem oneLine_toString (n : Nat) : OneLine (toString n) := by
  intro hmem
  rw [Nat.toString_eq_ofList_toDigits, String.toList_ofList] at hmem
  have hdigit := Nat.isDigit_of_mem_toDigits (by decide) (by decide) hmem
  cases hdigit

namespace Printer

theorem oneLine_arrow (inHeader : Bool) : OneLine (arrow inHeader) := by
  cases inHeader <;> decide

theorem oneLine_bracketed {text : String} (needed : Bool) (h : OneLine text) :
    OneLine (bracketed needed text) := by
  cases needed with
  | false => exact h
  | true =>
    have hopen : OneLine "(" := by decide
    exact (hopen.append h).append (by decide)

theorem oneLine_render {numerals : Bool} {free names : List String} {t : Term}
    (hnames : Legible free names) (ht : Printable numerals free names.length t) {inHeader : Bool}
    {text : String} (h : render numerals free inHeader names t = .ok text) : OneLine text := by
  induction t generalizing names inHeader text with
  | free name =>
    obtain rfl := Except.ok.inj h
    exact (oneLine_arrow inHeader).append (ht.freeNames name List.mem_cons_self).2.oneLine
  | bound index =>
    rw [render] at h
    split at h
    · rename_i name hname
      obtain rfl := Except.ok.inj h
      have hmem := List.mem_of_getElem? hname
      exact (oneLine_arrow inHeader).append (hnames.identifiers name hmem).oneLine
    · cases h
  | abs hint body ih =>
    have hbinder := hnames.cons (ht.hints hint List.mem_cons_self)
    have hname := (hbinder.identifiers _ List.mem_cons_self).oneLine
    rw [render] at h
    split at h
    · obtain rfl := Except.ok.inj h
      exact oneLine_toString _
    · obtain ⟨inner, hinner, hpure⟩ := except_bind_eq_ok_iff.1 h
      obtain rfl := Except.ok.inj hpure
      have hsign : OneLine (if inHeader then " " else "λ") := by cases inHeader <;> decide
      exact (hsign.append hname).append (ih hbinder ht.body hinner)
  | app fn arg ihf iha =>
    obtain ⟨left, hleft, hbind⟩ := except_bind_eq_ok_iff.1 h
    obtain ⟨right, hright, hpure⟩ := except_bind_eq_ok_iff.1 hbind
    obtain rfl := Except.ok.inj hpure
    have hspace : OneLine " " := by decide
    have hl := oneLine_bracketed (isAbstraction numerals fn) (ihf hnames ht.fn hleft)
    have hr := oneLine_bracketed (isApplication arg || isAbstraction numerals arg)
      (iha hnames ht.arg hright)
    exact (oneLine_arrow inHeader).append ((hl.append hspace).append hr)

/-- A term is printed as a text, which stands on one line and can be read again. -/
structure Shows (numerals : Bool) (t : Term) (text : String) : Prop where
  /-- The text is what is printed. -/
  printed : pretty t numerals = .ok text
  /-- It stands on one line. -/
  oneLine : OneLine text
  /-- What is read is the term, up to hints. -/
  parsed : ∃ u, parse text = .ok u ∧ u.Alike t

theorem Printable.exists_shows {numerals : Bool} {t : Term}
    (h : Printable numerals t.freeVars 0 t) : ∃ text, Shows numerals t text := by
  have hlegible := legible_nil t.freeVars
  obtain ⟨⟨text, htext, hwritten⟩, -⟩ := writes hlegible h
  refine ⟨text, htext, oneLine_render hlegible h htext, _, hwritten.parse_eq_ok ?_, ?_⟩
  · exact derivation_numbersFit h false []
  · exact derivation_meaning hlegible h false

end Printer

/-! ### Traces -/

/-- **All terms of a run can be printed.** -/
theorem printable_of_run {levels limit : Nat} {source : String} {t : Term} {trace : Trace}
    (hparse : parseWithin levels source = .ok t) (h : evaluateWithin levels limit t = .ok trace)
    {numerals : Bool} (hlevels : numerals = true → levels < 10 ^ Text.Integer.maxDigits) :
    ∀ u ∈ (evaluate limit t).steps, Printer.Printable numerals u.freeVars 0 u := by
  intro u hu
  have hparse' := parse_of_parseWithin hparse
  obtain ⟨named, hnamed, hnames⟩ := exists_named_of_parse hparse'
  obtain ⟨hscope, hfree, hhints⟩ :=
    evaluate_scope_and_names (Int.le_refl 0) (wellScoped_of_parse hparse') limit u hu
  subst hnamed
  refine ⟨hscope, fun name hname => ?_, fun hint hhint => ?_, fun hnumerals s hs n hn => ?_⟩
  · exact ⟨Term.mem_freeVars.2 hname,
      hnames name (named.freeNames_resolve_subset [] (hfree hname))⟩
  · exact hnames hint (named.hints_resolve_subset [] (hhints hhint))
  · exact numeralsBelow_of_run hparse h (hlevels hnumerals) u hu s hs n (Term.numeral?_eq_some_iff.2 hn)

/-- Some texts are a transcript of a trace. -/
structure Transcribes (trace : Trace) (texts : List String) : Prop where
  /-- Every text stands on one line. -/
  oneLine : ∀ text ∈ texts, OneLine text
  /-- There is one text for each term, and it is read as that term, up to hints. -/
  faithful : List.Forall₂ (fun text u => ∃ v, parse text = .ok v ∧ v.Alike u) texts trace.steps
  /-- What one text is read as leads to what the next one is read as, by a step. -/
  rerunnable : texts.IsChain fun text next => ∃ u v w, parse text = .ok u ∧ parse next = .ok v ∧
    u.step = some w ∧ w.Alike v

/-- Texts that show terms which lead to each other can be run again. -/
theorem isChain_of_shows {numerals : Bool} {terms : List Term} {texts : List String}
    (h : List.Forall₂ (Printer.Shows numerals) terms texts)
    (hsteps : terms.IsChain fun u v => u.step = some v) :
    texts.IsChain fun text next => ∃ u v w, parse text = .ok u ∧ parse next = .ok v ∧
      u.step = some w ∧ w.Alike v := by
  induction h with
  | nil => exact .nil
  | @cons u text terms texts hshows hlater ih =>
    cases hlater with
    | nil => exact .singleton text
    | @cons v next terms texts hnext hlater =>
      obtain ⟨hstep, hsteps⟩ := List.isChain_cons_cons.1 hsteps
      refine .cons_cons ?_ (ih hsteps)
      obtain ⟨u', hu', halike⟩ := hshows.parsed
      obtain ⟨v', hv', halike'⟩ := hnext.parsed
      obtain ⟨w, hw, hwv⟩ := halike.step hstep
      exact ⟨u', v', w, hu', hv', hw, hwv.trans halike'.symm⟩

theorem transcribes_of_shows {numerals : Bool} {limit : Nat} {t : Term} {texts : List String}
    (h : List.Forall₂ (Printer.Shows numerals) (evaluate limit t).steps texts) :
    Transcribes (evaluate limit t) texts := by
  have hboth : List.Forall₂ (fun text u => OneLine text ∧ ∃ v, parse text = .ok v ∧ v.Alike u) texts
      (evaluate limit t).steps := h.flip.imp fun _ _ hshows => ⟨hshows.oneLine, hshows.parsed⟩
  obtain ⟨honeLine, hfaithful⟩ := (List.forall₂_and_left _ _).1 hboth
  exact ⟨honeLine, hfaithful, isChain_of_shows h (isChain_evaluate limit t)⟩

theorem exists_shows_all {numerals : Bool} {terms : List Term}
    (h : ∀ u ∈ terms, ∃ text, Printer.Shows numerals u text) :
    ∃ texts, List.Forall₂ (Printer.Shows numerals) terms texts := by
  induction terms with
  | nil => exact ⟨[], .nil⟩
  | cons u terms ih =>
    obtain ⟨⟨text, htext⟩, hlater⟩ := List.forall_mem_cons.1 h
    obtain ⟨texts, htexts⟩ := ih hlater
    exact ⟨text :: texts, .cons htext htexts⟩

/-! ### Output -/

namespace CommandLine

/-- Some lines, each ended by a newline. -/
def unlines (lines : List String) : String := String.join (lines.map (· ++ "\n"))

/-- The lines of a trace: the first text behind two spaces, every later one behind a `β`. -/
def traceLines : List String → List String
  | [] => []
  | first :: later => ("  " ++ first) :: later.map ("β " ++ ·)

theorem unlines_cons (line : String) (lines : List String) :
    unlines (line :: lines) = line ++ "\n" ++ unlines lines := by
  refine String.toList_inj.1 ?_
  simp [unlines]

theorem unlines_append (lines lines' : List String) :
    unlines (lines ++ lines') = unlines lines ++ unlines lines' := by
  refine String.toList_inj.1 ?_
  simp [unlines]

/-- The line that a term is written on, behind its margin. -/
def IsLine (numerals : Bool) (entry : String × Term) (line : String) : Prop :=
  ∃ text, pretty entry.2 numerals = .ok text ∧ line = entry.1 ++ text

/-- Terms that can be printed are written line by line, unless one of them is too deep. -/
theorem writeTerms_eq {levels : Nat} {numerals : Bool} {entries : List (String × Term)}
    {lines : List String} (h : List.Forall₂ (IsLine numerals) entries lines) {written : String}
    (hdeep : (writeTerms levels numerals written entries).2 ≠ some .tooDeep) :
    writeTerms levels numerals written entries = (written ++ unlines lines, none) := by
  induction h generalizing written with
  | nil => simp [writeTerms, unlines]
  | @cons entry line entries lines hline _ ih =>
    obtain ⟨margin, t⟩ := entry
    obtain ⟨text, htext, rfl⟩ := hline
    have hfollows := follows_prettyWithin levels t numerals
    rw [htext] at hfollows
    rw [writeTerms] at hdeep ⊢
    rcases hfollows with hrefused | hok
    · rw [hrefused] at hdeep
      exact absurd rfl hdeep
    · rw [hok] at hdeep ⊢
      rw [unlines_cons, ← String.append_assoc, ← String.append_assoc, ← String.append_assoc]
      exact ih hdeep

theorem isLine_selection {s : Settings} (hquiet : s.quiet = false) {trace : Trace}
    {texts : List String} (h : List.Forall₂ (Printer.Shows s.numerals) trace.steps texts) :
    List.Forall₂ (IsLine s.numerals) (s.selection trace) (traceLines texts) := by
  obtain ⟨first, later, normal⟩ := trace
  obtain ⟨text, texts, hfirst, hlater, rfl⟩ := List.forall₂_cons_left_iff.1 h
  simp only [Settings.selection, hquiet, traceLines, Bool.false_eq_true, if_false]
  refine .cons ⟨text, hfirst.printed, rfl⟩ ?_
  rw [List.forall₂_map_left_iff, List.forall₂_map_right_iff]
  exact hlater.imp fun u text hshows => ⟨text, hshows.printed, rfl⟩

/-- The line that warns that a limit was reached. -/
def limitWarning (path : String) (limit : Nat) : String :=
  path ++ ": warning: no normal form was reached within " ++ toString limit ++ " steps"

/-- The lines before a trace: a warning if its last term is not a normal form. -/
def warningLines (path : String) (limit : Nat) (trace : Trace) : List String :=
  if trace.normal then [] else [limitWarning path limit]

theorem remarks_eq {session : Session} {limit : Nat}
    (hsteps : session.maxSteps = some (limit : Int)) (trace : Trace) (path source : String) :
    session.remarks trace .plain (some (.register {} path source)) =
      unlines (warningLines path limit trace) := by
  have hnumber : Session.stepsText session.maxSteps = toString limit := by
    rw [hsteps]
    rfl
  rw [Session.remarks, warningLines]
  split
  · rfl
  · refine String.toList_inj.1 ?_
    simp [Reporter.warning, Reporter.place, Reporter.register, Session.unfinished, hnumber,
      Message.render, Fragment.render, unlines, limitWarning]

theorem oneLine_limitWarning {path : String} (h : OneLine path) (limit : Nat) :
    OneLine (limitWarning path limit) := by
  have hwords : OneLine ": warning: no normal form was reached within " := by decide
  exact ((h.append hwords).append (oneLine_toString limit)).append (by decide)

/-- A program that can be read is evaluated, and its trace is written behind the warning. -/
theorem evaluateSource_of_parseWithin {levels limit : Nat} {s : Settings} {source : String}
    {t : Term} (hsteps : s.maxSteps = limit) (hparse : parseWithin levels source = .ok t) :
    evaluateSource levels s .plain (.register {} s.origin.path source) =
      match evaluateWithin levels limit t with
      | .error _ => ("", some .tooDeep)
      | .ok trace => writeTerms levels s.numerals
          (unlines (warningLines s.origin.path limit trace)) (s.selection trace) := by
  have hsession : Session.ofSource source (some s.maxSteps) levels =
      .ok ⟨source, some (limit : Int), t, none⟩ := by
    rw [Session.ofSource, hparse, hsteps]
    rfl
  rw [evaluateSource]
  simp only [Reporter.register, hsession, Session.evaluate, Option.getD_some, Int.toNat_natCast]
  cases evaluateWithin levels limit t with
  | error e => rfl
  | ok trace =>
    show writeTerms _ _ (Session.remarks ⟨source, some (limit : Int), t, some trace⟩ trace .plain
      (some (.register {} s.origin.path source))) _ = _
    rw [remarks_eq rfl]

/-- The terms of a run that is not too deep are written, each on a line of its own. -/
theorem exists_transcript {levels limit : Nat} {s : Settings} {source : String} {t : Term}
    (hlevels : s.numerals = true → levels < 10 ^ Text.Integer.maxDigits)
    (hquiet : s.quiet = false) (hsteps : s.maxSteps = limit)
    (hparse : parseWithin levels source = .ok t)
    (hdeep : (evaluateSource levels s .plain (.register {} s.origin.path source)).2 ≠
      some .tooDeep) :
    ∃ texts, Transcribes (evaluate limit t) texts ∧
      evaluateSource levels s .plain (.register {} s.origin.path source) =
        (unlines (warningLines s.origin.path limit (evaluate limit t) ++ traceLines texts),
          none) := by
  rw [evaluateSource_of_parseWithin hsteps hparse] at hdeep ⊢
  cases hrun : evaluateWithin levels limit t with
  | error e =>
    rw [hrun] at hdeep
    exact absurd rfl hdeep
  | ok trace =>
    obtain rfl : evaluate limit t = trace :=
      Except.ok.inj ((follows_evaluateWithin levels limit t).eq_ok hrun)
    rw [hrun] at hdeep
    have hprintable := printable_of_run hparse hrun hlevels
    obtain ⟨texts, hshows⟩ := exists_shows_all fun u hu => (hprintable u hu).exists_shows
    refine ⟨texts, transcribes_of_shows hshows, ?_⟩
    rw [unlines_append]
    exact writeTerms_eq (isLine_selection hquiet hshows) hdeep

/-- **The written trace is a reduction that can be run again.**  If a program can be read and its
run is not too deep, everything that is written is one line of warning, if the last term of the
evaluation still has a redex, and then one line for each term of the evaluation: behind its margin,
each is read as that term, up to hints, and what it is read as leads to the next by a step.  This
is so for any number of levels; where numerals are written as numbers, it must be one that could be
read again. -/
theorem run_writes_trace (levels : Nat) (s : Settings) (content : Content) (source : String)
    (t : Term) (limit : Nat) (hlevels : s.numerals = true → levels < 10 ^ Text.Integer.maxDigits)
    (hquiet : s.quiet = false) (hsteps : s.maxSteps = limit)
    (horigin : s.origin ≠ .void) (hsource : s.origin.source content = .ok source)
    (hparse : parseWithin levels source = .ok t)
    (hdeep : (evaluateSource levels s .plain (.register {} s.origin.path source)).2 ≠
      some .tooDeep) :
    parse source = .ok t ∧ ∃ warnings texts,
      run .plain s content levels = .ok { stdout := unlines (warnings ++ traceLines texts) } ∧
      ((evaluate limit t).result.HasRedex → warnings = [limitWarning s.origin.path limit]) ∧
      (¬(evaluate limit t).result.HasRedex → warnings = []) ∧
      (OneLine s.origin.path → ∀ line ∈ warnings, OneLine line) ∧
      Transcribes (evaluate limit t) texts := by
  obtain ⟨texts, htexts, hwritten⟩ := exists_transcript hlevels hquiet hsteps hparse hdeep
  have hnormal : (evaluate limit t).normal = true ↔ ¬(evaluate limit t).result.HasRedex := by
    rw [evaluate_normal_eq, Option.isNone_iff_eq_none, Term.step_eq_none_iff]
  refine ⟨parse_of_parseWithin hparse, warningLines s.origin.path limit (evaluate limit t), texts,
    ?_, fun hredex => ?_, fun hredex => ?_, fun hpath => ?_, htexts⟩
  · rw [run, if_neg horigin, hsource]
    simp only [hwritten, conclude]
  · exact if_neg fun h => hnormal.1 h hredex
  · exact if_pos (hnormal.2 hredex)
  · unfold warningLines
    split
    · exact List.forall_mem_nil _
    · exact List.forall_mem_singleton.2 (oneLine_limitWarning hpath limit)

/-- One step and no more: the last term still has a redex.  The argument is copied, and the numeral
in it is written as a number. -/
theorem run_writes_trace_limited :
    let source := "(λx -> x x) (λy -> y 2)"
    let s : Settings := ⟨.inline source, 1, true, false⟩
    let copied : Term := .abs "y" (.app (.bound 0) (.numeral 2))
    let t : Term := .app (.abs "x" (.app (.bound 0) (.bound 0))) copied
    settings ["--numerals", "-n", "1", "-e", source] = .ok s ∧
      parseWithin Limits.levels source = .ok t ∧
      (evaluate 1 t).steps = [t, .app copied copied] ∧
      ∃ texts, run .plain s .unreadable =
          .ok { stdout := unlines (limitWarning "<expr>" 1 :: traceLines texts) } ∧
        Transcribes (evaluate 1 t) texts := by
  intro source s copied t
  have hsettings : settings ["--numerals", "-n", "1", "-e", source] = .ok s := by
    simp only [s, source]
    decide +kernel
  have hparse : parseWithin Limits.levels source = .ok t := by
    simp only [source, t, copied]
    decide +kernel
  have hdeep : (evaluateSource Limits.levels s .plain (.register {} s.origin.path source)).2 ≠
      some .tooDeep := by
    simp only [source, s]
    decide +kernel
  have hsteps : (evaluate 1 t).steps = [t, .app copied copied] := by decide
  have hredex : (evaluate 1 t).result.HasRedex := .inl ⟨_, _, rfl⟩
  obtain ⟨-, warnings, texts, hrun, hwarned, -, -, htexts⟩ :=
    run_writes_trace Limits.levels s .unreadable source t 1 (fun _ => levels_lt_pow_maxDigits)
      rfl rfl (by simp [s]) rfl hparse hdeep
  rw [hwarned hredex] at hrun
  exact ⟨hsettings, hparse, hsteps, texts, hrun, htexts⟩

end CommandLine

end NormalOrder
