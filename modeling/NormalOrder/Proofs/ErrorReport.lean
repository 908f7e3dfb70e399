import NormalOrder.Proofs.Lines
import NormalOrder.Proofs.Nesting
import NormalOrder.Proofs.Outcomes
import NormalOrder.Proofs.Transcript

/-!
# A report points at the offending text

A program that is rejected for its text is rejected for a piece of it: a character at which nothing
begins, a token, or the end of the source (`Rejection.Blames`).

* `Rejection.IsSyntaxError.exists_blames` : every syntax error has such an offending text, and the
  diagnostic says where it begins and how long it is.
* `Rejection.Blames.prefix_tail` : the offending text does not go beyond its line, since no token
  contains a newline; only the end of the source has none, and there the line is over.
* `Reporter.report_eq` : a report consists of three lines, which `LineAt` determines.

So a run on such a program prints these three lines, and the mark is exactly as wide as the
offending text: `CommandLine.run_points_at_error`.
-/

namespace NormalOrder

/-! ### The offending text -/

/-- The text of a source that a rejection is about. -/
inductive Rejection.Blames (source : String) : Rejection → List Char → Prop where
  /-- The scanner is stopped by a character. -/
  | character {e : LexError} {c : Char} (hlex : lex source = .error e)
      (hc : source.toList[e.position]? = some c) : Blames source (.lexical e) [c]
  /-- The grammar refuses a token. -/
  | token {e : ParseError} {tokens : List Token} {token : Token} (hlex : lex source = .ok tokens)
      (htoken : token ∈ tokens) (hposition : token.position = e.position)
      (hkind : token.kind ≠ .endOfInput) : Blames source (.grammatical e) token.lexeme.toList
  /-- The grammar refuses the end of the source. -/
  | ending {e : ParseError} {tokens : List Token} {token : Token} (hlex : lex source = .ok tokens)
      (htoken : token ∈ tokens) (hposition : token.position = e.position)
      (hkind : token.kind = .endOfInput) : Blames source (.grammatical e) []

theorem tiling_of_lex {source : String} {tokens : List Token} (h : lex source = .ok tokens) :
    Tiling source.toList tokens := by
  obtain ⟨found, hfound, rfl⟩ := lex_eq_ok h
  rw [← String.length_toList]
  exact (tokenize_eq_ok_iff.1 hfound).tiling

theorem Tiling.position_of_endOfInput {source : List Char} {tokens : List Token}
    (h : Tiling source tokens) {token : Token} (htoken : token ∈ tokens)
    (hkind : token.kind = .endOfInput) : token.position = source.length := by
  obtain ⟨front, rfl, hfront⟩ := h.ends
  rcases List.mem_append.1 htoken with hmem | hmem
  · exact absurd hkind (hfront token hmem)
  · rw [List.mem_singleton.1 hmem, Token.atEnd]

theorem Tiling.lexeme_prefix {source : List Char} {tokens : List Token} (h : Tiling source tokens)
    {token : Token} (htoken : token ∈ tokens) :
    token.lexeme.toList <+: source.drop token.position := by
  rw [h.lexemes token htoken, slice]
  exact List.take_prefix _ _

theorem ne_newline_of_lex_eq_error {source : String} {e : LexError} (h : lex source = .error e)
    {c : Char} (hc : source.toList[e.position]? = some c) : c ≠ '\n' := by
  obtain ⟨front, c', cs, hsource, hposition, hmunch⟩ := exists_munch_of_lex_eq_error h
  obtain rfl : c' = c := by simpa [hsource, hposition] using hc
  rintro rfl
  cases (nothingBegins_of_munch hmunch).whiteSpace '\n' rfl

theorem Diagnostic.width_ofParseError (source : String) (e : ParseError) :
    (ofParseError source e).width = max e.length 1 := by
  show (max (e.length : Int) 1).toNat = max e.length 1
  omega

namespace Rejection

/-- **The offending text stays on its line.**  It stands where the diagnostic says, and if there is
none then the line is over. -/
theorem Blames.prefix_tail {source : String} {rejection : Rejection} {offending : List Char}
    (h : Blames source rejection offending) {d : Diagnostic}
    (hd : Incident.ofRejection source rejection = .diagnosed d)
    (line : LineAt source.toList d.position) :
    offending <+: line.tail ∧ (offending = [] → line.tail = []) := by
  cases h with
  | @character e c hlex hc =>
    obtain rfl := Incident.diagnosed.inj hd
    have hstands : [c] <+: source.toList.drop e.position := by
      obtain ⟨hlt, rfl⟩ := List.getElem?_eq_some_iff.1 hc
      rw [List.drop_eq_getElem_cons hlt]
      exact ⟨_, rfl⟩
    have hline : '\n' ∉ [c] := fun hmem =>
      ne_newline_of_lex_eq_error hlex hc (List.mem_singleton.1 hmem).symm
    exact ⟨line.prefix_tail hstands hline, fun hnil => absurd hnil (List.cons_ne_nil c [])⟩
  | @token e tokens token hlex htoken hposition hkind =>
    obtain rfl := Incident.diagnosed.inj hd
    have htiling := tiling_of_lex hlex
    have hspells := (htiling.longest token htoken hkind).spells
    have hstands := htiling.lexeme_prefix htoken
    rw [hposition] at hstands
    exact ⟨line.prefix_tail hstands hspells.newline_notMem, fun hnil => absurd hnil hspells.ne_nil⟩
  | @ending e tokens token hlex htoken hposition hkind =>
    obtain rfl := Incident.diagnosed.inj hd
    have hend := (tiling_of_lex hlex).position_of_endOfInput htoken hkind
    exact ⟨List.nil_prefix, fun _ => line.tail_eq_nil (hposition.symm.trans hend)⟩

/-- **A syntax error has an offending text**, and the diagnostic is about a stretch of its length,
but for the end of the source, which counts as one character. -/
theorem IsSyntaxError.exists_blames {rejection : Rejection} (herror : rejection.IsSyntaxError)
    {levels : Nat} {source : String} (h : parseWithin levels source = .error rejection) :
    ∃ d offending, Incident.ofRejection source rejection = .diagnosed d ∧
      Blames source rejection offending ∧ d.position ≤ source.length ∧
      d.width = max offending.length 1 := by
  cases hfound : tokenize source with
  | error e =>
    rw [parseWithin, hfound] at h
    obtain rfl := Except.error.inj h
    have hlt := position_lt_of_tokenize hfound
    have hc := List.getElem?_eq_getElem (String.length_toList.symm ▸ hlt)
    exact ⟨_, _, rfl, .character (lex_eq_error_iff.2 hfound) hc, hlt.le, rfl⟩
  | ok tokens =>
    rw [parseWithin, hfound] at h
    cases rejection with
    | lexical e => exact absurd h parseTokens_ne_lexical
    | digits count => exact herror.elim
    | grammatical e =>
      obtain ⟨what, read, rest, htokens, rfl, -, -⟩ := refused_of_parseTokens h (.inr herror)
      have hlex := lex_eq_ok_iff.2 hfound
      have hle := position_atFront_le hfound htokens what
      cases rest with
      | nil =>
        have htoken := List.mem_append_right tokens (List.mem_singleton_self (.atEnd source.length))
        exact ⟨_, _, rfl, .ending hlex htoken rfl rfl, hle, rfl⟩
      | cons token rest =>
        have htoken : token ∈ tokens := by simp [htokens]
        have hkind := (tokenize_eq_ok_iff.1 hfound).kind_ne_endOfInput token htoken
        refine ⟨_, _, rfl, .token hlex (List.mem_append_left _ htoken) rfl hkind, hle, ?_⟩
        rw [Diagnostic.width_ofParseError, String.length_toList]
        rfl

end Rejection

/-! ### The report -/

theorem Incident.shown_of_ofRejection {source : String} {rejection : Rejection} {d : Diagnostic}
    (h : ofRejection source rejection = .diagnosed d) :
    d.source = source ∧ d.pointed = true ∧ d.internal = false := by
  cases rejection with
  | lexical e =>
    obtain rfl := Incident.diagnosed.inj h
    exact ⟨rfl, rfl, rfl⟩
  | grammatical e =>
    obtain rfl := Incident.diagnosed.inj h
    exact ⟨rfl, rfl, rfl⟩
  | digits count => cases h

open CommandLine in
/-- **A report is three lines**: the place and what is wrong, the line of the source, and the
mark. -/
theorem Reporter.report_eq {r : Reporter} {path source : String} {d : Diagnostic}
    (hpath : r.path = some path) (hr : r.source = source) (hd : d.source = source)
    (hpointed : d.pointed = true) (hinternal : d.internal = false) (hne : source ≠ "")
    (line : LineAt source.toList d.position) :
    r.report .plain d = unlines [
      path ++ ":" ++ toString ((source.toList.take d.position).count '\n' + 1) ++ ":" ++
        toString (line.head.length + 1) ++ ": error: " ++ d.message.render .plain,
      "  " ++ String.ofList line.text,
      "  " ++ String.ofList (underline line.head.length (min d.width line.tail.length))] := by
  subst hd
  have hshown : d.source.isEmpty = false := by
    rw [Bool.eq_false_iff]
    exact fun hempty => hne (String.isEmpty_iff.1 hempty)
  refine String.toList_inj.1 ?_
  simp [Reporter.report, Reporter.place, hpath, hr, hpointed, hinternal, hshown, line.locate_eq,
    line.excerpt_eq, unlines]

namespace CommandLine

theorem run_of_parseWithin_eq_error {levels : Nat} {s : Settings} {content : Content} {source : String}
    (horigin : s.origin ≠ .void) (hsource : s.origin.source content = .ok source)
    {rejection : Rejection} (hparse : parseWithin levels source = .error rejection)
    {d : Diagnostic} (hd : Incident.ofRejection source rejection = .diagnosed d) (style : Style) :
    run style s content levels =
      .ok { code := 1, stdout := (Reporter.register {} s.origin.path source).report style d } := by
  have hsession : Session.ofSource source (some s.maxSteps) levels = .error rejection := by
    rw [Session.ofSource, hparse]
    rfl
  have hwritten : evaluateSource levels s style (.register {} s.origin.path source) =
      ("", some (.diagnosed d)) := by
    rw [evaluateSource]
    simp only [Reporter.register, hsession, hd]
  rw [run, if_neg horigin, hsource]
  simp only [hwritten, conclude, Reporter.settle, String.empty_append]
  rfl

/-- **A report points exactly at the offending text.**  If the program among the arguments is
rejected for its text, then the same error is found without a bound on the levels, and all that is
written are three lines, with exit code one:

* the line and the column of the offending text, counted from one, and what is wrong,
* the whole line of the source that the offending text stands on,
* below it, a mark as wide as the offending text and in the same place; if this is the end of the
  source, a single caret after the end of the line.
-/
theorem run_points_at_error (levels : Nat) (s : Settings) (content : Content) (source : String)
    (rejection : Rejection) (horigin : s.origin = .inline source) (hne : source ≠ "")
    (hparse : parseWithin levels source = .error rejection)
    (herror : rejection.IsSyntaxError) :
    parse source = .error rejection ∧ ∃ d offending,
      Incident.ofRejection source rejection = .diagnosed d ∧
      rejection.Blames source offending ∧
      ∃ line : LineAt source.toList d.position,
        (source.toList.splitOn '\n')[(source.toList.take d.position).count '\n']? = some line.text ∧
        offending <+: line.tail ∧ (offending = [] → line.tail = []) ∧
        run .plain s content levels = .ok {
          code := 1
          stdout := unlines [
            "<expr>:" ++ toString ((source.toList.take d.position).count '\n' + 1) ++ ":" ++
              toString (line.head.length + 1) ++ ": error: " ++ d.message.render .plain,
            "  " ++ String.ofList line.text,
            "  " ++ String.ofList (underline line.head.length offending.length)] } := by
  obtain ⟨d, offending, hd, hblames, hle, hwidth⟩ := herror.exists_blames hparse
  obtain ⟨hsource, hpointed, hinternal⟩ := Incident.shown_of_ofRejection hd
  let line : LineAt source.toList d.position := .of (String.length_toList ▸ hle)
  obtain ⟨htail, hend⟩ := hblames.prefix_tail hd line
  -- The offending text is never cut off, so the mark has its width; nothing is marked as one
  -- character, but then there is nothing left of the line.
  have hmark : min d.width line.tail.length = offending.length := by
    have hlength := htail.length_le
    cases hoffending : offending with
    | nil => rw [hend hoffending, List.length_nil, Nat.min_zero]
    | cons c cs =>
      rw [hoffending, List.length_cons] at hwidth hlength
      rw [List.length_cons]
      omega
  have hpath : (Origin.inline source).path ++ ":" = "<expr>:" := by
    rw [Origin.path]
    decide
  have hreport := Reporter.report_eq (r := .register {} (Origin.inline source).path source) rfl rfl
    hsource hpointed hinternal hne line
  rw [hmark, hpath] at hreport
  have hvoid : s.origin ≠ .void := by simp [horigin]
  have hinline : s.origin.source content = .ok source := by rw [horigin]; rfl
  refine ⟨parse_eq_error_of_parseWithin herror hparse, d, offending, hd, hblames, line,
    line.getElem?_splitOn, htail, hend, ?_⟩
  rw [run_of_parseWithin_eq_error hvoid hinline hparse hd, horigin, hreport]
  rfl

/-- A program goes on after its term, on the second of three lines; the mark is two characters wide,
like the token that is refused. -/
theorem run_points_at_error_leftover :
    let source := "λx ->\n  x := y\n-- end"
    let s : Settings := ⟨.inline source, 1000, false, false⟩
    let rejection : Rejection := .grammatical ⟨.leftover ":=", 10, 2⟩
    settings ["-e", source] = .ok s ∧
      parseWithin Limits.levels source = .error rejection ∧ rejection.IsSyntaxError ∧
      run .plain s .unreadable = .ok {
        code := 1
        stdout := unlines [
          "<expr>:2:5: error: end of input was expected, got :=",
          "    x := y",
          "      ^~"] } ∧
      ∃ offending, rejection.Blames source offending ∧ ∃ line : LineAt source.toList 10,
        (source.toList.splitOn '\n')[1]? = some line.text ∧ offending <+: line.tail ∧
        run .plain s .unreadable = .ok {
          code := 1
          stdout := unlines [
            "<expr>:2:" ++ toString (line.head.length + 1) ++ ": error: " ++
              "end of input was expected, got :=",
            "  " ++ String.ofList line.text,
            "  " ++ String.ofList (underline line.head.length offending.length)] } := by
  intro source s rejection
  have hsettings : settings ["-e", source] = .ok s := by
    simp only [s, source]
    decide +kernel
  have hparse : parseWithin Limits.levels source = .error rejection := by
    simp only [source, rejection]
    decide +kernel
  have herror : rejection.IsSyntaxError := by
    simp only [rejection]
    decide
  have hrun : run .plain s .unreadable = .ok {
      code := 1
      stdout := unlines [
        "<expr>:2:5: error: end of input was expected, got :=",
        "    x := y",
        "      ^~"] } := by
    simp only [s, source]
    decide +kernel
  obtain ⟨-, d, offending, hd, hblames, line, hline, htail, -, hwritten⟩ :=
    run_points_at_error Limits.levels s .unreadable source rejection rfl (by decide) hparse herror
  obtain rfl := Incident.diagnosed.inj hd
  have hnewlines : (source.toList.take 10).count '\n' = 1 := by decide
  have hplace : "<expr>:" ++ toString (1 + 1) ++ ":" = "<expr>:2:" := by decide
  have hmessage : (Grammar.Complaint.leftover ":=").message.render .plain =
      "end of input was expected, got :=" := by decide
  simp only [Diagnostic.ofParseError, ParseError.message, hnewlines, hplace, hmessage]
    at hline hwritten
  exact ⟨hsettings, hparse, herror, hrun, offending, hblames, line, hline, htail, hwritten⟩

end CommandLine

end NormalOrder
