import NormalOrder.Proofs.Manuscript
import NormalOrder.Report.Reporter

/-!
# How a source is rejected

A source that is no program should be rejected by the scanner or by the grammar, with an error that
says where in the source it is (`Rejection.Documented`).  There is one exception, and it is not an
error of the source: a number with more digits than are read.

* `position_lt_of_tokenize`, `position_atFront_le` : errors of the scanner and of the grammar
  stand within the source or at its end.
* `parseTokens_eq_digits_iff` : reading stops at a number if and only if this is the first one that is
  too long, and the tokens up to it begin a program (`Overruns`).

So a source is rejected properly if and only if no number overruns: `parse_documented_iff`.
-/

namespace NormalOrder

open Grammar

/-- The rejection is an error of the scanner or of the grammar, about the source and a place in it. -/
def Rejection.Documented (source : String) (rejection : Rejection) : Prop :=
  ∃ d, Incident.ofRejection source rejection = .diagnosed d ∧
    (d.kind = .lexical ∨ d.kind = .grammatical) ∧ d.source = source ∧ d.position ≤ source.length

/-- Reading the tokens gets to a number that is too long: the tokens up to it begin a program, and
the numbers before it are not too long. -/
structure Overruns (tokens : List Token) (number : Token) : Prop where
  /-- It is a number. -/
  kind_eq : number.kind = .natural
  /-- It has more digits than are read. -/
  long : Text.Integer.maxDigits < number.lexeme.length
  /-- The tokens before it. -/
  reached : ∃ read rest, tokens = read ++ number :: rest ∧ NumbersFit read ∧
    ∃ later, Derivable .term ((read ++ [number]).map Token.kind ++ later)

/-! ### Where errors stand -/

theorem position_lt_of_tokenize {source : String} {e : LexError}
    (h : tokenize source = .error e) : e.position < source.length := by
  obtain ⟨front, c, cs, hsource, hposition, -⟩ := exists_munch_of_lex_eq_error (lex_eq_error_iff.2 h)
  rw [← String.length_toList, hsource, hposition, List.length_append, List.length_cons]
  omega

theorem position_atFront_le {source : String} {tokens read rest : List Token}
    (h : tokenize source = .ok tokens) (htokens : tokens = read ++ rest) (what : Complaint) :
    (ParseError.atFront what source.length rest).position ≤ source.length := by
  cases rest with
  | nil => exact Nat.le_refl _
  | cons token rest =>
    have hstop := (tokenize_eq_ok_iff.1 h).stop_le token (by simp [htokens])
    rw [String.length_toList] at hstop
    exact (Nat.le_add_right _ _).trans hstop

/-! ### Numbers that are too long -/

/-- The first number that is too long comes after all tokens in which the numbers fit. -/
theorem exists_append_of_numbersFit {read rest read' rest' : List Token} {number : Token}
    (hkind : number.kind = .natural) (hlong : Text.Integer.maxDigits < number.lexeme.length)
    (h : read ++ number :: rest = read' ++ rest') (hfit : NumbersFit read') :
    ∃ mid, read = read' ++ mid ∧ rest' = mid ++ number :: rest := by
  rcases List.append_eq_append_iff.1 h with ⟨more, hread', hmore⟩ | ⟨mid, hread, hrest'⟩
  · cases more with
    | nil => exact ⟨[], by simpa using hread'.symm, hmore.symm⟩
    | cons first more =>
      obtain ⟨rfl, -⟩ := List.cons.inj hmore
      have hle := hfit number (by simp [hread']) hkind
      omega
  · exact ⟨mid, hread, hrest'⟩

/-- **Reading stops at a number if and only if it overruns**, when there are levels enough. -/
theorem parseTokens_eq_digits_iff {levels length : Nat} {tokens : List Token}
    (hlevels : 3 * tokens.length + 3 ≤ levels) {count : Nat} :
    parseTokens levels length tokens = .error (.digits count) ↔
      ∃ number, Overruns tokens number ∧ number.lexeme.length = count := by
  have hexplains := recognizes_program levels [] tokens
  rw [parseTokens]
  generalize program levels [] tokens = outcome at hexplains
  constructor
  · intro h
    cases hexplains with
    | read => cases h
    | refused => cases h
    | exhausted => cases h
    | @overlong number read rest htokens hviable hfit hkind hlong =>
      exact ⟨number, ⟨hkind, hlong, read, rest, htokens, hfit, viable_iff.1 hviable⟩,
        Rejection.digits.inj (Except.error.inj h)⟩
  · rintro ⟨number, ⟨hkind, hlong, read, rest, rfl, hfit, later, hderivable⟩, rfl⟩
    cases hexplains with
    | @read t word left htokens hword hleft hfits =>
      -- The number would be one of those that are read.
      obtain ⟨mid, -, rfl⟩ := exists_append_of_numbersFit hkind hlong htokens hfits
      have hnone : front (mid ++ number :: rest) = none := hleft
      simp [front_eq_none_iff] at hnone
    | @refused what read' left htokens hviable hstuck hfits =>
      -- The tokens from the refused one to the number go on to a program.
      obtain ⟨mid, rfl, rfl⟩ := exists_append_of_numbersFit hkind hlong htokens hfits
      obtain ⟨after, hmem⟩ := viable_iff.2 ⟨later, hderivable⟩
      have hend : nothing (front []) := rfl
      have hnext : front (mid ++ number :: after) = front (mid ++ number :: rest) := front_append rfl
      exact absurd (by simp) (hstuck hmem hend hnext)
    | @exhausted read' left htokens _ hexhausted =>
      have hlength := congrArg List.length htokens
      simp only [List.length_append, List.length_cons] at hlevels hlength
      omega
    | @overlong number' read' left htokens _ hfits hkind' hlong' =>
      -- Both are the first number that is too long.
      obtain ⟨mid, rfl, hleft⟩ := exists_append_of_numbersFit hkind hlong htokens hfits
      cases mid with
      | nil =>
        obtain ⟨rfl, -⟩ := List.cons.inj hleft
        rfl
      | cons first mid =>
        obtain ⟨rfl, -⟩ := List.cons.inj hleft
        have hle := hfit number' (by simp) hkind'
        omega

/-! ### Rejections -/

theorem Rejection.documented_lexical {source : String} {e : LexError}
    (h : tokenize source = .error e) : Documented source (.lexical e) :=
  ⟨_, rfl, .inl rfl, rfl, (position_lt_of_tokenize h).le⟩

/-- The tokens of a source are rejected properly, or because a number overruns. -/
theorem documented_of_parseTokens {source : String} {tokens : List Token} {levels : Nat}
    (hfound : tokenize source = .ok tokens) {rejection : Rejection}
    (h : parseTokens levels source.length tokens = .error rejection) :
    rejection.Documented source ∨
      ∃ number, Overruns tokens number ∧ rejection = .digits number.lexeme.length := by
  have hgrammatical : ∀ {read rest} what, tokens = read ++ rest →
      Rejection.Documented source (.grammatical (.atFront what source.length rest)) :=
    fun what htokens => ⟨_, rfl, .inr rfl, rfl, position_atFront_le hfound htokens what⟩
  have hexplains := recognizes_program levels [] tokens
  rw [parseTokens] at h
  generalize program levels [] tokens = outcome at hexplains h
  cases hexplains with
  | read => cases h
  | @refused what read rest htokens =>
    obtain rfl := Except.error.inj h
    exact .inl (hgrammatical what htokens)
  | @exhausted read rest htokens =>
    obtain rfl := Except.error.inj h
    exact .inl (hgrammatical .tooDeep htokens)
  | @overlong number read rest htokens hviable hfit hkind hlong =>
    obtain rfl := Except.error.inj h
    exact .inr ⟨number, ⟨hkind, hlong, read, rest, htokens, hfit, viable_iff.1 hviable⟩, rfl⟩

theorem parseTokens_ne_lexical {levels length : Nat} {tokens : List Token} {e : LexError} :
    parseTokens levels length tokens ≠ .error (.lexical e) := by
  rw [parseTokens]
  split
  · rename_i failure _
    rw [Rejection.ofFailure]
    cases failure.reason <;> simp
  · simp

/-- **Rejections are documented unless a number overruns.**  A source is rejected by the scanner if
and only if its tokens cannot be found.  All rejections are errors of the scanner or the grammar,
about the source and a place in it, if and only if reading does not get to a number that is too long;
if it does, this is the reason why the source is rejected.  With a bound on the nesting, rejections
are documented under the same condition. -/
theorem parse_documented_iff (source : String) :
    (∀ e, parse source = .error (.lexical e) ↔ lex source = .error e) ∧
    ((∀ rejection, parse source = .error rejection → rejection.Documented source) ↔
      ∀ tokens, tokenize source = .ok tokens → ∀ number, ¬Overruns tokens number) ∧
    (∀ tokens, tokenize source = .ok tokens → ∀ number, Overruns tokens number →
      parse source = .error (.digits number.lexeme.length)) ∧
    ∀ levels, (∀ e, parseWithin levels source = .error (.lexical e) ↔ lex source = .error e) ∧
      ∀ rejection, parseWithin levels source = .error rejection → rejection.Documented source ∨
        ∃ tokens, tokenize source = .ok tokens ∧
          ∃ number, Overruns tokens number ∧ rejection = .digits number.lexeme.length := by
  have hdigits : ∀ n, ¬Rejection.Documented source (.digits n) := by
    rintro n ⟨d, h, -⟩
    cases h
  rw [parse]
  simp only [parseWithin, lex_eq_error_iff]
  cases hfound : tokenize source with
  | error e =>
    have hdocumented := Rejection.documented_lexical hfound
    refine ⟨by simp, ⟨fun _ tokens h => ?_, fun _ rejection h => ?_⟩, fun tokens h => ?_,
      fun levels => ⟨by simp, fun rejection h => ?_⟩⟩
    · cases h
    · obtain rfl := Except.error.inj h
      exact hdocumented
    · cases h
    · obtain rfl := Except.error.inj h
      exact .inl hdocumented
  | ok tokens =>
    have hiff := @parseTokens_eq_digits_iff _ source.length tokens (Nat.le_refl _)
    have hnotLexical : ∀ {levels : Nat} (e : LexError),
        parseTokens levels source.length tokens = .error (.lexical e) ↔
          (.ok tokens : Except LexError (List Token)) = .error e := by
      intro levels e
      simp [parseTokens_ne_lexical]
    refine ⟨hnotLexical, ⟨?_, ?_⟩, ?_, fun levels => ⟨hnotLexical, fun rejection h => ?_⟩⟩
    · rintro h _ hok number hoverruns
      obtain rfl := Except.ok.inj hok
      exact hdigits _ (h _ (hiff.2 ⟨number, hoverruns, rfl⟩))
    · intro hnone rejection h
      refine (documented_of_parseTokens hfound h).resolve_right ?_
      rintro ⟨number, hoverruns, -⟩
      exact hnone tokens rfl number hoverruns
    · rintro _ hok number hoverruns
      obtain rfl := Except.ok.inj hok
      exact hiff.2 ⟨number, hoverruns, rfl⟩
    · rcases documented_of_parseTokens hfound h with hdocumented | hoverruns
      · exact .inl hdocumented
      · exact .inr ⟨tokens, rfl, hoverruns⟩

/-! ### A number alone -/

theorem tokenize_of_spells {kind : TokenKind} {lexeme : String} (h : kind.Spells lexeme.toList) :
    tokenize lexeme = .ok [⟨kind, lexeme, 0⟩] := by
  have hscans := h.scans endsWord_nil (.done (0 + lexeme.length))
  rw [List.append_nil] at hscans
  exact tokenize_eq_ok_iff.2 hscans

theorem overruns_singleton {number : Token} (hkind : number.kind = .natural)
    (hlong : Text.Integer.maxDigits < number.lexeme.length) : Overruns [number] number := by
  let d : Derivation .term := .ofApplication (.application (.natural ⟨number, hkind⟩) .noArguments)
  exact ⟨hkind, hlong, [], [], rfl, List.forall_mem_nil _, [], d, rfl⟩

theorem parse_of_long_number {digits : String} (h : TokenKind.Spells .natural digits.toList)
    (hlong : Text.Integer.maxDigits < digits.length) :
    parse digits = .error (.digits digits.length) := by
  rw [parse, tokenize_of_spells h]
  exact (parseTokens_eq_digits_iff (Nat.le_refl _)).2 ⟨_, overruns_singleton rfl hlong, rfl⟩

/-- The number zero, written with 4301 digits, is rejected, though it is a single token and a number
is a program; and the rejection is neither an error of the scanner nor one of the grammar. -/
theorem parse_zeros_undocumented :
    let source := String.ofList (List.replicate 4301 '0')
    parse source = .error (.digits 4301) ∧ lex source = .ok [⟨.natural, source, 0⟩, .atEnd 4301] ∧
      Derivable .term [.natural] ∧ ¬(Rejection.digits 4301).Documented source := by
  intro source
  have hlength : source.length = 4301 := String.length_ofList.trans List.length_replicate
  have hlong : Text.Integer.maxDigits < source.length := by
    rw [hlength]
    decide
  have hspells : TokenKind.Spells .natural source.toList := by
    refine ⟨?_, fun c hc => ?_⟩
    · rw [← List.length_pos_iff, String.length_toList, hlength]
      decide
    · rw [String.toList_ofList] at hc
      rw [List.eq_of_mem_replicate hc]
      rfl
  refine ⟨?_, ?_, ?_, ?_⟩
  · rw [parse_of_long_number hspells hlong, hlength]
  · rw [← hlength]
    exact lex_eq_ok_iff.2 (tokenize_of_spells hspells)
  · exact ⟨.ofApplication (.application (.natural ⟨⟨.natural, "", 0⟩, rfl⟩) .noArguments), rfl⟩
  · rintro ⟨d, h, -⟩
    cases h

end NormalOrder
