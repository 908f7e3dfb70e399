import NormalOrder.Proofs.Machine
import NormalOrder.Proofs.NamedProgram
import NormalOrder.Proofs.Tiling
import NormalOrder.Proofs.Walk

/-!
# Calls in any order

The methods of a machine can be called one after the other in any order, whether they end well or
not, and within blocks that bring further names into scope (`Reader.Script`).  `Machine.playAll` is
what a machine does on such scripts; `Reader.playAll` is the same with the rules of the grammar.

`Machine.Keeps` says what a single call may do to a machine, and `Machine.KeptAll` that all the calls
of some scripts, at any depth of the blocks, do nothing else.  One call is a step lemma
(`exists_run`), whole scripts follow by induction (`exists_playAll`), and for the machines of a source
this is `Machine.playAll_keeps_scope`.
-/

namespace NormalOrder

/-! ### Terms that are read -/

namespace Grammar

/-- A term that the rule reads takes a token at least, and is well formed in the scope. -/
def GivesTerms (scope : Scope) (rule : Rule Term) : Prop :=
  ∀ ⦃tokens rest : List Token⦄ ⦃t : Term⦄, rule tokens = .ok (t, rest) →
    rest.length < tokens.length ∧ t.isWellFormed scope.length = true

theorem Derivation.length_tokens_pos (d : Derivation .term) : 0 < d.tokens.length := by
  have hcase : ∀ {phrase : Phrase} (d : Derivation phrase),
      phrase = .abstraction ∨ phrase = .letIn ∨ phrase = .application → 0 < d.tokens.length := by
    intro phrase d hphrase
    obtain ⟨token, later, htokens, -⟩ := d.alternative_head hphrase
    simp [htokens]
  cases d with
  | ofAbstraction d => exact hcase d (by simp)
  | ofLetIn d => exact hcase d (by simp)
  | ofApplication d => exact hcase d (by simp)

/-- It is enough that what is read is a term of the grammar with that meaning. -/
theorem givesTerms_of_derivation {scope : Scope} {rule : Rule Term}
    (h : ∀ {tokens rest t}, rule tokens = .ok (t, rest) →
      ∃ d : Derivation .term, tokens = d.tokens ++ rest ∧ d.meaning scope = t) :
    GivesTerms scope rule := by
  intro tokens rest t hread
  obtain ⟨d, rfl, hmeaning⟩ := h hread
  have hpos := d.length_tokens_pos
  obtain rfl : NamedTerm.resolve scope d.named = t :=
    (d.meaning_eq_resolve scope).symm.trans hmeaning
  refine ⟨?_, ?_⟩
  · rw [List.length_append]
    omega
  · rw [Term.isWellFormed_iff]
    exact NamedTerm.wellScoped_resolve _ scope

section

variable {rule : Scope → Rule Term} {bound : Nat} (hsound : Sound bound rule) (scope : Scope)

include hsound

theorem givesTerms_atom : GivesTerms scope (atom rule scope) := by
  refine givesTerms_of_derivation fun hread => ?_
  obtain ⟨d, rfl, hmeaning, -⟩ := atom_sound hsound hread
  refine ⟨.ofApplication (.application d .noArguments), ?_, hmeaning⟩
  simp [Derivation.tokens]

theorem givesTerms_application : GivesTerms scope (application rule scope) := by
  refine givesTerms_of_derivation fun hread => ?_
  obtain ⟨d, htokens, hmeaning, -⟩ := application_sound hsound hread
  exact ⟨.ofApplication d, htokens, hmeaning⟩

theorem givesTerms_abstraction : GivesTerms scope (abstraction rule scope) := by
  refine givesTerms_of_derivation fun hread => ?_
  obtain ⟨d, htokens, hmeaning, -⟩ := abstraction_sound hsound hread
  exact ⟨.ofAbstraction d, htokens, hmeaning⟩

theorem givesTerms_letIn : GivesTerms scope (letIn rule scope) := by
  refine givesTerms_of_derivation fun hread => ?_
  obtain ⟨d, htokens, hmeaning, -⟩ := letIn_sound hsound hread
  exact ⟨.ofLetIn d, htokens, hmeaning⟩

theorem givesTerms_nested : GivesTerms scope (rule scope) := by
  refine givesTerms_of_derivation fun hread => ?_
  obtain ⟨d, htokens, hmeaning, -⟩ := hsound hread
  exact ⟨d, htokens, hmeaning⟩

end

theorem givesTerms_program (levels : Nat) (scope : Scope) :
    GivesTerms scope (program levels scope) := by
  intro tokens rest t hread
  obtain ⟨t, mid, hterm, hdone⟩ := Rule.bind_eq_ok_iff.1 hread
  cases mid with
  | nil =>
    cases hdone
    exact givesTerms_nested (term_sound levels) scope hterm
  | cons token mid => cases hdone

theorem givesTerms_reference (scope : Scope) : GivesTerms scope (reference scope) := by
  refine givesTerms_of_derivation fun hread => ?_
  obtain ⟨name, mid, hname, hpure⟩ := Rule.bind_eq_ok_iff.1 hread
  obtain ⟨leaf, rfl, rfl⟩ := of_identifier_eq_ok hname
  cases hpure
  refine ⟨.ofApplication (.application (.identifier leaf) .noArguments), rfl, ?_⟩
  exact (resolve_eq_variableOf scope leaf.lexeme).symm

end Grammar

open Grammar

namespace Reader

theorem of_apply_eq_term {r r' : Reader} {explain : Nat → Failure → Error} {rule : Rule Term}
    {t : Term} (h : r.apply explain .term rule = (.ok (.term t), r')) :
    rule r.rest = .ok (t, r'.rest) := by
  rw [apply] at h
  split at h
  · cases h
  · rename_i hrule
    cases h
    exact hrule

/-- A call that gives a term has read a token at least, and the term is well formed in the scope. -/
theorem run_term {levels : Nat} {r r' : Reader} {call : Call} {t : Term}
    (h : r.run levels call = (.ok (.term t), r')) :
    r'.rest.length < r.rest.length ∧ t.isWellFormed r.scope.length = true := by
  have hsound : Sound levels (Grammar.term levels) := term_sound levels
  cases call with
  | parse => exact givesTerms_program levels r.scope (of_apply_eq_term h)
  | term => exact givesTerms_nested hsound r.scope (of_apply_eq_term h)
  | abstraction => exact givesTerms_abstraction hsound r.scope (of_apply_eq_term h)
  | letIn => exact givesTerms_letIn hsound r.scope (of_apply_eq_term h)
  | application => exact givesTerms_application hsound r.scope (of_apply_eq_term h)
  | atom => exact givesTerms_atom hsound r.scope (of_apply_eq_term h)
  | reference => exact givesTerms_reference r.scope (of_apply_eq_term h)
  | identifier =>
    rw [run, apply] at h
    split at h <;> cases h
  | peek => cases h
  | advance => cases h
  | consume kind expectation =>
    rw [run, consume] at h
    split at h
    · cases h
    · split at h <;> cases h

end Reader

namespace Machine

/-! ### Calls -/

/-- A method whose result is the answer to a call. -/
def answering {α : Type} (answer : α → Reader.Answer) (method : Method α) :
    Method Reader.Answer := do
  let a ← method
  pure (answer a)

/-- Carries out a call, with at most `levels` methods nested in each other. -/
def run (levels : Nat) : Reader.Call → Method Reader.Answer
  | .parse => answering .term (parse levels)
  | .term => answering .term (term levels)
  | .abstraction => answering .term (abstraction (term levels))
  | .letIn => answering .term (letIn (term levels))
  | .application => answering .term (application (term levels))
  | .atom => answering .term (atom (term levels))
  | .reference => answering .term reference
  | .identifier => answering .name identifier
  | .peek => answering .token peek
  | .advance => answering .token advance
  | .consume kind expectation => answering .token (consume kind expectation)

mutual

/-- Carries out a script. -/
def play (levels : Nat) (m : Machine) : Reader.Script → Option (Reader.Entry × Machine)
  | .call call => do
    let (answer, m) ← run levels call m
    some (.answered answer m.current m.bound, m)
  | .binding names body => do
    let inner := m.enter names
    let (log, after) ← playAll levels inner body
    let after := after.leave names
    some (.block inner.bound log after.current after.bound, after)

/-- Carries out scripts one after the other. -/
def playAll (levels : Nat) (m : Machine) : List Reader.Script → Option (List Reader.Entry × Machine)
  | [] => some ([], m)
  | script :: scripts => do
    let (entry, m) ← play levels m script
    let (log, m) ← playAll levels m scripts
    some (entry :: log, m)

end

/-! ### What calls keep -/

/-- What a call that ends with `answer` may do to a machine. -/
structure Keeps (m m' : Machine) (answer : Except Reader.Error Reader.Answer) : Prop where
  /-- The tokens are the same. -/
  tokens_eq : m'.tokens = m.tokens
  /-- The names in scope are the same. -/
  bound_eq : m'.bound = m.bound
  /-- The index does not decrease. -/
  current_le : m.current ≤ m'.current
  /-- There is a token at the index. -/
  current_lt : m'.current < m'.tokens.length
  /-- A term takes a token at least. -/
  advances : ∀ t, answer = .ok (.term t) → m.current < m'.current
  /-- A term is well formed in the scope. -/
  wellFormed : ∀ t, answer = .ok (.term t) → t.isWellFormed m.bound.length = true

mutual

/-- The machine `m` carries out a script with this entry and becomes `m'`; every call in it keeps
what it should, and so does every block. -/
inductive Kept (levels : Nat) : Machine → Reader.Script → Reader.Entry → Machine → Prop where
  /-- A call. -/
  | call {m m' : Machine} {call : Reader.Call} {answer : Except Reader.Error Reader.Answer}
      (hrun : run levels call m = some (answer, m')) (hkeeps : m.Keeps m' answer) :
      Kept levels m (.call call) (.answered answer m'.current m'.bound) m'
  /-- A block: after it, the names in scope are those before it. -/
  | block {m inner : Machine} {names : List String} {body : List Reader.Script}
      {log : List Reader.Entry} (hbody : KeptAll levels (m.enter names) body log inner)
      (hscope : (inner.leave names).bound = m.bound) :
      Kept levels m (.binding names body)
        (.block (names.reverse ++ m.bound) log inner.current m.bound) (inner.leave names)

/-- The machine `m` carries out scripts one after the other, and all of them keep what they should. -/
inductive KeptAll (levels : Nat) :
    Machine → List Reader.Script → List Reader.Entry → Machine → Prop where
  /-- No scripts. -/
  | nil (m : Machine) : KeptAll levels m [] [] m
  /-- A script, and further ones. -/
  | cons {m m' m'' : Machine} {script : Reader.Script} {scripts : List Reader.Script}
      {entry : Reader.Entry} {log : List Reader.Entry} (hfirst : Kept levels m script entry m')
      (hlater : KeptAll levels m' scripts log m'') :
      KeptAll levels m (script :: scripts) (entry :: log) m''

end

/-! ### One call -/

section

variable {words : List Token} (hwords : ∀ token ∈ words, token.kind ≠ .endOfInput)

include hwords

theorem exists_answering {α : Type} {method : Method α}
    {explain : Nat → Failure → Reader.Error} {rule : Rule α} (r : Reader)
    (hrest : r.rest <:+ words) (h : method.CarriesOut explain r.scope rule)
    (answer : α → Reader.Answer) :
    ∃ outcome rest, rest <:+ r.rest ∧
      answering answer method (standing words r.length r.scope r.rest) =
        some (outcome, standing words r.length r.scope rest) ∧
      r.apply explain answer rule = (outcome, { r with rest := rest }) := by
  have hagree := h hwords r.length hrest
  rw [Reader.apply, answering, Method.bind_apply]
  generalize rule r.rest = outcome at hagree
  generalize method _ = outcome' at hagree
  cases hagree with
  | ok hleft => exact ⟨_, _, hleft, rfl, rfl⟩
  | error hleft => exact ⟨_, _, hleft, rfl, rfl⟩

theorem advance_eq (r : Reader) (hrest : r.rest <:+ words) :
    advance (standing words r.length r.scope r.rest) =
      some (.ok r.peek, standing words r.length r.scope r.rest.tail) := by
  obtain ⟨total, rest, length, scope⟩ := r
  cases rest with
  | nil => exact advance_standing_nil
  | cons token rest => exact advance_standing hrest (hwords token (hrest.subset List.mem_cons_self))

theorem require_eq (r : Reader) (hrest : r.rest <:+ words) (kind : TokenKind)
    (complain : String → Method Token) :
    require kind complain (standing words r.length r.scope r.rest) =
      if r.peek.kind = kind then some (.ok r.peek, standing words r.length r.scope r.rest.tail)
      else complain r.peek.described (standing words r.length r.scope r.rest) := by
  have hpeek : peek (standing words r.length r.scope r.rest) =
      some (.ok r.peek, standing words r.length r.scope r.rest) := peek_standing hrest
  rw [require, Method.bind_of_ok hpeek]
  by_cases hkind : r.peek.kind = kind
  · rw [if_pos hkind, if_pos hkind]
    exact advance_eq hwords r hrest
  · rw [if_neg hkind, if_neg hkind]

/-- **A call on a machine does what it does on a reader**, if there are levels enough: it ends in the
same way, at the same token, and leaves the rest as it is. -/
theorem exists_run {levels : Nat} (r : Reader) (hrest : r.rest <:+ words) (call : Reader.Call) :
    ∃ outcome rest, rest <:+ r.rest ∧
      run levels call (standing words r.length r.scope r.rest) =
        some (outcome, standing words r.length r.scope rest) ∧
      (r.run levels call = (outcome, { r with rest := rest }) ∨
        levels < 3 ∧ ∃ e, outcome = .error e) := by
  have hterm := carriesOut_term levels
  have hrule : ∀ {α : Type} {method : Method α} {explain : Nat → Failure → Reader.Error}
      {rule : Rule α}, method.CarriesOut explain r.scope rule → ∀ answer : α → Reader.Answer,
      ∃ outcome rest, rest <:+ r.rest ∧
        answering answer method (standing words r.length r.scope r.rest) =
          some (outcome, standing words r.length r.scope rest) ∧
        (r.apply explain answer rule = (outcome, { r with rest := rest }) ∨
          levels < 3 ∧ ∃ e, outcome = .error e) := by
    intro α method explain rule h answer
    obtain ⟨outcome, rest, hleft, hrun, hread⟩ := exists_answering hwords r hrest h answer
    exact ⟨outcome, rest, hleft, hrun, .inl hread⟩
  cases call with
  | parse =>
    by_cases hlevels : 3 ≤ levels
    · exact hrule (carriesOut_parse hlevels) _
    · have hlt := Nat.lt_of_not_le hlevels
      obtain ⟨e, hparse⟩ := exists_parse_eq_error hlt hrest r.length
      refine ⟨.error e, r.rest, List.suffix_rfl, ?_, .inr ⟨hlt, e, rfl⟩⟩
      rw [run, answering, Method.bind_apply, hparse]
  | term => exact hrule (hterm r.scope) _
  | abstraction => exact hrule (carriesOut_abstraction hterm) _
  | letIn => exact hrule (carriesOut_letIn hterm) _
  | application => exact hrule (carriesOut_application hterm (term_sound levels)) _
  | atom => exact hrule (carriesOut_atom hterm) _
  | reference => exact hrule carriesOut_reference _
  | identifier => exact hrule carriesOut_identifier _
  | peek =>
    refine ⟨_, r.rest, List.suffix_rfl, ?_, .inl rfl⟩
    exact Method.bind_of_ok (peek_standing hrest) _
  | advance =>
    refine ⟨_, r.rest.tail, List.tail_suffix _, ?_, .inl rfl⟩
    exact Method.bind_of_ok (advance_eq hwords r hrest) _
  | consume kind expectation =>
    rw [Reader.run, Reader.consume, run, answering, consume, Method.bind_apply,
      require_eq hwords r hrest]
    by_cases hkind : r.peek.kind = kind
    · rw [if_pos hkind, if_pos hkind]
      exact ⟨_, r.rest.tail, List.tail_suffix _, rfl, .inl rfl⟩
    · rw [if_neg hkind, if_neg hkind]
      generalize Message.ofTemplate _ _ = wording
      cases wording with
      | error e => exact ⟨_, r.rest, List.suffix_rfl, rfl, .inl rfl⟩
      | ok message =>
        dsimp only
        rw [refuse_standing hrest]
        exact ⟨_, r.rest, List.suffix_rfl, rfl, .inl rfl⟩

end

/-- What a call does to a machine is what it may do, if a term that it gives is one that the reader
gives. -/
theorem keeps_of_run {words : List Token} {levels : Nat} {r : Reader} (hrest : r.rest <:+ words)
    {call : Reader.Call} {outcome : Except Reader.Error Reader.Answer} {rest : List Token}
    (hleft : rest <:+ r.rest)
    (hread : r.run levels call = (outcome, { r with rest := rest }) ∨
      levels < 3 ∧ ∃ e, outcome = .error e) :
    (standing words r.length r.scope r.rest).Keeps (standing words r.length r.scope rest)
      outcome := by
  have hterm : ∀ t, outcome = .ok (.term t) →
      rest.length < r.rest.length ∧ t.isWellFormed r.scope.length = true := by
    rintro t rfl
    rcases hread with hread | ⟨-, e, hfailed⟩
    · exact Reader.run_term hread
    · cases hfailed
  have hle := hrest.length_le
  refine ⟨rfl, rfl, Nat.sub_le_sub_left hleft.length_le _, ?_, fun t ht => ?_,
    fun t ht => (hterm t ht).2⟩
  · simp only [standing, List.length_append, List.length_singleton]
    omega
  · have hlt := (hterm t ht).1
    simp only [standing]
    omega

/-! ### Whole scripts -/

mutual

theorem exists_play {words : List Token} (hwords : ∀ token ∈ words, token.kind ≠ .endOfInput)
    {levels : Nat} :
    ∀ (script : Reader.Script) (r : Reader), r.total = words.length → r.rest <:+ words →
    ∃ entry rest, rest <:+ r.rest ∧
      (standing words r.length r.scope r.rest).play levels script =
        some (entry, standing words r.length r.scope rest) ∧
      Kept levels (standing words r.length r.scope r.rest) script entry
        (standing words r.length r.scope rest) ∧
      (3 ≤ levels → r.play levels script = (entry, { r with rest := rest }))
  | .call call, r, htotal, hrest => by
    obtain ⟨outcome, rest, hleft, hrun, hread⟩ := exists_run hwords r hrest call
    refine ⟨_, rest, hleft, ?_, .call hrun (keeps_of_run hrest hleft hread), fun hlevels => ?_⟩
    · rw [play, hrun]
      rfl
    · have hread := hread.resolve_right fun h => Nat.not_lt.2 hlevels h.1
      rw [Reader.play, hread, standing, ← htotal]
      rfl
  | .binding names body, r, htotal, hrest => by
    obtain ⟨log, rest, hleft, hinner, hkept, hread⟩ :=
      exists_playAll hwords body (r.enter names) htotal hrest
    have hplay : ((standing words r.length r.scope r.rest).enter names).playAll levels body =
        some (log, standing words r.length (names.reverse ++ r.scope) rest) := hinner
    have hscope : (names.reverse ++ r.scope).drop names.length = r.scope := by simp
    have hblock := @Kept.block levels (standing words r.length r.scope r.rest)
      (standing words r.length (names.reverse ++ r.scope) rest) names body log hkept hscope
    rw [leave_standing] at hblock
    refine ⟨_, rest, hleft, ?_, hblock, fun hlevels => ?_⟩
    · rw [play, hplay]
      simp only [Option.bind_eq_bind, Option.bind_some, leave_standing]
      rfl
    · rw [Reader.play, hread hlevels]
      simp only [Reader.leave, Reader.enter, Reader.current, standing, hscope, htotal]

/-- **Scripts on a machine are what they are on a reader, and all their calls keep what they
should.** -/
theorem exists_playAll {words : List Token} (hwords : ∀ token ∈ words, token.kind ≠ .endOfInput)
    {levels : Nat} :
    ∀ (scripts : List Reader.Script) (r : Reader), r.total = words.length → r.rest <:+ words →
    ∃ log rest, rest <:+ r.rest ∧
      (standing words r.length r.scope r.rest).playAll levels scripts =
        some (log, standing words r.length r.scope rest) ∧
      KeptAll levels (standing words r.length r.scope r.rest) scripts log
        (standing words r.length r.scope rest) ∧
      (3 ≤ levels → r.playAll levels scripts = (log, { r with rest := rest }))
  | [], r, _, _ => ⟨[], r.rest, List.suffix_rfl, rfl, .nil _, fun _ => rfl⟩
  | script :: scripts, r, htotal, hrest => by
    obtain ⟨entry, mid, hmid, hplay, hkept, hread⟩ := exists_play hwords script r htotal hrest
    obtain ⟨log, rest, hleft, hplay', hkept', hread'⟩ :=
      exists_playAll hwords scripts { r with rest := mid } htotal (hmid.trans hrest)
    refine ⟨entry :: log, rest, hleft.trans hmid, ?_, .cons hkept hkept', fun hlevels => ?_⟩
    · rw [playAll, hplay]
      simp only [Option.bind_eq_bind, Option.bind_some, hplay']
    · rw [Reader.playAll, hread hlevels]
      simp only [hread' hlevels]

end

/-! ### The machines of a source -/

/-- The machine at the beginning of a source. -/
def ofSource (source : String) : Except LexError Machine := (lex source).map (⟨·, 0, []⟩)

/-- The machine has the tokens of the source and stands at one of them. -/
structure IsOn (m : Machine) (source : String) : Prop where
  /-- The tokens are those of the source. -/
  lex_eq : lex source = .ok m.tokens
  /-- There is a token at the index. -/
  current_lt : m.current < m.tokens.length

/-- The reader that has the same tokens left and the same names in scope. -/
def reader (m : Machine) (source : String) : Reader :=
  ⟨m.tokens.length - 1, m.tokens.dropLast.drop m.current, source.length, m.bound⟩

theorem isOn_ofSource {source : String} {m : Machine} (h : ofSource source = .ok m) :
    m.IsOn source := by
  rw [ofSource] at h
  cases hlex : lex source with
  | error e => rw [hlex] at h; cases h
  | ok tokens =>
    obtain ⟨words, -, rfl⟩ := lex_eq_ok hlex
    rw [hlex] at h
    cases h
    exact ⟨hlex, by simp⟩

theorem reader_ofSource (source : String) :
    (ofSource source).map (·.reader source) = Reader.ofSource source := by
  rw [ofSource, Reader.ofSource, lex]
  cases tokenize source with
  | error e => rfl
  | ok words => simp [Except.map, reader]

theorem reader_standing {words rest : List Token} (hrest : rest <:+ words) (source : String)
    (scope : Grammar.Scope) :
    (standing words source.length scope rest).reader source =
      ⟨words.length, rest, source.length, scope⟩ := by
  have hdrop := List.suffix_iff_eq_drop.1 hrest
  simp [reader, standing, ← hdrop]

/-- **Calls keep the scope and the index, in any order and on every exit.**  Whatever a machine that
stands at a token of a source is asked to do, it does the same as a reader, without ever missing a
token.  After every call, also after one that fails within binders, and after every block, the names
in scope are what they were before; the index does not decrease and is that of a token; a term takes
at least one token and is well formed in the scope (`KeptAll`). -/
theorem playAll_keeps_scope (source : String) (m : Machine) (hm : m.IsOn source) (levels : Nat)
    (scripts : List Reader.Script) :
    ∃ log m', m.playAll levels scripts = some (log, m') ∧ KeptAll levels m scripts log m' ∧
      m'.IsOn source ∧ m'.bound = m.bound ∧ m.current ≤ m'.current ∧
      (3 ≤ levels → (m.reader source).playAll levels scripts = (log, m'.reader source)) := by
  obtain ⟨tokens, current, bound⟩ := m
  obtain ⟨words, hfound, rfl⟩ := lex_eq_ok hm.lex_eq
  have hwords := (tokenize_eq_ok_iff.1 hfound).kind_ne_endOfInput
  have hlt : current < words.length + 1 := by simpa using hm.current_lt
  -- The machine stands where the tokens from its index on are left.
  have hrest : words.drop current <:+ words := List.drop_suffix _ _
  have hstands : (⟨words ++ [.atEnd source.length], current, bound⟩ : Machine) =
      standing words source.length bound (words.drop current) := by
    have hcurrent : words.length - (words.drop current).length = current := by
      rw [List.length_drop]
      omega
    rw [standing, hcurrent]
  obtain ⟨log, rest, hleft, hplay, hkept, hread⟩ := exists_playAll hwords scripts
    ⟨words.length, words.drop current, source.length, bound⟩ rfl hrest
  rw [hstands]
  refine ⟨log, _, hplay, hkept, ⟨hm.lex_eq, ?_⟩, rfl, Nat.sub_le_sub_left hleft.length_le _,
    fun hlevels => ?_⟩
  · show words.length - rest.length < (words ++ [Token.atEnd source.length]).length
    rw [List.length_append, List.length_singleton]
    omega
  · rw [reader_standing hrest, reader_standing (hleft.trans hrest)]
    exact hread hlevels

/-- An abstraction whose bracket is not closed, read within a block: the call fails inside the binder,
and the block goes on and ends as if it had not been entered. -/
theorem playAll_keeps_scope_unclosed :
    let m : Machine :=
      { tokens := [⟨.identifier, "x", 0⟩, ⟨.lambda, "λ", 2⟩, ⟨.identifier, "y", 3⟩,
          ⟨.arrow, "->", 5⟩, ⟨.openBracket, "(", 8⟩, ⟨.identifier, "y", 9⟩, ⟨.identifier, "x", 11⟩,
          .atEnd 12]
        current := 0
        bound := [] }
    let scripts : List Reader.Script :=
      [.binding ["x", "z"] [.call .atom, .call .term, .call .advance], .call .peek]
    let log : List Reader.Entry :=
      [.block ["z", "x"]
        [.answered (.ok (.term (.bound 1))) 1 ["z", "x"],
          .answered (.error (.refused ⟨.expected "a ) was expected" "end of input", 12, 0⟩)) 7
            ["z", "x"],
          .answered (.ok (.token (.atEnd 12))) 7 ["z", "x"]]
        7 [],
      .answered (.ok (.token (.atEnd 12))) 7 []]
    ofSource "x λy -> (y x" = .ok m ∧
      (∃ m', m.playAll 30 scripts = some (log, m') ∧ KeptAll 30 m scripts log m' ∧ m'.bound = [] ∧
        m'.current = 7) ∧
      ∃ r, Reader.ofSource "x λy -> (y x" = .ok r ∧ (r.playAll 30 scripts).1 = log := by
  intro m scripts log
  have hsource : ofSource "x λy -> (y x" = .ok m := by
    simp only [m]
    decide +kernel
  have hreader : Reader.ofSource "x λy -> (y x" = .ok (m.reader "x λy -> (y x") := by
    rw [← reader_ofSource, hsource]
    rfl
  have hlog : m.playAll 30 scripts = some (log, { m with current := 7 }) := rfl
  obtain ⟨log', m', hplay, hkept, -, -, -, hread⟩ :=
    playAll_keeps_scope _ m (isOn_ofSource hsource) 30 scripts
  obtain ⟨rfl, rfl⟩ := Prod.mk.inj (Option.some.inj (hlog.symm.trans hplay))
  refine ⟨hsource, ⟨_, hlog, hkept, rfl, rfl⟩, _, hreader, ?_⟩
  rw [hread (by decide)]

end Machine

end NormalOrder
