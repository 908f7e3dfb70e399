import NormalOrder.Proofs.Parsing
import NormalOrder.Surface.Reader

/-!
# Reading in place

A `Machine` reads a program in place.  It has all tokens, the one that marks the end included, the
index of the next one, and a single list of the names in scope.  Its methods change that list: a
binder puts its names in front of it (`enter`), and takes as many names off again (`leave`) when its
body has been read, or could not be.  Nothing but this discipline keeps the names of one binder from
being seen outside it, and nothing but the mark at the end keeps the index within the tokens.

The rules of `Grammar` have neither problem: they are given the scope and the tokens that are left.

* `Method.CarriesOut` : on the tokens that a machine has left, and in its scope, a method does what a
  rule does; it leaves the machine with the scope that it found.
* `carriesOut_term` : so does every method that reads a term, on every exit.
-/

namespace NormalOrder

open Grammar

/-! ### The arguments of an application -/

namespace Grammar

section

variable {rule : Scope → Rule Term} {bound : Nat} (hsound : Sound bound rule) {scope : Scope}

include hsound

theorem length_lt_of_atom {tokens rest : List Token} {t : Term}
    (h : atom rule scope tokens = .ok (t, rest)) : rest.length < tokens.length := by
  obtain ⟨d, rfl, -, -⟩ := atom_sound hsound h
  have hpos := List.length_pos_iff.2 d.tokens_ne_nil
  rw [List.length_append]
  omega

/-- Any budget that is as long as the tokens allows for all the arguments. -/
theorem arguments_eq_allArguments {budget tokens : List Token}
    (hbudget : tokens.length ≤ budget.length) (fn : Term) :
    arguments rule scope budget fn tokens = allArguments rule scope fn tokens := by
  suffices hsame : ∀ budget' : List Token, tokens.length ≤ budget'.length →
      arguments rule scope budget fn tokens = arguments rule scope budget' fn tokens from
    hsame tokens (Nat.le_refl _)
  induction budget generalizing tokens fn with
  | nil =>
    intro budget' _
    obtain rfl := List.length_eq_zero_iff.1 (Nat.le_zero.1 hbudget)
    cases budget' <;> rfl
  | cons first budget ih =>
    intro budget' hbudget'
    cases budget' with
    | nil =>
      obtain rfl := List.length_eq_zero_iff.1 (Nat.le_zero.1 hbudget')
      rfl
    | cons first' budget' =>
      rw [arguments, arguments]
      split
      · cases hatom : atom rule scope tokens with
        | error failure => rfl
        | ok read =>
          have hlt := length_lt_of_atom hsound hatom
          rw [List.length_cons] at hbudget hbudget'
          exact ih (by omega) _ budget' (by omega)
      · rfl

end

end Grammar

/-! ### Machines -/

theorem Token.kind_atEnd (length : Nat) : (atEnd length).kind = .endOfInput := rfl

/-- A program that is being read in place. -/
structure Machine where
  /-- All tokens, the last of which marks the end. -/
  tokens : List Token
  /-- The index of the next token. -/
  current : Nat
  /-- The names in scope, the innermost first. -/
  bound : Scope
  deriving DecidableEq, Repr

namespace Machine

/-- A method gives a result or an error and leaves the machine in some state.  It gives nothing at
all if it looks for a token where there is none, or if it goes on for ever. -/
def Method (α : Type) := Machine → Option (Except Reader.Error α × Machine)

namespace Method

variable {α β : Type}

/-- The method that does nothing. -/
protected def pure (a : α) : Method α := fun m => some (.ok a, m)

/-- One method after the other; after an error, the machine stays as it is. -/
protected def bind (method : Method α) (next : α → Method β) : Method β := fun m =>
  match method m with
  | none => none
  | some (.error e, m) => some (.error e, m)
  | some (.ok a, m) => next a m

instance : Monad Method where
  pure := Method.pure
  bind := Method.bind

theorem bind_apply (method : Method α) (next : α → Method β) (m : Machine) :
    (method >>= next) m =
      match method m with
      | none => none
      | some (.error e, m) => some (.error e, m)
      | some (.ok a, m) => next a m := rfl

theorem bind_of_ok {method : Method α} {m m' : Machine} {a : α}
    (h : method m = some (.ok a, m')) (next : α → Method β) :
    (method >>= next) m = next a m' := by
  rw [bind_apply, h]

end Method

/-! ### Tokens -/

/-- The next token. -/
def peek : Method Token := fun m => m.tokens[m.current]?.map fun token => (.ok token, m)

/-- Moves the index on by one. -/
def step : Method Unit := fun m => some (.ok (), { m with current := m.current + 1 })

/-- Moves over the next token; the one that marks the end stays. -/
def advance : Method Token := do
  let token ← peek
  if token.kind = .endOfInput then pure token
  else do
    step
    pure token

/-- Ends with an error. -/
def raise {α : Type} (e : Reader.Error) : Method α := fun m => some (.error e, m)

/-- Ends with a complaint about the next token. -/
def refuse {α : Type} (what : Complaint) : Method α := do
  let token ← peek
  raise (.refused ⟨what, token.position, token.lexeme.length⟩)

/-- Moves over the next token if it is of a given kind; otherwise `complain` about what it is. -/
def require (kind : TokenKind) (complain : String → Method Token) : Method Token := do
  let token ← peek
  if token.kind = kind then advance else complain token.described

/-- A token of a given kind; `phrase` says what was expected. -/
def expect (kind : TokenKind) (phrase : String) : Method Token :=
  require kind fun got => refuse (.expected phrase got)

/-- A token of a given kind; the template says what was expected. -/
def consume (kind : TokenKind) (expectation : String) : Method Token :=
  require kind fun got =>
    match Message.ofTemplate (expectation ++ ", got \x7b\x7d") [got] with
    | .error e => raise (.wording e)
    | .ok message => refuse (.worded message)

/-- Repeats `body` as long as the next token passes a test, and makes at most `rounds` tests. -/
def repeatFor {α : Type} (test : TokenKind → Bool) (body : α → Method α) : Nat → α → Method α
  | 0, _ => fun _ => none
  | rounds + 1, a => do
    let token ← peek
    if test token.kind then do
      let a ← body a
      repeatFor test body rounds a
    else pure a

/-- Repeats `body` as long as the next token passes a test; the number of tokens is enough if every
round takes one. -/
def repeatWhile {α : Type} (test : TokenKind → Bool) (body : α → Method α) (a : α) : Method α :=
  fun m => repeatFor test body m.tokens.length a m

/-! ### Names -/

/-- Brings names into scope, the last of them innermost. -/
def enter (names : List String) (m : Machine) : Machine :=
  { m with bound := names.reverse ++ m.bound }

/-- Takes as many names out of scope, whatever they are. -/
def leave (names : List String) (m : Machine) : Machine :=
  { m with bound := m.bound.drop names.length }

/-- What `body` does with some names in scope, however it ends. -/
def binding {α : Type} (names : List String) (body : Method α) : Method α := fun m =>
  (body (m.enter names)).map fun ended => (ended.1, ended.2.leave names)

/-- A name. -/
def identifier : Method String := do
  let token ← expect .identifier "an identifier was expected"
  pure token.lexeme

/-- Some names and further ones, as many as there are. -/
def furtherIdentifiers (names : List String) : Method (List String) :=
  repeatWhile (· = .identifier) (fun names => do
    let name ← identifier
    pure (names ++ [name])) names

/-- The variable that a name stands for where the machine is. -/
def lookUp (name : String) : Method Term := fun m => some (.ok (resolve m.bound name), m)

/-- A name, as a variable. -/
def reference : Method Term := do
  let name ← identifier
  lookUp name

/-! ### Terms -/

/-- The numeral of a natural number, read off its digits. -/
def literal (lexeme : String) : Method Term :=
  if lexeme.length ≤ Text.Integer.maxDigits then
    pure (.numeral (Nat.ofDigitChars 10 lexeme.toList 0))
  else raise (.digits lexeme.length)

section Methods

variable (nested : Method Term)

/-- A term in brackets. -/
def bracketed : Method Term := do
  let _ ← advance
  let t ← nested
  let _ ← expect .closeBracket "a ) was expected"
  pure t

/-- A name, a number, or a term in brackets. -/
def atom : Method Term := do
  let token ← peek
  match token.kind with
  | .identifier => reference
  | .natural => do
    let _ ← advance
    literal token.lexeme
  | .openBracket => bracketed nested
  | .endOfInput => refuse .missingTerm
  | _ => refuse (.notATerm token.lexeme)

/-- All the arguments after `fn`. -/
def arguments (fn : Term) : Method Term :=
  repeatWhile TokenKind.startsAtom (fun fn => do
    let arg ← atom nested
    pure (.app fn arg)) fn

/-- A function and its arguments. -/
def application : Method Term := do
  let fn ← atom nested
  arguments nested fn

/-- An abstraction over one name or more. -/
def abstraction : Method Term := do
  let _ ← expect .lambda "a λ was expected"
  let name ← identifier
  let names ← furtherIdentifiers [name]
  let _ ← expect .arrow "a -> was expected"
  let body ← binding names nested
  pure (.absAll names body)

/-- A definition and the term it is for; the name is in scope in the latter only. -/
def letIn : Method Term := do
  let _ ← expect .letWord "let was expected"
  let name ← identifier
  let _ ← expect .assign "a := was expected"
  let definition ← nested
  let _ ← expect .inWord "in was expected"
  let body ← binding [name] nested
  pure (.app (.abs name body) definition)

end Methods

/-- A term with at most `levels` methods nested in each other, counted as `Grammar.term` does. -/
def term : Nat → Method Term
  | levels + 3 => do
    let token ← peek
    match token.kind with
    | .lambda => abstraction (term (levels + 1))
    | .letWord => letIn (term (levels + 1))
    | _ => application (term levels)
  | _ => raise .levels

/-- A method for which running out of levels is an error of the program. -/
def orTooDeep {α : Type} (method : Method α) : Method α := fun m =>
  match method m with
  | some (.error .levels, m) => refuse .tooDeep m
  | outcome => outcome

/-- Nothing more. -/
def done : Method Unit := do
  let token ← peek
  if token.kind = .endOfInput then pure () else refuse (.leftover token.lexeme)

/-- A term that uses up all tokens. -/
def parse (levels : Nat) : Method Term := do
  let token ← peek
  if token.kind = .endOfInput then refuse .missingTerm
  else do
    let t ← orTooDeep (term levels)
    done
    pure t

/-! ### Where a machine stands -/

/-- The machine that has `rest` left of the words of a source of `length` characters. -/
def standing (words : List Token) (length : Nat) (scope : Scope) (rest : List Token) : Machine :=
  ⟨words ++ [.atEnd length], words.length - rest.length, scope⟩

section

variable {words rest : List Token} {length : Nat} {scope : Scope}

theorem leave_standing (names : List String) :
    (standing words length (names.reverse ++ scope) rest).leave names =
      standing words length scope rest := by
  simp [leave, standing]

theorem peek_standing (hrest : rest <:+ words) :
    peek (standing words length scope rest) =
      some (.ok (rest.head?.getD (.atEnd length)), standing words length scope rest) := by
  obtain ⟨read, rfl⟩ := hrest
  cases rest <;> simp [peek, standing]

theorem peek_bind_cons {α : Type} {token : Token} (hrest : token :: rest <:+ words)
    (next : Token → Method α) :
    (peek >>= next) (standing words length scope (token :: rest)) =
      next token (standing words length scope (token :: rest)) :=
  Method.bind_of_ok (peek_standing hrest) next

theorem peek_bind_nil {α : Type} (next : Token → Method α) :
    (peek >>= next) (standing words length scope []) =
      next (.atEnd length) (standing words length scope []) :=
  Method.bind_of_ok (peek_standing List.nil_suffix) next

theorem refuse_standing {α : Type} (hrest : rest <:+ words) (what : Complaint) :
    (refuse what : Method α) (standing words length scope rest) =
      some (.error (.refused (.atFront what length rest)), standing words length scope rest) := by
  rw [refuse, Method.bind_of_ok (peek_standing hrest)]
  rfl

theorem advance_standing {token : Token} (hrest : token :: rest <:+ words)
    (hkind : token.kind ≠ .endOfInput) :
    advance (standing words length scope (token :: rest)) =
      some (.ok token, standing words length scope rest) := by
  have hlength := hrest.length_le
  have hcurrent : words.length - (token :: rest).length + 1 = words.length - rest.length := by
    rw [List.length_cons] at hlength ⊢
    omega
  have hstep : step (standing words length scope (token :: rest)) =
      some (.ok (), standing words length scope rest) := by
    rw [step, standing, hcurrent, standing]
  rw [advance, peek_bind_cons hrest, if_neg hkind, Method.bind_of_ok hstep]
  rfl

theorem advance_standing_nil :
    advance (standing words length scope []) =
      some (.ok (.atEnd length), standing words length scope []) := by
  rw [advance, peek_bind_nil, if_pos (Token.kind_atEnd length)]
  rfl

end

/-! ### Methods and rules -/

/-- What comes of a rule on the tokens `rest`, and what comes of a method on a machine that has them
left: the same result or error, and the machine has left what the rule leaves, in the same scope. -/
inductive Agree {α : Type} (explain : Nat → Failure → Reader.Error) (words : List Token)
    (length : Nat) (scope : Scope) (rest : List Token) :
    Except Failure (α × List Token) → Option (Except Reader.Error α × Machine) → Prop where
  /-- Both give a result. -/
  | ok {a : α} {rest' : List Token} (hrest : rest' <:+ rest) :
      Agree explain words length scope rest (.ok (a, rest'))
        (some (.ok a, standing words length scope rest'))
  /-- Both fail. -/
  | error {failure : Failure} (hrest : failure.rest <:+ rest) :
      Agree explain words length scope rest (.error failure)
        (some (.error (explain length failure), standing words length scope failure.rest))

theorem Agree.mono {α : Type} {explain : Nat → Failure → Reader.Error} {words : List Token}
    {length : Nat} {scope : Scope} {rest more : List Token}
    {outcome : Except Failure (α × List Token)} {outcome' : Option (Except Reader.Error α × Machine)}
    (h : Agree explain words length scope rest outcome outcome') (hmore : rest <:+ more) :
    Agree explain words length scope more outcome outcome' := by
  cases h with
  | ok hrest => exact .ok (hrest.trans hmore)
  | error hrest => exact .error (hrest.trans hmore)

theorem agree_refuse {α : Type} {explain : Nat → Failure → Reader.Error} {words rest : List Token}
    {length : Nat} {scope : Scope} {what : Complaint} (hrest : rest <:+ words)
    (hexplain : explain length (.of what rest) = .refused (.atFront what length rest)) :
    Agree explain words length scope rest (.error (.of what rest))
      ((refuse what : Method α) (standing words length scope rest)) := by
  rw [refuse_standing hrest, ← hexplain]
  exact .error List.suffix_rfl

/-- **The method does what the rule does**, wherever the machine stands in its tokens, and keeps the
scope.  `explain` says which error a failure of the rule is. -/
def Method.CarriesOut {α : Type} (method : Method α) (explain : Nat → Failure → Reader.Error)
    (scope : Scope) (rule : Rule α) : Prop :=
  ∀ ⦃words : List Token⦄, (∀ token ∈ words, token.kind ≠ .endOfInput) → ∀ (length : Nat)
    ⦃rest : List Token⦄, rest <:+ words →
    Agree explain words length scope rest (rule rest) (method (standing words length scope rest))

section

variable {α β : Type} {explain : Nat → Failure → Reader.Error} {scope : Scope}

theorem carriesOut_pure (a : α) : (pure a : Method α).CarriesOut explain scope (pure a) :=
  fun _ _ _ _ _ => .ok List.suffix_rfl

/-- One method after the other carries out one rule after the other. -/
theorem Method.CarriesOut.bind {method : Method α} {next : α → Method β} {rule : Rule α}
    {nextRule : α → Rule β} (h : method.CarriesOut explain scope rule)
    (hnext : ∀ a, (next a).CarriesOut explain scope (nextRule a)) :
    (method >>= next).CarriesOut explain scope (rule >>= nextRule) := by
  intro words hwords length rest hrest
  have hfirst := h hwords length hrest
  rw [Method.bind_apply, Rule.bind_apply]
  generalize rule rest = outcome at hfirst
  generalize method (standing words length scope rest) = outcome' at hfirst
  cases hfirst with
  | error hleft => exact .error hleft
  | ok hleft => exact (hnext _ hwords length (hleft.trans hrest)).mono hleft

/-- A binder makes its names visible to its body, and to nothing else. -/
theorem Method.CarriesOut.binding {names : List String} {body : Method α} {rule : Rule α}
    (h : body.CarriesOut explain (names.reverse ++ scope) rule) :
    (binding names body).CarriesOut explain scope rule := by
  intro words hwords length rest hrest
  have hbody := h hwords length hrest
  have henter : (standing words length scope rest).enter names =
      standing words length (names.reverse ++ scope) rest := rfl
  rw [Machine.binding, henter]
  generalize rule rest = outcome at hbody
  generalize body _ = outcome' at hbody
  -- The names are taken off on both exits.
  cases hbody with
  | ok hleft =>
    rw [Option.map_some, leave_standing]
    exact .ok hleft
  | error hleft =>
    rw [Option.map_some, leave_standing]
    exact .error hleft

/-- A loop carries out a rule that goes on in the same way as long as the next token passes the test,
if every round takes a token. -/
theorem carriesOut_repeatWhile {test : TokenKind → Bool} (htest : test .endOfInput = false)
    {body : α → Method α} {step loop : α → Rule α}
    (hbody : ∀ a, (body a).CarriesOut explain scope (step a))
    (hshorter : ∀ {a tokens a' rest}, step a tokens = .ok (a', rest) → rest.length < tokens.length)
    (hgo : ∀ a token tokens, test token.kind = true →
      loop a (token :: tokens) = (step a >>= loop) (token :: tokens))
    (hstop : ∀ a tokens, (∀ token ∈ tokens.head?, test token.kind = false) →
      loop a tokens = .ok (a, tokens)) (a : α) :
    (repeatWhile test body a).CarriesOut explain scope (loop a) := by
  -- What is left gets shorter, so there are rounds enough.
  have hrounds : ∀ rounds a ⦃words⦄, (∀ token ∈ words, token.kind ≠ .endOfInput) →
      ∀ length ⦃rest⦄, rest <:+ words → rest.length < rounds →
      Agree explain words length scope rest (loop a rest)
        (repeatFor test body rounds a (standing words length scope rest)) := by
    intro rounds
    induction rounds with
    | zero => intro a words _ length rest _ hlt; exact absurd hlt (Nat.not_lt_zero _)
    | succ rounds ih =>
      intro a words hwords length rest hrest hlt
      rw [repeatFor]
      cases rest with
      | nil =>
        have hend : ¬test (Token.atEnd length).kind = true := by simp [Token.kind_atEnd, htest]
        rw [peek_bind_nil, if_neg hend, hstop a [] (by simp)]
        exact .ok List.suffix_rfl
      | cons token rest =>
        rw [peek_bind_cons hrest]
        by_cases hpass : test token.kind = true
        · have hround := hbody a hwords length hrest
          rw [hgo a token rest hpass, if_pos hpass, Method.bind_apply, Rule.bind_apply]
          generalize hstep : step a (token :: rest) = outcome at hround
          generalize body a _ = outcome' at hround
          cases hround with
          | error hleft => exact .error hleft
          | ok hleft =>
            have hlength := hshorter hstep
            exact (ih _ hwords length (hleft.trans hrest) (by omega)).mono hleft
        · rw [hstop a (token :: rest) (by simpa using hpass), if_neg hpass]
          exact .ok List.suffix_rfl
  intro words hwords length rest hrest
  refine hrounds _ a hwords length hrest ?_
  have hle := hrest.length_le
  rw [standing, List.length_append, List.length_singleton]
  omega

end

/-! ### The rules -/

section

variable {scope : Scope}

theorem carriesOut_expect {kind : TokenKind} (hkind : kind ≠ .endOfInput) (phrase : String) :
    (expect kind phrase).CarriesOut .ofFailure scope (Grammar.expect kind phrase) := by
  intro words hwords length rest hrest
  rw [expect, require]
  cases rest with
  | nil =>
    have hend : ¬(Token.atEnd length).kind = kind := Ne.symm hkind
    rw [peek_bind_nil, if_neg hend]
    exact agree_refuse hrest rfl
  | cons token rest =>
    have htoken := hwords token (hrest.subset List.mem_cons_self)
    rw [peek_bind_cons hrest, Grammar.expect]
    by_cases hfound : token.kind = kind
    · rw [if_pos hfound, if_pos hfound, advance_standing hrest htoken]
      exact .ok (List.suffix_cons _ _)
    · rw [if_neg hfound, if_neg hfound]
      exact agree_refuse hrest rfl

theorem carriesOut_identifier :
    identifier.CarriesOut .ofFailure scope Grammar.identifier :=
  (carriesOut_expect (by decide) _).bind fun token => carriesOut_pure token.lexeme

theorem carriesOut_reference :
    reference.CarriesOut .ofFailure scope (Grammar.reference scope) :=
  carriesOut_identifier.bind fun _ _ _ _ _ _ => .ok List.suffix_rfl

/-- The names that a header goes on with, after `names`. -/
def namesAfter (names : List String) : Rule (List String) := fun tokens =>
  .ok (names ++ (identifierRun tokens).1, (identifierRun tokens).2)

theorem carriesOut_furtherIdentifiers (names : List String) :
    (furtherIdentifiers names).CarriesOut .ofFailure scope (namesAfter names) := by
  refine carriesOut_repeatWhile rfl
    (fun names => carriesOut_identifier.bind fun name => carriesOut_pure (names ++ [name])) ?_ ?_ ?_ _
  · intro names tokens names' rest h
    obtain ⟨name, mid, hname, hpure⟩ := Rule.bind_eq_ok_iff.1 h
    obtain ⟨leaf, -, rfl⟩ := of_identifier_eq_ok hname
    cases hpure
    exact Nat.lt_succ_self _
  · intro names token tokens htest
    have hkind : token.kind = .identifier := by simpa using htest
    rw [Rule.bind_of_ok (Rule.bind_of_ok (identifier_leaf ⟨token, hkind⟩ tokens) _)]
    simp [namesAfter, identifierRun, hkind, Leaf.lexeme]
  · intro names tokens hstop
    cases tokens with
    | nil => simp [namesAfter, identifierRun]
    | cons token tokens =>
      have hkind : token.kind ≠ .identifier := by simpa using hstop token rfl
      simp [namesAfter, identifierRun, hkind]

theorem carriesOut_literal (lexeme : String) :
    (literal lexeme).CarriesOut .ofFailure scope (Grammar.literal lexeme) := by
  intro words hwords length rest hrest
  rw [literal, Grammar.literal]
  split
  · exact .ok List.suffix_rfl
  · exact .error List.suffix_rfl

section

variable {nested : Method Term} {rule : Scope → Rule Term}
  (hnested : ∀ scope, nested.CarriesOut .ofFailure scope (rule scope))

include hnested

theorem carriesOut_abstraction :
    (abstraction nested).CarriesOut .ofFailure scope (Grammar.abstraction rule scope) := by
  refine (carriesOut_expect (by decide) _).bind fun _ => carriesOut_identifier.bind fun name => ?_
  exact (carriesOut_furtherIdentifiers [name]).bind fun names =>
    (carriesOut_expect (by decide) _).bind fun _ =>
      (hnested (names.reverse ++ scope)).binding.bind fun body => carriesOut_pure _

theorem carriesOut_letIn :
    (letIn nested).CarriesOut .ofFailure scope (Grammar.letIn rule scope) :=
  (carriesOut_expect (by decide) _).bind fun _ => carriesOut_identifier.bind fun name =>
    (carriesOut_expect (by decide) _).bind fun _ => (hnested scope).bind fun definition =>
      (carriesOut_expect (by decide) _).bind fun _ =>
        Method.CarriesOut.bind (Method.CarriesOut.binding (hnested (name :: scope)))
          fun body => carriesOut_pure _

theorem carriesOut_atom : (atom nested).CarriesOut .ofFailure scope (Grammar.atom rule scope) := by
  intro words hwords length rest hrest
  rw [atom]
  cases rest with
  | nil =>
    rw [peek_bind_nil]
    exact agree_refuse hrest rfl
  | cons token rest =>
    have htoken := hwords token (hrest.subset List.mem_cons_self)
    have hlater : rest <:+ words := (List.suffix_cons _ _).trans hrest
    have hadvance := @advance_standing words rest length scope token hrest htoken
    rw [peek_bind_cons hrest, Grammar.atom]
    cases hkind : token.kind with
    | identifier =>
      have hreference := @carriesOut_reference scope words hwords length (token :: rest) hrest
      rwa [Grammar.reference, Rule.bind_of_ok (identifier_leaf ⟨token, hkind⟩ rest)] at hreference
    | natural =>
      dsimp only
      rw [Method.bind_of_ok hadvance]
      exact (carriesOut_literal token.lexeme hwords length hlater).mono (List.suffix_cons _ _)
    | openBracket =>
      dsimp only
      rw [bracketed, Method.bind_of_ok hadvance]
      exact ((hnested scope).bind (fun t => (carriesOut_expect (by decide) _).bind
        fun _ => carriesOut_pure t) hwords length hlater).mono (List.suffix_cons _ _)
    | endOfInput => exact absurd hkind htoken
    | _ => exact agree_refuse hrest rfl

section

variable {bound : Nat} (hsound : Sound bound rule)

include hsound

theorem carriesOut_arguments (fn : Term) :
    (arguments nested fn).CarriesOut .ofFailure scope (allArguments rule scope fn) := by
  refine carriesOut_repeatWhile rfl
    (fun fn => (carriesOut_atom hnested).bind fun arg => carriesOut_pure (Term.app fn arg)) ?_ ?_ ?_ _
  · intro fn tokens t rest h
    obtain ⟨arg, mid, hatom, hpure⟩ := Rule.bind_eq_ok_iff.1 h
    cases hpure
    exact length_lt_of_atom hsound hatom
  · intro fn token tokens hpass
    have hstart : atAtom (token :: tokens) = true := hpass
    rw [allArguments, Grammar.arguments, if_pos hstart, Rule.bind_apply, Rule.bind_apply]
    cases hatom : Grammar.atom rule scope (token :: tokens) with
    | error failure => rfl
    | ok read =>
      have hlt := length_lt_of_atom hsound hatom
      exact arguments_eq_allArguments hsound (Nat.le_of_lt_succ hlt) _
  · intro fn tokens hstop
    cases tokens with
    | nil => rfl
    | cons token tokens =>
      have hstart : ¬atAtom (token :: tokens) = true := by simpa [atAtom] using hstop
      rw [allArguments, Grammar.arguments, if_neg hstart]

theorem carriesOut_application :
    (application nested).CarriesOut .ofFailure scope (Grammar.application rule scope) :=
  (carriesOut_atom hnested).bind fun fn => carriesOut_arguments hnested hsound fn

end

end

/-- **Reading a term in place does what the rule for terms does**, at every number of levels: it ends
in the same way, at the same token, and with the scope that it began with. -/
theorem carriesOut_term (levels : Nat) (scope : Scope) :
    (term levels).CarriesOut .ofFailure scope (Grammar.term levels scope) := by
  induction levels using Nat.strongRecOn generalizing scope with
  | ind levels ih =>
    intro words hwords length rest hrest
    match levels, ih with
    | 0, _ => exact .error List.suffix_rfl
    | 1, _ => exact .error List.suffix_rfl
    | 2, _ => exact .error List.suffix_rfl
    | levels + 3, ih =>
      have hmore := ih (levels + 1) (by omega)
      have happlication : (application (term levels)).CarriesOut .ofFailure scope
          (Grammar.application (Grammar.term levels) scope) :=
        carriesOut_application (ih levels (by omega)) (term_sound levels)
      rw [term, Grammar.term]
      cases rest with
      | nil =>
        rw [peek_bind_nil]
        exact happlication hwords length hrest
      | cons token rest =>
        rw [peek_bind_cons hrest, List.head?_cons, Option.map_some]
        cases token.kind with
        | lambda => exact carriesOut_abstraction hmore hwords length hrest
        | letWord => exact carriesOut_letIn hmore hwords length hrest
        | _ => exact happlication hwords length hrest

/-! ### Programs -/

theorem Method.CarriesOut.orTooDeep {α : Type} {method : Method α} {rule : Rule α}
    (h : method.CarriesOut .ofFailure scope rule) :
    (orTooDeep method).CarriesOut .ofParseFailure scope rule := by
  intro words hwords length rest hrest
  have hmethod := h hwords length hrest
  rw [Machine.orTooDeep]
  generalize rule rest = outcome at hmethod
  generalize method (standing words length scope rest) = outcome' at hmethod
  cases hmethod with
  | ok hleft => exact .ok hleft
  | @error failure hleft =>
    obtain ⟨reason, left⟩ := failure
    cases reason with
    | complaint what => exact .error hleft
    | digits count => exact .error hleft
    | levels =>
      dsimp only [Reader.Error.ofFailure]
      rw [refuse_standing (hleft.trans hrest)]
      exact .error hleft

theorem carriesOut_done : done.CarriesOut .ofParseFailure scope Grammar.done := by
  intro words hwords length rest hrest
  rw [done]
  cases rest with
  | nil =>
    rw [peek_bind_nil, if_pos (Token.kind_atEnd length)]
    exact .ok List.suffix_rfl
  | cons token rest =>
    have htoken := hwords token (hrest.subset List.mem_cons_self)
    rw [peek_bind_cons hrest, if_neg htoken]
    exact agree_refuse hrest rfl

/-- If there is nothing at all to be read, this is said in the words of an atom; so there have to be
levels enough for one. -/
theorem carriesOut_parse {levels : Nat} (hlevels : 3 ≤ levels) :
    (parse levels).CarriesOut .ofParseFailure scope (Grammar.program levels scope) := by
  intro words hwords length rest hrest
  rw [parse]
  cases rest with
  | nil =>
    obtain ⟨n, rfl⟩ := Nat.exists_eq_add_of_le' hlevels
    rw [peek_bind_nil, if_pos (Token.kind_atEnd length)]
    exact @agree_refuse _ .ofParseFailure words [] length scope .missingTerm hrest rfl
  | cons token rest =>
    have htoken := hwords token (hrest.subset List.mem_cons_self)
    rw [peek_bind_cons hrest, if_neg htoken]
    exact (carriesOut_term levels scope).orTooDeep.bind
      (fun t => carriesOut_done.bind fun _ => carriesOut_pure t) hwords length hrest

/-- With fewer levels than that, nothing is read. -/
theorem exists_parse_eq_error {levels : Nat} (hlevels : levels < 3) {words rest : List Token}
    (hrest : rest <:+ words) (length : Nat) :
    ∃ e, parse levels (standing words length scope rest) =
      some (.error e, standing words length scope rest) := by
  have hterm : term levels = raise .levels := by
    match levels, hlevels with
    | 0, _ => rfl
    | 1, _ => rfl
    | 2, _ => rfl
  have hrefuse : ∀ what, (refuse what : Method Term) (standing words length scope rest) =
      some (.error (.refused (.atFront what length rest)), standing words length scope rest) :=
    refuse_standing hrest
  rw [parse, Method.bind_of_ok (peek_standing hrest)]
  by_cases hend : (rest.head?.getD (.atEnd length)).kind = .endOfInput
  · rw [if_pos hend]
    exact ⟨_, hrefuse .missingTerm⟩
  · have hdeep : orTooDeep (raise .levels) (standing words length scope rest) = _ :=
      hrefuse .tooDeep
    rw [if_neg hend, hterm, Method.bind_apply, hdeep]
    exact ⟨_, rfl⟩

end

end Machine

end NormalOrder
