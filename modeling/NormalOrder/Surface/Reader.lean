import NormalOrder.Surface.Program

/-!
# Reading a program rule by rule

A `Reader` holds the tokens of a program that are still to be read and the names in scope.  Any
rule of the grammar can be called on it, in any order, also within a block that brings further
names into scope.  A call that fails leaves the reader at the token that made it fail; the scope
is the same after a call as before it.
-/

namespace NormalOrder

/-- A program that is being read. -/
structure Reader where
  /-- The number of tokens of the program, without the one that marks its end. -/
  total : Nat
  /-- The tokens still to be read. -/
  rest : List Token
  /-- The number of characters of the source. -/
  length : Nat
  /-- The names in scope, the innermost first. -/
  scope : Grammar.Scope
  deriving DecidableEq, Repr

namespace Reader

/-- A reader at the beginning of a source. -/
def ofSource (source : String) : Except LexError Reader :=
  (tokenize source).map fun tokens => ⟨tokens.length, tokens, source.length, []⟩

/-- The number of tokens read. -/
def current (r : Reader) : Nat := r.total - r.rest.length

/-- The next token; at the end, the one that marks it. -/
def peek (r : Reader) : Token := r.rest.head?.getD (.atEnd r.length)

/-- What a call gives. -/
inductive Answer where
  /-- A term. -/
  | term (t : Term)
  /-- A name. -/
  | name (name : String)
  /-- A token. -/
  | token (token : Token)
  deriving DecidableEq, Repr

/-- Why a call fails. -/
inductive Error where
  /-- The tokens are wrong. -/
  | refused (error : ParseError)
  /-- Too many rules are nested in each other. -/
  | levels
  /-- A number has more digits than are read. -/
  | digits (count : Nat)
  /-- The words for a complaint have a brace that stands for no argument. -/
  | wording (error : Message.MissingArgument)
  deriving DecidableEq, Repr

/-- A call on a reader. -/
inductive Call where
  /-- Read a term that uses up all tokens. -/
  | parse
  /-- Read a term. -/
  | term
  /-- Read an abstraction. -/
  | abstraction
  /-- Read a definition and the term it is for. -/
  | letIn
  /-- Read a function and its arguments. -/
  | application
  /-- Read an atom. -/
  | atom
  /-- Read a name as a variable. -/
  | reference
  /-- Read a name. -/
  | identifier
  /-- Look at the next token. -/
  | peek
  /-- Move over the next token. -/
  | advance
  /-- Read a token of a given kind; the template says what was expected. -/
  | consume (kind : TokenKind) (expectation : String)
  deriving DecidableEq, Repr

/-- What a failure of the grammar is for the caller of a single rule. -/
def Error.ofFailure (length : Nat) (failure : Grammar.Failure) : Error :=
  match failure.reason with
  | .complaint what => .refused (.atFront what length failure.rest)
  | .levels => .levels
  | .digits count => .digits count

/-- What a failure of the grammar is for the caller of `parse`: running out of levels is an error
of the program. -/
def Error.ofParseFailure (length : Nat) (failure : Grammar.Failure) : Error :=
  match failure.reason with
  | .levels => .refused (.atFront .tooDeep length failure.rest)
  | _ => .ofFailure length failure

/-- Applies a rule of the grammar to the tokens still to be read. -/
def apply {α : Type} (r : Reader) (explain : Nat → Grammar.Failure → Error) (answer : α → Answer)
    (rule : Grammar.Rule α) : Except Error Answer × Reader :=
  match rule r.rest with
  | .error failure => (.error (explain r.length failure), { r with rest := failure.rest })
  | .ok (a, rest) => (.ok (answer a), { r with rest := rest })

/-- Moves over the next token; the one that marks the end stays. -/
def advance (r : Reader) : Except Error Answer × Reader :=
  (.ok (.token r.peek), { r with rest := r.rest.tail })

/-- Moves over the next token if it is of a given kind. -/
def consume (r : Reader) (kind : TokenKind) (expectation : String) :
    Except Error Answer × Reader :=
  if r.peek.kind = kind then r.advance
  else
    match Message.ofTemplate (expectation ++ ", got \x7b\x7d") [r.peek.described] with
    | .error e => (.error (.wording e), r)
    | .ok message => (.error (.refused (.atFront (.worded message) r.length r.rest)), r)

/-- Carries out a call, with at most `levels` rules nested in each other. -/
def run (levels : Nat) (r : Reader) : Call → Except Error Answer × Reader
  | .parse => r.apply .ofParseFailure .term (Grammar.program levels r.scope)
  | .term => r.apply .ofFailure .term (Grammar.term levels r.scope)
  | .abstraction =>
    r.apply .ofFailure .term (Grammar.abstraction (Grammar.term levels) r.scope)
  | .letIn => r.apply .ofFailure .term (Grammar.letIn (Grammar.term levels) r.scope)
  | .application =>
    r.apply .ofFailure .term (Grammar.application (Grammar.term levels) r.scope)
  | .atom => r.apply .ofFailure .term (Grammar.atom (Grammar.term levels) r.scope)
  | .reference => r.apply .ofFailure .term (Grammar.reference r.scope)
  | .identifier => r.apply .ofFailure .name Grammar.identifier
  | .peek => (.ok (.token r.peek), r)
  | .advance => r.advance
  | .consume kind expectation => r.consume kind expectation

/-- Brings names into scope, the last of them innermost. -/
def enter (r : Reader) (names : List String) : Reader :=
  { r with scope := names.reverse ++ r.scope }

/-- Takes names out of scope again. -/
def leave (r : Reader) (names : List String) : Reader :=
  { r with scope := r.scope.drop names.length }

/-! ### Scripts -/

/-- What is done with a reader: calls, and blocks that bring names into scope. -/
inductive Script where
  /-- A single call. -/
  | call (call : Call)
  /-- Further scripts with some names in scope. -/
  | binding (names : List String) (body : List Script)
  deriving Repr

/-- What came of a script. -/
inductive Entry where
  /-- The answer to a call, with the number of tokens read and the scope after it. -/
  | answered (answer : Except Error Answer) (current : Nat) (scope : Grammar.Scope)
  /-- The scope on entering a block, what came of its body, and the number of tokens read and the
  scope after it. -/
  | block (bound : Grammar.Scope) (log : List Entry) (current : Nat) (scope : Grammar.Scope)

mutual

/-- Carries out a script. -/
def play (levels : Nat) (r : Reader) : Script → Entry × Reader
  | .call call =>
    let (answer, r) := r.run levels call
    (.answered answer r.current r.scope, r)
  | .binding names body =>
    let inner := r.enter names
    let (log, after) := playAll levels inner body
    let after := after.leave names
    (.block inner.scope log after.current after.scope, after)

/-- Carries out scripts one after the other. -/
def playAll (levels : Nat) (r : Reader) : List Script → List Entry × Reader
  | [] => ([], r)
  | script :: scripts =>
    let (entry, r) := play levels r script
    let (log, r) := playAll levels r scripts
    (entry :: log, r)

end

end Reader

end NormalOrder
