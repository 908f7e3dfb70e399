import NormalOrder.Surface.Token
import NormalOrder.Term.Numeral
import NormalOrder.Text.Integer
import NormalOrder.Text.Message

/-!
# From tokens to terms

The grammar of programs is

* `term ::= abstraction | letIn | application`
* `abstraction ::= λ identifier+ -> term`, whose body reaches as far as possible
* `letIn ::= let identifier := term in term`
* `application ::= atom atom*`, associating to the left
* `atom ::= identifier | natural | ( term )`

Each rule is a function from tokens to a term of the core calculus and the tokens left over, or to
a `Failure` that keeps the tokens from the offending one on.  A `let` becomes the application of
an abstraction to the definition, a number its Church numeral, and a name the index of the
innermost binder with that name, or a free variable if the scope has none.

`Grammar.term` nests at most `levels` rules in each other; the other rules take the function that
reads a nested term as an argument, so each of them can be read on its own.
-/

namespace NormalOrder

namespace Grammar

/-- The names bound around a term, the innermost first. -/
abbrev Scope := List String

/-- What is wrong with a sequence of tokens. -/
inductive Complaint where
  /-- Something else was expected. -/
  | expected (phrase got : String)
  /-- The source ends where a term should begin. -/
  | missingTerm
  /-- A token cannot begin a term. -/
  | notATerm (lexeme : String)
  /-- The source goes on after its term. -/
  | leftover (lexeme : String)
  /-- The nesting is too deep. -/
  | tooDeep
  /-- The words of somebody else. -/
  | worded (message : Message)
  deriving DecidableEq, Repr

/-- The wording of a complaint. -/
def Complaint.message : Complaint → Message
  | expected phrase got => [.plain (phrase ++ ", got "), .strong got]
  | missingTerm => [.plain "unexpected ", .strong TokenKind.endOfInput.text,
      .plain ", a term was expected"]
  | notATerm lexeme => [.plain "a term was expected, got ", .strong lexeme]
  | leftover lexeme => [.strong TokenKind.endOfInput.text, .plain " was expected, got ",
      .strong lexeme]
  | tooDeep => [.plain "the term is nested too deeply"]
  | worded message => message

/-- Why a rule does not apply. -/
inductive Reason where
  /-- The tokens are wrong. -/
  | complaint (what : Complaint)
  /-- Too many rules are nested in each other. -/
  | levels
  /-- A number has more digits than are read. -/
  | digits (count : Nat)
  deriving DecidableEq, Repr

/-- A rule that does not apply, with the tokens from the offending one on. -/
structure Failure where
  /-- Why the rule does not apply. -/
  reason : Reason
  /-- The tokens from the offending one on. -/
  rest : List Token
  deriving DecidableEq, Repr

/-- A failure because the tokens are wrong. -/
def Failure.of (what : Complaint) (rest : List Token) : Failure := ⟨.complaint what, rest⟩

/-- A rule turns tokens into a result and the tokens left over, or fails on them. -/
def Rule (α : Type) := List Token → Except Failure (α × List Token)

namespace Rule

/-- The rule that reads nothing. -/
protected def pure {α : Type} (a : α) : Rule α := fun tokens => .ok (a, tokens)

/-- One rule after the other; the first failure counts. -/
protected def bind {α β : Type} (rule : Rule α) (next : α → Rule β) : Rule β := fun tokens =>
  match rule tokens with
  | .error failure => .error failure
  | .ok (a, rest) => next a rest

instance : Monad Rule where
  pure := Rule.pure
  bind := Rule.bind

@[simp] theorem pure_apply {α : Type} (a : α) (tokens : List Token) :
    (pure a : Rule α) tokens = .ok (a, tokens) := rfl

@[simp] theorem bind_apply {α β : Type} (rule : Rule α) (next : α → Rule β)
    (tokens : List Token) :
    (rule >>= next) tokens =
      match rule tokens with
      | .error failure => .error failure
      | .ok (a, rest) => next a rest := rfl

end Rule

/-! ### Names -/

/-- The variable that a name stands for. -/
def resolve (scope : Scope) (name : String) : Term :=
  match scope.idxOf? name with
  | some index => .bound index
  | none => .free name

/-- A token of a given kind; `phrase` says what was expected. -/
def expect (kind : TokenKind) (phrase : String) : Rule Token
  | [] => .error (.of (.expected phrase TokenKind.endOfInput.text) [])
  | token :: rest =>
    if token.kind = kind then .ok (token, rest)
    else .error (.of (.expected phrase token.described) (token :: rest))

/-- A name. -/
def identifier : Rule String := do
  let token ← expect .identifier "an identifier was expected"
  pure token.lexeme

/-- All the names at the front of some tokens. -/
def identifierRun : List Token → List String × List Token
  | [] => ([], [])
  | token :: rest =>
    if token.kind = .identifier then
      let (names, rest) := identifierRun rest
      (token.lexeme :: names, rest)
    else ([], token :: rest)

/-- Further names, as many as there are. -/
def furtherIdentifiers : Rule (List String) := fun tokens => .ok (identifierRun tokens)

/-- A name, as a variable. -/
def reference (scope : Scope) : Rule Term := do
  let name ← identifier
  pure (resolve scope name)

/-! ### Terms -/

/-- The numeral of a natural number, read off its digits. -/
def literal (lexeme : String) : Rule Term := fun rest =>
  if lexeme.length ≤ Text.Integer.maxDigits then
    .ok (.numeral (Nat.ofDigitChars 10 lexeme.toList 0), rest)
  else .error ⟨.digits lexeme.length, rest⟩

section Rules

variable (nested : Scope → Rule Term)

/-- The rest of a term in brackets, after the opening one. -/
def bracketed (scope : Scope) : Rule Term := do
  let t ← nested scope
  let _ ← expect .closeBracket "a ) was expected"
  pure t

/-- A name, a number, or a term in brackets. -/
def atom (scope : Scope) : Rule Term
  | [] => .error (.of .missingTerm [])
  | token :: rest =>
    match token.kind with
    | .identifier => .ok (resolve scope token.lexeme, rest)
    | .natural => literal token.lexeme rest
    | .openBracket => bracketed nested scope rest
    | _ => .error (.of (.notATerm token.lexeme) (token :: rest))

/-- Whether an argument begins at the front of some tokens. -/
def atAtom : List Token → Bool
  | [] => false
  | token :: _ => token.kind.startsAtom

/-- The arguments after `fn`, no more of them than there are tokens in `budget`. -/
def arguments (scope : Scope) : List Token → Term → Rule Term
  | [], fn, tokens => .ok (fn, tokens)
  | _ :: budget, fn, tokens =>
    if atAtom tokens then
      match atom nested scope tokens with
      | .error failure => .error failure
      | .ok (arg, rest) => arguments scope budget (.app fn arg) rest
    else .ok (fn, tokens)

/-- All the arguments after `fn`; there are no more of them than tokens. -/
def allArguments (scope : Scope) (fn : Term) : Rule Term := fun tokens =>
  arguments nested scope tokens fn tokens

/-- A function and its arguments. -/
def application (scope : Scope) : Rule Term := do
  let fn ← atom nested scope
  allArguments nested scope fn

/-- An abstraction over one name or more. -/
def abstraction (scope : Scope) : Rule Term := do
  let _ ← expect .lambda "a λ was expected"
  let name ← identifier
  let names ← furtherIdentifiers
  let _ ← expect .arrow "a -> was expected"
  let body ← nested ((name :: names).reverse ++ scope)
  pure (.absAll (name :: names) body)

/-- A definition and the term it is for; the name is in scope in the latter only. -/
def letIn (scope : Scope) : Rule Term := do
  let _ ← expect .letWord "let was expected"
  let name ← identifier
  let _ ← expect .assign "a := was expected"
  let definition ← nested scope
  let _ ← expect .inWord "in was expected"
  let body ← nested (name :: scope)
  pure (.app (.abs name body) definition)

end Rules

/-- A term with at most `levels` rules nested in each other.  A term within an abstraction or a
`let` is nested in two rules, since each of these is a term itself; one in brackets is nested in
three: an atom, an application and a term. -/
def term : Nat → Scope → Rule Term
  | levels + 3, scope, tokens =>
    match tokens.head?.map Token.kind with
    | some .lambda => abstraction (term (levels + 1)) scope tokens
    | some .letWord => letIn (term (levels + 1)) scope tokens
    | _ => application (term levels) scope tokens
  | _, _, tokens => .error ⟨.levels, tokens⟩

/-- Nothing more. -/
def done : Rule Unit
  | [] => .ok ((), [])
  | token :: rest => .error (.of (.leftover token.lexeme) (token :: rest))

/-- A term that uses up all tokens. -/
def program (levels : Nat) (scope : Scope) : Rule Term := do
  let t ← term levels scope
  done
  pure t

end Grammar

end NormalOrder
