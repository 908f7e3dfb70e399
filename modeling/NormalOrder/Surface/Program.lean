import NormalOrder.Surface.Grammar
import NormalOrder.Surface.Scanner

/-!
# Parsing programs

`parse` reads a source as a term; `parseWithin` does the same but gives up when more than a given
number of rules are nested in each other.  A nested term takes a token of its own at least and
comes with three rules at most, so for `parse` three levels for each token, and three more, are
always enough.
-/

namespace NormalOrder

/-- A program whose tokens do not form a term. -/
structure ParseError where
  /-- What is wrong. -/
  complaint : Grammar.Complaint
  /-- The offset of the offending token. -/
  position : Nat
  /-- The number of its characters. -/
  length : Nat
  deriving DecidableEq, Repr

namespace ParseError

/-- The complaint about a program whose tokens do not form a term. -/
def message (e : ParseError) : Message := e.complaint.message

/-- The error at the first of some tokens, or at the end of a source of `length` characters. -/
def atFront (what : Grammar.Complaint) (length : Nat) (rest : List Token) : ParseError :=
  let token := rest.head?.getD (.atEnd length)
  ⟨what, token.position, token.lexeme.length⟩

end ParseError

/-- Why a source is not a program. -/
inductive Rejection where
  /-- It cannot be cut into tokens. -/
  | lexical (error : LexError)
  /-- Its tokens do not form a term. -/
  | grammatical (error : ParseError)
  /-- It has a number with more digits than are read. -/
  | digits (count : Nat)
  deriving DecidableEq, Repr

/-- The complaint about a number with too many digits. -/
def digitsMessage (count : Nat) : String :=
  "Exceeds the limit (" ++ toString Text.Integer.maxDigits ++
    " digits) for integer string conversion: value has " ++ toString count ++
    " digits; use sys.set_int_max_str_digits() to increase the limit"

/-- Why a source of `length` characters is rejected when the grammar fails on its tokens. -/
def Rejection.ofFailure (length : Nat) (failure : Grammar.Failure) : Rejection :=
  match failure.reason with
  | .complaint what => .grammatical (.atFront what length failure.rest)
  | .levels => .grammatical (.atFront .tooDeep length failure.rest)
  | .digits count => .digits count

/-- The term that some tokens of a source of `length` characters form, if no more than `levels`
rules are nested in each other. -/
def parseTokens (levels length : Nat) (tokens : List Token) : Except Rejection Term :=
  match Grammar.program levels [] tokens with
  | .error failure => .error (.ofFailure length failure)
  | .ok (t, _) => .ok t

/-- The term that a source describes, if no more than `levels` rules are nested in each other. -/
def parseWithin (levels : Nat) (source : String) : Except Rejection Term :=
  match tokenize source with
  | .error e => .error (.lexical e)
  | .ok tokens => parseTokens levels source.length tokens

/-- The term that a source describes. -/
def parse (source : String) : Except Rejection Term :=
  match tokenize source with
  | .error e => .error (.lexical e)
  | .ok tokens => parseTokens (3 * tokens.length + 3) source.length tokens

end NormalOrder
