/-!
# Tokens

A program is read as a list of tokens.  A token keeps its text and its offset in the source,
counted in characters.
-/

namespace NormalOrder

/-- What a token is. -/
inductive TokenKind where
  /-- The head of an abstraction: `λ` or a backslash. -/
  | lambda
  /-- The word `let`. -/
  | letWord
  /-- The sign `:=` of a definition. -/
  | assign
  /-- The word `in`. -/
  | inWord
  /-- The arrow `->` before the body of an abstraction. -/
  | arrow
  /-- An opening bracket. -/
  | openBracket
  /-- A closing bracket. -/
  | closeBracket
  /-- A name. -/
  | identifier
  /-- A natural number. -/
  | natural
  /-- The end of the source. -/
  | endOfInput
  deriving DecidableEq, Repr

namespace TokenKind

/-- How a kind of token is called in messages. -/
def text : TokenKind → String
  | lambda => "λ"
  | letWord => "let"
  | assign => ":="
  | inWord => "in"
  | arrow => "->"
  | openBracket => "("
  | closeBracket => ")"
  | identifier => "identifier"
  | natural => "natural number"
  | endOfInput => "end of input"

/-- The kind of a word: two words are reserved, every other one is a name. -/
def ofWord (word : String) : TokenKind :=
  if word = "let" then letWord
  else if word = "in" then inWord
  else identifier

/-- Whether a token of this kind can begin an argument. -/
def startsAtom : TokenKind → Bool
  | identifier | natural | openBracket => true
  | _ => false

end TokenKind

/-- A token of the source. -/
structure Token where
  /-- What the token is. -/
  kind : TokenKind
  /-- The text of the token. -/
  lexeme : String
  /-- The offset of its first character. -/
  position : Nat
  deriving DecidableEq, Repr

namespace Token

/-- The end of a source of `length` characters. -/
def atEnd (length : Nat) : Token := ⟨.endOfInput, "", length⟩

/-- How a token is called in messages: by its text, if it has one. -/
def described (token : Token) : String :=
  if token.lexeme = "" then token.kind.text else token.lexeme

end Token

end NormalOrder
