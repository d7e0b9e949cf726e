/-!
# Tokens

A lexeme is a piece of text with its kind; a token is a lexeme with the place where it stands
in the source, as the byte offsets of its first and of its last byte.
-/

namespace ExprView

/-- The classes of tokens. -/
inductive TokenKind where
  /-- One of the operator characters. -/
  | operator
  /-- A name. -/
  | identifier
  /-- A decimal literal. -/
  | number
  deriving DecidableEq, Repr, Inhabited

/-- The name under which a kind is shown. -/
def TokenKind.name : TokenKind → String
  | .operator => "Operator"
  | .identifier => "Identifier"
  | .number => "Number"

/-- A classified piece of text, without its place. -/
structure Lexeme where
  /-- The class. -/
  kind : TokenKind
  /-- The text as written. -/
  text : String
  deriving DecidableEq, Repr, Inhabited

/-- Whether the lexeme is the one-byte operator `op`. -/
def Lexeme.isOperator (l : Lexeme) (op : Char) : Bool :=
  l.kind == .operator && op.utf8Size == 1 && l.text == String.singleton op

/-- A lexeme with its place in the source. -/
structure Token extends Lexeme where
  /-- The byte offset of the first byte. -/
  start : Nat
  /-- The byte offset of the last byte. -/
  last : Nat
  deriving DecidableEq, Repr, Inhabited

/-- Whether the token is the one-byte operator `op`. -/
def Token.isOperator (t : Token) (op : Char) : Bool := t.toLexeme.isOperator op

/-- The text between quotes. -/
def Token.quoted (t : Token) : String := "'" ++ t.text ++ "'"

/-- The first and the last byte. -/
def Token.range (t : Token) : String := toString t.start ++ ".." ++ toString t.last

end ExprView
