import ExprView.Expr.Basic
import ExprView.Token

/-!
# Printing expressions

The lexemes of an expression from left to right, and its text, with a space between them.
-/

namespace ExprView

/-- The lexeme of an operator character. -/
def Lexeme.operator (c : Char) : Lexeme := { kind := .operator, text := String.singleton c }

/-- The lexeme of a name. -/
def Lexeme.identifier (name : String) : Lexeme := { kind := .identifier, text := name }

/-- The lexeme of a literal. -/
def Lexeme.number (literal : String) : Lexeme := { kind := .number, text := literal }

namespace Expr

mutual

/-- The lexemes of an expression. -/
def lexemes : Expr → List Lexeme
  | .number literal => [.number literal]
  | .identifier name => [.identifier name]
  | .unary op operand => .operator op.symbol :: operand.lexemes
  | .binary op left right => left.lexemes ++ .operator op.symbol :: right.lexemes
  | .assignment target value => target.lexemes ++ valueLexemes value
  | .call name arguments =>
    .identifier name :: .operator '(' :: (argumentsLexemes arguments ++ [.operator ')'])
  | .grouping inner => .operator '(' :: (inner.lexemes ++ [.operator ')'])

/-- The lexemes of an assigned value, with the sign in front. -/
def valueLexemes : Option Expr → List Lexeme
  | none => []
  | some value => .operator '=' :: value.lexemes

/-- The lexemes of arguments, with commas between them. -/
def argumentsLexemes : List Expr → List Lexeme
  | [] => []
  | argument :: arguments => argument.lexemes ++ moreLexemes arguments

/-- The lexemes of further arguments, each with a comma in front. -/
def moreLexemes : List Expr → List Lexeme
  | [] => []
  | argument :: arguments => .operator ',' :: (argument.lexemes ++ moreLexemes arguments)

end

/-- The text of an expression. -/
def print (e : Expr) : String := " ".intercalate (e.lexemes.map Lexeme.text)

end Expr

end ExprView
