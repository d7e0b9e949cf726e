import ExprView.Token
import ExprView.Expr.Basic
import ExprView.Json.Write

/-!
# Records

Tokens and trees as JSON values. An expression is an object with one field, whose name is the
form of the expression; its parts are the fields of the object below, in the order in which
they are declared. This is how serde writes a type of several forms, if nothing else is asked for.
-/

namespace ExprView

/-- The name of a kind as a value. -/
def TokenKind.toJson (k : TokenKind) : Json := .string k.name

/-- A token with its place. -/
def Token.toJson (t : Token) : Json :=
  .object [("kind", t.kind.toJson), ("text", .string t.text), ("start", .number t.start),
    ("end", .number t.last)]

/-- The operator's symbol as a value. -/
def UnaryOperator.toJson (op : UnaryOperator) : Json := .string (String.singleton op.symbol)

/-- The operator's symbol as a value. -/
def BinaryOperator.toJson (op : BinaryOperator) : Json := .string (String.singleton op.symbol)

/-- An object with one field. -/
def Json.tagged (tag : String) (value : Json) : Json := .object [(tag, value)]

namespace Expr

mutual

/-- An expression under the name of its form. -/
def toJson : Expr → Json
  | .number literal => .tagged "Number" (.string literal)
  | .identifier name => .tagged "Identifier" (.string name)
  | .unary op operand =>
    .tagged "Unary" (.object [("operator", op.toJson), ("operand", toJson operand)])
  | .binary op left right =>
    .tagged "Binary"
      (.object [("operator", op.toJson), ("left", toJson left), ("right", toJson right)])
  | .assignment target value =>
    .tagged "Assignment" (.object [("target", toJson target), ("value", valueToJson value)])
  | .call name arguments =>
    .tagged "Call"
      (.object [("name", .string name), ("arguments", .array (argumentsToJson arguments))])
  | .grouping inner => .tagged "Grouping" (.object [("inner", toJson inner)])

/-- The value of an assignment, or the absent value. -/
def valueToJson : Option Expr → Json
  | none => .null
  | some value => toJson value

/-- The arguments of a call, one by one. -/
def argumentsToJson : List Expr → List Json
  | [] => []
  | argument :: arguments => toJson argument :: argumentsToJson arguments

end

end Expr

/-- A program as an object with its body. -/
def Program.toJson (p : Program) : Json := .tagged "body" p.body.toJson

/-- The indented text of a program, under the name of its class. -/
def Program.pretty (p : Program) : String := (Json.tagged "Program" p.toJson).pretty

end ExprView
