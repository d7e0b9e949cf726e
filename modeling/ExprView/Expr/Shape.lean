import ExprView.Expr.Basic

/-!
# Shapes

What is left of an expression without its literals, names and operators: the forms of its nodes, how
many arguments a call has, and whether a value is there.
-/

namespace ExprView

/-- The form of an expression and of its parts. -/
inductive Shape where
  /-- A literal. -/
  | number
  /-- A name. -/
  | identifier
  /-- An operator before its operand. -/
  | unary (operand : Shape)
  /-- An operator between its operands. -/
  | binary (left right : Shape)
  /-- A target, perhaps with a value. -/
  | assignment (target : Shape) (value : Option Shape)
  /-- A call. -/
  | call (arguments : List Shape)
  /-- A parenthesised expression. -/
  | grouping (inner : Shape)
  deriving Repr, Inhabited

namespace Expr

mutual

/-- The shape of an expression. -/
def shape : Expr → Shape
  | .number _ => .number
  | .identifier _ => .identifier
  | .unary _ operand => .unary operand.shape
  | .binary _ left right => .binary left.shape right.shape
  | .assignment target value => .assignment target.shape (valueShape value)
  | .call _ arguments => .call (argumentShapes arguments)
  | .grouping inner => .grouping inner.shape

/-- The shape of a value that may be absent. -/
def valueShape : Option Expr → Option Shape
  | none => none
  | some value => some value.shape

/-- The shapes of arguments, one by one. -/
def argumentShapes : List Expr → List Shape
  | [] => []
  | argument :: arguments => argument.shape :: argumentShapes arguments

end

end Expr

end ExprView
