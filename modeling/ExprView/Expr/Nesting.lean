import ExprView.Expr.Basic

/-!
# Nesting

How many levels of an expression are open at once while it is read. An operator in front opens
one for its operand; a pair of parentheses, an argument and an assigned value open one each.
-/

namespace ExprView

namespace Expr

mutual

/-- The most levels that are open inside an expression. -/
def nesting : Expr → Nat
  | .number _ => 0
  | .identifier _ => 0
  | .unary _ operand => operand.nesting + 1
  | .binary _ left right => max left.nesting right.nesting
  | .assignment _ value => valueNesting value
  | .call _ arguments => argumentsNesting arguments
  | .grouping inner => inner.nesting + 1

/-- The most levels that an assigned value opens. -/
def valueNesting : Option Expr → Nat
  | none => 0
  | some value => value.nesting + 1

/-- The most levels that one of the arguments opens. -/
def argumentsNesting : List Expr → Nat
  | [] => 0
  | argument :: arguments => max (argument.nesting + 1) (argumentsNesting arguments)

end

end Expr

/-- The most levels that are open in a program. The program itself is one. -/
def Program.nesting (p : Program) : Nat := p.body.nesting + 1

end ExprView
