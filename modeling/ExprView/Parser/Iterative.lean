import ExprView.Parser.Rules

/-!
# Chains by iteration

A chain is read in a loop, which puts the operators and the operands after them into a list. The
list is then gone through from its end: each operand is joined with what stands on its right, by the
operator between the two, which is the one that was put into the list with the operand to the right.
-/

namespace ExprView

/-- What has been grouped, with the operator in front of it, and the operand in front of that
operator, with its own: the operand and what has been grouped are joined. -/
def Expr.joinLeft : BinaryOperator × Expr → BinaryOperator × Expr → BinaryOperator × Expr
  | (op, right), (previous, operand) => (previous, .binary op operand right)

/-- The operands of a chain grouped to the right, from the last one back to the first. -/
def Expr.foldChain (first : Expr) (rest : List (BinaryOperator × Expr)) : Expr :=
  match rest.reverse with
  | [] => first
  | last :: pending =>
    let (op, right) := pending.foldl joinLeft last
    .binary op first right

namespace ParserM

/-- Repeats a step until it yields nothing, and puts what it yields behind what there is. -/
def gather {α : Type} (step : ParserM (Option α)) (done : List α) : ParserM (List α) := fun p =>
  match step p with
  | .error e q => .error e q
  | .ok none q => .ok done q
  | .ok (some a) q =>
    if q.lexer.rest.length < p.lexer.rest.length then gather step (done ++ [a]) q
    else .ok (done ++ [a]) q
termination_by p => p.lexer.rest.length

/-- Operands with operators of one strength between them, first collected and then grouped. -/
def iterativeChain (ops : List Char) (operand : ParserM Expr) : ParserM Expr := do
  let first ← operand
  return first.foldChain (← gather (link ops operand) [])

end ParserM

end ExprView
