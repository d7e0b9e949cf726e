import ExprView.Parser.Rules

/-!
# Chains by recursion

The rules for sums and products as the grammar words them: an operand, and if an operator
follows, the operator and again a chain. The other rules are as they were.
-/

namespace ExprView.ParserM

/-- An operand, and if one of the operators follows, on its right what is again such a chain. -/
def rightGrouped (ops : List Char) (operand again : ParserM Expr) : ParserM Expr := do
  let first ← operand
  match ← matchOperator ops with
  | none => return first
  | some token =>
    let op ← binaryOperator token
    return .binary op first (← again)

/-- An operand, and if one of the operators follows, the rest of the chain on its right. A chain
that has read nothing does not go on. -/
def rightRecursive (ops : List Char) (operand : ParserM Expr) : ParserM Expr := fun p =>
  match operand p with
  | .error e q => .error e q
  | .ok first q =>
    match matchOperator ops q with
    | .error e r => .error e r
    | .ok none r => .ok first r
    | .ok (some token) r =>
      match binaryOperator token r with
      | .error e s => .error e s
      | .ok op s =>
        if s.lexer.rest.length < p.lexer.rest.length then
          match rightRecursive ops operand s with
          | .error e t => .error e t
          | .ok second t => .ok (.binary op first second) t
        else .ok first s
termination_by p => p.lexer.rest.length

/-- A sum whose chains, and those of its factors, are read by recursion. -/
def recursiveSum (below : Level) : ParserM Expr :=
  rightRecursive ['+', '-'] (rightRecursive ['*', '/'] (unary below))

/-- A sum, or a name with the value that it is to take. -/
def recursiveAssignment (below : Level) : ParserM Expr := do
  let e ← recursiveSum below
  if e.isIdentifier then return .assignment e (← assignedValue below) else return e

/-- The rules with `n` more levels to open. -/
def recursiveLevel : Nat → Level
  | 0 => { assignment := refuse .tooDeep, unary := refuse .tooDeep }
  | n + 1 =>
    let below := recursiveLevel n
    { assignment := nested (recursiveAssignment below), unary := nested (unary below) }

/-- One expression and nothing after it. -/
def recursiveProgram : ParserM Program := do
  let body ← (recursiveLevel maxNesting).assignment
  match ← advance with
  | some token => refuse (.trailing token.text) (some token)
  | none => return ⟨body⟩

end ExprView.ParserM
