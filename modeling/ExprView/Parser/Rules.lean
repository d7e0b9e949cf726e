import ExprView.Expr.Basic
import ExprView.Parser.Basic

/-!
# The rules of the grammar

From the loosest to the tightest binding:

    assignment     ::= additive | name [ '=' assignment ]
    additive       ::= multiplicative { ('+' | '-') multiplicative }
    multiplicative ::= unary { ('*' | '/') unary }
    unary          ::= ('+' | '-') unary | primary
    primary        ::= number | name | name '(' [ arguments ] ')' | '(' assignment ')'
    arguments      ::= assignment { ',' assignment }

Operators of one strength group to the right: `1 - 2 - 3` is `1 - (2 - 3)`. A name that stands
alone where an assignment may stand is an assignment without a value.

Two rules open a level of nesting, the assignment and the operand of an operator in front. At
most `maxNesting` levels may be open, so the rules are defined level by level: each level is
given the two rules of the level below, and the lowest one refuses to go on.

## Main statements

* `Parser.parse_eq`: a parser that has been used parses like a new one.
-/

namespace ExprView

/-- The operands of a chain grouped to the right: `a, + b, - c` is `a + (b - c)`. -/
def Expr.rightChain : Expr → List (BinaryOperator × Expr) → Expr
  | first, [] => first
  | first, (op, second) :: rest => .binary op first (rightChain second rest)

namespace ParserM

/-- The rules that open a level of nesting. -/
structure Level where
  /-- An expression that may be assigned to. -/
  assignment : ParserM Expr
  /-- The operand of an operator in front. -/
  unary : ParserM Expr

/-- The operator that a token denotes in front of its operand. -/
def unaryOperator (token : Token) : ParserM UnaryOperator :=
  match UnaryOperator.ofSymbol? token.text with
  | some op => pure op
  | none => refuse (.noSuchOperator token.text)

/-- The operator that a token denotes between its operands. -/
def binaryOperator (token : Token) : ParserM BinaryOperator :=
  match BinaryOperator.ofSymbol? token.text with
  | some op => pure op
  | none => refuse (.noSuchOperator token.text)

/-- An argument after a comma, if there is a comma. -/
def nextArgument (below : Level) (name : String) : ParserM (Option Expr) := do
  match ← matchOperator [','] with
  | none => return none
  | some comma =>
    if ← checkOperator ')' then refuse (.missingArgument name) (some comma)
    else return some (← below.assignment)

/-- The arguments of a function, at least one. -/
def argumentList (below : Level) (name : String) : ParserM (List Expr) := do
  let first ← below.assignment
  return first :: (← many (nextArgument below name))

/-- The arguments of a function with their parentheses. -/
def call (below : Level) (name : String) : ParserM Expr := do
  let _ ← expectOperator '(' (.unopenedCall name)
  let arguments ← if ← checkOperator ')' then pure [] else argumentList below name
  let _ ← expectOperator ')' (.unclosedCall name)
  return .call name arguments

/-- A name, a function applied to arguments, a number, or an expression in parentheses. -/
def primary (below : Level) : ParserM Expr := do
  match ← peek with
  | none =>
    let _ ← advance
    refuse .unexpectedEnd
  | some next =>
    let token ← advance
    match next.kind with
    | .identifier =>
      if ← checkOperator '(' then call below next.text else return .identifier next.text
    | .number => return .number next.text
    | .operator =>
      if next.isOperator '(' then
        let inner ← below.assignment
        let _ ← expectOperator ')' .unclosed
        return .grouping inner
      else refuse (.notAnOperand next.text) token

/-- A primary expression with any number of operators in front. -/
def unary (below : Level) : ParserM Expr := do
  match ← matchOperator ['+', '-'] with
  | some token =>
    let op ← unaryOperator token
    return .unary op (← below.unary)
  | none => primary below

/-- An operator of a chain with the operand after it, if there is an operator. -/
def link (ops : List Char) (operand : ParserM Expr) :
    ParserM (Option (BinaryOperator × Expr)) := do
  match ← matchOperator ops with
  | none => return none
  | some token =>
    let op ← binaryOperator token
    return some (op, ← operand)

/-- Operands with operators of one strength between them. -/
def chain (ops : List Char) (operand : ParserM Expr) : ParserM Expr := do
  let first ← operand
  return first.rightChain (← many (link ops operand))

/-- A product. -/
def multiplicative (below : Level) : ParserM Expr := chain ['*', '/'] (unary below)

/-- A sum. -/
def additive (below : Level) : ParserM Expr := chain ['+', '-'] (multiplicative below)

/-- The value that is assigned, if there is one. -/
def assignedValue (below : Level) : ParserM (Option Expr) := do
  match ← matchOperator ['='] with
  | some _ => return some (← below.assignment)
  | none => return none

/-- A sum, or a name with the value that it is to take. -/
def assignment (below : Level) : ParserM Expr := do
  let e ← additive below
  if e.isIdentifier then return .assignment e (← assignedValue below) else return e

/-- The rules with `n` more levels to open. -/
def level : Nat → Level
  | 0 => { assignment := refuse .tooDeep, unary := refuse .tooDeep }
  | n + 1 =>
    let below := level n
    { assignment := nested (assignment below), unary := nested (unary below) }

/-- One expression and nothing after it. -/
def program : ParserM Program := do
  let body ← (level maxNesting).assignment
  match ← advance with
  | some token => refuse (.trailing token.text) (some token)
  | none => return ⟨body⟩

end ParserM

namespace Parser

/-- Parses a new source; nothing of what the parser did before is left. -/
def parse (p : Parser) (source : String) : Except SyntaxError Program × Parser :=
  ParserM.program.outcome { lexer := p.lexer.reset source, depth := 0 }

/-- What the parser has done before does not matter. -/
theorem parse_eq (p : Parser) (source : String) : p.parse source = ({} : Parser).parse source := by
  rw [parse, parse, Lexer.reset_eq, Lexer.reset_eq]

end Parser

/-- The program that a source denotes. -/
def parse (source : String) : Except SyntaxError Program := (({} : Parser).parse source).1

end ExprView
