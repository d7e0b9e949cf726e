import ExprView.Lexer.Preview
import ExprView.Parser.Iterative

/-!
# Rules that call each other

The rules as they call each other: a rule goes on with the next one on the parser as it is, there are no
levels, and only the count of open rules stops the parser from opening one more. Nothing in the way in
which the rules call each other says that they come to an end. So a rule is given the rules that it
calls, and they are cut off where more than some number of calls would be within each other. A rule
comes to an end if there is a number with which nothing is cut off.

To look at the next token is to read it and to go back, and operators are looked for one after the other.
The parser is watched: whatever it is after a step is remembered.
-/

namespace ExprView

/-! ### Steps -/

namespace ParserM

/-- Looks at the next token by reading it and going back. -/
def lookAhead : ParserM (Option Lexeme) := fun p =>
  .ok p.lexer.lookAhead.1 { p with lexer := p.lexer.lookAhead.2 }

/-- Whether the next token is the operator `op`. -/
def looksAt (op : Char) : ParserM Bool := return (← lookAhead).any (·.isOperator op)

/-- Whether the next token is one of the operators, which are looked for in turn. -/
def looksAtAny : List Char → ParserM Bool
  | [] => return false
  | op :: ops => do if ← looksAt op then return true else looksAtAny ops

/-- Takes the next token if it is one of the operators. -/
def takeOperator (ops : List Char) : ParserM (Option Token) := do
  if ← looksAtAny ops then advance else return none

/-- Counts one more rule as open, if there may be one more. -/
def enter : ParserM Unit := fun p =>
  if maxNesting ≤ p.depth then (refuse .tooDeep : ParserM Unit) p
  else .ok () { p with depth := p.depth + 1 }

/-- Counts one rule less as open. -/
def leave : ParserM Unit := fun p => .ok () { p with depth := p.depth - 1 }

end ParserM

/-- A parser and those that it was on the way. -/
structure Watch where
  /-- The parser. -/
  parser : Parser
  /-- What it was after each step, the first one in front. -/
  seen : List Parser := []

/-- A rule on a parser that is watched. If it is cut off there is no result. -/
abbrev Watched := ExceptT SyntaxError (StateT Watch Option)

namespace Watched

open ParserM

/-- Does a step and remembers what the parser is after it. -/
def step {α : Type} (x : ParserM α) : Watched α := fun w =>
  let (result, p) := x.outcome w.parser
  some (result, { parser := p, seen := w.seen ++ [p] })

/-- The chains, by the strength of their operators. -/
inductive Strength where
  /-- Sums and differences. -/
  | sum
  /-- Products and quotients. -/
  | product

/-- The operators of a chain. -/
def Strength.operators : Strength → List Char
  | .sum => ['+', '-']
  | .product => ['*', '/']

/-- What is counted as open. -/
inductive Opening where
  /-- An expression that may be assigned to. -/
  | assignment
  /-- The operand of an operator in front. -/
  | operand

/-! ### Rules -/

/-- The rules that a rule can call. -/
structure Calls where
  /-- An expression. -/
  expression : Watched Expr
  /-- An expression that may be assigned to. -/
  assignment : Watched Expr
  /-- What is opened and closed. -/
  nested : Opening → Watched Expr
  /-- A sum, or a name with the value that it is to take. -/
  target : Watched Expr
  /-- Operands with operators of one strength between them. -/
  chain : Strength → Watched Expr
  /-- An operand of a chain. -/
  operand : Strength → Watched Expr
  /-- The operators of a chain with the operands after them. -/
  links : Strength → List (BinaryOperator × Expr) → Watched (List (BinaryOperator × Expr))
  /-- A primary expression with any number of operators in front. -/
  unary : Watched Expr
  /-- A primary expression. -/
  primary : Watched Expr
  /-- The arguments of a function with their parentheses. -/
  call : String → Watched Expr
  /-- The arguments of a function. -/
  argumentList : String → Watched (List Expr)
  /-- The arguments after commas. -/
  moreArguments : String → List Expr → Watched (List Expr)

section
variable (calls : Calls)

/-- An expression. -/
def expression : Watched Expr := calls.assignment

/-- An expression that may be assigned to. -/
def assignment : Watched Expr := calls.nested .assignment

/-- The rule that is opened. -/
def Opening.rule : Opening → Watched Expr
  | .assignment => calls.target
  | .operand => calls.unary

/-- Opens a rule, and closes it whatever comes of it. -/
def nested (opening : Opening) : Watched Expr := (do
  match ← (step enter).run with
  | .error e => return .error e
  | .ok () =>
    let result ← (opening.rule calls).run
    let _ ← (step leave).run
    return result : StateT Watch Option (Except SyntaxError Expr))

/-- A sum, or a name with the value that it is to take. -/
def target : Watched Expr := do
  let e ← calls.chain .sum
  if e.isIdentifier then
    match ← step (takeOperator ['=']) with
    | some _ => return .assignment e (some (← calls.assignment))
    | none => return .assignment e none
  else return e

/-- Operands with operators of one strength between them. -/
def chain (strength : Strength) : Watched Expr := do
  let first ← calls.operand strength
  return first.foldChain (← calls.links strength [])

/-- An operand of a chain. -/
def operand : Strength → Watched Expr
  | .sum => calls.chain .product
  | .product => calls.unary

/-- The operators of a chain with the operands after them, put behind those that there are. -/
def links (strength : Strength) (done : List (BinaryOperator × Expr)) :
    Watched (List (BinaryOperator × Expr)) := do
  match ← step (takeOperator strength.operators) with
  | none => return done
  | some token =>
    let op ← step (binaryOperator token)
    let e ← calls.operand strength
    calls.links strength (done ++ [(op, e)])

/-- A primary expression with any number of operators in front. -/
def unary : Watched Expr := do
  match ← step (takeOperator ['+', '-']) with
  | some token =>
    let op ← step (unaryOperator token)
    return .unary op (← calls.nested .operand)
  | none => calls.primary

/-- A name, a function applied to arguments, a number, or an expression in parentheses. -/
def primary : Watched Expr := do
  match ← step lookAhead with
  | none =>
    let _ ← step advance
    step (refuse .unexpectedEnd)
  | some next =>
    let token ← step advance
    match next.kind with
    | .identifier =>
      if ← step (looksAt '(') then calls.call next.text else return .identifier next.text
    | .number => return .number next.text
    | .operator =>
      if next.isOperator '(' then
        let inner ← calls.assignment
        let _ ← step (expectOperator ')' .unclosed)
        return .grouping inner
      else step (refuse (.notAnOperand next.text) token)

/-- The arguments of a function with their parentheses. -/
def call (name : String) : Watched Expr := do
  let _ ← step (expectOperator '(' (.unopenedCall name))
  let arguments ← if ← step (looksAt ')') then pure [] else calls.argumentList name
  let _ ← step (expectOperator ')' (.unclosedCall name))
  return .call name arguments

/-- The arguments of a function, at least one. -/
def argumentList (name : String) : Watched (List Expr) := do
  let first ← calls.expression
  calls.moreArguments name [first]

/-- The arguments after commas, put behind those that there are. -/
def moreArguments (name : String) (done : List Expr) : Watched (List Expr) := do
  match ← step (takeOperator [',']) with
  | none => return done
  | some comma =>
    if ← step (looksAt ')') then step (refuse (.missingArgument name) (some comma))
    else
      let e ← calls.expression
      calls.moreArguments name (done ++ [e])

/-- One expression and nothing after it. -/
def program : Watched Program := do
  let body ← calls.expression
  match ← step advance with
  | some token => step (refuse (.trailing token.text) (some token))
  | none => return ⟨body⟩

end

/-- No result. -/
def cutOff {α : Type} : Watched α := fun _ => none

/-- The rules as they call each other, up to `n` calls within each other. -/
def calls : Nat → Calls
  | 0 =>
    { expression := cutOff, assignment := cutOff, nested := fun _ => cutOff, target := cutOff
      chain := fun _ => cutOff, operand := fun _ => cutOff, links := fun _ _ => cutOff
      unary := cutOff, primary := cutOff, call := fun _ => cutOff, argumentList := fun _ => cutOff
      moreArguments := fun _ _ => cutOff }
  | n + 1 =>
    let rules := calls n
    { expression := expression rules, assignment := assignment rules, nested := nested rules
      target := target rules, chain := chain rules, operand := operand rules, links := links rules
      unary := unary rules, primary := primary rules, call := call rules
      argumentList := argumentList rules, moreArguments := moreArguments rules }

/-- The rule comes to an end, and this is its result: it is if enough calls may be within each other. -/
def Ends {α : Type} (rule : Calls → Watched α) (w : Watch) (result : Except SyntaxError α × Watch) :
    Prop := ∃ n, ∀ m, n ≤ m → rule (calls m) w = some result

/-- The rules of the grammar. -/
inductive Rule where
  /-- An expression. -/
  | expression
  /-- An expression that may be assigned to. -/
  | assignment
  /-- A sum. -/
  | additive
  /-- A product. -/
  | multiplicative
  /-- A primary expression with any number of operators in front. -/
  | unary
  /-- A primary expression. -/
  | primary
  /-- The arguments of a function with their parentheses. -/
  | call (name : String)
  /-- The arguments of a function. -/
  | arguments (name : String)

namespace Rule

/-- What a rule makes of the tokens that it reads. -/
def Tree : Rule → Type
  | .arguments _ => List Expr
  | _ => Expr

/-- The rule as it is called. -/
def watched : (r : Rule) → Calls → Watched r.Tree
  | .expression => (·.expression)
  | .assignment => (·.assignment)
  | .additive => (·.chain .sum)
  | .multiplicative => (·.chain .product)
  | .unary => (·.unary)
  | .primary => (·.primary)
  | .call name => (·.call name)
  | .arguments name => (·.argumentList name)

/-- The rule with the rules below it that open a level. -/
def onLevel (below : Level) : (r : Rule) → ParserM r.Tree
  | .expression | .assignment => below.assignment
  | .additive => ParserM.additive below
  | .multiplicative => ParserM.multiplicative below
  | .unary => ParserM.unary below
  | .primary => ParserM.primary below
  | .call name => ParserM.call below name
  | .arguments name => ParserM.argumentList below name

end Rule

end Watched

end ExprView
