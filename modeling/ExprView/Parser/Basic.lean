import ExprView.Lexer.Basic
import ExprView.Parser.Error

/-!
# Reading tokens

The parser is a lexer with a count of the rules that are open. The steps of this module look
at the next token or take it; the grammar's rules, in `ExprView.Parser.Rules`, are built from
them. A step that fails leaves the parser as it was when the failure arose.

The parser looks one token ahead. A text that cannot be scanned shows as no token while it is
looked at, and as the lexical error when it is taken.
-/

namespace ExprView

/-- The number of rules that may be open at once. -/
def maxNesting : Nat := 64

/-- A parser in the middle of a source. -/
structure Parser where
  /-- The source and the place in it. -/
  lexer : Lexer := {}
  /-- The number of open rules. -/
  depth : Nat := 0
  deriving DecidableEq, Repr, Inhabited

/-- A step of the parser. -/
abbrev ParserM := EStateM SyntaxError Parser

namespace ParserM

/-- What a step comes to, and the parser after it. -/
def outcome {α : Type} (step : ParserM α) (p : Parser) : Except SyntaxError α × Parser :=
  match step p with
  | .ok a q => (.ok a, q)
  | .error e q => (.error e, q)

/-- Fails for a reason, at a token if there is one. -/
def refuse {α : Type} (cause : ParseError.Cause) (found : Option Token := none) : ParserM α :=
  throw (.grammatical ⟨cause, found⟩)

/-- Looks at the next token. -/
def peek : ParserM (Option Lexeme) := return (← get).lexer.peek

/-- Takes the next token. -/
def advance : ParserM (Option Token) := fun p =>
  match p.lexer.next with
  | (.ok token, lexer) => .ok token { p with lexer }
  | (.error e, lexer) => .error (.lexical e) { p with lexer }

/-- Whether the next token is the operator `op`. -/
def checkOperator (op : Char) : ParserM Bool := return (← peek).any (·.isOperator op)

/-- Takes the next token if it is one of the operators `ops`. -/
def matchOperator (ops : List Char) : ParserM (Option Token) := do
  match ← peek with
  | some next => if ops.any next.isOperator then advance else return none
  | none => return none

/-- Takes the next token, which must be the operator `op`. -/
def expectOperator (op : Char) (cause : ParseError.Cause) : ParserM Token := do
  match ← advance with
  | some token => if token.isOperator op then return token else refuse cause (some token)
  | none => refuse cause

/-- Opens a rule, and closes it whatever comes of it. -/
def nested {α : Type} (rule : ParserM α) : ParserM α := fun p =>
  if maxNesting ≤ p.depth then (refuse .tooDeep : ParserM α) p
  else
    match rule { p with depth := p.depth + 1 } with
    | .ok a q => .ok a { q with depth := q.depth - 1 }
    | .error e q => .error e { q with depth := q.depth - 1 }

/-- Repeats a step until it yields nothing. It must take something each time it yields. -/
def many {α : Type} (step : ParserM (Option α)) : ParserM (List α) := fun p =>
  match step p with
  | .error e q => .error e q
  | .ok none q => .ok [] q
  | .ok (some a) q =>
    if q.lexer.rest.length < p.lexer.rest.length then
      match many step q with
      | .ok as r => .ok (a :: as) r
      | .error e r => .error e r
    else .ok [a] q
termination_by p => p.lexer.rest.length

end ParserM

end ExprView
