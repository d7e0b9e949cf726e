import ExprView.Token
import ExprView.Lexer.Error

/-!
# Errors of a whole analysis

Why a text is no expression: either it cannot be split into tokens, or its tokens do not form
an expression.
-/

namespace ExprView

/-- Why tokens form no expression. -/
inductive ParseError.Cause where
  /-- Too many rules are open at once. -/
  | tooDeep
  /-- The source ends where an operand is due. -/
  | unexpectedEnd
  /-- A whole expression is followed by more. -/
  | trailing (text : String)
  /-- An operator stands where an operand is due. -/
  | notAnOperand (text : String)
  /-- A parenthesis is not closed. -/
  | unclosed
  /-- The arguments of a function are not opened. -/
  | unopenedCall (name : String)
  /-- The arguments of a function are not closed. -/
  | unclosedCall (name : String)
  /-- The last argument of a function is missing. -/
  | missingArgument (name : String)
  /-- A symbol was read as an operator and is none. -/
  | noSuchOperator (symbol : String)
  deriving DecidableEq, Repr

/-- The place of an error within a call. -/
def inCallOf (name : String) : String := " in a function call \"" ++ name ++ "\""

/-- The wording of a cause. -/
def ParseError.Cause.message : ParseError.Cause → String
  | .tooDeep => "Expression nested too deeply"
  | .unexpectedEnd => "Unexpected termination of expression"
  | .trailing text => "Unexpected token " ++ text
  | .notAnOperand text => "Parse error, can not process token " ++ text
  | .unclosed => "Expecting )"
  | .unopenedCall name => "Expecting (" ++ inCallOf name
  | .unclosedCall name => "Expecting )" ++ inCallOf name
  | .missingArgument name => "Expecting an expression after ," ++ inCallOf name
  | .noSuchOperator symbol => "No operator " ++ symbol

/-- Tokens that form no expression, and the token at which that shows. At the end of the source
there is none. -/
structure ParseError where
  /-- Why they form none. -/
  cause : ParseError.Cause
  /-- The token at fault. -/
  found : Option Token := none
  deriving DecidableEq, Repr

/-- The error as it is reported. -/
def ParseError.diagnostic (e : ParseError) : Diagnostic :=
  .grammatical e.cause.message (e.found.map fun t => t.text) (e.found.map fun t => t.start)

/-- Why a text is no expression. -/
inductive SyntaxError where
  /-- It cannot be split into tokens. -/
  | lexical (error : LexError)
  /-- Its tokens form no expression. -/
  | grammatical (error : ParseError)
  deriving DecidableEq, Repr

/-- The error as it is reported. -/
def SyntaxError.diagnostic : SyntaxError → Diagnostic
  | .lexical e => e.diagnostic
  | .grammatical e => e.diagnostic

end ExprView
