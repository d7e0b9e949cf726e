/-!
# Diagnostics

What is shown of a failure: a message, and the place it belongs to. The causes themselves are
in `ExprView.Lexer.Error` and `ExprView.Parser.Error`; each of them is turned into a diagnostic
to be read by people.
-/

namespace ExprView

/-- A failure as it is reported. -/
inductive Diagnostic where
  /-- The text cannot be split into tokens; the scan that failed started at `offset`. -/
  | lexical (message : String) (offset : Nat)
  /-- The tokens are no expression; the token at fault and its offset, where there is one. -/
  | grammatical (message : String) (token : Option String) (offset : Option Nat)
  deriving DecidableEq, Repr

/-- What is wrong, without the place. -/
def Diagnostic.message : Diagnostic → String
  | .lexical message _ => message
  | .grammatical message _ _ => message

/-- The line that reports the failure. -/
def Diagnostic.render : Diagnostic → String
  | .lexical message offset => "Lexer error at offset " ++ toString offset ++ ": " ++ message
  | .grammatical message _ (some offset) =>
    "Parse error at offset " ++ toString offset ++ ": " ++ message
  | .grammatical message _ none => "Parse error: " ++ message

end ExprView
