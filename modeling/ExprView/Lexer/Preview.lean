import ExprView.Lexer.Run

/-!
# Looking ahead by reading

A lexer finds out what comes next by reading it. It does the whole scan, or as much of it as does
not fail, and then puts the cursor back to where it was, and with it the place where the scan before
had started. What is left to read is found again in the source.
-/

namespace ExprView

namespace Lexer

/-- The lexer with its cursor at a byte offset, and another one for the start of its last scan. -/
def moveTo (l : Lexer) (position mark : Nat) : Lexer :=
  { l with rest := (splitBytes position l.source.toList).2, position, mark }

/-- Reads the next token and goes back. A failing scan shows as no token. -/
def lookAhead (l : Lexer) : Option Lexeme × Lexer :=
  let (result, l') := l.next
  (result.toOption.join.map Token.toLexeme, l'.moveTo l.position l.mark)

end Lexer

namespace LexerState

/-- Does one step, where looking at a token is reading it and going back. -/
def stepReading (s : LexerState) : LexerStep → LexerAnswer × LexerState
  | .peek => (.preview s.lexer.lookAhead.1, { s with lexer := s.lexer.lookAhead.2 })
  | step => s.step step

/-- Does steps one after the other. Each answer comes with the state after it. -/
def runReading (s : LexerState) : List LexerStep → List (LexerAnswer × LexerState)
  | [] => []
  | step :: steps => s.stepReading step :: runReading (s.stepReading step).2 steps

/-- The state after the steps. -/
def after (s : LexerState) (steps : List LexerStep) : LexerState :=
  steps.foldl (fun s step => (s.stepReading step).2) s

end LexerState

end ExprView
