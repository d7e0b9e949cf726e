import ExprView.Lexer.Basic

/-!
# Runs of a lexer

A lexer is used step by step, and copies of it can be kept and gone back to. Each step has an
answer.
-/

namespace ExprView

/-- What can be done with a lexer. -/
inductive LexerStep where
  /-- Read a token. -/
  | next
  /-- Look at a token. -/
  | peek
  /-- Read all tokens. -/
  | remaining
  /-- Ask for the source. -/
  | source
  /-- Keep a copy. -/
  | save
  /-- Go back to a copy. They are counted from the one that was kept last. -/
  | restore (copy : Nat := 0)
  /-- Go to the start of a new source. -/
  | reset (source : String)
  deriving DecidableEq, Repr

/-- What a step answers. -/
inductive LexerAnswer where
  /-- The token that was read. -/
  | token (result : Except LexError (Option Token))
  /-- The token that was seen. -/
  | preview (lexeme : Option Lexeme)
  /-- The tokens that were read. -/
  | tokens (result : Except LexError (List Token))
  /-- The source. -/
  | source (text : String)
  /-- Nothing to be told. -/
  | done

/-- A lexer and its copies. -/
structure LexerState where
  /-- The lexer in use. -/
  lexer : Lexer := {}
  /-- The copies, the one that was kept last in front. -/
  saved : List Lexer := []
  deriving DecidableEq, Repr, Inhabited

namespace LexerState

/-- Does one step. Where there is no such copy to go back to, there is a lexer that was never
given a source. -/
def step (s : LexerState) : LexerStep → LexerAnswer × LexerState
  | .next => (.token s.lexer.next.1, { s with lexer := s.lexer.next.2 })
  | .peek => (.preview s.lexer.peek, s)
  | .remaining => (.tokens s.lexer.remaining.1, { s with lexer := s.lexer.remaining.2 })
  | .source => (.source s.lexer.source, s)
  | .save => (.done, { s with saved := s.lexer :: s.saved })
  | .restore n => (.done, { s with lexer := s.saved.getD n {} })
  | .reset source => (.done, { s with lexer := s.lexer.reset source })

/-- Does steps one after the other. Each answer comes with the state after it. -/
def run (s : LexerState) : List LexerStep → List (LexerAnswer × LexerState)
  | [] => []
  | step :: steps => s.step step :: run (s.step step).2 steps

end LexerState

end ExprView
