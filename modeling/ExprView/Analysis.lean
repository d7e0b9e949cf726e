import ExprView.Parser.Rules

/-!
# Analysis

The tokens and the program of one source. An analyser keeps one lexer and one parser and uses
them for source after source; what it finds in one does not depend on those before it.

## Main statements

* `Analyser.run_eq`: an analyser that has been used finds what a new one finds.
* `Analysis.ofSource_tokens`, `Analysis.ofSource_program`: an analysis holds the tokens and the
  program of its source.
-/

namespace ExprView

/-- What is known of a source. -/
structure Analysis where
  /-- Its tokens, or why it has none. -/
  tokens : Except LexError (List Token)
  /-- Its program, or why it has none. -/
  program : Except SyntaxError Program

/-- Whether both were found. -/
def Analysis.isOk (a : Analysis) : Bool := a.tokens.isOk && a.program.isOk

/-- The line that sums up the analysis. -/
def Analysis.status (a : Analysis) : String :=
  match a.tokens, a.program with
  | .ok tokens, .ok _ => "Parsed " ++ toString tokens.length ++ " token(s)"
  | _, .error e => e.diagnostic.render
  | .error e, .ok _ => e.diagnostic.render

/-- The lexer and the parser that are used again and again. -/
structure Analyser where
  /-- Splits the source into tokens. -/
  lexer : Lexer := {}
  /-- Reads the source as a program. -/
  parser : Parser := {}

/-- Analyses a source. -/
def Analyser.run (a : Analyser) (source : String) : Analysis × Analyser :=
  let tokens := (a.lexer.reset source).remaining
  let program := a.parser.parse source
  ({ tokens := tokens.1, program := program.1 }, { lexer := tokens.2, parser := program.2 })

/-- The analysis of a source by an analyser that has not been used. -/
def Analysis.ofSource (source : String) : Analysis := (Analyser.run {} source).1

/-- What an analyser has done before does not matter. -/
theorem Analyser.run_eq (a : Analyser) (source : String) :
    a.run source = Analyser.run {} source := by
  rw [run, run, Parser.parse_eq a.parser, Lexer.reset_eq, Lexer.reset_eq]

/-- The tokens of an analysis are those of the source. -/
theorem Analysis.ofSource_tokens (source : String) :
    (Analysis.ofSource source).tokens = tokenize source := by
  rw [Analysis.ofSource, Analyser.run, tokenize, Lexer.reset_eq]

/-- The program of an analysis is that of the source. -/
theorem Analysis.ofSource_program (source : String) :
    (Analysis.ofSource source).program = parse source := by
  rw [Analysis.ofSource, Analyser.run, parse]

end ExprView
