import ExprView.Lexer.Basic
import ExprView.Parser.Rules
import ExprView.Record
import ExprView.Text.Pad

/-!
# The command line

What the program does with its arguments: it writes the tokens or the tree of an expression,
explains itself, or opens a session.
-/

namespace ExprView

/-- What to do with the expression. -/
inductive Mode where
  /-- Open a session. -/
  | session
  /-- Write the tokens. -/
  | tokens
  /-- Write the tree. -/
  | tree
  deriving DecidableEq, Repr, Inhabited

/-- What the arguments ask for. -/
inductive Request where
  /-- An explanation of the program. -/
  | help
  /-- Something the program does not know. -/
  | unknown (option : String)
  /-- Something to be done with the words of an expression. -/
  | run (mode : Mode) (words : List String)
  deriving DecidableEq, Repr, Inhabited

/-- Reads the arguments. The first one that is fatal decides; of the modes the last one counts. -/
def Request.ofArguments (mode : Mode) (words : List String) : List String → Request
  | [] => .run mode words
  | argument :: arguments =>
    if argument = "-h" ∨ argument = "--help" then .help
    else if argument = "--tokens" then ofArguments .tokens words arguments
    else if argument = "--ast" then ofArguments .tree words arguments
    else if argument.startsWith "--" then .unknown argument
    else ofArguments mode (words ++ [argument]) arguments

/-- What a run of the program leaves behind. -/
structure Outcome where
  /-- The exit status. -/
  status : Nat := 0
  /-- What it wrote to the standard output. -/
  output : String := ""
  /-- What it wrote to the standard error. -/
  errors : String := ""
  deriving DecidableEq, Repr, Inhabited

/-- A text of lines, each of them closed. -/
def closedLines (lines : List String) : String := String.join (lines.map (· ++ "\n"))

/-- The name under which the program explains itself. -/
def programName : String := "exprtty"

/-- How the program is used. -/
def usage (name : String) : List String :=
  ["Usage: " ++ name ++ " [--tokens | --ast] [EXPRESSION...]",
    "",
    "Without a flag, opens the interactive playground.",
    "",
    "Examples:",
    "  " ++ name ++ " \"x = 40 + (6 / 3.0)\"      # Edit an expression live",
    "  " ++ name ++ " --tokens \"foo(1, 2e3)\"    # Print the token stream",
    "  " ++ name ++ " --ast \"1 - 2 - 3\"         # Print the syntax tree as JSON"]

/-- Refuses the arguments. -/
def refuseArguments (name message : String) : Outcome where
  status := 1
  errors := closedLines (("Error: " ++ message) :: "" :: usage name)

/-- The line of a token. -/
def tokenLine (t : Token) : String :=
  padRight 11 t.kind.name ++ padRight 12 t.quoted ++ t.range

/-- Writes the tokens of a source. -/
def writeTokens (source : String) : Outcome :=
  let started := "Tokenizing expression..."
  match tokenize source with
  | .ok tokens =>
    { output := closedLines (tokens.map tokenLine)
      errors := closedLines [started, "Found " ++ toString tokens.length ++ " token(s)."] }
  | .error e => { status := 1, errors := closedLines [started, e.diagnostic.render] }

/-- Writes the tree of a source. -/
def writeTree (source : String) : Outcome :=
  let started := "Parsing expression..."
  match parse source with
  | .ok program => { output := closedLines [program.pretty], errors := closedLines [started] }
  | .error e =>
    { status := 1, errors := closedLines [started, "Parser error: " ++ e.diagnostic.render] }

/-- The expression of a session that is given none. -/
def defaultExpression : String := "x = 40 + (6 / 3.0)"

/-- What the program does. -/
inductive Action where
  /-- Opens a session. -/
  | session (expression : String)
  /-- Is done. -/
  | finish (outcome : Outcome)
  deriving DecidableEq, Repr, Inhabited

/-- What the program called `name` does with its arguments. -/
def Action.ofArguments (name : String) (arguments : List String) : Action :=
  match Request.ofArguments .session [] arguments with
  | .help => .finish { errors := closedLines (usage name) }
  | .unknown option => .finish (refuseArguments name ("Unknown option '" ++ option ++ "'"))
  | .run .session [] => .session defaultExpression
  | .run .session words => .session (" ".intercalate words)
  | .run _ [] => .finish (refuseArguments name "No expression provided")
  | .run .tokens words => .finish (writeTokens (" ".intercalate words))
  | .run .tree words => .finish (writeTree (" ".intercalate words))

end ExprView
