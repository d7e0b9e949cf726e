import ExprView.Expr.Nesting
import ExprView.Grammar
import ExprView.Lexer.Lexeme
import ExprView.Lexer.Run
import ExprView.Main
import ExprView.Parser.Recursive
import ExprView.Proofs.Lexer.Reading
import ExprView.Session.Line
import ExprView.Session.Run
import ExprView.Proofs.Lexer.Locality
import ExprView.Proofs.Grammar.Follow
import ExprView.Proofs.Grammar.Refusal
import ExprView.Proofs.Grammar.Completion
import ExprView.Proofs.Parser.Steady
import ExprView.Proofs.Parser.Steps
import ExprView.Proofs.Parser.Agreement
import ExprView.Proofs.Parser.Report
import ExprView.Proofs.Parser.Outcome
import ExprView.Proofs.Grammar.Canonical
import ExprView.Proofs.Parser.RoundTrip
import ExprView.Proofs.Parser.Exactness
import ExprView.Proofs.Parser.Faults
import ExprView.Proofs.Parser.Place
import ExprView.Proofs.Lexer.Decomposition
import ExprView.Proofs.Parser.Unfinished
import ExprView.Proofs.Session.Editing
import ExprView.Proofs.Session.Freshness
import ExprView.Proofs.Lexer.Cursor
import ExprView.Proofs.Parser.Blanks
import ExprView.Proofs.Json.Layout
import ExprView.Proofs.Json.Trees
import ExprView.Proofs.Command.Lines
import ExprView.Proofs.Command.Reports
import ExprView.Proofs.Lexer.Failure
import ExprView.Proofs.Lexer.Preview
import ExprView.Proofs.Parser.Chains
import ExprView.Proofs.Lexer.Literal
import ExprView.Highlight.Offsets
import ExprView.Proofs.Highlight.Spans
import ExprView.Proofs.Screen.Cells
import ExprView.Proofs.Screen.Window
import ExprView.Proofs.Pane.Tokens
import ExprView.Proofs.Pane.Tree
import ExprView.Proofs.Pane.Input
import ExprView.Proofs.Lexer.Appending
import ExprView.Proofs.Session.Drawing
import ExprView.Proofs.Pane.Colours
import ExprView.Parser.Watched
import ExprView.Proofs.Command.Arguments
import ExprView.Proofs.Session.Parts
import ExprView.Proofs.Parser.Watched
import ExprView.Proofs.Parser.Balance
import ExprView.Proofs.Parser.Granted
import ExprView.Proofs.Pane.Lines
