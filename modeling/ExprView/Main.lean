import ExprView.Command
import ExprView.Session.Frame

/-!
# The program
-/

namespace ExprView

/-- The rows of a screen as text. -/
def Screen.text (s : Screen) : String :=
  closedLines (s.rows.map fun row => String.ofList (row.map Cell.symbol))

end ExprView

open ExprView

/-- Runs the program. A session shows its first frame on a screen of 80 columns and 24 rows. -/
def main (arguments : List String) : IO UInt32 := do
  match Action.ofArguments programName arguments with
  | .session expression =>
    IO.print ((Session.start expression).draw 80 24).1.text
    return 0
  | .finish outcome =>
    (← IO.getStderr).putStr outcome.errors
    IO.print outcome.output
    return outcome.status.toUInt32
