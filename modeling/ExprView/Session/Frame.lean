import ExprView.Pane.Input
import ExprView.Pane.Status
import ExprView.Pane.Tokens
import ExprView.Pane.Tree
import ExprView.Screen.Basic
import ExprView.Session.Basic

/-!
# Frames

The line on top, the two panes side by side below it, and the status bar at the bottom. Drawing
a frame brings the scroll offsets back to where there is something to show.

## Scope

`Places.ofSize` stands for the layouts of ratatui by which a frame is divided: rows of three, of the rest
and of one, and the rest in columns of 40 and 60 percent. What is documented is that these sizes are
kept where there is room. Which of them gives way first on a screen of fewer than four rows, and that a
share is rounded to the nearest number, is stated as the library does it.
-/

namespace ExprView

/-- Where things are on the screen. -/
structure Places where
  /-- The line. -/
  input : Area
  /-- The table of tokens. -/
  tokens : Area
  /-- The tree. -/
  tree : Area
  /-- The status bar. -/
  status : Area
  deriving DecidableEq, Repr, Inhabited

/-- The places on a screen of `w` columns and `h` rows, as the layout of the library divides it. Where
there are too few rows, the status bar comes first and the line second. -/
def Places.ofSize (w h : Nat) : Places :=
  let bar := min 1 h
  let line := min 3 (h - bar)
  let screen : Area := { x := 0, y := 0, width := w, height := h }
  let below := screen.afterTop line
  let middle := below.top (h - bar - line)
  let split := share 40 w
  { input := screen.top line
    tokens := middle.left split
    tree := middle.afterLeft split
    status := below.afterTop (h - bar - line) }

namespace Session

/-- The session with its scroll offsets brought back. -/
def clampScrolls (s : Session) (p : Places) : Session :=
  { s with
    tokensScroll := ExprView.tokensScroll p.tokens s.analysis.tokens s.tokensScroll
    treeScroll := ExprView.treeScroll p.tree s.analysis.program s.treeScroll }

/-- What is drawn. -/
def layers (s : Session) (p : Places) : List Layer :=
  inputLayers p.input s.input s.cursor s.analysis.tokens ++
    tokensLayers p.tokens s.analysis.tokens (s.focus == .tokens) s.tokensScroll ++
    treeLayers p.tree s.analysis.program (s.focus == .tree) s.treeScroll ++
    statusLayers p.status s.status s.analysis.isOk

/-- Draws a frame. -/
def draw (s : Session) (w h : Nat) : Screen × Session :=
  let places := Places.ofSize w h
  (Screen.draw w h (s.layers places) (inputCursor places.input s.cursor), s.clampScrolls places)

end Session

end ExprView
