import ExprView.Parser.Error
import ExprView.Pane.Basic
import ExprView.Record
import ExprView.Screen.Wrap
import ExprView.Text.Lines

/-!
# The tree

The program as indented text, or the report of why there is none, wrapped at the width of the
pane.
-/

namespace ExprView

/-- The text of the pane. -/
def treeText : Except SyntaxError Program → String
  | .ok program => program.pretty
  | .error e => e.diagnostic.render

/-- The style of the text. -/
def treeStyle : Except SyntaxError Program → Style
  | .ok _ => palette.text.style
  | .error _ => palette.failure.style

/-- The lines of the text before they are wrapped. -/
def treeLines (program : Except SyntaxError Program) : List (List Char) :=
  splitLines (treeText program).toList

/-- The lines of the text as they are shown in `n` columns. -/
def treeRows (n : Nat) (program : Except SyntaxError Program) : List (List Char) :=
  (treeLines program).flatMap (wrapLine n)

/-- The scroll offset with which the text is drawn. It is bounded by the number of lines before
they are wrapped. -/
def treeScroll (area : Area) (program : Except SyntaxError Program) (scroll : Nat) : Nat :=
  clampScroll scroll (treeLines program).length area.height

/-- The tree or the report. -/
def treeLayers (area : Area) (program : Except SyntaxError Program) (focused : Bool)
    (scroll : Nat) : List Layer :=
  paneLayers area " Syntax Tree " focused (treeScroll area program scroll)
    ((treeRows area.inner.width program).map fun line =>
      layGlyphs (glyphsOf line (treeStyle program)))

end ExprView
