import ExprView.Highlight
import ExprView.Pane.Basic

/-!
# The line that is edited

The line is moved to the left as far as it takes to keep the cursor inside the pane.
-/

namespace ExprView

/-- The number of columns by which the line is moved for a cursor behind `cursor` characters. -/
def inputScroll (area : Area) (cursor : Nat) : Nat := cursor - (max area.inner.width 1 - 1)

/-- The line, coloured by its tokens. -/
def inputLayers (area : Area) (source : String) (cursor : Nat)
    (tokens : Except LexError (List Token)) : List Layer :=
  let scroll := inputScroll area cursor % drawnOffsets
  paneLayers area " Expression " true 0
    [layGlyphs (visibleGlyphs area.inner.width scroll (rowGlyphs (highlight source tokens)))]

/-- Where the cursor stands. -/
def inputCursor (area : Area) (cursor : Nat) : Nat × Nat :=
  (area.inner.x + (cursor - inputScroll area cursor), area.inner.y)

end ExprView
