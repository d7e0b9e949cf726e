import ExprView.Screen.Layer

/-!
# The screen

The layers are drawn in order on cells that are blank. A terminal shows a symbol of two columns
over the cell after it, so that cell is left blank whatever was drawn there.

## Scope

This stands for the buffer of ratatui, in which a frame is put together cell by cell, and for what a
terminal that was empty shows of it. It follows what is documented of them: widgets are drawn one over
the other, a cell keeps what is not drawn over, and the cells that a wide symbol covers are not
written. Nothing is said of a second frame on the same terminal, and nothing of escape sequences.
-/

namespace ExprView

/-- A drawn screen and the place of the cursor, which need not be on it. -/
structure Screen where
  /-- The rows of cells. -/
  rows : List (List Cell)
  /-- The column and the row of the cursor. -/
  cursor : Nat × Nat := (0, 0)
  deriving DecidableEq, Repr, Inhabited

/-- The cell that the layers leave in column `x` of row `y`. -/
def paintCell (layers : List Layer) (x y : Nat) : Cell := layers.foldl (Layer.paint x y) {}

/-- Blanks the cells that symbols of two columns cover; `covered` says whether the first one is. -/
def hideCovered (covered : Bool) : List Cell → List Cell
  | [] => []
  | cell :: cells => (if covered then {} else cell) :: hideCovered (isWide cell.symbol) cells

/-- Draws layers on a screen of `w` columns and `h` rows. -/
def Screen.draw (w h : Nat) (layers : List Layer) (cursor : Nat × Nat := (0, 0)) : Screen where
  rows := (List.range h).map fun y =>
    hideCovered false ((List.range w).map fun x => paintCell layers x y)
  cursor := cursor

end ExprView
