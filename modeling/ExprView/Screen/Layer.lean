import ExprView.Screen.Cell
import ExprView.Screen.Row

/-!
# Layers

What is drawn on the screen, one thing over the other: a style over an area, a border with a
title, or rows of text. A layer says for each cell what becomes of it.

## Scope

Layers stand for the widgets of ratatui that the panes consist of: a block with plain borders on all
sides and its title in the upper one, and a paragraph with its own style, which is set on its whole
area, and its text. A style sets the colours that it has and adds its emphasis, as documented.
-/

namespace ExprView

/-- Something to be drawn. -/
inductive Layer where
  /-- A style over a whole area. -/
  | fill (area : Area) (style : Style)
  /-- A frame of lines around an area, with a title on the upper one. -/
  | border (area : Area) (style : Style) (title : String)
  /-- Rows of cells from the upper left corner of an area; those below the area are not seen. -/
  | text (area : Area) (rows : List (List (Option Glyph)))
  deriving DecidableEq, Repr, Inhabited

/-- The line that a frame of `w` columns and `h` rows has in column `i` of row `j`. -/
def frameSymbol (w h i j : Nat) : Option Char :=
  if i = 0 ∧ j = 0 then some '┌'
  else if i = 0 ∧ j + 1 = h then some '└'
  else if i + 1 = w ∧ j = 0 then some '┐'
  else if i + 1 = w ∧ j + 1 = h then some '┘'
  else if j + 1 = h then some '─'
  else if i + 1 = w then some '│'
  else if j = 0 then some '─'
  else if i = 0 then some '│'
  else none

/-- The title's character in column `i` of a frame of `w` columns. -/
def titleSymbol (w : Nat) (title : String) (i : Nat) : Option Char :=
  if i = 0 then none else
    let gs := visibleGlyphs (w - 2) 0 (glyphsOf title.toList {})
    ((layGlyphs gs)[i - 1]?).join.map Glyph.symbol

/-- What becomes of the cell in column `x` of row `y`. -/
def Layer.paint (x y : Nat) (cell : Cell) : Layer → Cell
  | .fill area style => if area.contains x y then cell.restyle style else cell
  | .border area style title =>
    if area.contains x y then
      let i := x - area.x
      let j := y - area.y
      let caption := if j = 0 then titleSymbol area.width title i else none
      match caption <|> frameSymbol area.width area.height i j with
      | some symbol => { cell with symbol }.restyle style
      | none => cell
    else cell
  | .text area rows =>
    if area.x ≤ x ∧ area.y ≤ y ∧ y < area.y + area.height then
      match ((rows[y - area.y]?).bind (·[x - area.x]?)).join with
      | some g => { cell with symbol := g.symbol }.restyle g.style
      | none => cell
    else cell

end ExprView
