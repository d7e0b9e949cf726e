import ExprView.Palette
import ExprView.Screen.Layer

/-!
# Panes

A pane has a frame with a title, and rows of text inside it. Rows above the scroll offset are
not shown.

## Scope

A scroll offset is cut to sixteen bits when it is drawn. ratatui, which draws the panes, adds the
height of the pane to what is left, in sixteen bits again, and does not say what comes of an offset
for which they do not suffice. It is assumed here that such an offset, one that lies within the height
of the pane below 2 ^ 16, is drawn like any other. What is said of the rows that a pane shows rests on
that where offsets come so close to 2 ^ 16.
-/

namespace ExprView

/-- Offsets by which text is moved when it is drawn are counted modulo this number. All that are left
then are drawn alike, by assumption also those within the height of a pane below it. -/
def drawnOffsets : Nat := 65536

/-- The offset that is closest to `scroll` among those at which `lines` lines still fill the inside
of a pane of `height` rows, as far as they can. -/
def clampScroll (scroll lines height : Nat) : Nat := min scroll (lines - (height - 2))

/-- A frame and rows in it, from the row on that is at the offset modulo `drawnOffsets`. No remainder is
an exception, however close to `drawnOffsets` it is. -/
def paneLayers (area : Area) (title : String) (focused : Bool) (scroll : Nat)
    (rows : List (List (Option Glyph))) : List Layer :=
  [.border area (frameStyle focused) title,
    .text area.inner (rows.drop (scroll % drawnOffsets))]

/-- A row that is cut at the width of an area. -/
def cutRow (area : Area) (spans : List Span) : List (Option Glyph) :=
  layGlyphs (visibleGlyphs area.width 0 (rowGlyphs spans))

end ExprView
