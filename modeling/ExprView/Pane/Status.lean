import ExprView.Palette
import ExprView.Pane.Basic

/-!
# The status bar

On the left whether the source is sound, with a message; on the right the keys.
-/

namespace ExprView

/-- Text on the status bar. -/
def barStyle (c : Color) : Style := { c.style with background := some palette.statusBar }

/-- Whether the source is sound. -/
def badge (ok : Bool) : Span where
  text := if ok then " OK " else " ERROR "
  style :=
    { foreground := some .black
      background := some (if ok then palette.success else palette.failure)
      bold := true }

/-- The left side of the bar. -/
def statusSpans (message : String) (ok : Bool) : List Span :=
  [badge ok, { text := " | ", style := barStyle palette.comment },
    { text := " " ++ message ++ " "
      style := barStyle (if ok then palette.text else palette.failure) }]

/-- A key and what it does. -/
def keyHint (key hint : String) : List Span :=
  [{ text := key, style := { barStyle palette.key with bold := true } },
    { text := hint, style := barStyle palette.comment }]

/-- The right side of the bar. -/
def hintSpans : List Span :=
  keyHint "Tab" " focus  " ++ keyHint "↑↓" " scroll  " ++ keyHint "Esc" " quit "

/-- A row on a bar of one colour. -/
def barLayers (area : Area) (row : List (Option Glyph)) : List Layer :=
  [.fill area { background := some palette.statusBar }, .text area [row]]

/-- The status bar. -/
def statusLayers (area : Area) (message : String) (ok : Bool) : List Layer :=
  let split := share 60 area.width
  let left := area.left split
  let right := area.afterLeft split
  barLayers left (cutRow left (statusSpans message ok)) ++
    barLayers right (layRight right.width (visibleGlyphs right.width 0 (rowGlyphs hintSpans)))

end ExprView
