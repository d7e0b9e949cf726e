import ExprView.Text.Columns
import ExprView.Screen.Style

/-!
# Rows of text

A row of spans becomes a row of glyphs, which is scrolled, cut to a width and laid out in cells.
A glyph of two columns is drawn in the first of them, and nothing is drawn in the second.

## Scope

This stands for a line of the paragraph of ratatui without wrapping. Documented of it are the spans
with their styles, the alignment at the left or the right edge, and that the line is cut at the edge
of its area and moved to the left by the scroll offset; what becomes of a wide symbol at either edge
is stated as the library does it. A symbol is a single character here, as in `Text.Columns`.

## Main statements

* `glyphsWidth_takeColumns_le`: what is kept fits.
-/

namespace ExprView

/-- A character in its style. -/
structure Glyph where
  /-- The character. -/
  symbol : Char
  /-- Its style. -/
  style : Style := {}
  deriving DecidableEq, Repr, Inhabited

/-- The number of columns that a glyph takes. -/
def Glyph.columns (g : Glyph) : Nat := ExprView.columns g.symbol

/-- The number of columns that a row of glyphs takes. -/
def glyphsWidth (gs : List Glyph) : Nat := width (gs.map Glyph.symbol)

@[simp] theorem glyphsWidth_cons (g : Glyph) (gs : List Glyph) :
    glyphsWidth (g :: gs) = g.columns + glyphsWidth gs := rfl

/-- The glyphs of a text. A line feed has none. -/
def glyphsOf (text : List Char) (style : Style) : List Glyph :=
  (text.filter (· != '\n')).map fun c => { symbol := c, style }

/-- The glyphs of a span. -/
def Span.glyphs (s : Span) : List Glyph := glyphsOf s.text.toList s.style

/-- The glyphs of a row of spans. -/
def rowGlyphs (spans : List Span) : List Glyph := spans.flatMap Span.glyphs

/-- Leaves out the glyphs in the first `n` columns. A glyph that is only half among them stays. -/
def dropColumns {α : Type} (size : α → Nat) : Nat → List α → List α
  | _, [] => []
  | n, a :: as => if size a ≤ n then dropColumns size (n - size a) as else a :: as

/-- The longest start of a row that fits in `n` columns. -/
def takeColumns {α : Type} (size : α → Nat) : Nat → List α → List α
  | _, [] => []
  | n, a :: as => if size a ≤ n then a :: takeColumns size (n - size a) as else []

/-- What is kept fits. -/
theorem glyphsWidth_takeColumns_le (n : Nat) (gs : List Glyph) :
    glyphsWidth (takeColumns Glyph.columns n gs) ≤ n := by
  induction gs generalizing n with
  | nil => exact Nat.zero_le n
  | cons g gs ih =>
    simp only [takeColumns]
    split
    · next h =>
      have := ih (n - g.columns)
      rw [glyphsWidth_cons]
      omega
    · exact Nat.zero_le n

/-- The part of a row that an area of `n` columns shows after scrolling by `scroll` columns.
Glyphs that no place in the area could hold are left out. -/
def visibleGlyphs (n scroll : Nat) (gs : List Glyph) : List Glyph :=
  takeColumns Glyph.columns n
    (dropColumns Glyph.columns scroll (gs.filter fun g => decide (g.columns ≤ n)))

/-- The cells of a row: a glyph of two columns leaves the second one alone. -/
def layGlyphs (gs : List Glyph) : List (Option Glyph) :=
  gs.flatMap fun g => some g :: List.replicate (g.columns - 1) none

/-- The cells of a row at the right edge of an area of `n` columns. -/
def layRight (n : Nat) (gs : List Glyph) : List (Option Glyph) :=
  List.replicate (n - glyphsWidth gs) none ++ layGlyphs gs

end ExprView
