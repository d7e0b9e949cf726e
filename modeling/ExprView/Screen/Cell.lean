import ExprView.Screen.Style

/-!
# Cells and areas
-/

namespace ExprView

/-- One cell of the screen. -/
structure Cell where
  /-- What it shows. -/
  symbol : Char := ' '
  /-- The colour of the symbol. -/
  foreground : Color := .reset
  /-- The colour behind the symbol. -/
  background : Color := .reset
  /-- Whether the symbol is bold. -/
  bold : Bool := false
  /-- Whether the symbol is underlined. -/
  underlined : Bool := false
  deriving DecidableEq, Repr, Inhabited

/-- Sets what a style sets. Emphasis is added to what is there. -/
def Cell.restyle (c : Cell) (s : Style) : Cell :=
  { c with
    foreground := s.foreground.getD c.foreground
    background := s.background.getD c.background
    bold := c.bold || s.bold
    underlined := c.underlined || s.underlined }

/-- A rectangle of cells. -/
structure Area where
  /-- The first column. -/
  x : Nat
  /-- The first row. -/
  y : Nat
  /-- The number of columns. -/
  width : Nat
  /-- The number of rows. -/
  height : Nat
  deriving DecidableEq, Repr, Inhabited

namespace Area

/-- Whether a cell belongs to the area. -/
def contains (a : Area) (x y : Nat) : Bool :=
  a.x ≤ x && x < a.x + a.width && a.y ≤ y && y < a.y + a.height

/-- What a border of one cell leaves. -/
def inner (a : Area) : Area where
  x := min (a.x + 1) (a.x + a.width)
  y := min (a.y + 1) (a.y + a.height)
  width := a.width - 2
  height := a.height - 2

/-- The leftmost `n` columns. -/
def left (a : Area) (n : Nat) : Area := { a with width := min n a.width }

/-- What the leftmost `n` columns leave. -/
def afterLeft (a : Area) (n : Nat) : Area :=
  { a with x := a.x + min n a.width, width := a.width - n }

/-- The topmost `n` rows. -/
def top (a : Area) (n : Nat) : Area := { a with height := min n a.height }

/-- What the topmost `n` rows leave. -/
def afterTop (a : Area) (n : Nat) : Area :=
  { a with y := a.y + min n a.height, height := a.height - n }

end Area

/-- A share of `n` in percent, to the nearest whole number. No share of 40 or 60 percent, as the layouts
have them, lies halfway between two. -/
def share (percent n : Nat) : Nat := (2 * percent * n + 100) / 200

end ExprView
