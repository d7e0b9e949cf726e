import ExprView.Pane.Basic
import ExprView.Screen.Basic

/-!
# Cells of a pane

What stands in a cell inside of a drawn pane is told by the rows of the pane alone: the frame does
not reach there, and a glyph of two columns leaves the cell behind it blank anyway.

## Main statements

* `Screen.cell?_draw`: a cell of a screen, as the layers leave it.
* `glyphAt?_append_cons`: a glyph stands behind the columns of those in front of it.
* `paintCell_pane`, `cell?_pane`: a cell inside of a pane.
-/

namespace ExprView

/-! ### Cells of a screen -/

/-- The cell in column `x` of row `y`. -/
def Screen.cell? (s : Screen) (x y : Nat) : Option Cell := s.rows[y]?.bind fun row => row[x]?

/-- A cell is blank if the one before it shows a symbol of two columns. -/
theorem getElem?_hideCovered (covered : Bool) (cells : List Cell) (x : Nat) :
    (hideCovered covered cells)[x]? =
      cells[x]?.map fun cell =>
        if (if x = 0 then covered else cells[x - 1]?.any fun c => isWide c.symbol) then {}
        else cell := by
  induction cells generalizing covered x with
  | nil => rfl
  | cons cell cells ih =>
    cases x with
    | zero => rfl
    | succ x =>
      rw [hideCovered, List.getElem?_cons_succ, ih, List.getElem?_cons_succ]
      cases x <;> rfl

variable {w h x y : Nat} {layers : List Layer} {cursor : Nat × Nat}

theorem Screen.cell?_draw (hx : x < w) (hy : y < h) :
    (Screen.draw w h layers cursor).cell? x y =
      some (if 0 < x ∧ isWide (paintCell layers (x - 1) y).symbol = true then {}
        else paintCell layers x y) := by
  have hprev : x - 1 < w := by omega
  simp only [cell?, draw, List.getElem?_map, List.getElem?_range hy, Option.map_some,
    Option.bind_some, getElem?_hideCovered, List.getElem?_range hx, List.getElem?_range hprev,
    Option.any_some]
  cases x with
  | zero => simp
  | succ x => simp

/-! ### Rows of glyphs -/

/-- The cell that shows a glyph, or nothing. -/
def shownCell : Option Glyph → Cell
  | some g => { symbol := g.symbol : Cell }.restyle g.style
  | none => {}

/-- The glyph in column `i` of a row. -/
def glyphAt? (gs : List Glyph) (i : Nat) : Option Glyph := ((layGlyphs gs)[i]?).join

variable {g : Glyph} {gs : List Glyph} {i j : Nat}

theorem layGlyphs_append (gs gs' : List Glyph) :
    layGlyphs (gs ++ gs') = layGlyphs gs ++ layGlyphs gs' := List.flatMap_append

theorem layGlyphs_cons_of_wide (hg : isWide g.symbol = true) :
    layGlyphs (g :: gs) = some g :: none :: layGlyphs gs := by
  simp [layGlyphs, Glyph.columns, columns, hg]

theorem layGlyphs_cons_of_narrow (hg : isWide g.symbol = false) :
    layGlyphs (g :: gs) = some g :: layGlyphs gs := by
  simp [layGlyphs, Glyph.columns, columns, hg]

theorem length_layGlyphs (gs : List Glyph) : (layGlyphs gs).length = glyphsWidth gs := by
  induction gs with
  | nil => rfl
  | cons g gs ih =>
    cases hg : isWide g.symbol with
    | true =>
      rw [layGlyphs_cons_of_wide hg, glyphsWidth_cons, List.length_cons, List.length_cons, ih]
      simp only [Glyph.columns, columns, hg, if_true]
      omega
    | false =>
      rw [layGlyphs_cons_of_narrow hg, glyphsWidth_cons, List.length_cons, ih]
      simp only [Glyph.columns, columns, hg, Bool.false_eq_true, if_false]
      omega

/-- A glyph stands behind the columns of those in front of it. -/
theorem glyphAt?_append_cons (gs : List Glyph) (g : Glyph) (gs' : List Glyph) :
    glyphAt? (gs ++ g :: gs') (glyphsWidth gs) = some g := by
  have hg : (layGlyphs (g :: gs'))[0]? = some (some g) := rfl
  rw [glyphAt?, layGlyphs_append, List.getElem?_append_right (Nat.le_of_eq (length_layGlyphs gs)),
    length_layGlyphs, Nat.sub_self, hg]
  rfl

/-- Behind the last glyph there is nothing. -/
theorem glyphAt?_eq_none (hi : glyphsWidth gs ≤ i) : glyphAt? gs i = none := by
  rw [glyphAt?, List.getElem?_eq_none (by rwa [length_layGlyphs])]
  rfl

/-- Nothing stands in the second column of a glyph of two columns. -/
theorem glyphAt?_succ_of_isWide (h : glyphAt? gs i = some g) (hg : isWide g.symbol = true) :
    glyphAt? gs (i + 1) = none := by
  induction gs generalizing i with
  | nil => rfl
  | cons g' gs ih =>
    cases hw : isWide g'.symbol with
    | true =>
      rw [glyphAt?, layGlyphs_cons_of_wide hw] at h ⊢
      match i with
      | 0 => rfl
      | 1 => cases h
      | i + 2 => exact ih h
    | false =>
      rw [glyphAt?, layGlyphs_cons_of_narrow hw] at h ⊢
      cases i with
      | zero =>
        obtain rfl : g' = g := Option.some.inj h
        rw [hw] at hg
        cases hg
      | succ i => exact ih h

theorem glyphAt?_succ_of_shownCell (h : isWide (shownCell (glyphAt? gs i)).symbol = true) :
    glyphAt? gs (i + 1) = none := by
  cases hg : glyphAt? gs i with
  | none =>
    have hblank : isWide (shownCell none).symbol = false := by decide
    rw [hg, hblank] at h
    cases h
  | some g =>
    rw [hg] at h
    exact glyphAt?_succ_of_isWide hg h

/-! ### Cells of a pane -/

variable {a : Area} {title : String} {focused : Bool} {scroll : Nat}

theorem Area.inner_x (hi : i < a.inner.width) : a.inner.x = a.x + 1 := by
  simp only [inner] at hi ⊢
  omega

theorem Area.inner_y (hj : j < a.inner.height) : a.inner.y = a.y + 1 := by
  simp only [inner] at hj ⊢
  omega

theorem frameSymbol_inside {m n : Nat} (hi : i + 2 < m) (hj : j + 2 < n) :
    frameSymbol m n (i + 1) (j + 1) = none := by
  simp [frameSymbol, show ¬ j + 1 + 1 = n by omega, show ¬ i + 1 + 1 = m by omega]

theorem frameSymbol_left {m n : Nat} (hm : 1 < m) (hj : j + 2 < n) :
    frameSymbol m n 0 (j + 1) = some '│' := by
  simp [frameSymbol, show ¬ j + 1 + 1 = n by omega, show ¬ 1 = m by omega]

/-- A border leaves the cells inside of it alone. -/
theorem paint_border_inside {style : Style} (cell : Cell) (hi : i < a.inner.width)
    (hj : j < a.inner.height) :
    Layer.paint (a.inner.x + i) (a.inner.y + j) cell (.border a style title) = cell := by
  have hx := Area.inner_x hi
  have hy := Area.inner_y hj
  simp only [Area.inner] at hi hj
  have hsymbol := frameSymbol_inside (show i + 2 < a.width by omega)
    (show j + 2 < a.height by omega)
  simp only [hx, hy, Layer.paint, show a.x + 1 + i - a.x = i + 1 by omega,
    show a.y + 1 + j - a.y = j + 1 by omega, hsymbol]
  simp

/-- The frame does not reach inside, and the rows are drawn there from the offset on. -/
theorem paintCell_pane {rows : List (List (Option Glyph))} (hi : i < a.inner.width)
    (hj : j < a.inner.height) :
    paintCell (paneLayers a title focused scroll rows) (a.inner.x + i) (a.inner.y + j) =
      shownCell ((rows[scroll % drawnOffsets + j]?).bind (·[i]?)).join := by
  rw [paintCell, paneLayers, List.foldl_cons, List.foldl_cons, List.foldl_nil,
    paint_border_inside _ hi hj, Layer.paint, if_pos ⟨by omega, by omega, by omega⟩,
    Nat.add_sub_cancel_left, Nat.add_sub_cancel_left, List.getElem?_drop]
  cases ((rows[scroll % drawnOffsets + j]?).bind (·[i]?)).join <;> rfl

/-- To the left of the rows stands the line of the frame. -/
theorem isWide_paintCell_frame {rows : List (List (Option Glyph))} (hi : i < a.inner.width)
    (hj : j < a.inner.height) :
    isWide (paintCell (paneLayers a title focused scroll rows) a.x (a.inner.y + j)).symbol =
      false := by
  have hx := Area.inner_x hi
  have hy := Area.inner_y hj
  simp only [Area.inner] at hi hj
  have hsymbol := frameSymbol_left (show 1 < a.width by omega) (show j + 2 < a.height by omega)
  have hcontains : a.contains a.x (a.y + 1 + j) = true := by
    simp only [Area.contains, Bool.and_eq_true, decide_eq_true_eq]
    omega
  rw [paintCell, paneLayers, List.foldl_cons, List.foldl_cons, List.foldl_nil, hy, Layer.paint,
    Layer.paint, if_neg (by omega), if_pos hcontains]
  simp only [Nat.sub_self, show a.y + 1 + j - a.y = j + 1 by omega, hsymbol]
  exact (by decide : isWide '│' = false)

/-- A cell inside of a pane that lies on the screen. -/
theorem cell?_pane (rows : List (List Glyph)) (hw : a.x + a.width ≤ w) (hh : a.y + a.height ≤ h)
    (hi : i < a.inner.width) (hj : j < a.inner.height) :
    (Screen.draw w h (paneLayers a title focused scroll (rows.map layGlyphs)) cursor).cell?
        (a.inner.x + i) (a.inner.y + j) =
      some (shownCell ((rows[scroll % drawnOffsets + j]?).bind (glyphAt? · i))) := by
  have hx := Area.inner_x hi
  have hy := Area.inner_y hj
  have hcell {k : Nat} (hk : k < a.inner.width) :
      paintCell (paneLayers a title focused scroll (rows.map layGlyphs)) (a.inner.x + k)
          (a.inner.y + j) =
        shownCell ((rows[scroll % drawnOffsets + j]?).bind (glyphAt? · k)) := by
    rw [paintCell_pane hk hj, List.getElem?_map]
    cases rows[scroll % drawnOffsets + j]? <;> rfl
  have hinx : a.inner.x + i < w := by
    simp only [Area.inner] at hi hx ⊢
    omega
  have hiny : a.inner.y + j < h := by
    simp only [Area.inner] at hj hy ⊢
    omega
  rw [Screen.cell?_draw hinx hiny, hcell hi]
  cases i with
  | zero =>
    have hleft : a.inner.x + 0 - 1 = a.x := by omega
    rw [hleft, isWide_paintCell_frame hi hj, if_neg (by simp)]
  | succ i =>
    -- a glyph of two columns in front leaves nothing here to be hidden
    have hprev : i < a.inner.width := by omega
    rw [show a.inner.x + (i + 1) - 1 = a.inner.x + i by omega, hcell hprev]
    split
    · next hwide =>
      cases hrow : rows[scroll % drawnOffsets + j]? with
      | none => rfl
      | some gs =>
        rw [hrow] at hwide
        rw [Option.bind_some, glyphAt?_succ_of_shownCell hwide.2]
        rfl
    · rfl

end ExprView
