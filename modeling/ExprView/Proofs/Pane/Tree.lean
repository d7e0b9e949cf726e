import ExprView.Pane.Tree
import ExprView.Parser.Rules
import ExprView.Proofs.Screen.Cells

/-!
# The end of the tree

The text of the tree is wrapped, and the pane shows the wrapped lines from the one at its scroll offset
on. The offset is bounded by the number of lines before they are wrapped, so the more lines are wrapped
the less of the end can be reached. What matters is only how many lines there are of either kind. That
offsets within the height of the pane below 2 ^ 16 are drawn like any other is assumed, as `Pane.Basic`
says.

## Main statements

* `treeRows_ne_nil`: there is always something to be shown.
* `cell?_tree`: what the pane shows.
* `tree_end_in_reach_iff`: when some scroll offset shows the last line.
* `tree_end_out_of_reach`: a tree that fits, but for its wrapped lines.
-/

namespace ExprView

open Json

/-! ### There is a last line -/

theorem Wrapping.finish_ne_nil (s : Wrapping) : s.finish ≠ [] := by
  simp only [finish, List.isEmpty_iff]
  generalize (s.done ++ _ ++ _ : List (List Char)) = lines
  cases lines with
  | nil => exact List.cons_ne_nil _ _
  | cons line lines => exact List.cons_ne_nil _ _

theorem wrapLine_ne_nil (n : Nat) (line : List Char) : wrapLine n line ≠ [] :=
  Wrapping.finish_ne_nil _

theorem splitLines_ne_nil {cs : List Char} (h : cs ≠ []) : splitLines cs ≠ [] := by
  rw [splitLines]
  split
  · rw [if_neg (by rwa [List.isEmpty_iff])]
    exact List.cons_ne_nil _ _
  · exact List.cons_ne_nil _ _

theorem append_ne {s : String} (t : String) (h : s ≠ "") : s ++ t ≠ "" :=
  fun hst => h (String.append_eq_empty_iff.mp hst).1

theorem Diagnostic.render_ne (d : Diagnostic) : d.render ≠ "" := by
  cases d with
  | lexical message offset => exact append_ne _ (append_ne _ (append_ne _ (by decide)))
  | grammatical message token offset =>
    cases offset with
    | none => exact append_ne _ (by decide)
    | some offset => exact append_ne _ (append_ne _ (append_ne _ (by decide)))

theorem toList_treeText_ne_nil (program : Except SyntaxError Program) :
    (treeText program).toList ≠ [] := by
  cases program with
  | error e => exact fun h => e.diagnostic.render_ne (String.toList_eq_nil_iff.mp h)
  | ok p =>
    rw [treeText, Program.pretty, Json.pretty, Json.render, String.toList_ofList, Json.tagged,
      Json.write]
    exact List.cons_ne_nil _ _

theorem treeRows_ne_nil (n : Nat) (program : Except SyntaxError Program) :
    treeRows n program ≠ [] := by
  intro h
  obtain ⟨line, hline⟩ :=
    List.exists_mem_of_ne_nil _ (splitLines_ne_nil (toList_treeText_ne_nil program))
  exact wrapLine_ne_nil n line (List.flatMap_eq_nil_iff.mp h line hline)

/-! ### What is shown -/

/-- The number of the wrapped line in the first row of the pane. -/
def treeTop (area : Area) (program : Except SyntaxError Program) (scroll : Nat) : Nat :=
  treeScroll area program scroll % drawnOffsets

variable {program : Except SyntaxError Program} {area : Area} {w h i j : Nat}

/-- A cell shows what the wrapped line in its row has in its column. -/
theorem cell?_tree (focused : Bool) (scroll : Nat) (hw : area.x + area.width ≤ w)
    (hh : area.y + area.height ≤ h) (hi : i < area.inner.width) (hj : j < area.inner.height) :
    (Screen.draw w h (treeLayers area program focused scroll)).cell? (area.inner.x + i)
        (area.inner.y + j) =
      some (shownCell (((treeRows area.inner.width program)[treeTop area program scroll + j]?).bind
        fun line => glyphAt? (glyphsOf line (treeStyle program)) i)) := by
  have hrows : ((treeRows area.inner.width program).map fun line =>
      layGlyphs (glyphsOf line (treeStyle program))) =
      ((treeRows area.inner.width program).map fun line =>
        glyphsOf line (treeStyle program)).map layGlyphs := by
    rw [List.map_map]
    rfl
  rw [treeLayers, hrows, cell?_pane _ hw hh hi hj, List.getElem?_map, Option.bind_map]
  rfl

/-- The first row can be brought up to the number of lines that the pane has no room for, as they are
before they are wrapped. -/
theorem treeTop_eq (area : Area) (program : Except SyntaxError Program) (scroll : Nat) :
    treeTop area program scroll =
      min scroll ((treeLines program).length - area.inner.height) % 65536 := rfl

/-- The pane shows the wrapped lines from the offset on, one in each row. Some offset brings the last of
them into the pane exactly if there are no more of them than the pane has rows, or than there were
before they were wrapped, and no more than 2 ^ 16 - 1 besides the rows of the pane. -/
theorem tree_end_in_reach_iff (program : Except SyntaxError Program) (area : Area)
    (hheight : 0 < area.inner.height) {w h : Nat} (hw : area.x + area.width ≤ w)
    (hh : area.y + area.height ≤ h) :
    let rows := treeRows area.inner.width program
    (∀ focused scroll, ∀ j < area.inner.height, ∀ i < area.inner.width,
      (Screen.draw w h (treeLayers area program focused scroll)).cell? (area.inner.x + i)
          (area.inner.y + j) =
        some (shownCell ((rows[treeTop area program scroll + j]?).bind fun line =>
          glyphAt? (glyphsOf line (treeStyle program)) i))) ∧
    ((∃ scroll, ∃ j < area.inner.height, treeTop area program scroll + j + 1 = rows.length) ↔
      rows.length ≤ max area.inner.height (treeLines program).length ∧
        rows.length ≤ area.inner.height + 65535) := by
  intro rows
  have hpos : 0 < rows.length := List.length_pos_iff.mpr (treeRows_ne_nil _ program)
  refine ⟨fun focused scroll j hj i hi => cell?_tree focused scroll hw hh hi hj, ?_, ?_⟩
  · rintro ⟨scroll, j, hj, hlast⟩
    rw [treeTop_eq] at hlast
    have hle : min scroll ((treeLines program).length - area.inner.height) % 65536 ≤
        min scroll ((treeLines program).length - area.inner.height) := Nat.mod_le ..
    omega
  · rintro ⟨hlines, hoffsets⟩
    -- the last line comes into the last row, or as far up as the offset goes
    let room := (treeLines program).length - area.inner.height
    let top := min (rows.length - 1) (min room 65535)
    have htop : treeTop area program top = top := by
      rw [treeTop_eq]
      omega
    exact ⟨top, rows.length - 1 - top, by omega, by omega⟩

/-- A tree whose lines are short is seen to its end. -/
theorem tree_end_in_reach_iff_short :
    let program := parse "1"
    let area : Area := { x := 0, y := 0, width := 22, height := 5 }
    (treeRows area.inner.width program).length = 7 ∧
      ∃ scroll, ∃ j < area.inner.height, treeTop area program scroll + j + 1 = 7 := by
  intro program area
  have hrows : (treeRows area.inner.width program).length = 7 := by decide +kernel
  have hlines : (treeLines program).length = 7 := by decide +kernel
  obtain ⟨-, hreach⟩ := tree_end_in_reach_iff program area (by decide) (w := 22) (h := 5)
    (by decide) (by decide)
  rw [hrows, hlines] at hreach
  exact ⟨hrows, hreach.mpr (by decide)⟩

/-- The seven lines of a tree fit in the seven rows of the pane, so it is not scrolled, but some of them
are wrapped. No row shows the last one, whatever offset is asked for. -/
theorem tree_end_out_of_reach :
    let program := parse "1"
    let area : Area := { x := 0, y := 0, width := 12, height := 9 }
    (treeRows area.inner.width program).getLast? = some ['}'] ∧
      ∀ focused scroll, ∀ j < area.inner.height,
        ¬ ∀ i < area.inner.width,
          (Screen.draw 12 9 (treeLayers area program focused scroll)).cell? (area.inner.x + i)
              (area.inner.y + j) =
            some (shownCell (glyphAt? (glyphsOf ['}'] (treeStyle program)) i)) := by
  intro program area
  refine ⟨by decide +kernel, fun focused scroll j hj hlast => ?_⟩
  have htop : treeTop area program scroll = 0 := by
    have hlines : (treeLines program).length = 7 := by decide +kernel
    rw [treeTop_eq, hlines]
    exact congrArg (· % 65536) (Nat.min_zero scroll)
  -- none of the lines that are shown starts with the bracket
  have hfirst : ∀ j < area.inner.height,
      shownCell (((treeRows area.inner.width program)[j]?).bind fun line =>
        glyphAt? (glyphsOf line (treeStyle program)) 0) ≠
      shownCell (glyphAt? (glyphsOf ['}'] (treeStyle program)) 0) := by decide +kernel
  have hcell := hlast 0 (by decide)
  rw [cell?_tree focused scroll (by decide) (by decide) (by decide) hj, htop, Nat.zero_add] at hcell
  exact hfirst j hj (Option.some.inj hcell)

end ExprView
