import ExprView.Lexer.Basic
import ExprView.Pane.Input
import ExprView.Proofs.Screen.Cells
import ExprView.Proofs.Screen.Window

/-!
# The cursor and the character that it edits

The place of the cursor is computed from the number of characters in front of it, as if each of them
took one column, and the line is moved by the remainder of a number of columns. So the cursor always
stands in the pane. It stands on its character as long as no character in front of it is wide, and the
line is not moved too far. Wide is said of characters by themselves: those without a width and those
that join to one symbol are not told apart, as in `Text.Columns`.

## Main statements

* `drawnAt_iff`: where a character of a text is drawn.
* `showsText_input`: what the pane shows of the line.
* `input_cursor_place`: when the cursor stands on its character.
* `input_cursor_behind_wide`: a wide character in front of it.
-/

namespace ExprView

/-! ### Where a character is drawn -/

/-- Whether an area of `n` columns has room for a character, and it is not a line feed. -/
def isDrawable (n : Nat) (c : Char) : Bool := decide (columns c ≤ n) && c != '\n'

/-- What an area of `n` columns shows of a text that is moved by `scroll` columns, each character with
its number in the text. -/
def drawnChars (n scroll : Nat) (text : List Char) : List (Char × Nat) :=
  takeColumns (fun p => columns p.1) n
    (dropColumns (fun p => columns p.1) scroll (text.zipIdx.filter fun p => isDrawable n p.1))

/-- The columns of what is drawn of a text. -/
def drawnWidth (n scroll : Nat) (text : List Char) : Nat :=
  width ((drawnChars n scroll text).map Prod.fst)

/-- Character number `k` of a text is drawn from column `x` on. -/
def DrawnAt (n scroll : Nat) (text : List Char) (k x : Nat) : Prop :=
  ∃ before c after, drawnChars n scroll text = before ++ (c, k) :: after ∧
    width (before.map Prod.fst) = x

variable {n scroll x k : Nat} {c : Char} {front back text : List Char}

theorem map_filter_zipIdx (p : Char → Bool) (cs : List Char) (i : Nat) :
    ((cs.zipIdx i).filter fun q => p q.1).map Prod.fst = cs.filter p := by
  have hmap : ((cs.zipIdx i).map Prod.fst).filter p =
      ((cs.zipIdx i).filter fun q => p q.1).map Prod.fst := List.filter_map
  rw [← hmap, List.zipIdx_map_fst]

theorem map_drawnChars (n scroll : Nat) (text : List Char) :
    (drawnChars n scroll text).map Prod.fst =
      takeColumns columns n (dropColumns columns scroll (text.filter (isDrawable n))) := by
  rw [drawnChars, map_takeColumns, map_dropColumns, map_filter_zipIdx]

/-- What is drawn of a text are drawable characters of it. -/
theorem of_mem_drawnChars {p : Char × Nat} (hp : p ∈ drawnChars n scroll text) :
    text[p.2]? = some p.1 ∧ isDrawable n p.1 = true := by
  have hmem := (dropColumns_sublist _ _ _).mem ((takeColumns_sublist _ _ _).mem hp)
  obtain ⟨hmem, hdrawable⟩ := List.mem_filter.mp hmem
  exact ⟨List.mem_zipIdx_iff_getElem?.mp hmem, hdrawable⟩

theorem eq_of_mem_drawnChars {d : Char}
    (hd : (d, front.length) ∈ drawnChars n scroll (front ++ c :: back)) :
    d = c ∧ isDrawable n c = true := by
  obtain ⟨hget, hdrawable⟩ := of_mem_drawnChars hd
  rw [List.getElem?_append_right (Nat.le_refl _), Nat.sub_self] at hget
  obtain rfl : c = d := Option.some.inj hget
  exact ⟨rfl, hdrawable⟩

theorem filter_zipIdx_append_cons (h : isDrawable n c = true) :
    (front ++ c :: back).zipIdx.filter (fun p => isDrawable n p.1) =
      front.zipIdx.filter (fun p => isDrawable n p.1) ++
        (c, front.length) :: (back.zipIdx (front.length + 1)).filter fun p => isDrawable n p.1 := by
  rw [List.zipIdx_append, List.zipIdx_cons, List.filter_append, Nat.zero_add,
    List.filter_cons, if_pos h]

/-- A character is drawn if an area has room for it, it is not moved out of the area, and it does not
reach over the edge. It stands behind what is left of the characters in front of it. -/
theorem drawnAt_iff (front : List Char) (c : Char) (back : List Char) :
    DrawnAt n scroll (front ++ c :: back) front.length x ↔
      isDrawable n c = true ∧ scroll < width (front.filter (isDrawable n)) + columns c ∧
        x = width (dropColumns columns scroll (front.filter (isDrawable n))) ∧ x + columns c ≤ n := by
  -- the numbers in front are less, and those behind are greater
  have hbefore : (c, front.length) ∉ front.zipIdx.filter fun p => isDrawable n p.1 := fun h =>
    Nat.lt_irrefl _ (List.snd_lt_of_mem_zipIdx (List.mem_of_mem_filter h))
  have hafter : (c, front.length) ∉
      (back.zipIdx (front.length + 1)).filter fun p => isDrawable n p.1 := fun h =>
    Nat.not_succ_le_self _ (List.le_snd_of_mem_zipIdx (List.mem_of_mem_filter h))
  have hwindow := exists_window_eq_iff Prod.fst (n := n) (s := scroll) (x := x) hbefore hafter
  rw [map_filter_zipIdx] at hwindow
  constructor
  · rintro ⟨before, d, after, hdrawn, hx⟩
    have hmem : (d, front.length) ∈ drawnChars n scroll (front ++ c :: back) :=
      hdrawn ▸ List.mem_append_right _ List.mem_cons_self
    obtain ⟨rfl, hdrawable⟩ := eq_of_mem_drawnChars hmem
    rw [drawnChars, filter_zipIdx_append_cons hdrawable] at hdrawn
    exact ⟨hdrawable, hwindow.mp ⟨before, after, hdrawn, hx⟩⟩
  · rintro ⟨hdrawable, hplace⟩
    obtain ⟨before, after, hdrawn, hx⟩ := hwindow.mpr hplace
    rw [← filter_zipIdx_append_cons hdrawable] at hdrawn
    exact ⟨before, c, after, hdrawn, hx⟩

/-! ### What the pane shows -/

theorem map_symbol_rowGlyphs (spans : List Span) :
    (rowGlyphs spans).map Glyph.symbol = (spansText spans).toList.filter (· != '\n') := by
  induction spans with
  | nil => rfl
  | cons span spans ih =>
    have hspan : span.glyphs.map Glyph.symbol = span.text.toList.filter (· != '\n') := by
      rw [Span.glyphs, glyphsOf, List.map_map]
      exact List.map_id _
    rw [rowGlyphs, List.flatMap_cons, List.map_append, hspan, spansText_cons, String.toList_append,
      List.filter_append, ← ih, rowGlyphs]

theorem map_symbol_visibleGlyphs (n scroll : Nat) (gs : List Glyph) :
    (visibleGlyphs n scroll gs).map Glyph.symbol =
      takeColumns columns n (dropColumns columns scroll
        ((gs.map Glyph.symbol).filter fun c => decide (columns c ≤ n))) := by
  have hfilter : (gs.map Glyph.symbol).filter (fun c => decide (columns c ≤ n)) =
      (gs.filter fun g => decide (g.columns ≤ n)).map Glyph.symbol := List.filter_map
  rw [hfilter, ← map_dropColumns, ← map_takeColumns]
  rfl

/-- The line as it is moved by `scroll` columns. -/
def inputRow (n scroll : Nat) (source : String) (tokens : Except LexError (List Token)) : List Glyph :=
  visibleGlyphs n scroll (rowGlyphs (highlight source tokens))

variable {source : String}

/-- The symbols of the line do not depend on the tokens that it is coloured by. -/
theorem map_symbol_inputRow (n scroll : Nat) (source : String)
    (tokens : Except LexError (List Token)) :
    (inputRow n scroll source tokens).map Glyph.symbol =
      (drawnChars n scroll source.toList).map Prod.fst := by
  rw [inputRow, map_symbol_visibleGlyphs, map_symbol_rowGlyphs, highlight_text, List.filter_filter,
    map_drawnChars]
  rfl

/-- The first row inside of an area shows each character of a text that is drawn there, and is blank
behind them. -/
def ShowsText (screen : Screen) (area : Area) (scroll : Nat) (text : List Char) : Prop :=
  (∀ k x, DrawnAt area.inner.width scroll text k x →
    ∃ cell, screen.cell? (area.inner.x + x) area.inner.y = some cell ∧ text[k]? = some cell.symbol) ∧
  ∀ x < area.inner.width, drawnWidth area.inner.width scroll text ≤ x →
    screen.cell? (area.inner.x + x) area.inner.y = some {}

theorem glyphAt?_of_drawnAt (tokens : Except LexError (List Token))
    (h : DrawnAt n scroll source.toList k x) :
    ∃ g, glyphAt? (inputRow n scroll source tokens) x = some g ∧
      source.toList[k]? = some g.symbol ∧ x < n := by
  obtain ⟨before, c, after, hdrawn, rfl⟩ := h
  have hrow := map_symbol_inputRow n scroll source tokens
  rw [hdrawn, List.map_append, List.map_cons] at hrow
  obtain ⟨gs, rest, hgs, hbefore, hrest⟩ := List.map_eq_append_iff.mp hrow
  obtain ⟨g, gs', rfl, hg, -⟩ := List.map_eq_cons_iff.mp hrest
  have hwidth : glyphsWidth gs = width (before.map Prod.fst) := by rw [glyphsWidth, hbefore]
  have hfits : glyphsWidth (inputRow n scroll source tokens) ≤ n := glyphsWidth_takeColumns_le n _
  have hpos : 0 < columns (c, k).1 := columns_pos c
  refine ⟨g, ?_, ?_, ?_⟩
  · rw [hgs, ← hwidth, glyphAt?_append_cons]
  · have hmem : (c, k) ∈ drawnChars n scroll source.toList :=
      hdrawn ▸ List.mem_append_right _ List.mem_cons_self
    rw [(of_mem_drawnChars hmem).1, hg]
  · rw [glyphsWidth, hrow, width_append, width_cons] at hfits
    omega

/-- What the pane shows of the line. -/
theorem showsText_input (source : String) (cursor : Nat) (tokens : Except LexError (List Token))
    {area : Area} (hheight : 0 < area.inner.height) {w h : Nat} (hw : area.x + area.width ≤ w)
    (hh : area.y + area.height ≤ h) :
    ShowsText (Screen.draw w h (inputLayers area source cursor tokens) (inputCursor area cursor)) area
      (inputScroll area cursor % drawnOffsets) source.toList := by
  let row := inputRow area.inner.width (inputScroll area cursor % drawnOffsets) source tokens
  have hcell {x : Nat} (hx : x < area.inner.width) :
      (Screen.draw w h (inputLayers area source cursor tokens) (inputCursor area cursor)).cell?
        (area.inner.x + x) area.inner.y = some (shownCell (glyphAt? row x)) :=
    cell?_pane [row] hw hh hx hheight
  refine ⟨fun k x hdrawn => ?_, fun x hx hbehind => ?_⟩
  · obtain ⟨g, hg, hget, hx⟩ := glyphAt?_of_drawnAt tokens hdrawn
    refine ⟨shownCell (some g), ?_, hget⟩
    rw [hcell hx, hg]
  · have hnone : glyphAt? row x = none := by
      refine glyphAt?_eq_none ?_
      rwa [glyphsWidth, map_symbol_inputRow]
    rw [hcell hx, hnone]
    rfl

/-! ### The cursor -/

/-- The column of the pane that the cursor stands in. -/
def cursorColumn (area : Area) (cursor : Nat) : Nat := cursor - inputScroll area cursor

variable {area : Area}

theorem cursorColumn_add_inputScroll (area : Area) (cursor : Nat) :
    cursorColumn area cursor + inputScroll area cursor = cursor := by
  simp only [cursorColumn, inputScroll]
  omega

theorem cursorColumn_lt (hwidth : 0 < area.inner.width) (cursor : Nat) :
    cursorColumn area cursor < area.inner.width := by
  simp only [cursorColumn, inputScroll]
  omega

/-- Behind characters that are all drawn, the cursor stands on its character exactly if they take one
column each, the line is moved by the number of columns that it should be, and the character does not
reach over the edge. -/
theorem drawnAt_cursorColumn_iff (hfront : ∀ d ∈ front, isDrawable area.inner.width d = true) :
    DrawnAt area.inner.width (inputScroll area front.length % drawnOffsets) (front ++ c :: back)
        front.length (cursorColumn area front.length) ↔
      isDrawable area.inner.width c = true ∧
        cursorColumn area front.length + columns c ≤ area.inner.width ∧
        (∀ d ∈ front, columns d = 1) ∧ inputScroll area front.length < drawnOffsets := by
  have hcolumn := cursorColumn_add_inputScroll area front.length
  have hmod := Nat.mod_le (inputScroll area front.length) drawnOffsets
  have hpos := columns_pos c
  rw [drawnAt_iff, List.filter_eq_self.mpr hfront]
  constructor
  · rintro ⟨hc, -, hx, hfits⟩
    have hwidth := length_le_width front
    have hleft := width_le_add_width_dropColumns (inputScroll area front.length % drawnOffsets) front
    rw [← hx] at hleft
    refine ⟨hc, hfits, width_eq_length_iff.mp (by omega), ?_⟩
    have heq : inputScroll area front.length % drawnOffsets = inputScroll area front.length := by omega
    exact heq ▸ Nat.mod_lt _ (by decide)
  · rintro ⟨hc, hfits, hnarrow, hscroll⟩
    rw [Nat.mod_eq_of_lt hscroll, width_dropColumns_of_narrow hnarrow,
      width_eq_length_iff.mpr hnarrow]
    exact ⟨hc, by omega, by omega, hfits⟩

/-- Behind characters that are all drawn and take one column each, a cursor at the end of the text
stands behind what is drawn. -/
theorem drawnWidth_eq_cursorColumn (hwidth : 0 < area.inner.width)
    (hfront : ∀ d ∈ front, isDrawable area.inner.width d = true ∧ columns d = 1)
    (hscroll : inputScroll area front.length < drawnOffsets) :
    drawnWidth area.inner.width (inputScroll area front.length % drawnOffsets) front =
      cursorColumn area front.length := by
  have hdrawable : front.filter (isDrawable area.inner.width) = front :=
    List.filter_eq_self.mpr fun d hd => (hfront d hd).1
  have hleft : width (dropColumns columns (inputScroll area front.length) front) =
      cursorColumn area front.length :=
    width_dropColumns_of_narrow fun d hd => (hfront d hd).2
  have hlt := cursorColumn_lt hwidth front.length
  rw [drawnWidth, map_drawnChars, hdrawable, Nat.mod_eq_of_lt hscroll,
    takeColumns_of_width_le (by omega), hleft]

/-- The cursor always stands in the pane, which shows each character of the line where it is drawn. If
no character in front of the cursor is left out, the cursor stands on its character exactly if those in
front take one column each, the line is moved by less than 2 ^ 16 columns, and the character itself is
drawn and does not reach over the edge. At the end of such a line it stands behind the last character. -/
theorem input_cursor_place (source : String) (front back : List Char)
    (hsource : source.toList = front ++ back) (tokens : Except LexError (List Token)) (area : Area)
    (hwidth : 0 < area.inner.width) (hheight : 0 < area.inner.height) {w h : Nat}
    (hw : area.x + area.width ≤ w) (hh : area.y + area.height ≤ h) :
    let n := area.inner.width
    let cursor := front.length
    let x := cursorColumn area cursor
    let scroll := inputScroll area cursor
    let screen :=
      Screen.draw w h (inputLayers area source cursor tokens) (inputCursor area cursor)
    (screen.cursor = (area.inner.x + x, area.inner.y) ∧ x < n) ∧
    ShowsText screen area (scroll % 65536) source.toList ∧
    (∀ c rest, back = c :: rest → (∀ d ∈ front, isDrawable n d = true) →
      (DrawnAt n (scroll % 65536) source.toList cursor x ↔
        isDrawable n c = true ∧ x + columns c ≤ n ∧ (∀ d ∈ front, columns d = 1) ∧
          scroll < 65536)) ∧
    (back = [] → (∀ d ∈ front, isDrawable n d = true ∧ columns d = 1) → scroll < 65536 →
      drawnWidth n (scroll % 65536) source.toList = x) := by
  intro n cursor x scroll screen
  refine ⟨⟨rfl, cursorColumn_lt hwidth cursor⟩, showsText_input source cursor tokens hheight hw hh,
    ?_, ?_⟩
  · rintro c rest rfl hfront
    rw [hsource]
    exact drawnAt_cursorColumn_iff hfront
  · rintro rfl hfront hscroll
    rw [hsource, List.append_nil]
    exact drawnWidth_eq_cursorColumn hwidth hfront hscroll

/-- In a pane of two columns the cursor stands on the third character of a line. -/
theorem input_cursor_place_third :
    let area : Area := { x := 0, y := 0, width := 4, height := 3 }
    let screen := Screen.draw 4 3 (inputLayers area "1+x" 2 (tokenize "1+x")) (inputCursor area 2)
    screen.cursor = (2, 1) ∧ DrawnAt 2 1 ['1', '+', 'x'] 2 1 ∧
      ∃ cell, screen.cell? 2 1 = some cell ∧ cell.symbol = 'x' := by
  intro area screen
  obtain ⟨⟨hcursor, -⟩, hshows, hplace, -⟩ :=
    input_cursor_place "1+x" ['1', '+'] ['x'] (by decide) (tokenize "1+x") area (by decide) (by decide)
      (w := 4) (h := 3) (by decide) (by decide)
  have hdrawable : ∀ d ∈ ['1', '+'], isDrawable 2 d = true :=
    List.forall_mem_cons.mpr ⟨by decide, List.forall_mem_singleton.mpr (by decide)⟩
  have hnarrow : ∀ d ∈ ['1', '+'], columns d = 1 :=
    List.forall_mem_cons.mpr ⟨by decide, List.forall_mem_singleton.mpr (by decide)⟩
  have hdrawn : DrawnAt 2 1 ['1', '+', 'x'] 2 1 :=
    (hplace 'x' [] rfl hdrawable).mpr ⟨by decide, by decide, hnarrow, by decide⟩
  obtain ⟨cell, hcell, hsymbol⟩ := hshows.1 2 1 hdrawn
  exact ⟨hcursor, hdrawn, cell, hcell, (Option.some.inj hsymbol).symm⟩

/-- Behind a character of two columns the cursor stands in the second of them, and the character that it
edits is drawn behind it. -/
theorem input_cursor_behind_wide :
    let area : Area := { x := 0, y := 0, width := 10, height := 3 }
    inputCursor area 1 = (area.inner.x + 1, area.inner.y) ∧
      DrawnAt area.inner.width (inputScroll area 1) ['日', 'x'] 1 2 ∧
      ¬ DrawnAt area.inner.width (inputScroll area 1) ['日', 'x'] 1 1 := by
  intro area
  refine ⟨by decide, (drawnAt_iff ['日'] 'x' []).mpr (by decide), fun hdrawn => ?_⟩
  exact absurd ((drawnAt_iff ['日'] 'x' []).mp hdrawn) (by decide)

end ExprView
