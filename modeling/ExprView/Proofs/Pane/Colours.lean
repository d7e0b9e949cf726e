import ExprView.Proofs.Highlight.Spans
import ExprView.Proofs.Pane.Input
import ExprView.Text.Lines

/-!
# The colours of the line

A character of the line takes one column, unless it is wide, but one byte or more. It is moved by
columns and coloured by the bytes of the tokens, and the cell in which it is drawn shows both: the
character has the style of the token whose bytes hold it, wherever the window on the line begins.

## Main statements

* `Decomposition.exists_style`: the style in which a character of a source is coloured.
* `glyphAt?_inputRow`: the window on a line of narrow characters.
* `input_pane_window`: what a cell of the line shows.
-/

namespace ExprView

/-! ### Characters and tokens -/

/-- The bytes of the token hold the character that starts at byte `b`. -/
def Token.Holds (t : Token) (b : Nat) (c : Char) : Prop := t.start ≤ b ∧ b + c.utf8Size ≤ t.last + 1

instance (t : Token) (b : Nat) (c : Char) : Decidable (t.Holds b c) :=
  inferInstanceAs (Decidable (_ ∧ _))

/-- The style is that of the kind of a token that holds the character at byte `b`, and sets nothing if
there is none. -/
structure IsStyleAt (ts : List Token) (b : Nat) (c : Char) (style : Style) : Prop where
  /-- The character belongs to a token. -/
  of_holds : ∀ t ∈ ts, t.Holds b c → style = t.kind.style
  /-- The character belongs to a gap. -/
  of_gap : (∀ t ∈ ts, ¬ t.Holds b c) → style = {}

namespace IsStyleAt

variable {ts : List Token} {t : Token} {b : Nat} {c : Char} {style : Style}

theorem of_none (h : ∀ t ∈ ts, ¬ t.Holds b c) : IsStyleAt ts b c {} :=
  ⟨fun t ht hholds => absurd hholds (h t ht), fun _ => rfl⟩

theorem of_head (h : t.Holds b c) (hts : ∀ u ∈ ts, ¬ u.Holds b c) :
    IsStyleAt (t :: ts) b c t.kind.style where
  of_holds u hu hholds := by
    rcases List.mem_cons.mp hu with rfl | hu
    · rfl
    · exact absurd hholds (hts u hu)
  of_gap hgap := absurd h (hgap t List.mem_cons_self)

theorem cons (h : ¬ t.Holds b c) (hts : IsStyleAt ts b c style) : IsStyleAt (t :: ts) b c style where
  of_holds u hu hholds := by
    rcases List.mem_cons.mp hu with rfl | hu
    · exact absurd hholds h
    · exact hts.of_holds u hu hholds
  of_gap hgap := hts.of_gap fun u hu => hgap u (List.mem_cons_of_mem t hu)

end IsStyleAt

theorem exists_of_append_eq_append_cons {α : Type} {xs ys front back : List α} {a : α}
    (h : xs ++ ys = front ++ a :: back) :
    (∃ more, xs = front ++ a :: more) ∨ ∃ more, front = xs ++ more ∧ ys = more ++ a :: back := by
  rcases List.append_eq_append_iff.mp h with ⟨more, rfl, hys⟩ | ⟨more, rfl, hback⟩
  · exact .inr ⟨more, rfl, hys⟩
  · cases more with
    | nil => exact .inr ⟨[], by simp, by simpa using hback.symm⟩
    | cons b more =>
      obtain ⟨rfl, -⟩ := List.cons.inj hback
      exact .inl ⟨more, rfl⟩

/-! ### Glyphs of spans -/

/-- The glyphs of a text without line feeds. -/
def styled (style : Style) (text : List Char) : List Glyph := text.map fun c => { symbol := c, style }

variable {style : Style} {text gap front back : List Char} {c : Char} {gs : List Glyph}

theorem glyphsOf_of_notMem (h : '\n' ∉ text) : glyphsOf text style = styled style text := by
  rw [glyphsOf, List.filter_eq_self.mpr (ne_lineFeed_of_notMem h), styled]

@[simp] theorem length_styled : (styled style text).length = text.length := List.length_map _

theorem styled_append_cons (front back : List Char) (c : Char) :
    styled style (front ++ c :: back) =
      styled style front ++ { symbol := c, style } :: styled style back := by
  rw [styled, List.map_append, List.map_cons, styled, styled]

theorem rowGlyphs_gapSpans (h : '\n' ∉ gap) : rowGlyphs (gapSpans gap) = styled {} gap := by
  unfold gapSpans
  split
  · next hnil => rw [hnil]; rfl
  · rw [rowGlyphs, List.flatMap_singleton, Span.glyphs, String.toList_ofList, glyphsOf_of_notMem h]

namespace Decomposition

variable {d : Decomposition} {n : Nat}

/-- No token starts in front of the text. -/
theorem le_start_of_mem_tokens {t : Token} (ht : t ∈ d.tokens n) : n ≤ t.start := by
  induction d generalizing n with
  | blank gap => cases ht
  | token gap kind text rest ih =>
    rcases List.mem_cons.mp ht with rfl | ht
    · exact Nat.le_add_right ..
    · have hle := ih ht
      omega

theorem rowGlyphs_spans_token {kind : TokenKind} {rest : Decomposition} (hgap : '\n' ∉ gap)
    (htext : '\n' ∉ text) : rowGlyphs ((token gap kind text rest).spans []) =
      styled {} gap ++ (styled kind.style text ++ rowGlyphs (rest.spans [])) := by
  have hspan : Span.glyphs { text := String.ofList text, style := kind.style } =
      styled kind.style text := by
    rw [Span.glyphs, String.toList_ofList, glyphsOf_of_notMem htext]
  rw [spans, List.nil_append, rowGlyphs, List.flatMap_append, List.flatMap_cons, hspan, ← rowGlyphs,
    ← rowGlyphs, rowGlyphs_gapSpans hgap]

theorem not_holds_of_mem_tokens {b : Nat} {t : Token} (ht : t ∈ d.tokens n) (hb : b < n) :
    ¬ t.Holds b c := by
  have hle := le_start_of_mem_tokens ht
  rintro ⟨hstart, -⟩
  omega

/-- Each character of a source is coloured in the style of the token that holds it, or not at all. -/
theorem exists_style (hd : d.IsMaximal) (hline : '\n' ∉ d.chars) (h : d.chars = front ++ c :: back)
    (n : Nat) : ∃ style before after,
      rowGlyphs (d.spans []) = before ++ { symbol := c, style } :: after ∧
        before.length = front.length ∧ IsStyleAt (d.tokens n) (n + byteLength front) c style := by
  have hpos := c.utf8Size_pos
  induction d generalizing front n with
  | blank gap =>
    obtain rfl : gap = front ++ c :: back := h
    replace hline : '\n' ∉ front ++ c :: back := hline
    rw [spans, List.nil_append, rowGlyphs_gapSpans hline, styled_append_cons]
    exact ⟨{}, _, _, rfl, length_styled, .of_none fun t ht => by cases ht⟩
  | token gap kind text rest ih =>
    obtain ⟨-, htext, -, hrest⟩ := hd
    simp only [chars, List.mem_append, not_or] at hline
    obtain ⟨hgap, hlexeme, hline⟩ := hline
    replace h : gap ++ (text ++ rest.chars) = front ++ c :: back := h
    have hbytes := byteLength_pos htext.ne_nil
    rw [rowGlyphs_spans_token hgap hlexeme, tokens]
    rcases exists_of_append_eq_append_cons h with ⟨more, rfl⟩ | ⟨front, rfl, hback⟩
    · -- the character is in the gap, in front of all tokens
      rw [styled_append_cons, List.append_assoc, List.cons_append]
      refine ⟨{}, _, _, rfl, length_styled, .of_none fun t ht => ?_⟩
      have hlt : n + byteLength front < n + byteLength (front ++ c :: more) := by
        rw [byteLength_append, byteLength_cons]
        omega
      rcases List.mem_cons.mp ht with rfl | ht
      · exact fun hholds => absurd hholds.1 (Nat.not_le.mpr hlt)
      · exact not_holds_of_mem_tokens ht (by omega)
    rcases exists_of_append_eq_append_cons hback with ⟨more, rfl⟩ | ⟨front, rfl, hrow⟩
    · -- the character is in the lexeme
      rw [styled_append_cons, List.append_assoc, List.cons_append, ← List.append_assoc]
      refine ⟨kind.style, _, _, rfl, by simp, .of_head ⟨?_, ?_⟩ fun t ht => ?_⟩
      · simp only [byteLength_append]
        omega
      · simp only [byteLength_append, byteLength_cons]
        omega
      · refine not_holds_of_mem_tokens ht ?_
        simp only [byteLength_append, byteLength_cons]
        omega
    · -- the character is behind the lexeme
      obtain ⟨style, before, after, hglyphs, hlength, hstyle⟩ :=
        ih hrest hline hrow (n + byteLength gap + byteLength text)
      rw [hglyphs, ← List.append_assoc, ← List.append_assoc]
      refine ⟨style, _, _, rfl, by simp [hlength], .cons (fun hholds => ?_) ?_⟩
      · have hlast := hholds.2
        simp only [byteLength_append] at hlast
        omega
      · rw [byteLength_append, byteLength_append, ← Nat.add_assoc, ← Nat.add_assoc]
        exact hstyle

end Decomposition

/-- The glyphs of a line in the colours of its tokens. -/
def lineGlyphs (source : String) : List Glyph := rowGlyphs (highlight source (tokenize source))

variable {source : String} {k : Nat}

theorem map_symbol_lineGlyphs (hline : '\n' ∉ source.toList) :
    (lineGlyphs source).map Glyph.symbol = source.toList := by
  rw [lineGlyphs, map_symbol_rowGlyphs, highlight_text,
    List.filter_eq_self.mpr (ne_lineFeed_of_notMem hline)]

/-- A line that has no tokens is all in the style that shows this. -/
theorem getElem?_lineGlyphs_of_error {e : LexError} (he : tokenize source = .error e)
    (hline : '\n' ∉ source.toList) (hc : source.toList[k]? = some c) :
    (lineGlyphs source)[k]? = some { symbol := c, style := faultStyle } := by
  rw [lineGlyphs, he, highlight, rowGlyphs, List.flatMap_singleton, Span.glyphs,
    glyphsOf_of_notMem hline, styled, List.getElem?_map, hc, Option.map_some]

/-- In a line that has tokens each character has the style of the token that holds it. -/
theorem getElem?_lineGlyphs_of_ok {ts : List Token} (hts : tokenize source = .ok ts)
    (hline : '\n' ∉ source.toList) (hc : source.toList[k]? = some c) :
    ∃ style, (lineGlyphs source)[k]? = some { symbol := c, style } ∧
      IsStyleAt ts (byteIndex k source.toList) c style := by
  obtain ⟨d, hd, hchars, rfl⟩ :=
    Decomposition.decomposes_iff.mp (tokenize_eq_ok_iff_decomposes.mp hts)
  have hspans : highlight source (.ok (d.tokens 0)) = d.spans [] := by
    have h : highlightFrom 0 ([] ++ d.chars) (d.tokens (0 + byteLength [])) = d.spans [] :=
      d.highlightFrom_eq hd
    rw [highlight, ← hchars]
    exact h
  obtain ⟨front, back, hsource, rfl⟩ : ∃ front back, source.toList = front ++ c :: back ∧
      front.length = k := by
    obtain ⟨hk, rfl⟩ := List.getElem?_eq_some_iff.mp hc
    refine ⟨source.toList.take k, source.toList.drop (k + 1), ?_, List.length_take_of_le hk.le⟩
    rw [← List.drop_eq_getElem_cons hk, List.take_append_drop]
  obtain ⟨style, before, after, hglyphs, hlength, hstyle⟩ :=
    d.exists_style hd (hchars ▸ hline) (hchars.trans hsource) 0
  rw [lineGlyphs, hts, hspans, hglyphs, hsource, byteIndex_append, ← hlength]
  refine ⟨style, by simp, ?_⟩
  rwa [Nat.zero_add] at hstyle

/-! ### The window -/

/-- Glyphs of one column each stand in the columns of their numbers. -/
theorem glyphAt?_of_narrow (h : ∀ g ∈ gs, columns g.symbol = 1) (i : Nat) :
    glyphAt? gs i = gs[i]? := by
  have hcells : layGlyphs gs = gs.map some := by
    rw [layGlyphs, List.map_eq_flatMap]
    refine List.flatMap_congr fun g hg => ?_
    rw [Glyph.columns, h g hg]
    rfl
  rw [glyphAt?, hcells, List.getElem?_map]
  cases gs[i]? <;> rfl

/-- What an area shows of a row of glyphs of one column each. -/
theorem visibleGlyphs_of_narrow {n : Nat} (hn : 0 < n) (h : ∀ g ∈ gs, columns g.symbol = 1)
    (scroll : Nat) : visibleGlyphs n scroll gs = (gs.drop scroll).take n := by
  have hfits : gs.filter (fun g => decide (g.columns ≤ n)) = gs := by
    refine List.filter_eq_self.mpr fun g hg => decide_eq_true ?_
    rw [Glyph.columns, h g hg]
    exact hn
  have hdrop : dropColumns Glyph.columns scroll gs = gs.drop scroll :=
    dropColumns_of_narrow Glyph.symbol h scroll
  have htake : takeColumns Glyph.columns n (gs.drop scroll) = (gs.drop scroll).take n :=
    takeColumns_of_narrow Glyph.symbol (fun g hg => h g (List.mem_of_mem_drop hg)) n
  rw [visibleGlyphs, hfits, hdrop, htake]

/-- A line of characters of one column each is shown from the one at the scroll offset on. -/
theorem glyphAt?_inputRow {n j : Nat} (hj : j < n) (hnarrow : ∀ c ∈ source.toList, columns c = 1)
    (hline : '\n' ∉ source.toList) (scroll : Nat) :
    glyphAt? (inputRow n scroll source (tokenize source)) j = (lineGlyphs source)[scroll + j]? := by
  have hglyphs : ∀ g ∈ lineGlyphs source, columns g.symbol = 1 := fun g hg =>
    hnarrow g.symbol (map_symbol_lineGlyphs hline ▸ List.mem_map_of_mem hg)
  have hrow : inputRow n scroll source (tokenize source) = ((lineGlyphs source).drop scroll).take n :=
    visibleGlyphs_of_narrow (by omega) hglyphs scroll
  rw [hrow, glyphAt?_of_narrow fun g hg => hglyphs g (List.mem_of_mem_drop (List.mem_of_mem_take hg)),
    List.getElem?_take_of_lt hj, List.getElem?_drop]

/-- On a line of characters of one column each, cell `j` of the pane shows the `j`-th character from the
first one that is not moved out of the pane, and is blank behind the end. The character has the style of
the token whose bytes hold it, none if it stands between tokens, and the style of a failure if the line
has no tokens. -/
theorem input_pane_window (source : String) (hsource : ∀ c ∈ source.toList, columns c = 1 ∧ c ≠ '\n')
    (cursor : Nat) (hcursor : cursor ≤ 65535) (area : Area) (hwidth : 0 < area.inner.width)
    (hheight : 0 < area.inner.height) {w h : Nat} (hw : area.x + area.width ≤ w)
    (hh : area.y + area.height ≤ h) :
    let first := cursor - (area.inner.width - 1)
    let screen := Screen.draw w h (inputLayers area source cursor (tokenize source))
      (inputCursor area cursor)
    ∀ j < area.inner.width,
      (source.length ≤ first + j → screen.cell? (area.inner.x + j) area.inner.y = some {}) ∧
      ∀ c, source.toList[first + j]? = some c → ∃ style : Style,
        screen.cell? (area.inner.x + j) area.inner.y =
          some (({ symbol := c } : Cell).restyle style) ∧
        (∀ ts, tokenize source = .ok ts →
          IsStyleAt ts (byteIndex (first + j) source.toList) c style) ∧
        ∀ e, tokenize source = .error e → style = faultStyle := by
  intro first screen j hj
  have hline : '\n' ∉ source.toList := fun hmem => (hsource '\n' hmem).2 rfl
  have hscroll : inputScroll area cursor % drawnOffsets = first := by
    have heq : inputScroll area cursor = first := by
      simp only [inputScroll, first]
      omega
    rw [heq, drawnOffsets]
    omega
  have hcell : screen.cell? (area.inner.x + j) area.inner.y =
      some (shownCell (lineGlyphs source)[first + j]?) := by
    rw [← glyphAt?_inputRow hj (fun c hc => (hsource c hc).1) hline first, ← hscroll]
    exact cell?_pane [inputRow area.inner.width _ source _] hw hh hj hheight
  rw [hcell]
  constructor
  · intro hend
    rw [List.getElem?_eq_none]
    · rfl
    · rw [← List.length_map Glyph.symbol, map_symbol_lineGlyphs hline, String.length_toList]
      exact hend
  · intro c hc
    cases htokens : tokenize source with
    | error e =>
      rw [getElem?_lineGlyphs_of_error htokens hline hc]
      exact ⟨faultStyle, rfl, fun ts hts => (by cases hts), fun _ _ => rfl⟩
    | ok ts =>
      obtain ⟨style, hglyph, hstyle⟩ := getElem?_lineGlyphs_of_ok htokens hline hc
      rw [hglyph]
      refine ⟨style, rfl, fun us hus => ?_, fun e he => by cases he⟩
      obtain rfl := Except.ok.inj hus
      exact hstyle

/-- The line is moved by two columns, which are three bytes. The window shows the second of two spaces,
the literal behind it, and a blank. -/
theorem input_pane_window_behind_wide_space :
    let source := "1\u00a0 2"
    let area : Area := { x := 0, y := 0, width := 5, height := 3 }
    let screen := Screen.draw 5 3 (inputLayers area source 4 (tokenize source)) (inputCursor area 4)
    screen.cell? 1 1 = some { symbol := ' ' } ∧
      screen.cell? 2 1 = some (({ symbol := '2' } : Cell).restyle TokenKind.number.style) ∧
      screen.cell? 3 1 = some {} := by
  intro source area screen
  let ts : List Token := [⟨.number "1", 0, 0⟩, ⟨.number "2", 4, 4⟩]
  have hts : tokenize source = .ok ts := by decide +kernel
  have hchars : source.toList = ['1', '\u00a0', ' ', '2'] := by decide +kernel
  have hsource : ∀ c ∈ source.toList, columns c = 1 ∧ c ≠ '\n' := by
    rw [hchars]
    exact List.forall_mem_cons.mpr ⟨by decide, List.forall_mem_cons.mpr ⟨by decide,
      List.forall_mem_cons.mpr ⟨by decide, List.forall_mem_singleton.mpr (by decide)⟩⟩⟩
  have hwindow := input_pane_window source hsource 4 (by decide) area (by decide) (by decide)
    (w := 5) (h := 3) (by decide) (by decide)
  obtain ⟨gap, hgap, hgapStyle, -⟩ := (hwindow 0 (by decide)).2 ' ' (by rw [hchars]; rfl)
  obtain ⟨digit, hdigit, hdigitStyle, -⟩ := (hwindow 1 (by decide)).2 '2' (by rw [hchars]; rfl)
  have hblank := (hwindow 2 (by decide)).1 (by decide +kernel)
  obtain rfl : gap = {} := (hgapStyle ts hts).of_gap (by rw [hchars]; decide)
  obtain rfl : digit = TokenKind.number.style :=
    (hdigitStyle ts hts).of_holds ⟨.number "2", 4, 4⟩ (by decide) (by rw [hchars]; decide)
  exact ⟨hgap, hdigit, hblank⟩

end ExprView
