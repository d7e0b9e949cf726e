import ExprView.Pane.Tokens
import ExprView.Proofs.Lexer.Decomposition
import ExprView.Proofs.Screen.Cells

/-!
# The rows of the table of tokens

The table keeps the offset by which it is scrolled within the number of tokens, and it is drawn from
the token at the remainder of this offset on, since the offset at which a pane is drawn has 16 bits.
Up to there the two are the same. Behind it the rows are those of other tokens. That offsets within the
height of the pane below 2 ^ 16 are drawn like any other is assumed, as `Pane.Basic` says.

## Main statements

* `tokens_pane_rows`: the offset that is kept, and the rows that are drawn.
* `tokens_pane_rows_beyond`: a source with so many tokens that the two differ.
-/

namespace ExprView

/-- The longest start of a token's row that fits in `n` columns. Glyphs that are wider are left out. -/
def tokenGlyphs (n : Nat) (t : Token) : List Glyph :=
  takeColumns Glyph.columns n ((rowGlyphs (tokenRow t)).filter fun g => decide (g.columns ≤ n))

/-- The rows inside of an area show the tokens from number `first` on, one token in each row, and are
blank where there is none. -/
def ShowsTokens (screen : Screen) (area : Area) (tokens : List Token) (first : Nat) : Prop :=
  ∀ i < area.inner.height, ∀ j < area.inner.width,
    screen.cell? (area.inner.x + j) (area.inner.y + i) =
      some (shownCell ((tokens[first + i]?).bind fun t => glyphAt? (tokenGlyphs area.inner.width t) j))

theorem dropColumns_zero (gs : List Glyph) : dropColumns Glyph.columns 0 gs = gs := by
  cases gs with
  | nil => rfl
  | cons g gs =>
    have hpos : 0 < g.columns := columns_pos g.symbol
    rw [dropColumns, if_neg (by omega)]

theorem cutRow_tokenRow (area : Area) (t : Token) :
    cutRow area (tokenRow t) = layGlyphs (tokenGlyphs area.width t) := by
  rw [cutRow, visibleGlyphs, dropColumns_zero, tokenGlyphs]

/-- The offset that the table keeps is the one that was asked for, or the largest one at which the last
token is in the last row. The rows are those of the tokens from the remainder of this offset by 2 ^ 16
on, each cut at the width of the pane. -/
theorem tokens_pane_rows (tokens : List Token) (area : Area) (focused : Bool) (requested : Nat)
    {w h : Nat} (hw : area.x + area.width ≤ w) (hh : area.y + area.height ≤ h) :
    let kept := tokensScroll area (.ok tokens) requested
    let screen := Screen.draw w h (tokensLayers area (.ok tokens) focused requested)
    kept = min requested (tokens.length - (area.height - 2)) ∧
      ShowsTokens screen area tokens (kept % 65536) ∧
      (kept < 65536 → ShowsTokens screen area tokens kept) := by
  intro kept screen
  have hshown : ShowsTokens screen area tokens (kept % 65536) := by
    intro i hi j hj
    have hrows : (tokenRows (.ok tokens)).map (cutRow area.inner) =
        (tokens.map (tokenGlyphs area.inner.width)).map layGlyphs := by
      simp only [tokenRows, List.map_map]
      refine List.map_congr_left fun t _ => ?_
      rw [Function.comp_apply, Function.comp_apply, cutRow_tokenRow]
    simp only [screen]
    rw [tokensLayers, hrows, cell?_pane _ hw hh hj hi, List.getElem?_map, Option.bind_map,
      Function.comp_def, drawnOffsets]
  refine ⟨?_, hshown, fun hkept => ?_⟩
  · simp only [kept, tokensScroll, clampScroll, tokenRows, List.length_map]
  · rwa [Nat.mod_eq_of_lt hkept] at hshown

/-! ### Many tokens -/

/-- A row of opening parentheses. -/
def openings (n : Nat) : String := String.ofList (List.replicate n '(')

/-- The tokens of a row of opening parentheses, from byte `k` on. -/
def openingTokens (k n : Nat) : List Token :=
  (List.range n).map fun i => ⟨⟨.operator, "("⟩, k + i, k + i⟩

theorem openingTokens_succ (k n : Nat) :
    openingTokens k (n + 1) = ⟨⟨.operator, "("⟩, k, k⟩ :: openingTokens (k + 1) n := by
  rw [openingTokens, List.range_succ_eq_map, List.map_cons, List.map_map, openingTokens]
  refine congrArg _ (List.map_congr_left fun i _ => ?_)
  simp only [Function.comp, Token.mk.injEq, true_and]
  omega

theorem decomposes_openings (k n : Nat) :
    Decomposes k (List.replicate n '(') (openingTokens k n) := by
  induction n generalizing k with
  | zero => exact .blank (by simp)
  | succ n ih =>
    rw [openingTokens_succ, List.replicate_succ]
    exact @Decomposes.token k [] ['('] _ .operator _ (by simp) ⟨'(', rfl, rfl⟩
      (fun _ _ hc => hc) (ih (k + 1))

theorem tokenize_openings (n : Nat) : tokenize (openings n) = .ok (openingTokens 0 n) := by
  rw [tokenize_eq_ok_iff_decomposes, openings, String.toList_ofList]
  exact decomposes_openings 0 n

theorem getElem?_openingTokens {n i : Nat} (hi : i < n) :
    (openingTokens 0 n)[i]? = some ⟨⟨.operator, "("⟩, i, i⟩ := by
  rw [openingTokens, List.getElem?_map, List.getElem?_range hi, Option.map_some, Nat.zero_add]

/-- The pane keeps offset 1, and shows the second and the third of three tokens. -/
theorem tokens_pane_rows_openings :
    let tokens := openingTokens 0 3
    let area : Area := { x := 0, y := 0, width := 27, height := 4 }
    let screen := Screen.draw 27 4 (tokensLayers area (.ok tokens) true 7)
    tokenize "(((" = .ok tokens ∧ tokensScroll area (.ok tokens) 7 = 1 ∧
      ShowsTokens screen area tokens 1 := by
  intro tokens area screen
  obtain ⟨hkept, -, hshown⟩ :=
    tokens_pane_rows tokens area true 7 (w := 27) (h := 4) (by decide) (by decide)
  have hone : tokensScroll area (.ok tokens) 7 = 1 := by rw [hkept]; rfl
  have hsource : openings 3 = "(((" := by decide +kernel
  rw [hone] at hshown
  exact ⟨hsource ▸ tokenize_openings 3, hone, hshown (by decide)⟩

/-- Of 2 ^ 16 + 1 tokens the pane has room for one. Scrolled to the end it keeps the offset of the last
token and shows the first one. -/
theorem tokens_pane_rows_beyond :
    let tokens := openingTokens 0 65537
    let area : Area := { x := 0, y := 0, width := 40, height := 3 }
    let screen := Screen.draw 40 3 (tokensLayers area (.ok tokens) false 65536)
    tokenize (openings 65537) = .ok tokens ∧ tokensScroll area (.ok tokens) 65536 = 65536 ∧
      ¬ ShowsTokens screen area tokens 65536 ∧ ShowsTokens screen area tokens 0 := by
  intro tokens area screen
  obtain ⟨hkept, hshown, -⟩ :=
    tokens_pane_rows tokens area false 65536 (w := 40) (h := 3) (by decide) (by decide)
  have hlength : tokens.length = 65537 := by
    simp only [tokens, openingTokens, List.length_map, List.length_range]
  rw [hlength] at hkept
  replace hkept : tokensScroll area (.ok tokens) 65536 = 65536 := hkept
  rw [hkept] at hshown
  refine ⟨tokenize_openings 65537, hkept, fun hlast => ?_, hshown⟩
  -- the tokens differ in the first digit of the place
  have hfirst := hshown 0 (by decide) 21 (by decide)
  rw [hlast 0 (by decide) 21 (by decide), getElem?_openingTokens (by decide),
    getElem?_openingTokens (by decide)] at hfirst
  revert hfirst
  decide +kernel

end ExprView
