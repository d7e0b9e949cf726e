import ExprView.Highlight.Offsets
import ExprView.Proofs.Lexer.Cursor
import ExprView.Proofs.Lexer.Decomposition
import Mathlib.Data.List.Chain

/-!
# The spans of a coloured source

What a lexer still reads decomposes what is left of its source, wherever it has come to stand. The
spans of the source are then told by the gaps and the lexemes: each lexeme has a span, and so has
each gap that is not empty. What the lexer has passed over before belongs to the first gap.

## Main statements

* `Decomposition.highlightFrom?_eq`, `Decomposition.highlightFrom_eq`: the spans that are cut out by
  byte offsets, and those of the colouring, are the spans of gaps and lexemes.
* `Lexer.Sound.nexts`: a lexer stands in its source however often it has been asked for a token.
* `highlight_faithful`: the spans of a source.
-/

namespace ExprView

/-- Whether the span sets a style. -/
def Span.isStyled (s : Span) : Bool := s.style != {}

/-- The span shows the token: it is cut out of the source at the bytes of the token, holds the text
of the token and has the style of its kind. -/
structure Span.Shows (source : String) (s : Span) (t : Token) : Prop where
  /-- The text is what stands in the source at the token. -/
  slice_eq : slice? t.start (t.last + 1) source.toList = some s.text.toList
  /-- The text is that of the token. -/
  text_eq : s.text = t.text
  /-- The style is that of the kind. -/
  style_eq : s.style = t.kind.style

theorem TokenKind.style_ne (k : TokenKind) : (k.style != {}) = true := by
  cases k <;> decide

/-- The spans of a gap. There is none if it is empty. -/
def gapSpans (gap : List Char) : List Span :=
  if gap = [] then [] else [{ text := String.ofList gap }]

theorem mem_gapSpans {gap : List Char} {s : Span} (h : s ∈ gapSpans gap) :
    gap ≠ [] ∧ s = { text := String.ofList gap } := by
  unfold gapSpans at h
  split at h
  · cases h
  · next hne => exact ⟨hne, List.mem_singleton.mp h⟩

/-- A gap is not styled. -/
theorem filter_gapSpans (gap : List Char) : (gapSpans gap).filter Span.isStyled = [] := by
  rw [List.filter_eq_nil_iff]
  intro s hs
  obtain ⟨-, rfl⟩ := mem_gapSpans hs
  simp [Span.isStyled]

variable {source : String} {front back gap text : List Char}

/-! ### Pieces of a source -/

theorem pieceSpan?_eq (style : Style) (h : source.toList = front ++ (text ++ back)) :
    pieceSpan? source style (byteLength front) (byteLength front + byteLength text) =
      some { text := String.ofList text, style } := by
  rw [pieceSpan?, slice?_eq_some_iff.mpr ⟨front, back, h, rfl, rfl⟩, Option.map_some]

theorem gapSpans?_eq (h : source.toList = front ++ (gap ++ back)) :
    gapSpans? source (byteLength front) (byteLength front + byteLength gap) =
      some (gapSpans gap) := by
  unfold gapSpans? gapSpans
  by_cases hgap : gap = []
  · rw [if_pos hgap, if_neg (by simp [hgap])]
  · have hpos := byteLength_pos hgap
    rw [if_neg hgap, if_pos (by omega), pieceSpan?_eq {} h, Option.map_some]

namespace Decomposition

/-- The spans of a text in which `passed` stands in front of gaps and lexemes. -/
def spans : List Char → Decomposition → List Span
  | passed, blank gap => gapSpans (passed ++ gap)
  | passed, token gap kind text rest =>
    gapSpans (passed ++ gap) ++
      { text := String.ofList text, style := kind.style } :: rest.spans []

variable {d : Decomposition} {passed : List Char}

/-- All pieces can be cut out of a source at the offsets of its tokens. -/
theorem highlightFrom?_eq (hd : d.IsMaximal)
    (h : source.toList = front ++ (passed ++ d.chars)) :
    highlightFrom? source (byteLength front) (d.tokens (byteLength front + byteLength passed)) =
      some (d.spans passed) := by
  induction d generalizing front passed with
  | blank gap =>
    have hsize : source.utf8ByteSize = byteLength front + byteLength (passed ++ gap) := by
      rw [← byteLength_toList, h, byteLength_append, chars]
    have hrow : source.toList = front ++ ((passed ++ gap) ++ []) := by
      rw [h, List.append_nil, chars]
    rw [tokens, highlightFrom?, hsize, gapSpans?_eq hrow, spans]
  | token gap kind text rest ih =>
    obtain ⟨-, htext, -, hrest⟩ := hd
    have hpos := byteLength_pos htext.ne_nil
    let before := front ++ (passed ++ gap)
    have hgap : source.toList = front ++ ((passed ++ gap) ++ (text ++ rest.chars)) := by
      simp only [h, chars, List.append_assoc]
    have hpiece : source.toList = before ++ (text ++ rest.chars) := by
      simp only [hgap, before, List.append_assoc]
    have hnext : source.toList = (before ++ text) ++ ([] ++ rest.chars) := by
      rw [hpiece, List.nil_append, List.append_assoc before]
    have hstart : byteLength front + byteLength passed + byteLength gap = byteLength before := by
      simp only [before, byteLength_append, Nat.add_assoc]
    have hstop : byteLength before + byteLength text - 1 + 1 =
        byteLength before + byteLength text := by omega
    have hafter : byteLength before + byteLength text = byteLength (before ++ text) :=
      (byteLength_append ..).symm
    have hfirst : gapSpans? source (byteLength front) (byteLength before) =
        some (gapSpans (passed ++ gap)) := by
      rw [show byteLength before = byteLength front + byteLength (passed ++ gap) from
        byteLength_append ..]
      exact gapSpans?_eq hgap
    have hlast : highlightFrom? source (byteLength (before ++ text))
        (rest.tokens (byteLength (before ++ text) + byteLength [])) = some (rest.spans []) :=
      ih hrest hnext
    rw [byteLength_nil, Nat.add_zero] at hlast
    simp only [tokens, highlightFrom?, hstart, hstop, hfirst, pieceSpan?_eq kind.style hpiece,
      Option.bind_eq_bind, Option.bind_some]
    rw [hafter, hlast]
    rfl

/-- The colouring has these spans. -/
theorem highlightFrom_eq {n : Nat} (hd : d.IsMaximal) :
    highlightFrom n (passed ++ d.chars) (d.tokens (n + byteLength passed)) = d.spans passed := by
  induction d generalizing n passed with
  | blank gap =>
    rw [chars, tokens, spans, gapSpans]
    cases passed ++ gap <;> rfl
  | token gap kind text rest ih =>
    obtain ⟨-, htext, -, hrest⟩ := hd
    have hpos := byteLength_pos htext.ne_nil
    have hrow : passed ++ (gap ++ (text ++ rest.chars)) =
        (passed ++ gap) ++ (text ++ rest.chars) := (List.append_assoc ..).symm
    have hstart : n + byteLength passed + byteLength gap = n + byteLength (passed ++ gap) := by
      rw [byteLength_append, Nat.add_assoc]
    have hback (m : Nat) : highlightFrom m rest.chars (rest.tokens m) = rest.spans [] :=
      @ih [] m hrest
    have hlast (m : Nat) : m + byteLength text - 1 + 1 = m + byteLength text := by omega
    simp only [chars, tokens, highlightFrom, spans, hrow, hstart, hlast, Nat.add_sub_cancel_left,
      splitBytes_byteLength, hback]
    by_cases hgap : passed ++ gap = []
    · rw [if_neg (by simp [hgap]), gapSpans, if_pos hgap, List.nil_append]
    · have hlt := byteLength_pos hgap
      rw [if_pos (by omega), gapSpans, if_neg hgap, List.singleton_append]

/-! ### What the spans are -/

/-- The styled spans show the tokens, one by one. -/
theorem forall₂_filter_spans (hd : d.IsMaximal)
    (h : source.toList = front ++ (passed ++ d.chars)) :
    List.Forall₂ (Span.Shows source) ((d.spans passed).filter Span.isStyled)
      (d.tokens (byteLength front + byteLength passed)) := by
  induction d generalizing front passed with
  | blank gap =>
    rw [spans, tokens, filter_gapSpans]
    exact .nil
  | token gap kind text rest ih =>
    obtain ⟨-, htext, -, hrest⟩ := hd
    have hpos := byteLength_pos htext.ne_nil
    have hpiece : source.toList = (front ++ passed ++ gap) ++ (text ++ rest.chars) := by
      simp only [h, chars, List.append_assoc]
    have hnext : source.toList = (front ++ passed ++ gap ++ text) ++ ([] ++ rest.chars) := by
      rw [hpiece, List.nil_append, List.append_assoc (front ++ passed ++ gap)]
    have hstyled : Span.isStyled { text := String.ofList text, style := kind.style } = true :=
      kind.style_ne
    have hrow := ih hrest hnext
    simp only [byteLength_append, byteLength_nil, Nat.add_zero] at hrow
    rw [spans, tokens, List.filter_append, filter_gapSpans, List.nil_append,
      List.filter_cons_of_pos hstyled]
    refine .cons ⟨slice?_eq_some_iff.mpr ⟨front ++ passed ++ gap, rest.chars, ?_, ?_, ?_⟩, rfl, rfl⟩
      hrow
    · rw [String.toList_ofList, hpiece]
    · simp only [byteLength_append]
    · rw [String.toList_ofList]
      simp only
      omega

/-- No span is empty. -/
theorem text_ne_of_mem_spans (hd : d.IsMaximal) {s : Span} (hs : s ∈ d.spans passed) :
    s.text ≠ "" := by
  have hgap {gap : List Char} (hs : s ∈ gapSpans gap) : s.text ≠ "" := by
    obtain ⟨hne, rfl⟩ := mem_gapSpans hs
    exact fun h => hne (String.ofList_eq_empty_iff.mp h)
  induction d generalizing passed with
  | blank gap => exact hgap hs
  | token gap kind text rest ih =>
    obtain ⟨-, htext, -, hrest⟩ := hd
    rw [spans, List.mem_append, List.mem_cons] at hs
    rcases hs with hs | rfl | hs
    · exact hgap hs
    · exact fun h => htext.ne_nil (String.ofList_eq_empty_iff.mp h)
    · exact ih hrest hs

/-- Of two spans side by side one is styled. -/
theorem isChain_spans :
    (d.spans passed).IsChain fun s s' => s.isStyled = true ∨ s'.isStyled = true := by
  induction d generalizing passed with
  | blank gap =>
    unfold spans gapSpans
    split
    · exact .nil
    · exact .singleton _
  | token gap kind text rest ih =>
    have hstyled : Span.isStyled { text := String.ofList text, style := kind.style } = true :=
      kind.style_ne
    have hback : List.IsChain (fun s s' : Span => s.isStyled = true ∨ s'.isStyled = true)
        ({ text := String.ofList text, style := kind.style } :: rest.spans []) :=
      List.isChain_cons.mpr ⟨fun _ _ => .inl hstyled, ih⟩
    unfold spans gapSpans
    split
    · exact hback
    · exact List.isChain_cons.mpr ⟨fun s hs => by
        obtain rfl := Option.some.inj hs
        exact .inr hstyled, hback⟩

/-- If nothing has been passed over, what is not styled is blank. -/
theorem isBlank_of_mem_spans (hd : d.IsMaximal) {s : Span} (hs : s ∈ d.spans [])
    (hstyle : s.isStyled = false) : ∀ c ∈ s.text.toList, isBlank c = true := by
  have hgap {gap : List Char} (hblank : ∀ c ∈ gap, isBlank c = true) (hs : s ∈ gapSpans gap) :
      ∀ c ∈ s.text.toList, isBlank c = true := by
    obtain ⟨-, rfl⟩ := mem_gapSpans hs
    rwa [String.toList_ofList]
  induction d with
  | blank gap => exact hgap hd hs
  | token gap kind text rest ih =>
    obtain ⟨hblank, -, -, hrest⟩ := hd
    rw [spans, List.mem_append, List.mem_cons] at hs
    rcases hs with hs | rfl | hs
    · exact hgap hblank hs
    · rw [Span.isStyled, kind.style_ne] at hstyle
      cases hstyle
    · exact ih hrest hs

end Decomposition

/-! ### Lexers that have been used -/

namespace Lexer

/-- A lexer that has been asked for the next token `k` times, whatever the answers were. -/
def after (l : Lexer) : Nat → Lexer
  | 0 => l
  | k + 1 => (l.after k).next.2

/-- A lexer stands in its source however often it has been asked for the next token. -/
theorem Sound.nexts {l : Lexer} (h : l.Sound) (k : Nat) :
    (l.after k).Sound ∧ (l.after k).source = l.source := by
  induction k with
  | zero => exact ⟨h, rfl⟩
  | succ k ih =>
    obtain ⟨hsound, hsource⟩ := ih
    exact ⟨hsound.next.1, hsound.next.2.trans hsource⟩

/-- The tokens that a lexer still reads decompose what is left. -/
theorem exists_decomposition_of_remaining {l : Lexer} {ts : List Token}
    (h : l.remaining.1 = .ok ts) :
    ∃ d : Decomposition, d.IsMaximal ∧ d.chars = l.rest ∧ d.tokens l.position = ts := by
  obtain ⟨l', hr, hend⟩ := exists_reads_drain l
  rw [remaining, TokenStream.toExcept] at h
  cases hf : l.drain.1.fault with
  | some e => simp [hf] at h
  | none =>
    obtain rfl : l.drain.1.tokens = ts := by simpa [hf] using h
    rw [hf] at hend
    obtain ⟨hblank, -⟩ := next_eq_end_iff.mp (next_eq hend)
    have hd := hr.decomposes (.blank hblank)
    rw [List.append_nil] at hd
    exact Decomposition.decomposes_iff.mp hd

end Lexer

open Lexer

/-- The spans of a source that is coloured by what a lexer still reads in it are those of the gaps and
lexemes that are left. What has been passed over stands in front of them. -/
theorem exists_spans_of_remaining {l : Lexer} (hl : l.Sound) {ts : List Token}
    (h : l.remaining.1 = .ok ts) :
    ∃ (d : Decomposition) (passed : List Char), d.IsMaximal ∧
      l.source.toList = passed ++ d.chars ∧ byteLength passed = l.position ∧
      d.tokens (byteLength passed) = ts ∧ highlight l.source (.ok ts) = d.spans passed ∧
      highlight? l.source (.ok ts) = some (d.spans passed) := by
  obtain ⟨passed, hs, hpos⟩ := hl.rest_eq
  obtain ⟨d, hd, hchars, rfl⟩ := exists_decomposition_of_remaining h
  have hrow : l.source.toList = [] ++ (passed ++ d.chars) := by rw [List.nil_append, hs, hchars]
  have hfrom : highlightFrom 0 (passed ++ d.chars) (d.tokens (0 + byteLength passed)) =
      d.spans passed := d.highlightFrom_eq hd
  have hpieces := d.highlightFrom?_eq hd hrow
  rw [Nat.zero_add] at hfrom
  rw [byteLength_nil, Nat.zero_add] at hpieces
  refine ⟨d, passed, hd, hrow, hpos, by rw [hpos], ?_, ?_⟩
  · rw [highlight, hrow, ← hpos]
    exact hfrom
  · rw [highlight?, ← hpos]
    exact hpieces

/-- What a lexer still reads in a source after it has been asked for the next token `k` times. -/
def remainingAfter (source : String) (k : Nat) : Except LexError (List Token) :=
  ((ofSource source).after k).remaining.1

/-- The spans of a source that is coloured by what a lexer still reads in it after `k` steps. -/
def spansAfter (source : String) (k : Nat) : List Span := highlight source (remainingAfter source k)

/-- A source that is coloured by the tokens which a lexer reads in it after any number of steps, some of
which may have failed. All pieces can be cut out of it at the bytes of the tokens, and together they
are the source. If a scan fails there is one span, which shows that. If none does, the styled spans
show the tokens, one by one, no span is empty, no two spans without a style are side by side, and in
front of the first step only blanks are without a style. -/
theorem highlight_faithful (source : String) (k : Nat) :
    highlight? source (remainingAfter source k) = some (spansAfter source k) ∧
    spansText (spansAfter source k) = source ∧
    (∀ e, remainingAfter source k = .error e →
      spansAfter source k = [{ text := source, style := faultStyle }]) ∧
    ∀ ts, remainingAfter source k = .ok ts →
      List.Forall₂ (Span.Shows source) ((spansAfter source k).filter Span.isStyled) ts ∧
      (∀ s ∈ spansAfter source k, s.text ≠ "") ∧
      ((spansAfter source k).IsChain fun s s' => s.isStyled = true ∨ s'.isStyled = true) ∧
      (k = 0 → ∀ s ∈ spansAfter source k, s.isStyled = false →
        ∀ c ∈ s.text.toList, isBlank c = true) := by
  obtain ⟨hl, hsource⟩ := (ofSource_sound source).nexts k
  replace hsource : ((ofSource source).after k).source = source := hsource
  have htext : spansText (spansAfter source k) = source := highlight_text source _
  cases hr : remainingAfter source k with
  | error e =>
    have hspans : spansAfter source k = [{ text := source, style := faultStyle }] := by
      simp only [spansAfter, hr, highlight]
    exact ⟨by rw [hspans]; rfl, htext, fun _ _ => hspans, fun ts hts => by cases hts⟩
  | ok us =>
    obtain ⟨d, passed, hd, hs, hpos, rfl, hhighlight, hpieces⟩ := exists_spans_of_remaining hl hr
    rw [hsource] at hs hhighlight hpieces
    have hspans : spansAfter source k = d.spans passed := by
      simp only [spansAfter, hr]
      exact hhighlight
    rw [hspans]
    refine ⟨hpieces, hspans ▸ htext, fun e he => (by cases he), fun ts hts => ?_⟩
    obtain rfl := Except.ok.inj hts
    refine ⟨?_, fun s => d.text_ne_of_mem_spans hd, d.isChain_spans, ?_⟩
    · have hrow : source.toList = [] ++ (passed ++ d.chars) := hs
      have hshown := d.forall₂_filter_spans hd hrow
      rwa [byteLength_nil, Nat.zero_add] at hshown
    · rintro rfl
      have hnil : passed = [] := by
        by_contra hne
        have hlt := byteLength_pos hne
        rw [hpos] at hlt
        exact absurd hlt (Nat.lt_irrefl 0)
      rw [hnil]
      exact fun s => d.isBlank_of_mem_spans hd

/-- A scan that fails behind the mark of an exponent is passed over, and what it read is a span without
a style in front of the spans of the tokens. -/
theorem highlight_faithful_passed :
    let source := "1ex\u00a0+"
    let ts : List Token := [⟨.identifier "x", 2, 2⟩, ⟨.operator '+', 5, 5⟩]
    remainingAfter source 1 = .ok ts ∧
      spansAfter source 1 =
        [{ text := "1e" }, { text := "x", style := TokenKind.identifier.style },
          { text := "\u00a0" }, { text := "+", style := TokenKind.operator.style }] ∧
      highlight? source (.ok ts) = some (spansAfter source 1) ∧
      List.Forall₂ (Span.Shows source) ((spansAfter source 1).filter Span.isStyled) ts := by
  intro source ts
  have hr : remainingAfter source 1 = .ok ts := by decide +kernel
  obtain ⟨hpieces, -, -, hshown⟩ := highlight_faithful source 1
  rw [hr] at hpieces
  obtain ⟨hshown, -⟩ := hshown ts hr
  exact ⟨hr, by decide +kernel, hpieces, hshown⟩

end ExprView
