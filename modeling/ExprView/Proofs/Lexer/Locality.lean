import ExprView.Expr.Print
import ExprView.Proofs.Lexer.Reading

/-!
# Scanning is local

What is read of a text depends on no more than the text that is read and the character after it.
So tokens stay what they are when the source is cut off or goes on differently after them, and a
row of lexemes is read back from the text that has a space before each of them.

## Main statements

* `Lexer.Reads.resume`: a run can be repeated on another text that starts in the same way and
  does not go on into the last token.
* `Lexer.reads_spaced`: lexemes with spaces between them are read as these lexemes.
-/

namespace ExprView

/-- What may come instead of `old` after a lexeme: nothing, a blank, or something that starts
with the same character. -/
def Joins (old new : List Char) : Prop :=
  ∀ c, new.head? = some c → isBlank c = true ∨ old.head? = some c

theorem Joins.of_blank {old new : List Char} {c : Char} (h : isBlank c = true) :
    Joins old (c :: new) := by
  intro d hd
  obtain rfl : c = d := by simpa using hd
  exact .inl h

/-- What comes first stays first. -/
theorem Joins.append_left {old new : List Char} (front : List Char) (h : Joins old new) :
    Joins (front ++ old) (front ++ new) := by
  cases front with
  | nil => exact h
  | cons c front => exact fun d hd => .inr hd

/-- Texts that start alike before they differ. -/
theorem Joins.append_right {front old new : List Char} (h : front ≠ []) :
    Joins (front ++ old) (front ++ new) := by
  obtain ⟨c, front, rfl⟩ := List.exists_cons_of_ne_nil h
  exact fun d hd => .inr hd

/-- A lexeme ends where it did if something else comes instead. -/
theorem EndsAt.of_joins {kind : TokenKind} {text old new : List Char}
    (h : EndsAt kind text old) (hjoin : Joins old new) : EndsAt kind text new := by
  intro c hc
  rcases hjoin c hc with hb | hold
  · exact not_continues_of_isBlank hb
  · exact h c hold

namespace Lexer

/-- A step can be repeated on a text that starts in the same way. -/
theorem Yields.resume {l l' k : Lexer} {gap text rest : List Char} {t : Token} {n : Nat}
    (h : l.Yields gap text t l') (hk : k.rest = gap ++ (text ++ rest))
    (hpos : k.position = l.position + n) (hjoin : Joins l'.rest rest) :
    k.Yields gap text (t.shift n)
      { k with rest, position := l'.position + n, mark := t.start + n } := by
  have hstart := h.start_eq
  have hstop := h.position_eq
  have hlast := h.last_eq
  refine ⟨h.blank, h.isText, h.endsAt.of_joins hjoin, hk, h.text_eq, ?_, ?_, ?_, rfl, rfl⟩
  · show t.start + n = k.position + byteLength gap
    omega
  · show t.last + n + 1 = l'.position + n
    omega
  · show l'.position + n = t.start + n + byteLength text
    omega

/-- What a run passes over. -/
theorem Reads.front {l l' : Lexer} {ts : List Token} (h : l.Reads ts l') :
    l'.source = l.source ∧
      ∃ front, l.rest = front ++ l'.rest ∧ l'.position = l.position + byteLength front := by
  induction h with
  | nil => exact ⟨rfl, [], rfl, by simp⟩
  | @cons l l₁ l₂ t ts hn _ ih =>
    obtain ⟨gap, text, hy⟩ := next_eq_token_iff.mp hn
    obtain ⟨hsource, front, hfront, hpos⟩ := ih
    refine ⟨hsource.trans hy.source_eq, gap ++ (text ++ front), ?_, ?_⟩
    · rw [hy.rest_eq, hfront, List.append_assoc, List.append_assoc]
    · rw [hpos, hy.position_eq, hy.start_eq, byteLength_append, byteLength_append]
      omega

/-- What has been read of a source stands in front of what is left. -/
theorem Reads.exists_front {s : String} {l : Lexer} {ts : List Token}
    (h : (ofSource s).Reads ts l) :
    ∃ front, s.toList = front ++ l.rest ∧ l.position = byteLength front := by
  obtain ⟨-, front, hfront, hpos⟩ := h.front
  exact ⟨front, hfront, hpos.trans (Nat.zero_add _)⟩

/-- A run can be repeated on a text that starts in the same way, wherever it stands. -/
theorem Reads.resume {l l' k : Lexer} {front rest : List Char} {ts : List Token} {n : Nat}
    (h : l.Reads ts l') (hl : l.rest = front ++ l'.rest) (hk : k.rest = front ++ rest)
    (hpos : k.position = l.position + n) (hjoin : Joins l'.rest rest) :
    ∃ k', k.Reads (ts.map (Token.shift n)) k' ∧ k'.rest = rest ∧
      k'.position = l'.position + n := by
  induction h generalizing front k with
  | nil l =>
    obtain rfl : front = [] := by simpa using hl
    exact ⟨k, .nil k, hk, hpos⟩
  | @cons l l₁ l₂ t ts hn hr ih =>
    obtain ⟨gap, text, hy⟩ := next_eq_token_iff.mp hn
    obtain ⟨-, front₁, hfront₁, -⟩ := hr.front
    obtain rfl : front = gap ++ (text ++ front₁) := by
      have hrest := hy.rest_eq
      rw [hfront₁, hl, ← List.append_assoc text, ← List.append_assoc gap] at hrest
      exact List.append_cancel_right hrest
    have hjoin₁ : Joins l₁.rest (front₁ ++ rest) := by
      rw [hfront₁]
      exact hjoin.append_left front₁
    have hrow : k.rest = gap ++ (text ++ (front₁ ++ rest)) := by
      rw [hk, List.append_assoc, List.append_assoc]
    have hy' := hy.resume hrow hpos hjoin₁
    let k₁ : Lexer :=
      { k with rest := front₁ ++ rest, position := l₁.position + n, mark := t.start + n }
    obtain ⟨k', hr', hrest, hpos'⟩ := ih hfront₁ (rfl : k₁.rest = _) rfl hjoin
    exact ⟨k', .cons hy'.next_eq hr', hrest, hpos'⟩

/-- The start of a source is read as it was when the source goes on differently. -/
theorem Reads.resume_ofSource {s u : String} {l : Lexer} {front rest : List Char}
    {ts : List Token} (h : (ofSource s).Reads ts l) (hs : s.toList = front ++ l.rest)
    (hu : u.toList = front ++ rest) (hjoin : Joins l.rest rest) :
    ∃ k, (ofSource u).Reads ts k ∧ k.rest = rest ∧ k.position = l.position := by
  obtain ⟨k, hk⟩ := h.resume (k := ofSource u) (n := 0) hs hu rfl hjoin
  rw [List.map_congr_left fun t _ => t.shift_zero, List.map_id'] at hk
  exact ⟨k, hk⟩

end Lexer

/-! ### Lexemes with spaces between them -/

/-- The text of a lexeme is one that a scan can read as this lexeme. -/
def Lexeme.Spelled (x : Lexeme) : Prop := IsText x.kind x.text.toList

/-- The text of lexemes, with a space before each. -/
def spaced (ls : List Lexeme) : List Char := ls.flatMap fun x => ' ' :: x.text.toList

@[simp] theorem spaced_nil : spaced [] = [] := rfl

@[simp] theorem spaced_cons (x : Lexeme) (ls : List Lexeme) :
    spaced (x :: ls) = ' ' :: (x.text.toList ++ spaced ls) := rfl

theorem endsAt_spaced {kind : TokenKind} {text : List Char} (ls : List Lexeme) :
    EndsAt kind text (spaced ls) := by
  intro c hc
  cases ls with
  | nil => simp at hc
  | cons x ls =>
    obtain rfl : ' ' = c := by simpa using hc
    exact not_continues_of_isBlank (by decide)

namespace Lexer

/-- What a token is read from is its text. -/
theorem Yields.spelled {l l' : Lexer} {gap text : List Char} {t : Token}
    (h : l.Yields gap text t l') : t.Spelled := by
  rw [Lexeme.Spelled, h.text_eq, String.toList_ofList]
  exact h.isText

/-- All lexemes that are read can be read. -/
theorem Reads.spelled {l l' : Lexer} {ts : List Token} (h : l.Reads ts l') :
    ∀ x ∈ lexemes ts, x.Spelled := by
  induction h with
  | nil => simp
  | cons hn _ ih =>
    obtain ⟨gap, text, hy⟩ := next_eq_token_iff.mp hn
    intro x hx
    rcases List.mem_cons.mp hx with rfl | hx
    · exact hy.spelled
    · exact ih x hx

/-- A lexeme after blanks is read from a text that does not go on into it. -/
theorem next_of_spelled {l : Lexer} {gap rest : List Char} {x : Lexeme}
    (hgap : ∀ c ∈ gap, isBlank c = true) (hx : x.Spelled)
    (hend : EndsAt x.kind x.text.toList rest) (hl : l.rest = gap ++ (x.text.toList ++ rest)) :
    ∃ t l', l.next = (.ok (some t), l') ∧ t.toLexeme = x ∧ l'.rest = rest := by
  have hpos := byteLength_pos hx.ne_nil
  let start := l.position + byteLength gap
  let stop := start + byteLength x.text.toList
  refine ⟨{ x with start, last := stop - 1 }, { l with rest, position := stop, mark := start },
    next_eq_token_iff.mpr ⟨gap, x.text.toList, hgap, hx, hend, hl, ?_, rfl, ?_, rfl, rfl, rfl⟩,
    rfl, rfl⟩
  · exact String.ofList_toList.symm
  · show stop - 1 + 1 = stop
    omega

/-- Lexemes with spaces between them are read as these lexemes, and after them there are none. -/
theorem reads_spaced {l : Lexer} {gap : List Char} {ls : List Lexeme}
    (hgap : ∀ c ∈ gap, isBlank c = true) (hls : ∀ x ∈ ls, x.Spelled)
    (hl : l.rest = gap ++ spaced ls) :
    ∃ ts l', l.Reads ts l' ∧ lexemes ts = ls ∧ l'.next.1 = .ok none := by
  induction ls generalizing l gap with
  | nil =>
    refine ⟨[], l, .nil l, rfl, ?_⟩
    rw [spaced_nil, List.append_nil] at hl
    rw [next_eq_end_iff.mpr ⟨hl ▸ hgap, rfl⟩]
  | cons x ls ih =>
    have hblank : ∀ c ∈ gap ++ [' '], isBlank c = true := by
      intro c hc
      rcases List.mem_append.mp hc with hc | hc
      · exact hgap c hc
      · obtain rfl : c = ' ' := by simpa using hc
        decide
    obtain ⟨t, l₁, hn, rfl, hrest⟩ := next_of_spelled hblank (hls x (List.mem_cons_self ..))
      (endsAt_spaced ls) (by rw [hl, spaced_cons, List.append_cons])
    have hrow : l₁.rest = [] ++ spaced ls := hrest
    obtain ⟨ts, l', hr, rfl, hend⟩ := ih (by simp)
      (fun y hy => hls y (List.mem_cons_of_mem _ hy)) hrow
    exact ⟨t :: ts, l', .cons hn hr, rfl, hend⟩

/-- The start of a source, with further lexemes after it, has the tokens it had and these. -/
theorem Reads.tokenize_spaced {s u : String} {l : Lexer} {front gap : List Char}
    {ts : List Token} {ls : List Lexeme} (h : (ofSource s).Reads ts l)
    (hs : s.toList = front ++ l.rest) (hgap : ∀ c ∈ gap, isBlank c = true)
    (hls : ∀ x ∈ ls, x.Spelled) (hu : u.toList = front ++ (gap ++ spaced ls)) :
    ∃ us, tokenize u = .ok us ∧ lexemes us = lexemes ts ++ ls := by
  have hjoin : Joins l.rest (gap ++ spaced ls) := by
    intro c hc
    cases gap with
    | nil =>
      cases ls with
      | nil => simp at hc
      | cons x ls => exact Joins.of_blank (by decide) c hc
    | cons d gap => exact Joins.of_blank (hgap d (List.mem_cons_self ..)) c hc
  obtain ⟨k, hk, hrest, -⟩ := h.resume_ofSource hs hu hjoin
  obtain ⟨us, k', hr, rfl, hend⟩ := reads_spaced hgap hls hrest
  exact ⟨ts ++ us, tokenize_of_reads (hk.append hr) hend, lexemes_append ts us⟩

end Lexer

theorem toList_intercalate_text (x : Lexeme) (ls : List Lexeme) :
    (" ".intercalate ((x :: ls).map Lexeme.text)).toList = x.text.toList ++ spaced ls := by
  induction ls generalizing x with
  | nil => simp
  | cons y ls ih =>
    have h := ih y
    rw [List.map_cons, List.map_cons, String.intercalate_cons_cons, ← List.map_cons,
      String.toList_append, String.toList_append, h]
    simp

/-- The text of lexemes, with spaces between them, has them as its tokens. -/
theorem tokenize_intercalate {ls : List Lexeme} (hls : ∀ x ∈ ls, x.Spelled) :
    ∃ ts, tokenize (" ".intercalate (ls.map Lexeme.text)) = .ok ts ∧ lexemes ts = ls := by
  have hgap : ∀ c ∈ ([] : List Char), isBlank c = true := by simp
  cases ls with
  | nil =>
    have hrow : (Lexer.ofSource "").rest = [] ++ spaced [] := rfl
    obtain ⟨ts, l, hr, hts, hend⟩ := Lexer.reads_spaced hgap hls hrow
    rw [List.map_nil, String.intercalate_nil]
    exact ⟨ts, tokenize_of_reads hr hend, hts⟩
  | cons x ls =>
    have hrow : (Lexer.ofSource (" ".intercalate ((x :: ls).map Lexeme.text))).rest =
        [] ++ (x.text.toList ++ spaced ls) := toList_intercalate_text x ls
    obtain ⟨t, l, hn, rfl, hrest⟩ := Lexer.next_of_spelled hgap (hls x (List.mem_cons_self ..))
      (endsAt_spaced ls) hrow
    have hrow' : l.rest = [] ++ spaced ls := hrest
    obtain ⟨ts, l', hr, rfl, hend⟩ := Lexer.reads_spaced hgap
      (fun y hy => hls y (List.mem_cons_of_mem _ hy)) hrow'
    exact ⟨t :: ts, tokenize_of_reads (.cons hn hr) hend, rfl⟩

/-- The text of the lexeme is read as this one lexeme. -/
def Lexeme.ReadsBack (x : Lexeme) : Prop := ∃ ts, tokenize x.text = .ok ts ∧ lexemes ts = [x]

/-- A text is read as one lexeme exactly when it is a text of its kind. -/
theorem Lexeme.readsBack_iff {x : Lexeme} : x.ReadsBack ↔ x.Spelled := by
  constructor
  · rintro ⟨ts, hts, hx⟩
    obtain ⟨l, hr, -⟩ := tokenize_eq_ok_iff.mp hts
    exact hr.spelled x (hx ▸ List.mem_singleton_self x)
  · intro hx
    have hls : ∀ y ∈ [x], y.Spelled := by simpa using hx
    simpa [ReadsBack] using tokenize_intercalate hls

end ExprView
