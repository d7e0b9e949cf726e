import ExprView.Proofs.Lexer.Reading

/-!
# Tokens decompose the source

A source has tokens exactly when it is made of blanks and of lexemes each of which is as long as
it can be, and its tokens are these lexemes with their places. There is one way at most in which
a source is made so.

## Main statements

* `Decomposes.exists_reads_append`: tokens are read in front of anything that does not go on with
  the last of them.
* `tokenize_eq_ok_iff_decomposes`: the tokens of a source are those that it is made of.
* `Decomposition.eq_of_chars_eq`: a text is made of gaps and lexemes in one way.
* `tokenize_decomposition`: both, with the gaps and the lexemes named.
-/

namespace ExprView

open Lexer

variable {n : Nat} {cs : List Char} {ts us : List Token} {l l' : Lexer}

/-! ### Runs and decompositions -/

/-- The token of a step is the lexeme with its place. -/
theorem Lexer.Yields.token_eq {gap text : List Char} {t : Token} (h : l.Yields gap text t l') :
    t = { kind := t.kind, text := String.ofList text, start := l.position + byteLength gap,
          last := l.position + byteLength gap + byteLength text - 1 } := by
  obtain ⟨⟨kind, x⟩, start, last⟩ := t
  obtain rfl : x = String.ofList text := h.text_eq
  obtain rfl : start = l.position + byteLength gap := h.start_eq
  have hlast : last + 1 = l'.position := h.last_eq
  have hstop : l'.position = l.position + byteLength gap + byteLength text := h.position_eq
  obtain rfl : last = l.position + byteLength gap + byteLength text - 1 := by omega
  rfl

/-- What is read in front of a text that is decomposed belongs to the decomposition. -/
theorem Lexer.Reads.decomposes (h : l.Reads ts l') (hus : Decomposes l'.position l'.rest us) :
    Decomposes l.position l.rest (ts ++ us) := by
  induction h with
  | nil => exact hus
  | @cons l l₁ l₂ t ts hn _ ih =>
    obtain ⟨gap, text, hy⟩ := next_eq_token_iff.mp hn
    have hrest := ih hus
    rw [hy.position_eq, hy.start_eq] at hrest
    rw [hy.rest_eq, ← List.append_assoc, List.cons_append, hy.token_eq]
    exact .token hy.blank hy.isText hy.endsAt hrest

/-- The empty text is made of no tokens. -/
theorem Decomposes.eq_nil (h : Decomposes n [] ts) : ts = [] := by
  generalize hcs : ([] : List Char) = cs at h
  cases h with
  | blank => rfl
  | token _ htext =>
    have hnil := (List.append_eq_nil_iff.mp hcs.symm).1
    exact absurd (List.append_eq_nil_iff.mp hnil).2 htext.ne_nil

/-- The last of the tokens does not go on in the text, if it reaches up to byte `n`. -/
def LastEndsAt (ts : List Token) (n : Nat) (back : List Char) : Prop :=
  ∀ t, ts.getLast? = some t → t.last + 1 = n → EndsAt t.kind t.text.toList back

/-- Tokens are read in front of anything that does not go on with the last of them. -/
theorem Decomposes.exists_reads_append {back : List Char} (h : Decomposes n cs ts)
    (hn : l.position = n) (hl : l.rest = cs ++ back)
    (hback : LastEndsAt ts (n + byteLength cs) back) :
    ∃ l' gap, l.Reads ts l' ∧ (∀ c ∈ gap, isBlank c = true) ∧ l'.rest = gap ++ back ∧
      l'.position + byteLength gap = n + byteLength cs := by
  induction h generalizing l with
  | @blank n gap hgap => exact ⟨l, gap, .nil l, hgap, hl, by rw [hn]⟩
  | @token n gap text rest kind ts hgap htext hend hrest ih =>
    subst hn
    have hpos := byteLength_pos htext.ne_nil
    let start := l.position + byteLength gap
    let stop := start + byteLength text
    let t : Token := { kind, text := String.ofList text, start, last := stop - 1 }
    let l₁ : Lexer := { l with rest := rest ++ back, position := stop, mark := start }
    have hlast : t.last + 1 = l₁.position := by
      show stop - 1 + 1 = stop
      omega
    have hbytes : l.position + byteLength (gap ++ text ++ rest) = stop + byteLength rest := by
      rw [byteLength_append, byteLength_append]
      omega
    -- behind the last lexeme stands the other text, behind the others what stood there
    have hends : EndsAt kind text (rest ++ back) := by
      cases rest with
      | nil =>
        have hts := hrest.eq_nil
        subst hts
        have h := hback t rfl (hlast.trans (by rw [hbytes]; rfl))
        simpa [t] using h
      | cons c rest => exact fun d hd => hend d hd
    have hstep : l.Yields gap text t l₁ :=
      ⟨hgap, htext, hends, by rw [hl]; simp [l₁], rfl, rfl, hlast, rfl, rfl, rfl⟩
    have hback₁ : LastEndsAt ts (stop + byteLength rest) back := by
      intro u hu hun
      refine hback u ?_ (hun.trans hbytes.symm)
      rw [List.getLast?_cons, hu]
      rfl
    obtain ⟨l', gap', hr, hgap', hl', hpos'⟩ := ih (l := l₁) rfl rfl hback₁
    exact ⟨l', gap', .cons hstep.next_eq hr, hgap', hl', hpos'.trans hbytes.symm⟩

/-- The tokens of a decomposition are read one after the other, and then there is none. -/
theorem Decomposes.exists_reads (h : Decomposes n cs ts) (hn : l.position = n) (hl : l.rest = cs) :
    ∃ l', l.Reads ts l' ∧ l'.next.1 = .ok none := by
  have hback : LastEndsAt ts (n + byteLength cs) [] := fun _ _ _ _ hc => by cases hc
  obtain ⟨l', gap, hr, hgap, hrest, -⟩ :=
    h.exists_reads_append hn (hl.trans (List.append_nil cs).symm) hback
  rw [List.append_nil] at hrest
  refine ⟨l', hr, ?_⟩
  rw [next_eq_end_iff.mpr ⟨hrest ▸ hgap, rfl⟩]

/-- The tokens of a source are those that it is made of. -/
theorem tokenize_eq_ok_iff_decomposes {s : String} :
    tokenize s = .ok ts ↔ Decomposes 0 s.toList ts := by
  rw [tokenize_eq_ok_iff]
  constructor
  · rintro ⟨l, hr, hend⟩
    obtain ⟨hblank, -⟩ := next_eq_end_iff.mp (next_eq hend)
    have h := hr.decomposes (.blank hblank)
    rwa [List.append_nil] at h
  · intro h
    exact h.exists_reads rfl rfl

/-! ### Gaps and lexemes -/

/-- Gaps and lexemes in turn, with a gap at either end. -/
inductive Decomposition where
  /-- The gap at the end. -/
  | blank (gap : List Char)
  /-- A gap, a lexeme of some kind and what follows. -/
  | token (gap : List Char) (kind : TokenKind) (text : List Char) (rest : Decomposition)
  deriving DecidableEq

namespace Decomposition

/-- All characters. -/
def chars : Decomposition → List Char
  | blank gap => gap
  | token gap _ text rest => gap ++ (text ++ rest.chars)

/-- The gaps are blank, and each lexeme is one of its kind and ends only where what follows does
not continue it. -/
def IsMaximal : Decomposition → Prop
  | blank gap => ∀ c ∈ gap, isBlank c = true
  | token gap kind text rest =>
    (∀ c ∈ gap, isBlank c = true) ∧ IsText kind text ∧ EndsAt kind text rest.chars ∧
      rest.IsMaximal

/-- The lexemes with the bytes at which they start and end, if the first gap starts at byte `n`. -/
def tokens : Nat → Decomposition → List Token
  | _, blank _ => []
  | n, token gap kind text rest =>
    { kind, text := String.ofList text, start := n + byteLength gap,
      last := n + byteLength gap + byteLength text - 1 } ::
      rest.tokens (n + byteLength gap + byteLength text)

/-- Gaps and lexemes make up a text as its tokens do. -/
theorem decomposes (d : Decomposition) (n : Nat) (h : d.IsMaximal) :
    Decomposes n d.chars (d.tokens n) := by
  induction d generalizing n with
  | blank gap => exact .blank h
  | token gap kind text rest ih =>
    obtain ⟨hgap, htext, hend, hrest⟩ := h
    rw [chars, ← List.append_assoc]
    exact .token hgap htext hend (ih _ hrest)

theorem exists_of_decomposes (h : Decomposes n cs ts) :
    ∃ d : Decomposition, d.IsMaximal ∧ d.chars = cs ∧ d.tokens n = ts := by
  induction h with
  | @blank n gap hgap => exact ⟨blank gap, hgap, rfl, rfl⟩
  | @token n gap text rest kind ts hgap htext hend _ ih =>
    obtain ⟨d, hd, rfl, rfl⟩ := ih
    exact ⟨token gap kind text d, ⟨hgap, htext, hend, hd⟩, (List.append_assoc ..).symm, rfl⟩

/-- A source is made of tokens exactly if it is made of gaps and of their lexemes. -/
theorem decomposes_iff : Decomposes n cs ts ↔
    ∃ d : Decomposition, d.IsMaximal ∧ d.chars = cs ∧ d.tokens n = ts := by
  constructor
  · exact exists_of_decomposes
  · rintro ⟨d, hd, rfl, rfl⟩
    exact d.decomposes n hd

/-! ### One decomposition -/

/-- A text starts with a gap and a lexeme that does not go on in one way. -/
theorem lexeme_unique {kind kind' : TokenKind} {gap gap' text text' rest rest' : List Char}
    (hgap : ∀ c ∈ gap, isBlank c = true) (hgap' : ∀ c ∈ gap', isBlank c = true)
    (htext : IsText kind text) (htext' : IsText kind' text') (hend : EndsAt kind text rest)
    (hend' : EndsAt kind' text' rest') (h : gap ++ (text ++ rest) = gap' ++ (text' ++ rest')) :
    gap = gap' ∧ kind = kind' ∧ text = text' ∧ rest = rest' := by
  have hfront := takeWhile_append_of_stop hgap (htext.head?_not_blank rest)
  rw [h, takeWhile_append_of_stop hgap' (htext'.head?_not_blank rest')] at hfront
  obtain rfl : gap' = gap := hfront
  have hrow : text ++ rest = text' ++ rest' := List.append_cancel_left h
  -- both are what a scan of this text reads
  obtain ⟨c, cs, rfl⟩ := List.exists_cons_of_ne_nil htext.ne_nil
  have hscan := scan_append_of_isText (List.cons_append ..).symm htext hend
  have hscan' : scan c (cs ++ rest) = .lexeme kind' text' rest' :=
    scan_append_of_isText hrow htext' hend'
  rw [hscan] at hscan'
  cases hscan'
  exact ⟨rfl, rfl, rfl, rfl⟩

/-- Blanks are not a gap and a lexeme. -/
theorem blank_ne_token {kind : TokenKind} {gap gap' text rest : List Char}
    (hgap : ∀ c ∈ gap, isBlank c = true) (htext : IsText kind text) :
    gap ≠ gap' ++ (text ++ rest) := by
  rintro rfl
  obtain ⟨c, cs, rfl⟩ := List.exists_cons_of_ne_nil htext.ne_nil
  have hc : isBlank c = true := hgap c (by simp)
  rw [htext.head_not_blank] at hc
  cases hc

/-- A text is made of gaps and lexemes in one way. -/
theorem eq_of_chars_eq {d d' : Decomposition} (h : d.IsMaximal) (h' : d'.IsMaximal)
    (heq : d.chars = d'.chars) : d = d' := by
  induction d generalizing d' with
  | blank gap =>
    cases d' with
    | blank gap' => exact congrArg blank heq
    | token gap' kind' text' rest' => exact absurd heq (blank_ne_token h h'.2.1)
  | token gap kind text rest ih =>
    obtain ⟨hgap, htext, hend, hrest⟩ := h
    cases d' with
    | blank gap' => exact absurd heq.symm (blank_ne_token h' htext)
    | token gap' kind' text' rest' =>
      obtain ⟨hgap', htext', hend', hrest'⟩ := h'
      obtain ⟨rfl, rfl, rfl, hchars⟩ :=
        lexeme_unique hgap hgap' htext htext' hend hend' heq
      rw [ih hrest hrest' hchars]

end Decomposition

/-- A source has tokens exactly when it is made of blank gaps and of lexemes that do not go on, and
its tokens are these lexemes with the bytes at which they start and end. It is made so in one way
at most. -/
theorem tokenize_decomposition (s : String) :
    (∀ ts, tokenize s = .ok ts ↔
      ∃ d : Decomposition, d.IsMaximal ∧ d.chars = s.toList ∧ d.tokens 0 = ts) ∧
    ∀ d d' : Decomposition, d.IsMaximal → d'.IsMaximal → d.chars = s.toList →
      d'.chars = s.toList → d = d' := by
  constructor
  · intro ts
    exact tokenize_eq_ok_iff_decomposes.trans Decomposition.decomposes_iff
  · intro d d' h h' hs hs'
    exact Decomposition.eq_of_chars_eq h h' (hs.trans hs'.symm)

/-- The second dot starts a second number, and no other decomposition is maximal. -/
theorem tokenize_decomposition_dots :
    let d : Decomposition :=
      .token [' '] .number ['1', '.', '5'] (.token [] .number ['.', '2'] (.blank []))
    d.IsMaximal ∧ d.chars = " 1.5.2".toList ∧ tokenize " 1.5.2" = .ok (d.tokens 0) ∧
      ∀ d' : Decomposition, d'.IsMaximal → d'.chars = " 1.5.2".toList → d' = d := by
  intro d
  have hfirst : IsNumberText ['1', '.', '5'] :=
    .plain (@IsMantissa.dotted ['1'] ['5'] (by simp [IsDigits]) (by simp [IsDigits]) (by simp))
  have hsecond : IsNumberText ['.', '2'] :=
    .plain (@IsMantissa.dotted [] ['2'] (by simp [IsDigits]) (by simp [IsDigits]) (by simp))
  have hd : d.IsMaximal := by
    refine ⟨List.forall_mem_singleton.mpr rfl, hfirst, ?_, by simp, hsecond, ?_,
      by simp [Decomposition.IsMaximal]⟩
    · intro c hc
      obtain rfl : '.' = c := by simpa [Decomposition.chars] using hc
      simp [Continues, isExponentMark]
    · simp [EndsAt, Decomposition.chars]
  have hchars : d.chars = " 1.5.2".toList := by decide
  obtain ⟨hiff, hunique⟩ := tokenize_decomposition " 1.5.2"
  exact ⟨hd, hchars, (hiff _).mpr ⟨d, hd, hchars, rfl⟩,
    fun d' hd' hchars' => hunique d' d hd' hd hchars' hchars⟩

end ExprView
