import ExprView.Lexer.Basic
import ExprView.Proofs.Lexer.Munch

/-!
# Reading tokens one after the other

What one step of a lexer does is said by `Lexer.Yields`: blanks are passed over and a lexeme is
read. `Lexer.Reads` is a run of such steps. All that is read from a source is read by one run.

## Main statements

* `Lexer.next_eq_token_iff`, `Lexer.next_eq_end_iff`: all that a step onto a token, and a step
  onto the end, can be.
* `tokenize_eq_ok_iff`, `tokenize_eq_error_iff`: the tokens of a source are those of a run to its
  end, and its failure is the one that a run meets.
* `Lexer.Reads.split`: a run over two rows of lexemes is two runs.
-/

namespace ExprView

/-- The lexemes of tokens. -/
def lexemes (ts : List Token) : List Lexeme := ts.map Token.toLexeme

@[simp] theorem lexemes_nil : lexemes [] = [] := rfl

@[simp] theorem lexemes_cons (t : Token) (ts : List Token) :
    lexemes (t :: ts) = t.toLexeme :: lexemes ts := rfl

@[simp] theorem lexemes_append (ts us : List Token) :
    lexemes (ts ++ us) = lexemes ts ++ lexemes us := List.map_append

/-- The token, further on in a source. -/
def Token.shift (n : Nat) (t : Token) : Token :=
  { t with start := t.start + n, last := t.last + n }

@[simp] theorem Token.shift_zero (t : Token) : t.shift 0 = t := rfl

theorem byteLength_pos {cs : List Char} (h : cs ≠ []) : 0 < byteLength cs := by
  obtain ⟨c, cs, rfl⟩ := List.exists_cons_of_ne_nil h
  have := c.utf8Size_pos
  rw [byteLength_cons]
  omega

namespace Lexer

/-! ### One step -/

/-- The lexer passes over the blanks `gap` and reads `text` as the token. -/
structure Yields (l : Lexer) (gap text : List Char) (t : Token) (l' : Lexer) : Prop where
  /-- Only blanks are passed over. -/
  blank : ∀ c ∈ gap, isBlank c = true
  /-- What is read is a lexeme. -/
  isText : IsText t.kind text
  /-- The lexeme is read whole. -/
  endsAt : EndsAt t.kind text l'.rest
  /-- Nothing is lost. -/
  rest_eq : l.rest = gap ++ (text ++ l'.rest)
  /-- The token holds what is read. -/
  text_eq : t.text = String.ofList text
  /-- The token starts after the blanks. -/
  start_eq : t.start = l.position + byteLength gap
  /-- The token ends where the lexer comes to stand. -/
  last_eq : t.last + 1 = l'.position
  /-- The lexer moves over the token. -/
  position_eq : l'.position = t.start + byteLength text
  /-- The scan started at the token. -/
  mark_eq : l'.mark = t.start
  /-- The source stays. -/
  source_eq : l'.source = l.source

/-- A step after blanks is a step on what comes behind them. -/
theorem next_of_gap {l : Lexer} {gap rest : List Char} (hgap : ∀ c ∈ gap, isBlank c = true)
    (hrest : ∀ c, rest.head? = some c → isBlank c = false) (h : l.rest = gap ++ rest) :
    l.rest.takeWhile isBlank = gap ∧ l.rest.dropWhile isBlank = rest := by
  rw [h]
  exact ⟨takeWhile_append_of_stop hgap hrest, dropWhile_append_of_stop hgap hrest⟩

theorem Yields.next_eq {l l' : Lexer} {gap text : List Char} {t : Token}
    (h : l.Yields gap text t l') : l.next = (.ok (some t), l') := by
  obtain ⟨source, rest, position, mark⟩ := l'
  obtain rfl : source = l.source := h.source_eq
  obtain rfl : mark = t.start := h.mark_eq
  obtain ⟨c, cs, hcs⟩ := List.exists_cons_of_ne_nil h.isText.ne_nil
  obtain ⟨htake, hdrop⟩ := next_of_gap h.blank (h.isText.head?_not_blank rest) h.rest_eq
  have hscan : scan c (cs ++ rest) = .lexeme t.kind text rest :=
    scan_append_of_isText (by rw [hcs, List.cons_append]) h.isText h.endsAt
  have hstart : l.position + byteLength gap = t.start := h.start_eq.symm
  have hstop : t.start + byteLength text = position := h.position_eq.symm
  have hlast : position - 1 = t.last := by
    have : t.last + 1 = position := h.last_eq
    omega
  rw [next, htake, hdrop, hcs, List.cons_append]
  simp only
  rw [hscan]
  simp only [hstart, hstop, hlast, ← h.text_eq]

theorem exists_yields_of_next {l l' : Lexer} {t : Token} (h : l.next = (.ok (some t), l')) :
    ∃ gap text, l.Yields gap text t l' := by
  unfold next at h
  split at h
  · simp at h
  · next c cs hcs =>
    split at h
    · next kind text rest hscan =>
      obtain ⟨happ, htext, hend⟩ := scan_eq_lexeme_iff.mp hscan
      have hpos := byteLength_pos htext.ne_nil
      simp only [Prod.mk.injEq, Except.ok.injEq, Option.some.injEq] at h
      obtain ⟨rfl, rfl⟩ := h
      refine ⟨l.rest.takeWhile isBlank, text, fun d hd => List.mem_takeWhile_imp hd, htext, hend,
        ?_, rfl, rfl, ?_, rfl, rfl, rfl⟩
      · rw [← happ, ← hcs, List.takeWhile_append_dropWhile]
      · simp only
        omega
    · simp at h

/-- All that a step onto a token can be. -/
theorem next_eq_token_iff {l l' : Lexer} {t : Token} :
    l.next = (.ok (some t), l') ↔ ∃ gap text, l.Yields gap text t l' :=
  ⟨exists_yields_of_next, fun ⟨_, _, h⟩ => h.next_eq⟩

/-- There is no token exactly when only blanks are left, and these are passed over. -/
theorem next_eq_end_iff {l l' : Lexer} :
    l.next = (.ok none, l') ↔ (∀ c ∈ l.rest, isBlank c = true) ∧
      l' = { l with rest := [], position := l.position + byteLength l.rest } := by
  constructor
  · intro h
    unfold next at h
    split at h
    · next hdrop =>
      have hall := List.dropWhile_eq_nil_iff.mp hdrop
      simp only [Prod.mk.injEq, true_and] at h
      rw [List.takeWhile_eq_self_iff.mpr hall] at h
      exact ⟨hall, h.symm⟩
    · split at h <;> simp at h
  · rintro ⟨hall, rfl⟩
    rw [next, List.dropWhile_eq_nil_iff.mpr hall, List.takeWhile_eq_self_iff.mpr hall]

/-- A failing scan starts at or after the place of the lexer. -/
theorem position_le_offset {l l' : Lexer} {e : LexError} (h : l.next = (.error e, l')) :
    l.position ≤ e.offset := by
  unfold next at h
  split at h
  · simp at h
  · split at h
    · simp at h
    · simp only [Prod.mk.injEq, Except.error.injEq] at h
      rw [← h.1]
      exact Nat.le_add_right ..

theorem next_eq {l : Lexer} {r : Except LexError (Option Token)} (h : l.next.1 = r) :
    l.next = (r, l.next.2) := by
  rw [← h]

theorem peek_of_token {l l' : Lexer} {t : Token} (h : l.next = (.ok (some t), l')) :
    l.peek = some t.toLexeme := by
  rw [peek, h]

theorem peek_of_end {l : Lexer} (h : l.next.1 = .ok none) : l.peek = none := by
  rw [peek, h]

theorem peek_of_error {l : Lexer} {e : LexError} (h : l.next.1 = .error e) : l.peek = none := by
  rw [peek, h]

/-- What is seen is the lexeme of what comes. -/
theorem exists_token_of_peek {l : Lexer} {x : Lexeme} (h : l.peek = some x) :
    ∃ t l', l.next = (.ok (some t), l') ∧ t.toLexeme = x := by
  unfold peek at h
  split at h
  · next t ht =>
    exact ⟨t, l.next.2, next_eq ht, Option.some.inj h⟩
  · cases h

/-- A step leaves no more to read than there was. -/
theorem rest_length_next_le (l : Lexer) : l.next.2.rest.length ≤ l.rest.length := by
  unfold next
  split
  · exact Nat.zero_le _
  · next c cs hcs =>
    have hle := length_dropWhile_le isBlank l.rest
    have happ := congrArg List.length (scan_append c cs)
    rw [List.length_append] at happ
    rw [hcs] at hle
    split
    · next hscan =>
      rw [hscan] at happ
      simp only [Scan.rest] at happ ⊢
      omega
    · next hscan =>
      rw [hscan] at happ
      simp only [Scan.rest] at happ ⊢
      omega

/-- A step of the lexer does not go back. -/
theorem position_next_le (l : Lexer) : l.position ≤ l.next.2.position := by
  unfold next
  split
  · exact Nat.le_add_right ..
  · split <;> simp only <;> omega

/-! ### Runs -/

/-- The lexer reads the tokens one after the other, and becomes the second lexer. -/
inductive Reads : Lexer → List Token → Lexer → Prop where
  /-- Nothing is read. -/
  | nil (l : Lexer) : Reads l [] l
  /-- A token and then the others. -/
  | cons {l l₁ l₂ : Lexer} {t : Token} {ts : List Token} :
      l.next = (.ok (some t), l₁) → Reads l₁ ts l₂ → Reads l (t :: ts) l₂

theorem Reads.single {l l' : Lexer} {t : Token} (h : l.next = (.ok (some t), l')) :
    l.Reads [t] l' :=
  .cons h (.nil l')

theorem Reads.append {l l₁ l₂ : Lexer} {ts us : List Token} (h : l.Reads ts l₁)
    (h' : l₁.Reads us l₂) : l.Reads (ts ++ us) l₂ := by
  induction h with
  | nil => exact h'
  | cons hn _ ih => exact .cons hn (ih h')

theorem Reads.nil_eq {l l' : Lexer} (h : l.Reads [] l') : l' = l := by
  cases h
  rfl

theorem Reads.of_append {l l' : Lexer} {ts us : List Token} (h : l.Reads (ts ++ us) l') :
    ∃ l₁, l.Reads ts l₁ ∧ l₁.Reads us l' := by
  induction ts generalizing l with
  | nil => exact ⟨l, .nil l, h⟩
  | cons t ts ih =>
    cases h with
    | cons hn hr =>
      obtain ⟨l₁, h₁, h₂⟩ := ih hr
      exact ⟨l₁, .cons hn h₁, h₂⟩

/-- A run over two rows of lexemes is a run over the first and one over the second. -/
theorem Reads.split {l l' : Lexer} {ts : List Token} {us vs : List Lexeme} (h : l.Reads ts l')
    (hls : lexemes ts = us ++ vs) :
    ∃ ts₁ ts₂ l₁, ts = ts₁ ++ ts₂ ∧ l.Reads ts₁ l₁ ∧ lexemes ts₁ = us ∧
      l₁.Reads ts₂ l' ∧ lexemes ts₂ = vs := by
  obtain ⟨ts₁, ts₂, rfl, hus, hvs⟩ := List.map_eq_append_iff.mp hls
  obtain ⟨l₁, h₁, h₂⟩ := h.of_append
  exact ⟨ts₁, ts₂, l₁, rfl, h₁, hus, h₂, hvs⟩

theorem Reads.uncons {l l' : Lexer} {ts : List Token} {x : Lexeme} {us : List Lexeme}
    (h : l.Reads ts l') (hls : lexemes ts = x :: us) :
    ∃ t ts' l₁, ts = t :: ts' ∧ l.next = (.ok (some t), l₁) ∧ t.toLexeme = x ∧
      l₁.Reads ts' l' ∧ lexemes ts' = us := by
  cases h with
  | nil => simp at hls
  | @cons _ l₁ _ t ts hn hr =>
    obtain ⟨rfl, rfl⟩ : t.toLexeme = x ∧ lexemes ts = us := by simpa using hls
    exact ⟨t, ts, l₁, rfl, hn, rfl, hr, rfl⟩

/-- What is seen is the first of the lexemes that are read. -/
theorem Reads.peek_eq {l l' : Lexer} {ts : List Token} (h : l.Reads ts l') :
    l.peek = (lexemes ts).head?.or l'.peek := by
  cases h with
  | nil => rfl
  | cons hn _ => exact peek_of_token hn

/-- A run over one lexeme is one step. -/
theorem Reads.of_singleton {l l' : Lexer} {ts : List Token} {x : Lexeme} (h : l.Reads ts l')
    (hls : lexemes ts = [x]) : ∃ t, ts = [t] ∧ l.next = (.ok (some t), l') ∧ t.toLexeme = x := by
  obtain ⟨t, us, l₁, rfl, hn, ht, hr, hnil⟩ := h.uncons hls
  obtain rfl : us = [] := by simpa [lexemes] using hnil
  obtain rfl := hr.nil_eq
  exact ⟨t, rfl, hn, ht⟩

/-- The tokens of a run lie between the places of the lexer before and after it. -/
theorem Reads.offsets {l l' : Lexer} {ts : List Token} (h : l.Reads ts l') :
    l.position ≤ l'.position ∧ ∀ t ∈ ts, l.position ≤ t.start ∧ t.start < l'.position := by
  induction h with
  | nil => simp
  | @cons l l₁ l₂ t ts hn _ ih =>
    obtain ⟨gap, text, hy⟩ := next_eq_token_iff.mp hn
    have hpos := byteLength_pos hy.isText.ne_nil
    have hstart := hy.start_eq
    have hend := hy.position_eq
    obtain ⟨hle, hin⟩ := ih
    refine ⟨by omega, fun u hu => ?_⟩
    rcases List.mem_cons.mp hu with rfl | hu
    · omega
    · have := hin u hu
      omega

/-- All that can be read is read by one run, which meets the end or the failure. -/
theorem exists_reads_drain (l : Lexer) :
    ∃ l', l.Reads l.drain.1.tokens l' ∧
      l'.next.1 = match l.drain.1.fault with | none => .ok none | some e => .error e := by
  generalize hn : l.rest.length = n
  induction n using Nat.strongRecOn generalizing l with
  | _ n ih =>
    match hnext : l.next with
    | (.ok (some t), l₁) =>
      obtain ⟨l', hr, he⟩ := ih _ (hn ▸ next_rest_lt hnext) l₁ rfl
      rw [drain_of_token hnext]
      exact ⟨l', .cons hnext hr, he⟩
    | (.ok none, l₁) =>
      rw [drain_of_end hnext]
      exact ⟨l, .nil l, by rw [hnext]⟩
    | (.error e, l₁) =>
      rw [drain_of_error hnext]
      exact ⟨l, .nil l, by rw [hnext]⟩

theorem Reads.drain_eq {l l' : Lexer} {ts : List Token} (h : l.Reads ts l') :
    l.drain = ({ l'.drain.1 with tokens := ts ++ l'.drain.1.tokens }, l'.drain.2) := by
  induction h with
  | nil => rfl
  | cons hn _ ih => rw [drain_of_token hn, ih, List.cons_append]

/-- A failure that is met later on has its place later on. -/
theorem position_le_fault {l : Lexer} {e : LexError} (h : l.drain.1.fault = some e) :
    l.position ≤ e.offset := by
  obtain ⟨l', hr, he⟩ := exists_reads_drain l
  rw [h] at he
  exact Nat.le_trans hr.offsets.1 (position_le_offset (next_eq he))

end Lexer

open Lexer

/-- The tokens of a source are those that have been read and those that can still be read. -/
theorem Lexer.Reads.tokenize_eq {s : String} {ts : List Token} {l : Lexer}
    (h : (ofSource s).Reads ts l) :
    tokenize s = { l.drain.1 with tokens := ts ++ l.drain.1.tokens : TokenStream }.toExcept := by
  rw [tokenize, remaining, h.drain_eq]

/-- A source has tokens if a run meets its end. -/
theorem tokenize_of_reads {s : String} {ts : List Token} {l : Lexer}
    (h : (ofSource s).Reads ts l) (hend : l.next.1 = .ok none) : tokenize s = .ok ts := by
  rw [h.tokenize_eq, drain_of_end (next_eq hend)]
  simp [TokenStream.toExcept]

/-- A source has no tokens if a run meets a failure. -/
theorem tokenize_of_fault {s : String} {ts : List Token} {l : Lexer} {e : LexError}
    (h : (ofSource s).Reads ts l) (he : l.next.1 = .error e) : tokenize s = .error e := by
  rw [h.tokenize_eq, drain_of_error (next_eq he)]
  rfl

theorem tokenize_eq_ok_iff {s : String} {ts : List Token} :
    tokenize s = .ok ts ↔ ∃ l, (ofSource s).Reads ts l ∧ l.next.1 = .ok none := by
  constructor
  · intro h
    obtain ⟨l, hr, he⟩ := exists_reads_drain (ofSource s)
    cases hf : (ofSource s).drain.1.fault with
    | none =>
      rw [hf] at he
      obtain rfl := Except.ok.inj ((tokenize_of_reads hr he).symm.trans h)
      exact ⟨l, hr, he⟩
    | some e =>
      rw [hf] at he
      exact absurd ((tokenize_of_fault hr he).symm.trans h) (by simp)
  · rintro ⟨l, hr, he⟩
    exact tokenize_of_reads hr he

theorem tokenize_eq_error_iff {s : String} {e : LexError} :
    tokenize s = .error e ↔ ∃ ts l, (ofSource s).Reads ts l ∧ l.next.1 = .error e := by
  constructor
  · intro h
    obtain ⟨l, hr, he⟩ := exists_reads_drain (ofSource s)
    cases hf : (ofSource s).drain.1.fault with
    | none =>
      rw [hf] at he
      exact absurd ((tokenize_of_reads hr he).symm.trans h) (by simp)
    | some d =>
      rw [hf] at he
      obtain rfl := Except.error.inj ((tokenize_of_fault hr he).symm.trans h)
      exact ⟨_, l, hr, he⟩
  · rintro ⟨ts, l, hr, he⟩
    exact tokenize_of_fault hr he

end ExprView
