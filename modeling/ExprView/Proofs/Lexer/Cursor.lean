import ExprView.Lexer.Run
import ExprView.Proofs.Lexer.Locality
import ExprView.Text.Edit

/-!
# The cursor of a lexer

Whatever has been done with a lexer, its cursor and the place where its last scan started lie
between two characters of the source, and the cursor does not go back in a source. A failed scan
may leave the cursor within a literal or in front of any character; what is read from there on is
still a piece of the source behind all that was returned before.

For a whole run the tokens that were returned are recorded beside the lexer. A copy has returned
what the lexer had when it was kept.

## Main statements

* `Lexer.Sound.next_token`, `Lexer.Sound.next_end`, `Lexer.Sound.next_error`: what one step does.
* `Lexer.Sound.next`: a lexer stands in its source after any step.
* `LexerHistory.Sound.step`: the record stays right in one step.
* `lexer_history_sound`: a lexer after any run.
-/

namespace ExprView

open Lexer

/-! ### Places in a source -/

/-- The text stands in the source from byte `n` on. -/
def StandsAt (s : String) (n : Nat) (text : List Char) : Prop :=
  ∃ front back, s.toList = front ++ (text ++ back) ∧ byteLength front = n

/-- There are only blanks from byte `m` to byte `n` of the source. -/
def BlankBetween (s : String) (m n : Nat) : Prop :=
  ∃ gap, StandsAt s m gap ∧ (∀ c ∈ gap, isBlank c = true) ∧ m + byteLength gap = n

theorem BlankBetween.le {s : String} {m n : Nat} (h : BlankBetween s m n) : m ≤ n := by
  obtain ⟨gap, -, -, rfl⟩ := h
  exact Nat.le_add_right ..

/-- The token is a piece of the source: its text stands at its place, is not empty and has one
byte for each character. -/
structure Token.IsIn (t : Token) (s : String) : Prop where
  /-- The text stands in the source where the token starts. -/
  stands : StandsAt s t.start t.text.toList
  /-- The last byte of the text is that of the token. -/
  length_eq : t.start + t.text.utf8ByteSize = t.last + 1
  /-- The text is not empty. -/
  text_ne : t.text ≠ ""
  /-- The text is made of characters of ASCII. -/
  ascii : ∀ c ∈ t.text.toList, c.toNat < 128

theorem Token.IsIn.start_le_last {t : Token} {s : String} (h : t.IsIn s) : t.start ≤ t.last := by
  have hpos : 0 < t.text.utf8ByteSize := by
    rw [← byteLength_toList]
    exact byteLength_pos fun hnil => h.text_ne (String.toList_inj.mp hnil)
  have hlength := h.length_eq
  omega

/-- A byte is the first of a character, or the end, exactly if whole characters are in front. -/
theorem isValid_iff_exists_byteLength {s : String} {n : Nat} :
    String.Pos.Raw.IsValid s ⟨n⟩ ↔
      ∃ front back, s.toList = front ++ back ∧ byteLength front = n := by
  rw [← exists_cutAt?_iff]
  simp only [cutAt?_eq_some_iff]

namespace Lexer

variable {l l' : Lexer} {gap read : List Char} {ts us : List Token} {t : Token} {e : LexError}

/-! ### One step -/

/-- The lexer stands in its source. -/
structure Sound (l : Lexer) : Prop where
  /-- What is left starts at the cursor. -/
  rest_eq : ∃ front, l.source.toList = front ++ l.rest ∧ byteLength front = l.position
  /-- The last scan started between two characters. -/
  mark_valid : String.Pos.Raw.IsValid l.source ⟨l.mark⟩
  /-- The last scan did not start behind the cursor. -/
  mark_le : l.mark ≤ l.position

theorem ofSource_sound (s : String) : (ofSource s).Sound where
  rest_eq := ⟨[], rfl, rfl⟩
  mark_valid := isValid_iff_exists_byteLength.mpr ⟨[], s.toList, rfl, rfl⟩
  mark_le := Nat.le_refl 0

/-- A part of what is left stands in the source. -/
theorem Sound.standsAt (h : l.Sound) {front text back : List Char}
    (hl : l.rest = front ++ (text ++ back)) :
    StandsAt l.source (l.position + byteLength front) text := by
  obtain ⟨passed, hs, hn⟩ := h.rest_eq
  refine ⟨passed ++ front, back, ?_, ?_⟩
  · rw [hs, hl, List.append_assoc]
  · rw [byteLength_append, hn]

/-- However much of what is left is passed over, the cursor is between two characters. -/
theorem Sound.isValid (h : l.Sound) {front back : List Char} (hl : l.rest = front ++ back) :
    String.Pos.Raw.IsValid l.source ⟨l.position + byteLength front⟩ := by
  obtain ⟨passed, hs, hn⟩ := h.rest_eq
  refine isValid_iff_exists_byteLength.mpr ⟨passed ++ front, back, ?_, ?_⟩
  · rw [hs, hl, List.append_assoc]
  · rw [byteLength_append, hn]

theorem Sound.length_eq (h : l.Sound) :
    l.position + byteLength l.rest = l.source.utf8ByteSize := by
  obtain ⟨passed, hs, hn⟩ := h.rest_eq
  rw [← byteLength_toList, hs, byteLength_append, hn]

theorem Sound.position_le (h : l.Sound) : l.position ≤ l.source.utf8ByteSize := by
  have hlength := h.length_eq
  omega

theorem Sound.blankBetween (h : l.Sound) {n : Nat} {back : List Char}
    (hgap : ∀ c ∈ gap, isBlank c = true) (hl : l.rest = gap ++ back)
    (hn : n = l.position + byteLength gap) : BlankBetween l.source l.position n := by
  have hrow : l.rest = [] ++ (gap ++ back) := hl
  exact ⟨gap, h.standsAt hrow, hgap, hn.symm⟩

/-- All that a step does to a lexer: it passes over a gap and over what it reads, and remembers
where it started to read. -/
structure Passes (l : Lexer) (gap read : List Char) (l' : Lexer) : Prop where
  /-- The gap is blank. -/
  blank : ∀ c ∈ gap, isBlank c = true
  /-- Nothing is lost. -/
  rest_eq : l.rest = gap ++ (read ++ l'.rest)
  /-- The cursor moves over both. -/
  position_eq : l'.position = l.position + byteLength gap + byteLength read
  /-- The scan started behind the gap, if there was one. -/
  mark_eq : l'.mark = l.position + byteLength gap ∨ l'.mark = l.mark
  /-- The source stays. -/
  source_eq : l'.source = l.source

theorem Passes.le (h : l.Passes gap read l') : l.position ≤ l'.position := by
  have hpos := h.position_eq
  omega

theorem Sound.passes (h : l.Sound) (hp : l.Passes gap read l') : l'.Sound where
  rest_eq := by
    obtain ⟨passed, hs, hn⟩ := h.rest_eq
    refine ⟨passed ++ (gap ++ read), ?_, ?_⟩
    · rw [hp.source_eq, hs, hp.rest_eq]
      simp
    · rw [byteLength_append, byteLength_append, hn, hp.position_eq, Nat.add_assoc]
  mark_valid := by
    rw [hp.source_eq]
    rcases hp.mark_eq with hmark | hmark
    · rw [hmark]
      exact h.isValid hp.rest_eq
    · rw [hmark]
      exact h.mark_valid
  mark_le := by
    have hpos := hp.position_eq
    have hle := h.mark_le
    rcases hp.mark_eq with hmark | hmark <;> omega

theorem Yields.passes {text : List Char} (h : l.Yields gap text t l') : l.Passes gap text l' where
  blank := h.blank
  rest_eq := h.rest_eq
  position_eq := by rw [h.position_eq, h.start_eq]
  mark_eq := .inl (by rw [h.mark_eq, h.start_eq])
  source_eq := h.source_eq

/-- A failing scan starts behind blanks, and what it read is passed over. -/
theorem exists_passes_of_error (h : l.next = (.error e, l')) :
    ∃ gap read, l.Passes gap read l' ∧ e.offset = l.position + byteLength gap := by
  unfold next at h
  split at h
  · simp at h
  · next c cs hcs =>
    split at h
    · simp at h
    · next cause read rest hscan =>
      have happ := scan_append c cs
      rw [hscan] at happ
      simp only [Prod.mk.injEq, Except.error.injEq] at h
      obtain ⟨rfl, rfl⟩ := h
      refine ⟨l.rest.takeWhile isBlank, read,
        ⟨fun d hd => List.mem_takeWhile_imp hd, ?_, rfl, .inl rfl, rfl⟩, rfl⟩
      rw [show read ++ rest = c :: cs from happ, ← hcs, List.takeWhile_append_dropWhile]

theorem passes_of_end (h : l.next = (.ok none, l')) :
    l.Passes l.rest [] l' ∧ l'.position = l.position + byteLength l.rest := by
  obtain ⟨hblank, rfl⟩ := next_eq_end_iff.mp h
  exact ⟨⟨hblank, by simp, by simp, .inr rfl, rfl⟩, rfl⟩

/-- A token that is read is a piece of the source behind the cursor, with only blanks in front, and
the cursor comes to stand behind it. -/
theorem Sound.next_token (h : l.Sound) (hn : l.next = (.ok (some t), l')) :
    l'.Sound ∧ l'.source = l.source ∧ t.IsIn l.source ∧
      BlankBetween l.source l.position t.start ∧ l'.position = t.last + 1 := by
  obtain ⟨gap, text, hy⟩ := next_eq_token_iff.mp hn
  have htext : t.text.toList = text := by rw [hy.text_eq, String.toList_ofList]
  refine ⟨h.passes hy.passes, hy.source_eq, ⟨?_, ?_, ?_, ?_⟩, ?_, hy.last_eq.symm⟩
  · rw [htext, hy.start_eq]
    exact h.standsAt hy.rest_eq
  · rw [← byteLength_toList, htext, hy.last_eq, hy.position_eq]
  · intro hempty
    rw [hempty] at htext
    exact hy.isText.ne_nil htext.symm
  · rw [htext]
    exact fun c hc => toNat_lt_of_isLexemeChar (hy.isText.isLexemeChar c hc)
  · exact h.blankBetween hy.blank hy.rest_eq hy.start_eq

/-- If there is no token, the cursor comes to stand at the end. -/
theorem Sound.next_end (h : l.Sound) (hn : l.next = (.ok none, l')) :
    l'.Sound ∧ l'.source = l.source ∧
      BlankBetween l.source l.position l.source.utf8ByteSize ∧
      l'.position = l.source.utf8ByteSize := by
  obtain ⟨hp, hpos⟩ := passes_of_end hn
  refine ⟨h.passes hp, hp.source_eq, h.blankBetween hp.blank hp.rest_eq h.length_eq.symm, ?_⟩
  rw [hpos, h.length_eq]

/-- A failing scan starts behind the cursor, with only blanks between, and not behind the place
where the cursor comes to stand. -/
theorem Sound.next_error (h : l.Sound) (hn : l.next = (.error e, l')) :
    l'.Sound ∧ l'.source = l.source ∧ BlankBetween l.source l.position e.offset ∧
      e.offset ≤ l'.position := by
  obtain ⟨gap, read, hp, hoffset⟩ := exists_passes_of_error hn
  refine ⟨h.passes hp, hp.source_eq, h.blankBetween hp.blank hp.rest_eq hoffset, ?_⟩
  rw [hp.position_eq, hoffset]
  exact Nat.le_add_right ..

/-- A lexer stands in its source after any step, a failed one too. -/
theorem Sound.next (h : l.Sound) :
    l.next.2.Sound ∧ l.next.2.source = l.source := by
  rcases hn : l.next with ⟨e | found, l'⟩
  · obtain ⟨hsound, hsource, -⟩ := h.next_error hn
    exact ⟨hsound, hsource⟩
  · cases found with
    | none =>
      obtain ⟨hsound, hsource, -⟩ := h.next_end hn
      exact ⟨hsound, hsource⟩
    | some t =>
      obtain ⟨hsound, hsource, -⟩ := h.next_token hn
      exact ⟨hsound, hsource⟩

/-! ### What has been returned -/

/-- The lexer stands in its source, and the tokens are pieces of the source in front of the cursor,
each of them behind those before it. -/
structure SoundAfter (l : Lexer) (ts : List Token) : Prop extends Sound l where
  /-- The tokens are pieces of the source. -/
  isIn : ∀ t ∈ ts, t.IsIn l.source
  /-- The tokens lie in front of the cursor. -/
  last_lt : ∀ t ∈ ts, t.last < l.position
  /-- The tokens are ordered and disjoint. -/
  ordered : ts.Pairwise fun t u => t.last < u.start

theorem Sound.soundAfter_nil (h : l.Sound) : l.SoundAfter [] where
  toSound := h
  isIn := by simp
  last_lt := by simp
  ordered := .nil

theorem ofSource_soundAfter (s : String) : (ofSource s).SoundAfter [] :=
  (ofSource_sound s).soundAfter_nil

theorem SoundAfter.token (h : l.SoundAfter ts) (hn : l.next = (.ok (some t), l')) :
    l'.SoundAfter (ts ++ [t]) := by
  obtain ⟨hsound, hsource, hin, hgap, hpos⟩ := h.next_token hn
  have hle := hgap.le
  have hstart := hin.start_le_last
  refine ⟨hsound, ?_, ?_, ?_⟩
  · rw [hsource]
    exact List.forall_mem_append.mpr ⟨h.isIn, List.forall_mem_singleton.mpr hin⟩
  · refine List.forall_mem_append.mpr ⟨fun u hu => ?_, List.forall_mem_singleton.mpr ?_⟩
    · have hlast := h.last_lt u hu
      omega
    · omega
  · refine List.pairwise_append.mpr ⟨h.ordered, List.pairwise_singleton _ t, ?_⟩
    intro u hu v hv
    obtain rfl := List.mem_singleton.mp hv
    have hlast := h.last_lt u hu
    omega

theorem SoundAfter.reads (h : l.SoundAfter ts) (hr : l.Reads us l') :
    l'.SoundAfter (ts ++ us) := by
  induction hr generalizing ts with
  | nil =>
    rw [List.append_nil]
    exact h
  | @cons l l₁ l₂ t us hn _ ih =>
    rw [List.append_cons]
    exact ih (h.token hn)

/-- A step that reads no token leaves what was returned as it was. -/
theorem SoundAfter.of_le (h : l.SoundAfter ts) (hsound : l'.Sound) (hsource : l'.source = l.source)
    (hle : l.position ≤ l'.position) : l'.SoundAfter ts where
  toSound := hsound
  isIn := hsource ▸ h.isIn
  last_lt := fun t ht => Nat.lt_of_lt_of_le (h.last_lt t ht) hle
  ordered := h.ordered

theorem SoundAfter.noToken (h : l.SoundAfter ts) (hno : ∀ t, l.next.1 ≠ .ok (some t)) :
    l.next.2.SoundAfter ts := by
  rcases hn : l.next with ⟨e | found, l'⟩
  · obtain ⟨hsound, hsource, -⟩ := h.next_error hn
    have hle := l.position_next_le
    rw [hn] at hle
    exact h.of_le hsound hsource hle
  · cases found with
    | none =>
      obtain ⟨hsound, hsource, hgap, hpos⟩ := h.next_end hn
      exact h.of_le hsound hsource (hpos ▸ hgap.le)
    | some t => exact absurd (congrArg Prod.fst hn) (hno t)

/-- Reading on is reading tokens, and then a step that reads none. -/
theorem exists_reads_remaining (l : Lexer) :
    ∃ ts l', l.Reads ts l' ∧ (∀ t, l'.next.1 ≠ .ok (some t)) ∧ l.remaining.2 = l'.next.2 ∧
      ∀ us, l.remaining.1 = .ok us → us = ts := by
  obtain ⟨l', hr, hl⟩ := exists_reads_drain l
  refine ⟨_, l', hr, ?_, ?_, ?_⟩
  · intro t ht
    rw [hl] at ht
    cases hf : l.drain.1.fault <;> simp [hf] at ht
  · rw [remaining, hr.drain_eq]
    cases hf : l.drain.1.fault with
    | none =>
      rw [hf] at hl
      rw [drain_of_end (next_eq hl)]
    | some e =>
      rw [hf] at hl
      rw [drain_of_error (next_eq hl)]
  · intro us hus
    rw [remaining, TokenStream.toExcept] at hus
    cases hf : l.drain.1.fault with
    | none =>
      rw [hf] at hus
      exact (Except.ok.inj hus).symm
    | some e =>
      rw [hf] at hus
      cases hus

/-- Of the tokens that were read on the way to a failure none is returned. -/
theorem SoundAfter.sublist (h : l.SoundAfter ts) (hsub : us.Sublist ts) : l.SoundAfter us where
  toSound := h.toSound
  isIn := fun t ht => h.isIn t (hsub.subset ht)
  last_lt := fun t ht => h.last_lt t (hsub.subset ht)
  ordered := h.ordered.sublist hsub

end Lexer

/-! ### Runs -/

/-- The tokens that a step returns. -/
def LexerAnswer.returned : LexerAnswer → List Token
  | .token (.ok (some t)) => [t]
  | .tokens (.ok ts) => ts
  | _ => []

/-- Whether the lexer goes on in the source that it has. -/
def LexerStep.staysInSource : LexerStep → Bool
  | .restore _ | .reset _ => false
  | _ => true

/-- A lexer and its copies, each with the tokens that it has returned from its source. -/
structure LexerHistory where
  /-- The lexer and its copies. -/
  state : LexerState := {}
  /-- What the lexer has returned. -/
  returned : List Token := []
  /-- What the copies have returned. -/
  saved : List (List Token) := []

namespace LexerHistory

/-- Does one step. A lexer that is given a source has returned nothing from it, and one that is gone
back to has returned what it had. -/
def step (h : LexerHistory) (s : LexerStep) : LexerHistory where
  state := (h.state.step s).2
  returned :=
    match s with
    | .reset _ => []
    | .restore n => h.saved.getD n []
    | _ => h.returned ++ (h.state.step s).1.returned
  saved :=
    match s with
    | .save => h.returned :: h.saved
    | _ => h.saved

/-- Does steps one after the other. -/
def run (h : LexerHistory) (steps : List LexerStep) : LexerHistory := steps.foldl step h

/-- The lexer and all its copies stand in their sources behind what they have returned. -/
structure Sound (h : LexerHistory) : Prop where
  /-- The lexer does. -/
  lexer : h.state.lexer.SoundAfter h.returned
  /-- The copies do. -/
  saved : ∀ n, (h.state.saved.getD n {}).SoundAfter (h.saved.getD n [])

variable {h : LexerHistory}

theorem start_sound (l : Lexer) (hl : l.SoundAfter []) : Sound { state := { lexer := l } } where
  lexer := hl
  saved := fun _ => ofSource_soundAfter ""

/-- Whatever is read from a lexer that goes on, it stands behind all that it has returned. -/
theorem Sound.next (hs : h.Sound) : (h.step .next).Sound where
  lexer := by
    have hl := hs.lexer
    rcases hn : h.state.lexer.next with ⟨e | found, l'⟩
    · have hno : ∀ t, h.state.lexer.next.1 ≠ .ok (some t) := by simp [hn]
      simpa [step, LexerState.step, LexerAnswer.returned, hn] using hl.noToken hno
    · cases found with
      | none =>
        have hno : ∀ t, h.state.lexer.next.1 ≠ .ok (some t) := by simp [hn]
        simpa [step, LexerState.step, LexerAnswer.returned, hn] using hl.noToken hno
      | some t => simpa [step, LexerState.step, LexerAnswer.returned, hn] using hl.token hn
  saved := hs.saved

theorem Sound.remaining (hs : h.Sound) : (h.step .remaining).Sound where
  lexer := by
    obtain ⟨ts, l', hr, hno, hlast, hall⟩ := exists_reads_remaining h.state.lexer
    have hl := (hs.lexer.reads hr).noToken hno
    rw [← hlast] at hl
    refine hl.sublist (List.Sublist.append_left ?_ h.returned)
    cases ha : h.state.lexer.remaining.1 with
    | error e => simp [LexerState.step, LexerAnswer.returned, ha]
    | ok us =>
      rw [← hall us ha]
      simp [LexerState.step, LexerAnswer.returned, ha]
  saved := hs.saved

/-- The record stays right in one step. -/
theorem Sound.step (hs : h.Sound) (s : LexerStep) : (h.step s).Sound := by
  cases s with
  | next => exact hs.next
  | remaining => exact hs.remaining
  | peek | source =>
    refine ⟨?_, hs.saved⟩
    simpa [LexerHistory.step, LexerState.step, LexerAnswer.returned] using hs.lexer
  | save =>
    constructor
    · simpa [LexerHistory.step, LexerState.step, LexerAnswer.returned] using hs.lexer
    · intro n
      cases n with
      | zero => exact hs.lexer
      | succ n => exact hs.saved n
  | restore n => exact ⟨hs.saved n, hs.saved⟩
  | reset source => exact ⟨ofSource_soundAfter source, hs.saved⟩

theorem Sound.run (hs : h.Sound) (steps : List LexerStep) : (h.run steps).Sound := by
  induction steps generalizing h with
  | nil => exact hs
  | cons s steps ih => exact ih (hs.step s)

/-- The cursor does not go back in a source. -/
theorem position_le_step (h : LexerHistory) {s : LexerStep} (hs : s.staysInSource = true) :
    h.state.lexer.position ≤ (h.step s).state.lexer.position := by
  cases s with
  | next => exact h.state.lexer.position_next_le
  | remaining =>
    obtain ⟨ts, l', hr, -, hlast, -⟩ := exists_reads_remaining h.state.lexer
    have hle := Nat.le_trans hr.offsets.1 l'.position_next_le
    rw [← hlast] at hle
    exact hle
  | peek | source | save => exact Nat.le_refl _
  | restore n => cases hs
  | reset source => cases hs

theorem position_le_run (h : LexerHistory) {steps : List LexerStep}
    (hs : ∀ s ∈ steps, s.staysInSource = true) :
    h.state.lexer.position ≤ (h.run steps).state.lexer.position := by
  induction steps generalizing h with
  | nil => exact Nat.le_refl _
  | cons s steps ih =>
    obtain ⟨hfirst, hrest⟩ := List.forall_mem_cons.mp hs
    exact Nat.le_trans (h.position_le_step hfirst) (ih _ hrest)

end LexerHistory

/-- A lexer after any run. Its cursor and the place where its last scan started lie between two
characters of the source, the cursor not in front of that place, and so it is wherever the cursor
stops within what is left. What has been returned from the source is a row of its pieces, ordered
and disjoint, in front of the cursor, whatever scans have failed. As long as the lexer goes on in
the source the cursor does not go back. The next step passes over blanks, and then returns a piece
of the source and stops behind it, or stops at the end, or fails where a scan started. -/
theorem lexer_history_sound (source : String) (steps more : List LexerStep) :
    let h := LexerHistory.run { state := { lexer := ofSource source } } steps
    let l := h.state.lexer
    (String.Pos.Raw.IsValid l.source ⟨l.position⟩ ∧ String.Pos.Raw.IsValid l.source ⟨l.mark⟩ ∧
      l.mark ≤ l.position ∧ l.position ≤ l.source.utf8ByteSize ∧
      ∀ front back, l.rest = front ++ back →
        String.Pos.Raw.IsValid l.source ⟨l.position + byteLength front⟩) ∧
    (h.returned.Pairwise fun t u => t.last < u.start) ∧
    (∀ t ∈ h.returned, t.IsIn l.source ∧ t.last < l.position) ∧
    ((∀ s ∈ more, s.staysInSource = true) →
      l.position ≤ (h.run more).state.lexer.position) ∧
    (∀ t l', l.next = (.ok (some t), l') →
      t.IsIn l.source ∧ l.position ≤ t.start ∧ t.start ≤ t.last ∧ l'.position = t.last + 1 ∧
        BlankBetween l.source l.position t.start) ∧
    (∀ l', l.next = (.ok none, l') → l'.position = l.source.utf8ByteSize) ∧
    ∀ e l', l.next = (.error e, l') →
      l.position ≤ e.offset ∧ e.offset ≤ l'.position ∧
        BlankBetween l.source l.position e.offset := by
  intro h l
  have hs : h.Sound := (LexerHistory.start_sound _ (ofSource_soundAfter source)).run steps
  have hl : l.SoundAfter h.returned := hs.lexer
  have hrest : l.rest = [] ++ l.rest := rfl
  refine ⟨⟨hl.isValid hrest, hl.mark_valid, hl.mark_le, hl.position_le, fun _ _ => hl.isValid⟩,
    hl.ordered, fun t ht => ⟨hl.isIn t ht, hl.last_lt t ht⟩, fun hmore => h.position_le_run hmore,
    ?_, ?_, ?_⟩
  · intro t l' hn
    obtain ⟨-, -, hin, hgap, hpos⟩ := hl.next_token hn
    exact ⟨hin, hgap.le, hin.start_le_last, hpos, hgap⟩
  · intro l' hn
    obtain ⟨-, -, -, hpos⟩ := hl.next_end hn
    exact hpos
  · intro e l' hn
    obtain ⟨-, -, hgap, hle⟩ := hl.next_error hn
    exact ⟨hgap.le, hle, hgap⟩

/-- A scan fails behind the mark of an exponent, and the lexer goes on at the letter there. A copy
that was kept then is gone back to after more has been read. -/
theorem lexer_history_sound_exponent :
    let h := LexerHistory.run { state := { lexer := ofSource "1ex 2" } }
      [.next, .save, .next, .next, .restore, .next]
    h.returned = [⟨.identifier "x", 2, 2⟩] ∧ h.state.lexer.position = 3 ∧
      3 ≤ (h.run [.peek, .next]).state.lexer.position ∧
      ∃ t l', h.state.lexer.next = (.ok (some t), l') ∧ t.IsIn "1ex 2" ∧ l'.position = t.last + 1 ∧
        BlankBetween "1ex 2" 3 t.start := by
  intro h
  have hreturned : h.returned = [⟨.identifier "x", 2, 2⟩] := by decide +kernel
  have hpos : h.state.lexer.position = 3 := by decide +kernel
  have hsource : h.state.lexer.source = "1ex 2" := by decide +kernel
  have hnext : h.state.lexer.next =
      (.ok (some ⟨.number "2", 4, 4⟩), { h.state.lexer with rest := [], position := 5, mark := 4 }) := by
    decide +kernel
  obtain ⟨-, -, -, hle, htoken, -⟩ := lexer_history_sound "1ex 2"
    [.next, .save, .next, .next, .restore, .next] [.peek, .next]
  obtain ⟨hin, -, -, hlast, hgap⟩ := htoken _ _ hnext
  exact ⟨hreturned, hpos, hpos ▸ hle (by decide), _, _, hnext, hsource ▸ hin, hlast,
    hpos ▸ hsource ▸ hgap⟩

end ExprView
