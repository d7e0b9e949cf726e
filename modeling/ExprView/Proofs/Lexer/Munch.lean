import ExprView.Lexer.Lexeme
import ExprView.Proofs.Text.Runs
import Mathlib.Data.List.TakeWhile

/-!
# A scan reads the longest lexeme

`scan` is three scanners that are tried one after the other. Here it is compared with what
lexemes are (`IsText`) and where they end (`EndsAt`), which say nothing of an order.

## Main statements

* `scan_eq_lexeme_iff`: a scan reads a text if and only if the text is a lexeme of its kind and
  the next character does not continue it.
* `IsText.ofFirst?_eq`: the first character of a lexeme tells its kind.
* `IsText.isLexemeChar`, `toNat_lt_of_isLexemeChar`: lexemes are made of a few characters of ASCII.
-/

namespace ExprView

/-! ### Character classes -/

/-- The kind of the lexemes that start with a character. -/
def TokenKind.ofFirst? (c : Char) : Option TokenKind :=
  if c.isDigit || c == '.' then some .number
  else if isOperatorChar c then some .operator
  else if isNameStart c then some .identifier
  else none

theorem isOperatorChar_disjoint {c : Char} (h : isOperatorChar c = true) :
    c.isDigit = false ∧ c ≠ '.' ∧ isNameStart c = false ∧ isBlank c = false := by
  simp only [isOperatorChar, operatorChars, List.contains_eq_mem, List.mem_cons, List.not_mem_nil,
    or_false, decide_eq_true_eq] at h
  rcases h with rfl | rfl | rfl | rfl | rfl | rfl | rfl | rfl | rfl | rfl | rfl <;> decide

theorem toNat_of_isAlpha {c : Char} (h : c.isAlpha = true) :
    65 ≤ c.toNat ∧ c.toNat ≤ 90 ∨ 97 ≤ c.toNat ∧ c.toNat ≤ 122 := by
  have hcode : (decide (65 ≤ c.val ∧ c.val ≤ 90) || decide (97 ≤ c.val) && decide (c.val ≤ 122)) =
      true := h
  simp only [Bool.or_eq_true, Bool.and_eq_true, decide_eq_true_eq, UInt32.le_iff_toNat_le] at hcode
  exact hcode

theorem toNat_of_isDigit {c : Char} (h : c.isDigit = true) : 48 ≤ c.toNat ∧ c.toNat ≤ 57 :=
  Char.isDigit_iff_toNat.mp h

theorem isDigit_disjoint {c : Char} (h : c.isDigit = true) :
    isOperatorChar c = false ∧ isNameStart c = false ∧ isBlank c = false ∧
      isExponentMark c = false ∧ c ≠ '.' := by
  have hop : isOperatorChar c = false := by
    rw [Bool.eq_false_iff]
    intro ho
    rw [(isOperatorChar_disjoint ho).1] at h
    cases h
  refine ⟨hop, ?_, ?_, ?_, ?_⟩
  · rw [Bool.eq_false_iff]
    intro hn
    simp only [isNameStart, Bool.or_eq_true, beq_iff_eq] at hn
    rcases hn with rfl | halpha
    · exact absurd h (by decide)
    · have hdigit := toNat_of_isDigit h
      have hletter := toNat_of_isAlpha halpha
      omega
  · rw [Bool.eq_false_iff]
    intro hb
    simp only [isBlank, Bool.or_eq_true, beq_iff_eq] at hb
    rcases hb with (rfl | rfl) | rfl <;> exact absurd h (by decide)
  · rw [Bool.eq_false_iff]
    intro he
    simp only [isExponentMark, Bool.or_eq_true, beq_iff_eq] at he
    rcases he with rfl | rfl <;> exact absurd h (by decide)
  · rintro rfl
    exact absurd h (by decide)

theorem isExponentMark_disjoint {c : Char} (h : isExponentMark c = true) :
    c.isDigit = false ∧ c ≠ '.' := by
  simp only [isExponentMark, Bool.or_eq_true, beq_iff_eq] at h
  rcases h with rfl | rfl <;> decide

theorem isNameStart_disjoint {c : Char} (h : isNameStart c = true) :
    c.isDigit = false ∧ c ≠ '.' ∧ isOperatorChar c = false ∧ isBlank c = false := by
  refine ⟨?_, ?_, ?_, ?_⟩
  · rw [Bool.eq_false_iff]
    intro hd
    rw [(isDigit_disjoint hd).2.1] at h
    cases h
  · rintro rfl
    exact absurd h (by decide)
  · rw [Bool.eq_false_iff]
    intro ho
    rw [(isOperatorChar_disjoint ho).2.2.1] at h
    cases h
  · rw [Bool.eq_false_iff]
    intro hb
    simp only [isBlank, Bool.or_eq_true, beq_iff_eq] at hb
    rcases hb with (rfl | rfl) | rfl <;> exact absurd h (by decide)

theorem isBlank_disjoint {c : Char} (h : isBlank c = true) :
    isNameChar c = false ∧ c.isDigit = false ∧ isExponentMark c = false ∧ c ≠ '.' := by
  simp only [isBlank, Bool.or_eq_true, beq_iff_eq] at h
  rcases h with (rfl | rfl) | rfl <;> decide

/-- A blank continues no lexeme. -/
theorem not_continues_of_isBlank {kind : TokenKind} {text : List Char} {c : Char}
    (h : isBlank c = true) : ¬ Continues kind text c := by
  obtain ⟨hname, hdigit, hmark, hdot⟩ := isBlank_disjoint h
  cases kind with
  | operator => exact id
  | identifier => simp [Continues, hname]
  | number => simp [Continues, hdigit, hmark, hdot]

/-- Outside of numbers, the first character decides what is scanned. -/
theorem scan_of_not_number {c : Char} {cs : List Char} (hd : c.isDigit = false) (hdot : c ≠ '.') :
    scan c cs =
      if isOperatorChar c then .lexeme .operator [c] cs
      else if isNameStart c then
        .lexeme .identifier (c :: cs.takeWhile isNameChar) (cs.dropWhile isNameChar)
      else .fault (.unknown c) [] (c :: cs) := by
  simp [scan, hd, hdot]

/-! ### Mantissas -/

theorem IsMantissa.isDigit_or_dot {m : List Char} (h : IsMantissa m) :
    ∀ c ∈ m, c.isDigit = true ∨ c = '.' := by
  intro c hc
  cases h with
  | whole hds _ => exact .inl (hds c hc)
  | dotted hds hes _ =>
    rcases List.mem_append.mp hc with hc | hc
    · exact .inl (hds c hc)
    · rcases List.mem_cons.mp hc with rfl | hc
      · exact .inr rfl
      · exact .inl (hes c hc)

theorem IsMantissa.any_isDigit {m : List Char} (h : IsMantissa m) : m.any Char.isDigit = true := by
  rw [List.any_eq_true]
  cases h with
  | whole hds hne =>
    obtain ⟨c, cs, rfl⟩ := List.exists_cons_of_ne_nil hne
    exact ⟨c, List.mem_cons_self .., hds c (List.mem_cons_self ..)⟩
  | @dotted ds es hds hes hne =>
    obtain ⟨c, cs, hcs⟩ := List.exists_cons_of_ne_nil hne
    have hc : c ∈ ds ++ es := by rw [hcs]; exact List.mem_cons_self ..
    rcases List.mem_append.mp hc with hc | hc
    · exact ⟨c, List.mem_append_left _ hc, hds c hc⟩
    · exact ⟨c, List.mem_append_right _ (List.mem_cons_of_mem _ hc), hes c hc⟩

theorem IsMantissa.any_isExponentMark {m : List Char} (h : IsMantissa m) :
    m.any isExponentMark = false := by
  rw [List.any_eq_false]
  intro c hc
  rcases h.isDigit_or_dot c hc with hd | rfl
  · simp [(isDigit_disjoint hd).2.2.2.1]
  · decide

/-- A mantissa is read whole if neither a digit nor a further dot follows it. -/
theorem splitMantissa_append_of_stop {m rest : List Char} (h : IsMantissa m)
    (hrest : ∀ c, rest.head? = some c → c.isDigit = false ∧ (c = '.' → '.' ∈ m)) :
    splitMantissa (m ++ rest) = (m, rest) := by
  have hdigit : ∀ c, rest.head? = some c → c.isDigit = false := fun c hc => (hrest c hc).1
  unfold splitMantissa
  cases h with
  | whole hds hne =>
    rw [dropWhile_append_of_stop hds hdigit, takeWhile_append_of_stop hds hdigit]
    split
    · next rest' =>
      have hmem := (hrest '.' rfl).2 rfl
      exact absurd (hds _ hmem) (by decide)
    · rfl
  | @dotted ds es hds hes hne =>
    have hdot : ∀ c, ('.' :: (es ++ rest)).head? = some c → c.isDigit = false := by
      intro c hc
      obtain rfl : '.' = c := by simpa using hc
      decide
    rw [List.append_assoc, List.cons_append, dropWhile_append_of_stop hds hdot,
      takeWhile_append_of_stop hds hdot]
    simp only
    rw [dropWhile_append_of_stop hes hdigit, takeWhile_append_of_stop hes hdigit]

/-- What is split off is a mantissa as soon as it has a digit. -/
theorem isMantissa_splitMantissa {cs : List Char}
    (h : (splitMantissa cs).1.any Char.isDigit = true) : IsMantissa (splitMantissa cs).1 := by
  have htake : ∀ cs : List Char, IsDigits (cs.takeWhile Char.isDigit) := fun cs _ hc =>
    List.mem_takeWhile_imp hc
  unfold splitMantissa at h ⊢
  split at h
  · next rest _ =>
    refine .dotted (htake cs) (htake rest) ?_
    intro hnil
    obtain ⟨hl, hr⟩ := List.append_eq_nil_iff.mp hnil
    simp [hl, hr] at h
  · refine .whole (htake cs) ?_
    intro hnil
    simp only at h hnil
    simp [hnil] at h

/-- After a mantissa there is no digit, and no dot unless it has one. -/
theorem splitMantissa_stop {cs : List Char} {c : Char}
    (h : (splitMantissa cs).2.head? = some c) :
    c.isDigit = false ∧ (c = '.' → '.' ∈ (splitMantissa cs).1) := by
  unfold splitMantissa at h ⊢
  split at h
  · exact ⟨eq_false_of_head?_dropWhile h, fun _ => by simp⟩
  · next hne =>
    refine ⟨eq_false_of_head?_dropWhile h, ?_⟩
    rintro rfl
    obtain ⟨rest, hrest⟩ : ∃ rest, cs.dropWhile Char.isDigit = '.' :: rest := by
      cases hcs : cs.dropWhile Char.isDigit with
      | nil => rw [hcs] at h; simp at h
      | cons d rest =>
        rw [hcs] at h
        obtain rfl : d = '.' := by simpa using h
        exact ⟨rest, rfl⟩
    exact absurd hrest (hne rest)

/-! ### Numbers -/

/-- An exponent is read whole, and nothing else after a mantissa. -/
theorem scanExponent_eq_lexeme {m cs text rest : List Char} {kind : TokenKind} (hm : IsMantissa m)
    (hstop : ∀ c, cs.head? = some c → c.isDigit = false ∧ (c = '.' → '.' ∈ m))
    (h : scanExponent m cs = .lexeme kind text rest) :
    kind = .number ∧ IsNumberText text ∧ EndsAt .number text rest := by
  unfold scanExponent at h
  split at h
  · cases h
    exact ⟨rfl, .plain hm, fun c hc => by simp at hc⟩
  · next mark cs =>
    split at h
    · next hmark =>
      split at h
      · cases h
      · next c cs =>
        split at h
        · next hc =>
          cases h
          refine ⟨rfl, .scaled hm hmark hc fun d hd => List.mem_takeWhile_imp hd, ?_⟩
          rintro d hd (hdigit | ⟨hnone, -⟩)
          · rw [eq_false_of_head?_dropWhile hd] at hdigit
            cases hdigit
          · simp [hmark] at hnone
        · cases h
    · next hmark =>
      cases h
      refine ⟨rfl, .plain hm, ?_⟩
      intro c hc hcont
      obtain rfl : mark = c := by simpa using hc
      obtain ⟨hdigit, hdot⟩ := hstop mark rfl
      rcases hcont with hd | ⟨-, he | ⟨rfl, hno⟩⟩
      · rw [hdigit] at hd
        cases hd
      · exact hmark he
      · exact hno (hdot rfl)

/-- Where the mark of an exponent follows a mantissa an exponent is scanned. -/
theorem scanNumber_append_mark {m : List Char} {mark : Char} (rest : List Char) (hm : IsMantissa m)
    (hmark : isExponentMark mark = true) :
    scanNumber (m ++ mark :: rest) = scanExponent m (mark :: rest) := by
  have hstop : ∀ c, (mark :: rest).head? = some c → c.isDigit = false ∧ (c = '.' → '.' ∈ m) := by
    intro c hc
    obtain rfl : mark = c := by simpa using hc
    obtain ⟨hdigit, hdot⟩ := isExponentMark_disjoint hmark
    exact ⟨hdigit, fun h => absurd h hdot⟩
  rw [scanNumber, splitMantissa_append_of_stop hm hstop]
  simp only [hm.any_isDigit, if_true]

/-- A number is scanned whole if the next character does not continue it. -/
theorem scanNumber_append_of_isText {text rest : List Char} (h : IsNumberText text)
    (hend : EndsAt .number text rest) : scanNumber (text ++ rest) = .lexeme .number text rest := by
  cases h with
  | plain hm =>
    have hstop : ∀ c, rest.head? = some c → c.isDigit = false ∧ (c = '.' → '.' ∈ text) := by
      intro c hc
      have hnot := hend c hc
      refine ⟨Bool.eq_false_iff.mpr fun hd => hnot (.inl hd), ?_⟩
      rintro rfl
      by_contra hno
      exact hnot (.inr ⟨hm.any_isExponentMark, .inr ⟨rfl, hno⟩⟩)
    rw [scanNumber, splitMantissa_append_of_stop hm hstop]
    simp only [hm.any_isDigit, if_true]
    cases rest with
    | nil => rfl
    | cons c rest =>
      have hmark : isExponentMark c = false := by
        rw [Bool.eq_false_iff]
        exact fun he => hend c rfl (.inr ⟨hm.any_isExponentMark, .inl he⟩)
      simp [scanExponent, hmark]
  | @scaled m ds mark c hm hmark hc hds =>
    have hdigit : ∀ d, rest.head? = some d → d.isDigit = false := fun d hd =>
      Bool.eq_false_iff.mpr fun h => hend d hd (.inl h)
    rw [List.append_assoc, List.cons_append, List.cons_append, scanNumber_append_mark _ hm hmark]
    simp only [scanExponent, hmark, hc, if_true]
    rw [takeWhile_append_of_stop hds hdigit, dropWhile_append_of_stop hds hdigit]

/-- A number starts with a digit or a dot. -/
theorem IsNumberText.head {c : Char} {cs : List Char} (h : IsNumberText (c :: cs)) :
    c.isDigit = true ∨ c = '.' := by
  generalize htext : c :: cs = text at h
  cases h with
  | plain hm => exact hm.isDigit_or_dot c (htext ▸ List.mem_cons_self ..)
  | @scaled m ds mark d hm _ _ _ =>
    cases m with
    | nil => exact absurd hm.any_isDigit (by decide)
    | cons b m =>
      obtain rfl : c = b := by simpa using (List.cons.inj htext).1
      exact hm.isDigit_or_dot c (List.mem_cons_self ..)

/-! ### Scans -/

/-- The first character of a lexeme tells its kind. -/
theorem IsText.ofFirst?_eq {kind : TokenKind} {c : Char} {cs : List Char}
    (h : IsText kind (c :: cs)) : TokenKind.ofFirst? c = some kind := by
  cases kind with
  | operator =>
    obtain ⟨d, hd, hcs⟩ := h
    obtain rfl : c = d := (List.cons.inj hcs).1
    obtain ⟨hdigit, hdot, -⟩ := isOperatorChar_disjoint hd
    simp [TokenKind.ofFirst?, hdigit, hdot, hd]
  | identifier =>
    obtain ⟨d, rest, hcs, hd, -⟩ := h
    obtain rfl : c = d := (List.cons.inj hcs).1
    obtain ⟨hdigit, hdot, hop, -⟩ := isNameStart_disjoint hd
    simp [TokenKind.ofFirst?, hdigit, hdot, hop, hd]
  | number =>
    rcases IsNumberText.head h with hd | rfl
    · simp [TokenKind.ofFirst?, hd]
    · rfl

/-- No lexeme is empty. -/
theorem IsText.ne_nil {kind : TokenKind} {text : List Char} (h : IsText kind text) : text ≠ [] := by
  rintro rfl
  cases kind with
  | operator => obtain ⟨d, -, hcs⟩ := h; cases hcs
  | identifier => obtain ⟨d, rest, hcs, -⟩ := h; cases hcs
  | number =>
    generalize hnil : ([] : List Char) = text at h
    cases h with
    | plain hm => subst hnil; exact absurd hm.any_isDigit (by decide)
    | scaled => simp at hnil

/-- A lexeme does not start with a blank. -/
theorem IsText.head_not_blank {kind : TokenKind} {c : Char} {cs : List Char}
    (h : IsText kind (c :: cs)) : isBlank c = false := by
  cases kind with
  | operator =>
    obtain ⟨d, hd, hcs⟩ := h
    obtain rfl : c = d := (List.cons.inj hcs).1
    exact (isOperatorChar_disjoint hd).2.2.2
  | identifier =>
    obtain ⟨d, rest, hcs, hd, -⟩ := h
    obtain rfl : c = d := (List.cons.inj hcs).1
    exact (isNameStart_disjoint hd).2.2.2
  | number =>
    rcases IsNumberText.head h with hd | rfl
    · exact (isDigit_disjoint hd).2.2.1
    · decide

/-- What starts with a lexeme does not start with a blank. -/
theorem IsText.head?_not_blank {kind : TokenKind} {text : List Char} (h : IsText kind text)
    (rest : List Char) (c : Char) (hc : (text ++ rest).head? = some c) : isBlank c = false := by
  obtain ⟨d, ds, rfl⟩ := List.exists_cons_of_ne_nil h.ne_nil
  obtain rfl : d = c := by simpa using hc
  exact h.head_not_blank

/-! ### Characters of lexemes -/

/-- The characters that lexemes are made of. -/
def isLexemeChar (c : Char) : Bool := isOperatorChar c || isNameChar c || c == '.'

theorem isLexemeChar_of_isOperatorChar {c : Char} (h : isOperatorChar c = true) :
    isLexemeChar c = true := by
  simp [isLexemeChar, h]

theorem isLexemeChar_of_isNameChar {c : Char} (h : isNameChar c = true) :
    isLexemeChar c = true := by
  simp [isLexemeChar, h]

theorem isLexemeChar_of_isDigit {c : Char} (h : c.isDigit = true) : isLexemeChar c = true :=
  isLexemeChar_of_isNameChar (by simp [isNameChar, h])

theorem IsMantissa.isLexemeChar {m : List Char} (h : IsMantissa m) :
    ∀ c ∈ m, isLexemeChar c = true := by
  intro c hc
  rcases h.isDigit_or_dot c hc with hd | rfl
  · exact isLexemeChar_of_isDigit hd
  · decide

theorem IsNumberText.isLexemeChar {text : List Char} (h : IsNumberText text) :
    ∀ c ∈ text, isLexemeChar c = true := by
  intro c hc
  cases h with
  | plain hm => exact hm.isLexemeChar c hc
  | @scaled m ds mark d hm hmark hd hds =>
    simp only [isExponentMark, Bool.or_eq_true, beq_iff_eq] at hmark
    simp only [isExponentStart, Bool.or_eq_true, beq_iff_eq] at hd
    rcases List.mem_append.mp hc with hc | hc
    · exact hm.isLexemeChar c hc
    · rcases List.mem_cons.mp hc with rfl | hc
      · rcases hmark with rfl | rfl <;> decide
      · rcases List.mem_cons.mp hc with rfl | hc
        · rcases hd with (rfl | rfl) | hd
          · decide
          · decide
          · exact isLexemeChar_of_isDigit hd
        · exact isLexemeChar_of_isDigit (hds c hc)

/-- Lexemes are made of these characters. -/
theorem IsText.isLexemeChar {kind : TokenKind} {text : List Char} (h : IsText kind text) :
    ∀ c ∈ text, isLexemeChar c = true := by
  intro c hc
  cases kind with
  | operator =>
    obtain ⟨d, hd, rfl⟩ := h
    obtain rfl : c = d := by simpa using hc
    exact isLexemeChar_of_isOperatorChar hd
  | identifier =>
    obtain ⟨d, rest, rfl, hd, hrest⟩ := h
    rcases List.mem_cons.mp hc with rfl | hc
    · exact isLexemeChar_of_isNameChar (by simp [isNameChar, hd])
    · exact isLexemeChar_of_isNameChar (hrest c hc)
  | number => exact IsNumberText.isLexemeChar h c hc

/-- They all belong to ASCII. -/
theorem toNat_lt_of_isLexemeChar {c : Char} (h : isLexemeChar c = true) : c.toNat < 128 := by
  simp only [isLexemeChar, isNameChar, isNameStart, Bool.or_eq_true, beq_iff_eq] at h
  rcases h with (hop | (rfl | halpha) | hdigit) | rfl
  · simp only [isOperatorChar, operatorChars, List.contains_eq_mem, List.mem_cons,
      List.not_mem_nil, or_false, decide_eq_true_eq] at hop
    rcases hop with rfl | rfl | rfl | rfl | rfl | rfl | rfl | rfl | rfl | rfl | rfl <;> decide
  · decide
  · have hletter := toNat_of_isAlpha halpha
    omega
  · have hcode := toNat_of_isDigit hdigit
    omega
  · decide

/-- What a scan reads is a lexeme that does not go on. -/
theorem isText_of_scan {c : Char} {cs text rest : List Char} {kind : TokenKind}
    (h : scan c cs = .lexeme kind text rest) : IsText kind text ∧ EndsAt kind text rest := by
  unfold scan at h
  split at h
  · simp only [scanNumber] at h
    split at h
    · next hdigit =>
      obtain ⟨rfl, htext, hend⟩ := scanExponent_eq_lexeme (isMantissa_splitMantissa hdigit)
        (fun d hd => splitMantissa_stop hd) h
      exact ⟨htext, hend⟩
    · cases h
  · split at h
    · next hop =>
      cases h
      exact ⟨⟨c, hop, rfl⟩, fun _ _ hcont => hcont⟩
    · split at h
      · next hname =>
        cases h
        refine ⟨⟨c, _, rfl, hname, fun d hd => List.mem_takeWhile_imp hd⟩, ?_⟩
        intro d hd hcont
        rw [Continues, eq_false_of_head?_dropWhile hd] at hcont
        cases hcont
      · cases h

/-- A lexeme that does not go on is scanned whole. -/
theorem scan_append_of_isText {c : Char} {cs text rest : List Char} {kind : TokenKind}
    (hcs : c :: cs = text ++ rest) (htext : IsText kind text) (hend : EndsAt kind text rest) :
    scan c cs = .lexeme kind text rest := by
  cases kind with
  | operator =>
    obtain ⟨d, hd, rfl⟩ := htext
    obtain ⟨rfl, rfl⟩ : c = d ∧ cs = rest := by simpa using hcs
    obtain ⟨hdigit, hdot, -⟩ := isOperatorChar_disjoint hd
    rw [scan_of_not_number hdigit hdot, if_pos hd]
  | identifier =>
    obtain ⟨d, run, rfl, hd, hrun⟩ := htext
    obtain ⟨rfl, rfl⟩ : c = d ∧ cs = run ++ rest := by simpa using hcs
    obtain ⟨hdigit, hdot, hop, -⟩ := isNameStart_disjoint hd
    have hstop : ∀ b, rest.head? = some b → isNameChar b = false := fun b hb =>
      Bool.eq_false_iff.mpr (hend b hb)
    rw [scan_of_not_number hdigit hdot, hop, if_neg (by simp), if_pos hd,
      takeWhile_append_of_stop hrun hstop, dropWhile_append_of_stop hrun hstop]
  | number =>
    have hstart : c.isDigit = true ∨ c = '.' := by
      obtain ⟨d, text, rfl⟩ := List.exists_cons_of_ne_nil htext.ne_nil
      obtain rfl : c = d := (List.cons.inj hcs).1
      exact IsNumberText.head htext
    have hif : (c.isDigit || c == '.') = true := by simpa using hstart
    rw [scan, if_pos hif, hcs, scanNumber_append_of_isText htext hend]

/-- A scan reads a text exactly when the text is a lexeme that the next character does not
continue. -/
theorem scan_eq_lexeme_iff {c : Char} {cs text rest : List Char} {kind : TokenKind} :
    scan c cs = .lexeme kind text rest ↔
      c :: cs = text ++ rest ∧ IsText kind text ∧ EndsAt kind text rest := by
  constructor
  · intro h
    have happ := scan_append c cs
    rw [h] at happ
    exact ⟨happ.symm, isText_of_scan h⟩
  · rintro ⟨hcs, htext, hend⟩
    exact scan_append_of_isText hcs htext hend

end ExprView
