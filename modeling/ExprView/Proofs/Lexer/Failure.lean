import ExprView.Proofs.Lexer.Cursor
import ExprView.Proofs.Lexer.Decomposition
import ExprView.Proofs.Lexer.Locality

/-!
# Where a source cannot be read

A source has no tokens exactly when it can be cut so that the front has tokens, the back does not go
on with the last of them, and the back starts in one of the ways that no lexeme does: with a dot
that no digit follows, with the mark of an exponent that is not one, or with a character of no
class. The cut is the place of the error, and the way in which the back starts is its message.

## Main statements

* `LexError.Cause.message_injective`: the message tells the cause.
* `Lexer.next_eq_error_iff`: all that a failing step can be.
* `tokenize_error_exact`: the error of a source, its place and its message.
-/

namespace ExprView

open Lexer

/-! ### Messages -/

namespace LexError.Cause

theorem toList_message_exponentBefore (c : Char) : (exponentBefore c).message.toList =
    "Unexpected character ".toList ++ c :: " after the exponent sign".toList := by
  show ("Unexpected character " ++ String.singleton c ++ " after the exponent sign").toList = _
  rw [String.toList_append, String.toList_append, String.toList_singleton, List.append_assoc,
    List.singleton_append]

theorem toList_message_unknown (c : Char) :
    (unknown c).message.toList = "Unknown token from character ".toList ++ [c] := by
  show ("Unknown token from character " ++ String.singleton c).toList = _
  rw [String.toList_append, String.toList_singleton]

/-- The start of a message tells the kind of its cause. -/
theorem take_message (cause : LexError.Cause) : cause.message.toList.take 12 =
    match cause with
    | noDigits => "Expecting de".toList
    | exponentAtEnd => "Unexpected <".toList
    | exponentBefore _ => "Unexpected c".toList
    | unknown _ => "Unknown toke".toList := by
  cases cause with
  | noDigits => decide
  | exponentAtEnd => decide
  | exponentBefore c =>
    show _ = "Unexpected c".toList
    rw [toList_message_exponentBefore, List.take_append_of_le_length (by decide)]
    decide
  | unknown c =>
    show _ = "Unknown toke".toList
    rw [toList_message_unknown, List.take_append_of_le_length (by decide)]
    decide

/-- The message tells the cause. -/
theorem message_injective : Function.Injective message := by
  intro a b h
  have hstart := congrArg (fun x => x.toList.take 12) h
  have htext := congrArg String.toList h
  simp only [take_message] at hstart
  cases a <;> cases b <;> simp only at hstart
  case exponentBefore.exponentBefore c d =>
    rw [toList_message_exponentBefore, toList_message_exponentBefore] at htext
    rw [(List.cons.inj (List.append_cancel_left htext)).1]
  case unknown.unknown c d =>
    rw [toList_message_unknown, toList_message_unknown] at htext
    rw [(List.cons.inj (List.append_cancel_left htext)).1]
  case noDigits.noDigits => rfl
  case exponentAtEnd.exponentAtEnd => rfl
  all_goals exact absurd hstart (by decide)

end LexError.Cause

/-! ### Texts that start with no lexeme -/

/-- No lexeme starts the text, and the message says why. -/
inductive Unreadable : List Char → String → Prop where
  /-- A dot that no digit follows. -/
  | dot {rest : List Char} : (∀ c, rest.head? = some c → c.isDigit = false) →
      Unreadable ('.' :: rest) "Expecting decimal digits after the dot sign"
  /-- A mantissa, the mark of an exponent, and the end. -/
  | markAtEnd {m : List Char} {mark : Char} : IsMantissa m → isExponentMark mark = true →
      Unreadable (m ++ [mark]) "Unexpected <end> after the exponent sign"
  /-- A mantissa, the mark of an exponent, and a character that is neither a sign nor a digit. -/
  | markBefore {m rest : List Char} {mark c : Char} : IsMantissa m → isExponentMark mark = true →
      isExponentStart c = false → Unreadable (m ++ mark :: c :: rest)
        ("Unexpected character " ++ String.singleton c ++ " after the exponent sign")
  /-- A character that is in no class. -/
  | unknown {c : Char} {rest : List Char} : isBlank c = false → c.isDigit = false → c ≠ '.' →
      isOperatorChar c = false → isNameStart c = false →
      Unreadable (c :: rest) ("Unknown token from character " ++ String.singleton c)

/-- A number with the mark of an exponent is scanned up to the mark. -/
theorem exists_scan_of_mark {m : List Char} {mark : Char} (rest : List Char) (hm : IsMantissa m)
    (hmark : isExponentMark mark = true) :
    ∃ c cs, m ++ mark :: rest = c :: cs ∧ isBlank c = false ∧
      scan c cs = scanExponent m (mark :: rest) := by
  have htext : IsText .number m := .plain hm
  obtain ⟨c, ds, rfl⟩ := List.exists_cons_of_ne_nil htext.ne_nil
  have hstart : (c.isDigit || c == '.') = true := by
    simpa using hm.isDigit_or_dot c (List.mem_cons_self ..)
  refine ⟨c, ds ++ mark :: rest, rfl, htext.head_not_blank, ?_⟩
  rw [scan, if_pos hstart]
  exact scanNumber_append_mark rest hm hmark

/-- A scan that fails after a mantissa fails at the mark of an exponent. -/
theorem unreadable_of_scanExponent {m cs read rest : List Char} {cause : LexError.Cause}
    (hm : IsMantissa m) (h : scanExponent m cs = .fault cause read rest) :
    Unreadable (m ++ cs) cause.message := by
  unfold scanExponent at h
  split at h
  · cases h
  · split at h
    · next mark cs hmark =>
      split at h
      · cases h
        exact .markAtEnd hm hmark
      · next c cs =>
        split at h
        · cases h
        · next hc =>
          cases h
          exact .markBefore hm hmark (Bool.eq_false_iff.mpr hc)
    · cases h

/-- A text that starts with a dot has the dot and the digits after it as its mantissa. -/
theorem splitMantissa_dot (cs : List Char) : splitMantissa ('.' :: cs) =
    ('.' :: cs.takeWhile Char.isDigit, cs.dropWhile Char.isDigit) := by
  have hdrop : ('.' :: cs).dropWhile Char.isDigit = '.' :: cs :=
    List.dropWhile_cons_of_neg (by decide)
  have htake : ('.' :: cs).takeWhile Char.isDigit = [] := List.takeWhile_cons_of_neg (by decide)
  rw [splitMantissa, hdrop, htake]
  rfl

/-- A mantissa without a digit is a dot that no digit follows. -/
theorem unreadable_of_noDigits {c : Char} {cs : List Char} (hc : c.isDigit = true ∨ c = '.')
    (h : (splitMantissa (c :: cs)).1.any Char.isDigit = false) :
    Unreadable (c :: cs) LexError.Cause.noDigits.message := by
  rcases hc with hc | rfl
  · -- a digit in front is part of the mantissa
    obtain ⟨rest, hrest⟩ : ∃ rest, (splitMantissa (c :: cs)).1 = c :: rest := by
      unfold splitMantissa
      rw [List.takeWhile_cons_of_pos hc]
      split <;> exact ⟨_, rfl⟩
    rw [hrest, List.any_cons, hc] at h
    cases h
  · refine .dot fun d hd => ?_
    rw [splitMantissa_dot] at h
    obtain ⟨cs, rfl⟩ : ∃ ds, cs = d :: ds := by
      cases cs with
      | nil => cases hd
      | cons b cs => exact ⟨cs, by rw [Option.some.inj hd]⟩
    cases hdigit : d.isDigit with
    | false => rfl
    | true =>
      rw [List.takeWhile_cons_of_pos hdigit] at h
      simp [hdigit] at h

/-! ### Scans that fail -/

/-- Where a scan fails no lexeme starts, and its cause is the reason. -/
theorem unreadable_of_scan {c : Char} {cs read rest : List Char} {cause : LexError.Cause}
    (hblank : isBlank c = false) (h : scan c cs = .fault cause read rest) :
    Unreadable (c :: cs) cause.message := by
  unfold scan at h
  split at h
  · next hstart =>
    have happ := splitMantissa_append (c :: cs)
    simp only [scanNumber] at h
    split at h
    · next hdigit =>
      rw [← happ]
      exact unreadable_of_scanExponent (isMantissa_splitMantissa hdigit) h
    · next hdigit =>
      cases h
      exact unreadable_of_noDigits (by simpa using hstart) (Bool.eq_false_iff.mpr hdigit)
  · next hstart =>
    split at h
    · cases h
    · next hop =>
      split at h
      · cases h
      · next hname =>
        cases h
        obtain ⟨hdigit, hdot⟩ : c.isDigit = false ∧ c ≠ '.' := by simpa using hstart
        exact .unknown hblank hdigit hdot (Bool.eq_false_iff.mpr hop) (Bool.eq_false_iff.mpr hname)

/-- Where no lexeme starts a scan fails, and its cause is the reason. -/
theorem Unreadable.exists_scan {cs : List Char} {message : String} (h : Unreadable cs message) :
    ∃ c rest cause read left, cs = c :: rest ∧ isBlank c = false ∧
      scan c rest = .fault cause read left ∧ cause.message = message := by
  cases h with
  | @dot rest hrest =>
    refine ⟨'.', rest, .noDigits, ['.'], rest, rfl, by decide, ?_, rfl⟩
    have hnil : IsDigits [] := by simp [IsDigits]
    have hstop : rest.takeWhile Char.isDigit = [] ∧ rest.dropWhile Char.isDigit = rest :=
      ⟨takeWhile_append_of_stop hnil hrest, dropWhile_append_of_stop hnil hrest⟩
    rw [scan, if_pos (by decide), scanNumber, splitMantissa_dot, hstop.1, hstop.2]
    rfl
  | @markAtEnd m mark hm hmark =>
    obtain ⟨c, cs, hcs, hblank, hscan⟩ := exists_scan_of_mark [] hm hmark
    refine ⟨c, cs, .exponentAtEnd, m ++ [mark], [], hcs, hblank, ?_, rfl⟩
    rw [hscan, scanExponent, if_pos hmark]
  | @markBefore m rest mark d hm hmark hd =>
    obtain ⟨c, cs, hcs, hblank, hscan⟩ := exists_scan_of_mark (d :: rest) hm hmark
    refine ⟨c, cs, .exponentBefore d, m ++ [mark], d :: rest, hcs, hblank, ?_, rfl⟩
    rw [hscan, scanExponent, if_pos hmark]
    simp only [hd, Bool.false_eq_true, if_false]
  | @unknown c rest hblank hdigit hdot hop hname =>
    refine ⟨c, rest, .unknown c, [], c :: rest, rfl, hblank, ?_, rfl⟩
    rw [scan_of_not_number hdigit hdot, hop, hname]
    rfl

theorem Unreadable.head?_not_blank {cs : List Char} {message : String} (h : Unreadable cs message)
    (c : Char) (hc : cs.head? = some c) : isBlank c = false := by
  obtain ⟨d, rest, _, _, _, rfl, hblank, -⟩ := h.exists_scan
  obtain rfl : d = c := by simpa using hc
  exact hblank

theorem Unreadable.ne_nil {cs : List Char} {message : String} (h : Unreadable cs message) :
    cs ≠ [] := by
  obtain ⟨d, rest, _, _, _, rfl, -⟩ := h.exists_scan
  exact List.cons_ne_nil d rest

/-- A step fails exactly if no lexeme starts behind the blanks, and the error tells where that is
and why. -/
theorem Lexer.next_eq_error_iff {l : Lexer} {e : LexError} :
    l.next.1 = .error e ↔ ∃ gap back, (∀ c ∈ gap, isBlank c = true) ∧ l.rest = gap ++ back ∧
      e.offset = l.position + byteLength gap ∧ Unreadable back e.cause.message := by
  constructor
  · intro h
    unfold next at h
    split at h
    · cases h
    · next c cs hcs =>
      have hblank : isBlank c = false := eq_false_of_head?_dropWhile (by rw [hcs]; rfl)
      split at h
      · cases h
      · next cause read rest hscan =>
        cases h
        refine ⟨l.rest.takeWhile isBlank, c :: cs, fun d hd => List.mem_takeWhile_imp hd, ?_, rfl,
          unreadable_of_scan hblank hscan⟩
        rw [← hcs, List.takeWhile_append_dropWhile]
  · rintro ⟨gap, back, hgap, hrest, hoffset, hback⟩
    obtain ⟨htake, hdrop⟩ := next_of_gap hgap hback.head?_not_blank hrest
    obtain ⟨c, cs, cause, read, left, rfl, -, hscan, hmessage⟩ := hback.exists_scan
    -- the cause of the scan is that of the error, for they have one message
    obtain ⟨d, offset⟩ := e
    obtain rfl : cause = d := LexError.Cause.message_injective hmessage
    obtain rfl : offset = l.position + byteLength gap := hoffset
    rw [next, htake, hdrop]
    simp only [hscan]

/-! ### The error of a source -/

/-- The last token that was read ends at the cursor and does not go on there. -/
theorem Lexer.Reads.last {l l' : Lexer} {ts : List Token} {t : Token} (h : l.Reads ts l')
    (ht : ts.getLast? = some t) :
    t.last + 1 = l'.position ∧ EndsAt t.kind t.text.toList l'.rest := by
  obtain ⟨ts, rfl⟩ := List.getLast?_eq_some_iff.mp ht
  obtain ⟨l₁, -, hr⟩ := h.of_append
  cases hr with
  | cons hn hr =>
    obtain rfl := hr.nil_eq
    obtain ⟨gap, text, hy⟩ := next_eq_token_iff.mp hn
    rw [hy.text_eq, String.toList_ofList]
    exact ⟨hy.last_eq, hy.endsAt⟩

/-- It does not go on behind blanks either, for it does not reach up to there. -/
theorem Lexer.Reads.lastEndsAt {l l' : Lexer} {ts : List Token} {gap back : List Char}
    (h : l.Reads ts l') (hrest : l'.rest = gap ++ back) :
    LastEndsAt ts (l'.position + byteLength gap) back := by
  intro t ht hlast
  obtain ⟨hstop, hends⟩ := h.last ht
  rw [hrest] at hends
  cases gap with
  | nil => exact hends
  | cons c gap =>
    have hlt := byteLength_pos (List.cons_ne_nil c gap)
    omega

/-- What is read of a source, and blanks after it, are the tokens of the source up to there. -/
theorem Lexer.Reads.tokenize_front {s front : String} {l : Lexer} {ts : List Token}
    {passed gap : List Char} (h : (ofSource s).Reads ts l) (hs : s.toList = passed ++ l.rest)
    (hgap : ∀ c ∈ gap, isBlank c = true) (hfront : front.toList = passed ++ gap) :
    tokenize front = .ok ts := by
  have hjoin : Joins l.rest gap := fun c hc => .inl (hgap c (List.mem_of_head? hc))
  obtain ⟨k, hk, hkrest, -⟩ := h.resume_ofSource hs hfront hjoin
  refine tokenize_of_reads hk ?_
  rw [next_eq_end_iff.mpr ⟨hkrest ▸ hgap, rfl⟩]

/-- The error is what is wrong with the source: it can be cut at the place of the error so that the
front has tokens, the back does not go on with the last of them, and no lexeme starts the back. -/
structure LexError.Explains (e : LexError) (s : String) : Prop where
  /-- The place lies between two characters. -/
  valid : String.Pos.Raw.IsValid s ⟨e.offset⟩
  /-- The place is not the end. -/
  lt : e.offset < s.utf8ByteSize
  /-- The source up to the place, and from there on. -/
  cut : ∃ front back ts, s = front ++ back ∧ front.utf8ByteSize = e.offset ∧
    tokenize front = .ok ts ∧ LastEndsAt ts e.offset back.toList ∧
    Unreadable back.toList e.cause.message

/-- The error of a source explains it. -/
theorem explains_of_tokenize {s : String} {e : LexError} (h : tokenize s = .error e) :
    e.Explains s := by
  obtain ⟨ts, l, hr, he⟩ := tokenize_eq_error_iff.mp h
  obtain ⟨gap, back, hgap, hrest, hoffset, hback⟩ := next_eq_error_iff.mp he
  obtain ⟨passed, hs, hpos⟩ := hr.exists_front
  have hcut : s.toList = (passed ++ gap) ++ back := by rw [hs, hrest, List.append_assoc]
  have hfront : byteLength (passed ++ gap) = e.offset := by
    rw [hoffset, hpos, byteLength_append]
  refine ⟨isValid_iff_exists_byteLength.mpr ⟨_, back, hcut, hfront⟩, ?_,
    String.ofList (passed ++ gap), String.ofList back, ts, ?_, ?_, ?_, ?_, ?_⟩
  · have hlt := byteLength_pos hback.ne_nil
    rw [← byteLength_toList, hcut, byteLength_append, hfront]
    omega
  · rw [← String.ofList_append, ← hcut, String.ofList_toList]
  · rw [← byteLength_toList, String.toList_ofList, hfront]
  · exact hr.tokenize_front hs hgap String.toList_ofList
  · rw [String.toList_ofList, hoffset]
    exact hr.lastEndsAt hrest
  · rw [String.toList_ofList]
    exact hback

/-- What explains a source is its error. -/
theorem LexError.Explains.tokenize_eq {s : String} {e : LexError} (h : e.Explains s) :
    tokenize s = .error e := by
  obtain ⟨front, back, ts, rfl, hoffset, hfront, hback, hunreadable⟩ := h.cut
  rw [← byteLength_toList] at hoffset
  have hback : LastEndsAt ts (0 + byteLength front.toList) back.toList := by
    rw [Nat.zero_add, hoffset]
    exact hback
  obtain ⟨l, gap, hr, hgap, hrest, hpos⟩ :=
    (tokenize_eq_ok_iff_decomposes.mp hfront).exists_reads_append
      (l := ofSource (front ++ back)) rfl String.toList_append hback
  refine tokenize_of_fault hr (next_eq_error_iff.mpr ⟨gap, _, hgap, hrest, ?_, hunreadable⟩)
  omega

/-- A source has no tokens exactly when an error explains it, and that is its error: at the place of
the error the source is cut between two characters into a front that has tokens and a back that does
not go on with the last of them and starts with no lexeme, for the reason that the message gives. No
two errors explain a source. -/
theorem tokenize_error_exact (s : String) :
    (∀ e, tokenize s = .error e ↔ e.Explains s) ∧
      ∀ e e' : LexError, e.Explains s → e'.Explains s → e = e' := by
  constructor
  · intro e
    exact ⟨explains_of_tokenize, LexError.Explains.tokenize_eq⟩
  · intro e e' h h'
    exact Except.error.inj (h.tokenize_eq.symm.trans h'.tokenize_eq)

/-- The error stands behind a blank of two bytes and in front of a mantissa that is readable without
the mark. -/
theorem tokenize_error_exact_exponent :
    let e : LexError := ⟨.exponentBefore 'x', 3⟩
    e.Explains "a\u00a01.5ex" ∧ tokenize "a\u00a01.5ex" = .error e ∧
      ∀ e' : LexError, e'.Explains "a\u00a01.5ex" → e' = e := by
  intro e
  have hm : IsMantissa ['1', '.', '5'] :=
    @IsMantissa.dotted ['1'] ['5'] (by simp [IsDigits]) (by simp [IsDigits]) (by simp)
  have hfront : tokenize "a\u00a0" = .ok [⟨.identifier "a", 0, 0⟩] := by decide +kernel
  have hlast : LastEndsAt [⟨.identifier "a", 0, 0⟩] 3 "1.5ex".toList := by
    intro t ht hlast
    obtain rfl : _ = t := by simpa using ht
    cases hlast
  have hback : Unreadable "1.5ex".toList e.cause.message :=
    @Unreadable.markBefore _ [] 'e' 'x' hm (by decide) (by decide)
  have hvalid : String.Pos.Raw.IsValid "a\u00a01.5ex" ⟨e.offset⟩ :=
    isValid_iff_exists_byteLength.mpr ⟨"a\u00a0".toList, "1.5ex".toList, by decide, by decide⟩
  have he : e.Explains "a\u00a01.5ex" :=
    ⟨hvalid, by decide, "a\u00a0", "1.5ex", _, rfl, rfl, hfront, hlast, hback⟩
  obtain ⟨hiff, hunique⟩ := tokenize_error_exact "a\u00a01.5ex"
  exact ⟨he, (hiff e).mpr he, fun e' he' => hunique e' e he' he⟩

end ExprView
