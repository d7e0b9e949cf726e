import ExprView.Proofs.Lexer.Decomposition
import ExprView.Proofs.Lexer.Locality

/-!
# Decimal literals

A decimal literal is a mantissa and perhaps an exponent, which is a mark, perhaps a sign, and at
least one digit. A number is such a literal, or it is cut short: a scan that has found a sign behind
the mark does not ask for a digit behind the sign. The last character tells which of the two it is.

## Main statements

* `isNumberText_iff`: the texts of numbers are the literals and those that are cut short.
* `tokenize_eq_single_iff`: a source is a single token exactly if it is a text of its kind.
* `number_tokens_exact`: the number tokens of a source.
-/

namespace ExprView

open Lexer

/-- Whether the character is a sign, as it may stand in front of the digits of an exponent. -/
def isSign (c : Char) : Bool := c == '+' || c == '-'

/-- A decimal literal. -/
inductive IsLiteral : List Char → Prop where
  /-- No exponent. -/
  | plain {m : List Char} : IsMantissa m → IsLiteral m
  /-- An exponent without a sign. -/
  | scaled {m ds : List Char} {mark : Char} : IsMantissa m → isExponentMark mark = true →
      IsDigits ds → ds ≠ [] → IsLiteral (m ++ [mark] ++ ds)
  /-- An exponent with a sign. -/
  | signed {m ds : List Char} {mark sign : Char} : IsMantissa m → isExponentMark mark = true →
      isSign sign = true → IsDigits ds → ds ≠ [] → IsLiteral (m ++ [mark, sign] ++ ds)

/-- A literal up to the sign of its exponent. -/
inductive IsCutShort : List Char → Prop where
  /-- A mantissa, the mark of an exponent and a sign. -/
  | signed {m : List Char} {mark sign : Char} : IsMantissa m → isExponentMark mark = true →
      isSign sign = true → IsCutShort (m ++ [mark, sign])

/-- Whether the last character is a sign. -/
def endsInSign (cs : List Char) : Bool := cs.getLast?.any isSign

variable {text : List Char}

/-! ### The texts of numbers -/

theorem isExponentStart_iff {c : Char} :
    isExponentStart c = true ↔ isSign c = true ∨ c.isDigit = true := by
  rw [isExponentStart, isSign, Bool.or_eq_true]

/-- A number is a literal, or one is cut short. -/
theorem isNumberText_iff : IsNumberText text ↔ IsLiteral text ∨ IsCutShort text := by
  constructor
  · intro h
    cases h with
    | plain hm => exact .inl (.plain hm)
    | @scaled m ds mark c hm hmark hc hds =>
      rcases isExponentStart_iff.mp hc with hsign | hdigit
      · rw [List.append_cons, List.append_cons, List.append_assoc m [mark] [c]]
        by_cases hnil : ds = []
        · rw [hnil, List.append_nil]
          exact .inr (.signed hm hmark hsign)
        · exact .inl (.signed hm hmark hsign hds hnil)
      · rw [List.append_cons]
        have hdigits : IsDigits (c :: ds) := List.forall_mem_cons.mpr ⟨hdigit, hds⟩
        exact .inl (.scaled hm hmark hdigits (List.cons_ne_nil c ds))
  · rintro (h | h)
    · cases h with
      | plain hm => exact .plain hm
      | @scaled m ds mark hm hmark hds hne =>
        obtain ⟨c, ds, rfl⟩ := List.exists_cons_of_ne_nil hne
        obtain ⟨hdigit, hds⟩ := List.forall_mem_cons.mp hds
        rw [List.append_assoc]
        exact .scaled hm hmark (isExponentStart_iff.mpr (.inr hdigit)) hds
      | signed hm hmark hsign hds hne =>
        rw [List.append_assoc]
        exact .scaled hm hmark (isExponentStart_iff.mpr (.inl hsign)) hds
    · cases h with
      | signed hm hmark hsign =>
        exact .scaled hm hmark (isExponentStart_iff.mpr (.inl hsign)) (List.forall_mem_nil _)

theorem isSign_disjoint {c : Char} (h : isSign c = true) : c.isDigit = false ∧ c ≠ '.' := by
  simp only [isSign, Bool.or_eq_true, beq_iff_eq] at h
  rcases h with rfl | rfl <;> decide

theorem endsInSign_eq_false {c : Char} (hlast : text.getLast? = some c)
    (hc : c.isDigit = true ∨ c = '.') : endsInSign text = false := by
  rw [endsInSign, hlast, Option.any_some, Bool.eq_false_iff]
  intro hsign
  obtain ⟨hdigit, hdot⟩ := isSign_disjoint hsign
  rcases hc with hc | hc
  · rw [hdigit] at hc
    cases hc
  · exact hdot hc

theorem endsInSign_append_digits {ds : List Char} (hds : IsDigits ds) (hne : ds ≠ []) :
    endsInSign (text ++ ds) = false := by
  have hlast : (text ++ ds).getLast? = some (ds.getLast hne) := by
    rw [List.getLast?_append, List.getLast?_eq_some_getLast hne, Option.some_or]
  exact endsInSign_eq_false hlast (.inl (hds _ (List.getLast_mem hne)))

theorem IsLiteral.endsInSign_eq (h : IsLiteral text) : endsInSign text = false := by
  cases h with
  | plain hm =>
    have htext : IsText .number text := .plain hm
    exact endsInSign_eq_false (List.getLast?_eq_some_getLast htext.ne_nil)
      (hm.isDigit_or_dot _ (List.getLast_mem _))
  | scaled _ _ hds hne => exact endsInSign_append_digits hds hne
  | signed _ _ _ hds hne => exact endsInSign_append_digits hds hne

theorem IsCutShort.endsInSign_eq (h : IsCutShort text) : endsInSign text = true := by
  cases h with
  | signed _ _ hsign => simpa [endsInSign] using hsign

/-- The last character of a number tells whether it is a literal. -/
theorem IsNumberText.isLiteral_iff (h : IsNumberText text) :
    (IsLiteral text ↔ endsInSign text = false) ∧ (IsCutShort text ↔ endsInSign text = true) := by
  have hexcl : IsLiteral text → ¬ IsCutShort text := by
    intro hl hc
    have hsign := hc.endsInSign_eq
    rw [hl.endsInSign_eq] at hsign
    cases hsign
  rcases isNumberText_iff.mp h with hl | hc
  · simp [hl, hl.endsInSign_eq, hexcl hl]
  · have hnot : ¬ IsLiteral text := fun hl => hexcl hl hc
    simp [hc, hc.endsInSign_eq, hnot]

/-! ### Sources that are one token -/

/-- A source is a single token exactly if it is a text of its kind. -/
theorem tokenize_eq_single_iff {s : String} {kind : TokenKind} :
    tokenize s = .ok [⟨⟨kind, s⟩, 0, s.utf8ByteSize - 1⟩] ↔ IsText kind s.toList := by
  constructor
  · intro h
    obtain ⟨l, hr, -⟩ := tokenize_eq_ok_iff.mp h
    exact hr.spelled ⟨kind, s⟩ (List.mem_singleton_self _)
  · intro h
    have hsingle := @Decomposes.token 0 [] s.toList [] kind [] (by simp) h (by simp [EndsAt])
      (.blank (by simp))
    rw [tokenize_eq_ok_iff_decomposes]
    simpa [byteLength_toList] using hsingle

/-- In a source that has tokens, every number holds a decimal literal, unless its last character is
a sign, and then it holds a literal up to the sign of its exponent. A source is a single number,
which covers it, exactly if it is of one of these two forms. -/
theorem number_tokens_exact (s : String) :
    (∀ ts, tokenize s = .ok ts → ∀ t ∈ ts, t.kind = .number →
      (IsLiteral t.text.toList ↔ endsInSign t.text.toList = false) ∧
      (IsCutShort t.text.toList ↔ endsInSign t.text.toList = true)) ∧
    (tokenize s = .ok [⟨⟨.number, s⟩, 0, s.utf8ByteSize - 1⟩] ↔
      IsLiteral s.toList ∨ IsCutShort s.toList) := by
  constructor
  · intro ts hts t ht hkind
    obtain ⟨l, hr, -⟩ := tokenize_eq_ok_iff.mp hts
    have hspelled : IsText t.kind t.text.toList := hr.spelled _ (List.mem_map_of_mem ht)
    rw [hkind] at hspelled
    exact hspelled.isLiteral_iff
  · exact tokenize_eq_single_iff.trans isNumberText_iff

/-- A literal with a sign in its exponent and, behind an operator, one that is cut short. -/
theorem number_tokens_exact_product :
    let first : Token := ⟨⟨.number, "2.5e-3"⟩, 0, 5⟩
    let second : Token := ⟨⟨.number, "1e+"⟩, 7, 9⟩
    tokenize "2.5e-3*1e+" = .ok [first, ⟨⟨.operator, "*"⟩, 6, 6⟩, second] ∧
      IsLiteral first.text.toList ∧ IsCutShort second.text.toList := by
  intro first second
  have htokens : tokenize "2.5e-3*1e+" = .ok [first, ⟨⟨.operator, "*"⟩, 6, 6⟩, second] := by
    decide +kernel
  obtain ⟨hnumber, -⟩ := number_tokens_exact "2.5e-3*1e+"
  have hfirst := hnumber _ htokens first (by simp) rfl
  have hsecond := hnumber _ htokens second (by simp) rfl
  exact ⟨htokens, hfirst.1.mpr (by decide), hsecond.2.mpr (by decide)⟩

/-- A number that is cut short is a token, and it is not a literal. -/
theorem number_token_cut_short :
    tokenize "1e+" = .ok [⟨⟨.number, "1e+"⟩, 0, 2⟩] ∧ ¬ IsLiteral "1e+".toList := by
  refine ⟨by decide +kernel, fun h => ?_⟩
  have hsign : endsInSign "1e+".toList = true := by decide
  rw [h.endsInSign_eq] at hsign
  cases hsign

end ExprView
