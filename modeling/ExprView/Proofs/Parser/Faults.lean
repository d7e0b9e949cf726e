import ExprView.Analysis
import ExprView.Proofs.Parser.Outcome

/-!
# Texts that cannot be scanned

The parser reads a source from the front, so it fails where reading all tokens fails, unless it
has failed before. A source that is parsed has tokens.

## Main statements

* `parse_tokenize_agree`: what the lexer and the parser find in a source agrees.
-/

namespace ExprView

open Lexer

variable {s : String}

/-- What was read stands in front of the failure of the source. -/
theorem position_le_of_tokenize {ts : List Token} {l : Lexer} {e : LexError}
    (hr : (ofSource s).Reads ts l) (h : tokenize s = .error e) : l.position ≤ e.offset := by
  apply position_le_fault
  rw [hr.tokenize_eq, TokenStream.toExcept] at h
  simp only at h
  cases hf : l.drain.1.fault with
  | none =>
    rw [hf] at h
    cases h
  | some d =>
    rw [hf] at h
    rw [Except.error.inj h]

/-- A token that was read starts before the failure of the source. -/
theorem start_lt_of_tokenize {ts : List Token} {l : Lexer} {t : Token} {e : LexError}
    (hr : (ofSource s).Reads ts l) (ht : t ∈ ts) (h : tokenize s = .error e) :
    t.start < e.offset :=
  Nat.lt_of_lt_of_le (hr.offsets.2 t ht).2 (position_le_of_tokenize hr h)

/-- A lexical error of the parser is the failure of the source. -/
theorem tokenize_of_parse_lexical {e : LexError} (h : parse s = .error (.lexical e)) :
    tokenize s = .error e := by
  have hs := parse_outcome s
  rw [h] at hs
  generalize herr : SyntaxError.lexical e = err at hs
  cases hs with
  | trailing => cases herr
  | fault hr he _ _ =>
    cases herr
    exact tokenize_of_fault hr he
  | @refused ts l w err hr _ hrep =>
    cases hrep with
    | level => cases herr
    | argument => cases herr
    | awaited _ _ =>
      rcases hn : l.next.1 with d | found
      · rw [hn] at herr
        cases herr
        exact tokenize_of_fault hr hn
      · rw [hn] at herr
        cases herr

/-- An error of the parser at a source that has a failure comes at a token before the failure, or
for want of a level. -/
theorem found_of_tokenize_error {p : ParseError} {e : LexError} (htok : tokenize s = .error e)
    (h : parse s = .error (.grammatical p)) :
    (∀ t, p.found = some t → t.start < e.offset) ∧ (p.found = none → p.cause = .tooDeep) := by
  have hs := parse_outcome s
  rw [h] at hs
  generalize herr : SyntaxError.grammatical p = err at hs
  -- a token that comes next is the last of a longer run
  have hnext {ts : List Token} {l : Lexer} {t : Token} (hr : (ofSource s).Reads ts l)
      (hn : l.next.1 = .ok (some t)) : t.start < e.offset :=
    start_lt_of_tokenize (hr.append (.single (next_eq hn))) (by simp) htok
  cases hs with
  | fault => cases herr
  | trailing hr hn _ _ _ =>
    cases herr
    constructor
    · rintro t ⟨⟩
      exact hnext hr hn
    · rintro ⟨⟩
  | @refused ts l w err hr _ hrep =>
    cases hrep with
    | level =>
      cases herr
      constructor
      · rintro t ⟨⟩
      · intro _
        rfl
    | argument f us comma =>
      cases herr
      constructor
      · rintro t ⟨⟩
        exact start_lt_of_tokenize hr (by simp) htok
      · rintro ⟨⟩
    | awaited _ _ =>
      rcases hn : l.next.1 with d | found
      · rw [hn] at herr
        cases herr
      · rw [hn] at herr
        cases herr
        constructor
        · intro t ht
          obtain rfl : found = some t := ht
          exact hnext hr hn
        · intro hnone
          obtain rfl : found = none := hnone
          exact absurd ((tokenize_of_reads hr hn).symm.trans htok) (by simp)

/-- What the lexer and the parser find in a source agrees. A source that is parsed has tokens, so
an analysis is good exactly when there is a program, and never lacks the tokens alone. A lexical
error of the parser is the failure of the source. And if the source has a failure, the parser
reports it, or an error at a token before it, or that the expression is nested too deeply. -/
theorem parse_tokenize_agree (s : String) :
    (∀ p, parse s = .ok p → ∃ ts, tokenize s = .ok ts) ∧
    (∀ a : Analyser, ((a.run s).1.isOk = true ↔ ∃ p, parse s = .ok p) ∧
      ¬ ∃ e p, (a.run s).1.tokens = .error e ∧ (a.run s).1.program = .ok p) ∧
    (∀ e, parse s = .error (.lexical e) → tokenize s = .error e) ∧
    ∀ e, tokenize s = .error e →
      parse s = .error (.lexical e) ∨
      ∃ p, parse s = .error (.grammatical p) ∧ (∀ t, p.found = some t → t.start < e.offset) ∧
        (p.found = none → p.cause = .tooDeep) := by
  refine ⟨?_, ?_, ?_, ?_⟩
  · intro p h
    exact exists_tokenize_of_parse h
  · intro a
    have htokens : (a.run s).1.tokens = tokenize s := by
      rw [a.run_eq]
      exact Analysis.ofSource_tokens s
    have hprogram : (a.run s).1.program = parse s := by
      rw [a.run_eq]
      exact Analysis.ofSource_program s
    rw [Analysis.isOk, htokens, hprogram]
    cases hp : parse s with
    | ok p =>
      obtain ⟨ts, hts⟩ := exists_tokenize_of_parse hp
      simp [hts, Except.isOk, Except.toBool]
    | error err => simp [Except.isOk, Except.toBool]
  · intro e h
    exact tokenize_of_parse_lexical h
  · intro e h
    cases hp : parse s with
    | ok p =>
      obtain ⟨ts, hts⟩ := exists_tokenize_of_parse hp
      exact absurd (hts.symm.trans h) (by simp)
    | error err =>
      cases err with
      | lexical d =>
        rw [Except.error.inj ((tokenize_of_parse_lexical hp).symm.trans h)]
        exact .inl rfl
      | grammatical p => exact .inr ⟨p, rfl, found_of_tokenize_error h hp⟩

/-- A text that cannot be scanned behind a name that does not belong there. -/
theorem parse_tokenize_agree_fault :
    tokenize "a b $" = .error ⟨.unknown '$', 4⟩ ∧
      ∃ p, parse "a b $" = .error (.grammatical p) ∧ ∀ t, p.found = some t → t.start < 4 := by
  have htok : tokenize "a b $" = .error ⟨.unknown '$', 4⟩ := by decide +kernel
  have hparse : parse "a b $" = .error (.grammatical
      ⟨.trailing "b", some { kind := .identifier, text := "b", start := 2, last := 2 }⟩) := by
    decide +kernel
  obtain ⟨-, -, -, hfault⟩ := parse_tokenize_agree "a b $"
  rcases hfault _ htok with h | ⟨p, h, hfound, -⟩
  · exact absurd (hparse.symm.trans h) (by simp)
  · exact ⟨htok, p, h, hfound⟩

end ExprView
