import ExprView.Proofs.Parser.Report

/-!
# What a source is parsed as

A source starts with an expression, or it is refused at some place. Together with what comes after
the expression this says all that parsing can come to.

## Main statements

* `parse_outcome`: every source is parsed in one of four ways, told in terms of the grammar.
* `parse_of_derives`, `parse_of_refuses`: what a source that is derived, or refused, is parsed as.
-/

namespace ExprView

open ParserM Lexer

/-- How a source can be parsed. -/
inductive ParseOutcome (s : String) : Except SyntaxError Program → Prop where
  /-- Its tokens are an expression. -/
  | complete {ts : List Token} {l : Lexer} {n : Nat} {e : Expr} :
      (ofSource s).Reads ts l → l.next.1 = .ok none → Derives .assignment n (lexemes ts) e →
        n ≤ maxNesting → ParseOutcome s (.ok ⟨e⟩)
  /-- It goes on after an expression. -/
  | trailing {ts : List Token} {l : Lexer} {n : Nat} {e : Expr} {t : Token} :
      (ofSource s).Reads ts l → l.next.1 = .ok (some t) → Derives .assignment n (lexemes ts) e →
        n ≤ maxNesting → NoneOf (e.continuations .assignment) (some t.toLexeme) →
        ParseOutcome s (.error (.grammatical ⟨.trailing t.text, some t⟩))
  /-- It cannot be scanned after an expression. -/
  | fault {ts : List Token} {l : Lexer} {n : Nat} {e : Expr} {err : LexError} :
      (ofSource s).Reads ts l → l.next.1 = .error err → Derives .assignment n (lexemes ts) e →
        n ≤ maxNesting → ParseOutcome s (.error (.lexical err))
  /-- It is refused. -/
  | refused {ts : List Token} {l : Lexer} {w : Need} {err : SyntaxError} :
      (ofSource s).Reads ts l → Refuses l.peek .assignment maxNesting (lexemes ts) w →
        w.Reports l.next.1 ts err → ParseOutcome s (.error err)

variable {s : String} {ts : List Token} {l : Lexer}

theorem parse_eq_program (s : String) : parse s = (program.outcome ⟨ofSource s, 0⟩).1 := rfl

theorem parse_of_ok {p : Program} {q : Parser} (h : program ⟨ofSource s, 0⟩ = .ok p q) :
    parse s = .ok p := by
  rw [parse_eq_program, outcome, h]

theorem parse_of_fails {err : SyntaxError} (h : Fails program ⟨ofSource s, 0⟩ err) :
    parse s = .error err := by
  obtain ⟨q, h⟩ := h
  rw [parse_eq_program, outcome, h]

/-- The rule for an expression reads what is derived from the start of the source. -/
theorem assignment_of_derives {n : Nat} {e : Expr} (hr : (ofSource s).Reads ts l)
    (he : Derives .assignment n (lexemes ts) e) (hn : n ≤ maxNesting)
    (hstop : NoneOf (e.continuations .assignment) l.peek) :
    (level maxNesting).assignment ⟨ofSource s, 0⟩ = .ok e ⟨l, 0⟩ :=
  he.accepts hn rfl hr rfl hstop

/-- A source whose tokens are an expression is parsed as this expression. -/
theorem parse_of_derives {n : Nat} {e : Expr} (hr : (ofSource s).Reads ts l)
    (hend : l.next.1 = .ok none) (he : Derives .assignment n (lexemes ts) e)
    (hn : n ≤ maxNesting) : parse s = .ok ⟨e⟩ := by
  have hstop : NoneOf (e.continuations .assignment) l.peek := by
    rw [peek_of_end hend]
    exact noneOf_none _
  have hbody := assignment_of_derives hr he hn hstop
  exact parse_of_ok ((bind_of_ok hbody).trans (bind_of_ok (advance_of_ok (next_eq hend))))

/-- A source that goes on after an expression is not parsed. -/
theorem parse_of_trailing {n : Nat} {e : Expr} {t : Token} (hr : (ofSource s).Reads ts l)
    (hnext : l.next.1 = .ok (some t)) (he : Derives .assignment n (lexemes ts) e)
    (hn : n ≤ maxNesting) (hstop : NoneOf (e.continuations .assignment) l.peek) :
    parse s = .error (.grammatical ⟨.trailing t.text, some t⟩) := by
  have hbody := assignment_of_derives hr he hn hstop
  refine parse_of_fails (.after (.after ?_ (advance_of_ok (next_eq hnext))) hbody)
  exact fails_refuse _ _ _

/-- A source that is refused is not parsed, and what is missing is reported. -/
theorem parse_of_refuses {w : Need} (hr : (ofSource s).Reads ts l)
    (hw : Refuses l.peek .assignment maxNesting (lexemes ts) w) :
    ∃ err, w.Reports l.next.1 ts err ∧ parse s = .error err := by
  obtain ⟨err, hrep, hf⟩ := hw.fails (rfl : maxNesting + 0 = maxNesting) hr rfl rfl
  exact ⟨err, hrep, parse_of_fails hf.bind⟩

/-- Every source is parsed in one of these ways. -/
theorem parse_outcome (s : String) : ParseOutcome s (parse s) := by
  obtain ⟨l, hr, hl⟩ := exists_reads_drain (ofSource s)
  have hnone : l.peek = none := by
    cases hf : (ofSource s).drain.1.fault with
    | none =>
      rw [hf] at hl
      exact peek_of_end hl
    | some e =>
      rw [hf] at hl
      exact peek_of_error hl
  rcases reading .assignment maxNesting (lexemes (ofSource s).drain.1.tokens) with
    ⟨hls, he, hn, hstop⟩ | ⟨hls, hw⟩
  · obtain ⟨ts, us, l₁, -, hr₁, rfl, hr₂, rfl⟩ := hr.split hls
    have hpeek : l₁.peek = (lexemes us).head? := by rw [hr₂.peek_eq, hnone, Option.or_none]
    rw [← hpeek] at hstop
    have hbody := assignment_of_derives hr₁ he hn hstop
    rcases hnext : l₁.next with ⟨err | found, l₂⟩
    · have hparse : parse s = .error (.lexical err) :=
        parse_of_fails (.after (.bind ⟨_, advance_of_error hnext⟩) hbody)
      rw [hparse]
      exact .fault hr₁ (congrArg Prod.fst hnext) he hn
    · cases found with
      | none =>
        have hend : l₁.next.1 = .ok none := congrArg Prod.fst hnext
        rw [parse_of_derives hr₁ hend he hn]
        exact .complete hr₁ hend he hn
      | some t =>
        have htoken : l₁.next.1 = .ok (some t) := congrArg Prod.fst hnext
        rw [parse_of_trailing hr₁ htoken he hn hstop]
        rw [peek_of_token hnext] at hstop
        exact .trailing hr₁ htoken he hn hstop
  · obtain ⟨ts, us, l₁, -, hr₁, rfl, hr₂, rfl⟩ := hr.split hls
    have hpeek : l₁.peek = (lexemes us).head? := by rw [hr₂.peek_eq, hnone, Option.or_none]
    rw [← hpeek] at hw
    obtain ⟨err, hrep, hparse⟩ := parse_of_refuses hr₁ hw
    rw [hparse]
    exact .refused hr₁ hw hrep

/-- A source that is parsed has tokens, and these are the expression. -/
theorem exists_derives_of_parse {e : Expr} (h : parse s = .ok ⟨e⟩) :
    ∃ ts l n, (ofSource s).Reads ts l ∧ l.next.1 = .ok none ∧
      Derives .assignment n (lexemes ts) e ∧ n ≤ maxNesting := by
  have hs := parse_outcome s
  rw [h] at hs
  cases hs with
  | complete hr hend he hn => exact ⟨_, _, _, hr, hend, he, hn⟩

/-- A source that is parsed has tokens. -/
theorem exists_tokenize_of_parse {p : Program} (h : parse s = .ok p) :
    ∃ ts, tokenize s = .ok ts := by
  obtain ⟨e⟩ := p
  obtain ⟨ts, l, n, hr, hend, -, -⟩ := exists_derives_of_parse h
  exact ⟨ts, tokenize_of_reads hr hend⟩

end ExprView
