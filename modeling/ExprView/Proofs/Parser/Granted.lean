import ExprView.Proofs.Parser.Outcome
import ExprView.Proofs.Parser.Watched
import Mathlib.Data.List.Basic

/-!
# What the rules take for granted

A rule that has looked at the next token goes on as if it knew it: the token that it takes then is the
one that it has seen, an operator that it has asked for denotes what it is asked for, and a parenthesis
that it has seen is there. At every parser that is reached this is so, since a look comes back to where
it was and the scan is the same the second time. So two errors that the rules could report never arise.

## Main statements

* `Parser.Granted.of_sound`: a parser that stands in its source does what the rules take for granted.
* `parse_granted`: all parsers do that are reached from a source, and what is never reported.
-/

namespace ExprView

open ParserM Lexer

/-! ### At one parser -/

/-- The ways in which taking one of the operators can end. To fail is none of them. -/
inductive TakesOperator (ops : List Char) (p : Parser) :
    EStateM.Result SyntaxError Parser (Option Token) → Prop where
  /-- What is seen is one of the operators, and this is the token that is taken. -/
  | taken {t : Token} {op : Char} {q : Parser} : op ∈ ops → t.toLexeme = .operator op →
      p.lexer.lookAhead.1 = some t.toLexeme → advance p = .ok (some t) q →
      TakesOperator ops p (.ok (some t) q)
  /-- What is seen is none of them, and the parser stays as it is. -/
  | left : NoneOf ops p.lexer.lookAhead.1 → TakesOperator ops p (.ok none p)

/-- What the rules take for granted at a parser. -/
structure Parser.Granted (p : Parser) : Prop where
  /-- Taking an operator does not fail, and what is taken is an operator that was asked for. -/
  takes : ∀ ops, TakesOperator ops p (takeOperator ops p)
  /-- A sign denotes an operator in front of its operand. -/
  sign : ∀ t q, takeOperator ['+', '-'] p = .ok (some t) q → ∃ op, unaryOperator t q = .ok op q
  /-- An operator of a chain denotes one between its operands. -/
  link : ∀ (strength : Watched.Strength) t q, takeOperator strength.operators p = .ok (some t) q →
    ∃ op, binaryOperator t q = .ok op q
  /-- A token that has been seen is what is taken. -/
  seen : ∀ x q, lookAhead p = .ok (some x) q → ∃ t r, advance q = .ok (some t) r ∧ t.toLexeme = x
  /-- An operator that has been seen is there. -/
  awaited : ∀ op q, looksAt op p = .ok true q →
    ∀ cause, ∃ t r, expectOperator op cause q = .ok t r

section
variable {p q : Parser} {ops : List Char} {t : Token}

theorem takesOperator (h : p.lexer.Sound) (ops : List Char) :
    TakesOperator ops p (takeOperator ops p) := by
  rw [takeOperator_eq h]
  have hlook : p.lexer.lookAhead.1 = p.lexer.peek := congrArg Prod.fst h.lookAhead_eq
  obtain ⟨t, l, hn, hany, htake⟩ | ⟨hnone, hleft⟩ := matchOperator_cases ops p
  · obtain ⟨op, hmem, hop⟩ := List.any_eq_true.mp hany
    rw [htake]
    exact .taken hmem (eq_operator_of_isOperator hop)
      (hlook.trans (Lexer.peek_of_token hn)) (advance_of_ok hn)
  · rw [hleft]
    exact .left (hlook ▸ hnone)

theorem exists_operator_of_take (h : p.lexer.Sound) (ht : takeOperator ops p = .ok (some t) q) :
    ∃ op ∈ ops, t.toLexeme = .operator op := by
  have htakes := takesOperator h ops
  rw [ht] at htakes
  cases htakes with
  | taken hmem hop _ _ => exact ⟨_, hmem, hop⟩

/-- A parser that stands in its source does what the rules take for granted. -/
theorem Parser.Granted.of_sound (h : p.lexer.Sound) : p.Granted where
  takes := takesOperator h
  sign := by
    intro t q ht
    obtain ⟨op, hmem, hop⟩ := exists_operator_of_take h ht
    rcases List.mem_pair.mp hmem with rfl | rfl
    · exact ⟨.plus, unaryOperator_of_lexeme hop⟩
    · exact ⟨.minus, unaryOperator_of_lexeme hop⟩
  link := by
    intro strength t q ht
    obtain ⟨op, hmem, hop⟩ := exists_operator_of_take h ht
    cases strength with
    | sum =>
      rcases List.mem_pair.mp hmem with rfl | rfl
      · exact ⟨.add, binaryOperator_of_lexeme hop⟩
      · exact ⟨.sub, binaryOperator_of_lexeme hop⟩
    | product =>
      rcases List.mem_pair.mp hmem with rfl | rfl
      · exact ⟨.mul, binaryOperator_of_lexeme hop⟩
      · exact ⟨.div, binaryOperator_of_lexeme hop⟩
  seen := by
    intro x q hx
    obtain ⟨hpeek, rfl⟩ := EStateM.Result.ok.inj ((lookAhead_eq h).symm.trans hx)
    obtain ⟨t, l, hn, ht⟩ := Lexer.exists_token_of_peek hpeek
    exact ⟨t, _, advance_of_ok hn, ht⟩
  awaited := by
    intro op q hop cause
    obtain ⟨hany, rfl⟩ := EStateM.Result.ok.inj ((looksAt_eq h op).symm.trans hop)
    obtain ⟨x, hpeek, hx⟩ := (Option.any_eq_true _ _).mp hany
    obtain ⟨t, l, hn, rfl⟩ := Lexer.exists_token_of_peek hpeek
    exact ⟨t, _, expectOperator_of_token hn hx⟩

end

/-! ### Errors that do not arise -/

/-- Nothing that is reported says that a call is not opened, or that a symbol is no operator. -/
theorem cause_ne_of_parse {s : String} {e : ParseError} (h : parse s = .error (.grammatical e)) :
    (∀ f, e.cause ≠ .unopenedCall f) ∧ ∀ symbol, e.cause ≠ .noSuchOperator symbol := by
  have hs := parse_outcome s
  rw [h] at hs
  cases hs with
  | trailing => simp
  | @refused ts l w _ _ _ hrep =>
    generalize hnext : l.next.1 = next at hrep
    generalize herr : SyntaxError.grammatical e = err at hrep
    cases hrep with
    | level | argument =>
      obtain rfl := SyntaxError.grammatical.inj herr
      simp
    | awaited _ _ =>
      cases next with
      | error d => cases herr
      | ok found =>
        obtain rfl := SyntaxError.grammatical.inj herr
        cases w <;> cases found <;> simp [Need.causeAt, operandCause]

theorem take_append_ne {s t u : String} {n : Nat} (hn : n ≤ s.toList.length)
    (h : s.toList.take n ≠ u.toList) : (s ++ t).toList.take n ≠ u.toList := by
  rwa [String.toList_append, List.take_append_of_le_length hn]

/-- The start of a message tells if it is that a call is not opened. -/
theorem ParseError.Cause.not_prefix_message {cause : ParseError.Cause}
    (h : ∀ f, cause ≠ .unopenedCall f) : ¬ "Expecting (".toList <+: cause.message.toList := by
  have hstart : cause.message.toList.take 11 ≠ "Expecting (".toList := by
    cases cause with
    | tooDeep | unexpectedEnd | unclosed => decide
    | trailing | notAnOperand | unclosedCall | missingArgument | noSuchOperator =>
      exact take_append_ne (by decide) (by decide)
    | unopenedCall f => exact absurd rfl (h f)
  exact fun hprefix => hstart (List.prefix_iff_eq_take.mp hprefix).symm

/-- Whatever the source, the parser comes to an end, and on the way, from the start to the end, the rules
find what they take for granted: an operator is taken without failing or the parser stays as it is, and
what has been seen is what is read. So it is never reported that the arguments of a call are not opened,
in whatever words after these, and never that a symbol is no operator. -/
theorem parse_granted (source : String) :
    ∃ q seen,
      Watched.Ends Watched.program { parser := ⟨ofSource source, 0⟩ }
        (parse source, { parser := q, seen }) ∧
      (⟨ofSource source, 0⟩ :: seen).getLast? = some q ∧
      (∀ p ∈ ⟨ofSource source, 0⟩ :: seen, p.Granted) ∧
      ∀ e, parse source = .error (.grammatical e) →
        ¬ "Expecting (".toList <+: e.cause.message.toList ∧
          ∀ symbol, e.cause ≠ .noSuchOperator symbol := by
  have hstart : (ofSource source).Sound := ofSource_sound source
  obtain ⟨seen, hrun, htrail⟩ :=
    Watched.follows_program { parser := ⟨ofSource source, 0⟩ } hstart rfl
  refine ⟨_, seen, hrun, htrail.last, ?_, ?_⟩
  · intro p hp
    rcases List.mem_cons.mp hp with rfl | hp
    · exact .of_sound hstart
    · exact .of_sound (htrail.passed p hp).sound
  · intro e he
    obtain ⟨hcall, hsymbol⟩ := cause_ne_of_parse he
    exact ⟨ParseError.Cause.not_prefix_message hcall, hsymbol⟩

/-- A sign in front of a call that is not closed. -/
theorem parse_granted_unclosed :
    let p : Parser := ⟨ofSource "-f(1", 0⟩
    (∃ t q op, takeOperator ['+', '-'] p = .ok (some t) q ∧ unaryOperator t q = .ok op q) ∧
    TakesOperator ['*', '/'] p (.ok none p) ∧
    ∃ e, parse "-f(1" = .error (.grammatical e) ∧
      ¬ "Expecting (".toList <+: e.cause.message.toList := by
  intro p
  have hsign : takeOperator ['+', '-'] p =
      .ok (some ⟨.operator '-', 0, 0⟩) ⟨⟨"-f(1", ['f', '(', '1'], 1, 0⟩, 0⟩ :=
    eq_ok_of_outcome (by decide +kernel)
  have hleft : takeOperator ['*', '/'] p = .ok none p := eq_ok_of_outcome (by decide +kernel)
  have hparse : parse "-f(1" = .error (.grammatical ⟨.unclosedCall "f", none⟩) := by decide +kernel
  obtain ⟨q, seen, -, -, hgranted, hreport⟩ := parse_granted "-f(1"
  have hp : p.Granted := hgranted p List.mem_cons_self
  obtain ⟨op, hop⟩ := hp.sign _ _ hsign
  exact ⟨⟨_, _, op, hsign, hop⟩, hleft ▸ hp.takes ['*', '/'], _, hparse, (hreport _ hparse).1⟩

end ExprView
