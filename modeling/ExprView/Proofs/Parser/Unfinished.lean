import ExprView.Proofs.Parser.Faults
import ExprView.Proofs.Parser.Place

/-!
# Unfinished sources

A source that is no expression may be the start of one. The parser tells the two cases apart: at a
token it reports what no further text can mend, and without a token what further text can. Only
where no level is left does it not look at what comes next, so there nothing is told.

## Main statements

* `errorClass_of_parse`: what an error says of the texts that start with the source.
* `parse_unfinished`: the errors without a token are those of the sources that can be completed.
-/

namespace ExprView

open Lexer

variable {s : String} {ts : List Token} {l l' : Lexer} {t : Token} {w : Need}

/-! ### Errors at a token -/

/-- No text that starts with the source is parsed, if none is that goes on with a token of it. -/
theorem not_extendable_of_token (hr : (ofSource s).Reads ts l) (hn : l.next = (.ok (some t), l'))
    (hno : ∀ {gap text passed front}, l.Yields gap text t l' → s.toList = passed ++ l.rest →
      front.toList = passed ++ (gap ++ text) → ¬ Extendable front) : ¬ Extendable s := by
  obtain ⟨gap, text, hy⟩ := next_eq_token_iff.mp hn
  obtain ⟨passed, hs, hsource, -⟩ := exists_passed hr hy
  intro hext
  rw [hsource] at hext
  exact hno hy hs (toList_front hy passed) hext.of_append

/-- A source that is refused at a token is not the start of an expression. -/
theorem not_extendable_of_refused_token (hr : (ofSource s).Reads ts l)
    (hn : l.next = (.ok (some t), l'))
    (hw : Refuses l.peek .assignment maxNesting (lexemes ts) w) : ¬ Extendable s := by
  rw [peek_of_token hn] at hw
  exact not_extendable_of_token hr hn fun hy hs hfront =>
    not_extendable_of_refuses hr hy hs hfront hw

/-! ### Errors at the end -/

/-- A source that is refused at its end is the start of an expression, if a level is left. -/
theorem extendable_of_refused_end (hr : (ofSource s).Reads ts l) (hend : l.next.1 = .ok none)
    (hw : Refuses l.peek .assignment maxNesting (lexemes ts) w) (hlevel : w ≠ .level) :
    Extendable s := by
  obtain ⟨passed, hs, -⟩ := hr.exists_front
  -- the blanks that are left stand between the source and what completes it
  obtain ⟨hblank, -⟩ := next_eq_end_iff.mp (next_eq hend)
  exact extendable_of_completable hr (hw.completable hlevel) hs hblank hs

/-! ### What an error says -/

/-- What an error says of the texts that start with the source. -/
inductive ErrorClass (s : String) : SyntaxError → Prop where
  /-- The source has no tokens. -/
  | lexical {e : LexError} : tokenize s = .error e → ErrorClass s (.lexical e)
  /-- No level is left, which tells nothing. -/
  | tooDeep : ErrorClass s (.grammatical ⟨.tooDeep, none⟩)
  /-- At a token, no such text is parsed. -/
  | wrong {cause : ParseError.Cause} {t : Token} :
      ¬ Extendable s → ErrorClass s (.grammatical ⟨cause, some t⟩)
  /-- Without a token, the source has tokens and some such text is parsed. -/
  | unfinished {cause : ParseError.Cause} {ts : List Token} :
      tokenize s = .ok ts → Extendable s → ErrorClass s (.grammatical ⟨cause, none⟩)

/-- What is missing in the next token, or at the end. -/
theorem errorClass_of_awaited (hr : (ofSource s).Reads ts l)
    (hw : Refuses l.peek .assignment maxNesting (lexemes ts) w) (hlevel : w ≠ .level) :
    ErrorClass s (.atNext w.causeAt l.next.1) := by
  rcases hn : l.next with ⟨e | found, l'⟩
  · exact .lexical (tokenize_of_fault hr (congrArg Prod.fst hn))
  · cases found with
    | none =>
      have hend : l.next.1 = .ok none := congrArg Prod.fst hn
      exact .unfinished (tokenize_of_reads hr hend) (extendable_of_refused_end hr hend hw hlevel)
    | some t => exact .wrong (not_extendable_of_refused_token hr hn hw)

/-- A missing argument shows at a token, and so at one that follows. -/
theorem not_extendable_of_argument {f : String} (hr : (ofSource s).Reads ts l)
    (hw : Refuses l.peek .assignment maxNesting (lexemes ts) (.argument f)) : ¬ Extendable s := by
  obtain ⟨hclose, -⟩ := hw.of_argument rfl
  obtain ⟨t, l', hn, -⟩ := exists_token_of_peek hclose
  exact not_extendable_of_refused_token hr hn hw

/-- Every error says something of the texts that start with the source. -/
theorem errorClass_of_parse {err : SyntaxError} (h : parse s = .error err) : ErrorClass s err := by
  have hs := parse_outcome s
  rw [h] at hs
  cases hs with
  | fault hr hn _ _ => exact .lexical (tokenize_of_fault hr hn)
  | trailing hr hn he hm hstop =>
    exact .wrong (not_extendable_of_token hr (next_eq hn) fun hy hs hfront =>
      not_extendable_of_trailing hr hy hs hfront he hm hstop)
  | refused hr hw hrep =>
    cases hrep with
    | level => exact .tooDeep
    | argument f us comma => exact .wrong (not_extendable_of_argument hr hw)
    | awaited _ hawaited =>
      apply errorClass_of_awaited hr hw
      rintro rfl
      cases hawaited

/-- Unfinished sources are told apart from wrong ones. An error of the parser without a token, if
it is not that the expression is nested too deeply, is that of a source which has tokens and with
which a text that is parsed starts. And a source with tokens that is not parsed, but with which a
text that is parsed starts, is reported with neither a token nor an offset. -/
theorem parse_unfinished (s : String) :
    (∀ err message offset, parse s = .error err →
      err.diagnostic = .grammatical message none offset →
      message ≠ "Expression nested too deeply" → (∃ ts, tokenize s = .ok ts) ∧ Extendable s) ∧
    ∀ ts err, tokenize s = .ok ts → parse s = .error err → Extendable s →
      ∃ message, err.diagnostic = .grammatical message none none := by
  constructor
  · intro err message offset h hd hmessage
    cases errorClass_of_parse h with
    | lexical => cases hd
    | wrong => cases hd
    | tooDeep =>
      cases hd
      exact absurd rfl hmessage
    | unfinished hts hext => exact ⟨⟨_, hts⟩, hext⟩
  · intro ts err hts h hext
    cases errorClass_of_parse h with
    | lexical he => exact absurd (hts.symm.trans he) (by simp)
    | wrong hno => exact absurd hext hno
    | tooDeep => exact ⟨_, rfl⟩
    | unfinished => exact ⟨_, rfl⟩

/-- A call that ends within its second argument. -/
theorem parse_unfinished_call :
    (∃ ts, tokenize "f(1, -" = .ok ts) ∧ Extendable "f(1, -" ∧
      ∃ err message, parse "f(1, -" = .error err ∧
        err.diagnostic = .grammatical message none none := by
  have h : parse "f(1, -" = .error (.grammatical ⟨.unexpectedEnd, none⟩) := by decide +kernel
  obtain ⟨⟨ts, hts⟩, hext⟩ := (parse_unfinished "f(1, -").1 _ _ _ h rfl (by decide)
  obtain ⟨message, hmessage⟩ := (parse_unfinished "f(1, -").2 ts _ hts h hext
  exact ⟨⟨ts, hts⟩, hext, _, message, h, hmessage⟩

end ExprView
