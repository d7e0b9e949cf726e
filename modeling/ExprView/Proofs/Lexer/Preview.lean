import ExprView.Lexer.Preview
import ExprView.Proofs.Lexer.Cursor

/-!
# Looking ahead changes nothing

A lexer looks ahead by reading and by going back. As long as it stands in its source it comes back
to the very state that it was in, wherever the scan has stopped, and it stands in its source after
any steps. So what is seen is what is read next, and steps that only look can be put in anywhere.

## Main statements

* `Lexer.Sound.lookAhead_eq`: what is seen, and that nothing changes.
* `LexerState.Sound.runReading_eq`: a run that reads and goes back is a run that only looks.
* `look_ahead_pure`: what a lexer sees after any steps, and what looking does to a run.
-/

namespace ExprView

open Lexer

/-! ### One look -/

namespace Lexer

variable {l : Lexer}

theorem next_source (l : Lexer) : l.next.2.source = l.source := by
  unfold next
  split
  · rfl
  · split <;> rfl

/-- A lexer finds its way back to where it stands in its source. -/
theorem Sound.moveTo_eq {l' : Lexer} (h : l.Sound) (hsource : l'.source = l.source) :
    l'.moveTo l.position l.mark = l := by
  obtain ⟨source, rest, position, mark⟩ := l
  obtain ⟨front, hfront, hposition⟩ := h.rest_eq
  obtain rfl : byteLength front = position := hposition
  have hs : source.toList = front ++ rest := hfront
  have hsource : l'.source = source := hsource
  rw [moveTo, hsource, hs, splitBytes_byteLength]

/-- A lexer that stands in its source sees what comes, and stays as it is. -/
theorem Sound.lookAhead_eq (h : l.Sound) : l.lookAhead = (l.peek, l) := by
  have hback : l.next.2.moveTo l.position l.mark = l := h.moveTo_eq l.next_source
  have hseen : l.next.1.toOption.join.map Token.toLexeme = l.peek := by
    unfold peek
    rcases l.next.1 with e | _ | t <;> rfl
  show (l.next.1.toOption.join.map Token.toLexeme, l.next.2.moveTo l.position l.mark) = _
  rw [hseen, hback]

/-- What is seen is the lexeme of the token that is read next. -/
theorem peek_eq_some_iff {x : Lexeme} :
    l.peek = some x ↔ ∃ t, l.next.1 = .ok (some t) ∧ t.toLexeme = x := by
  constructor
  · intro h
    obtain ⟨t, l', hn, ht⟩ := exists_token_of_peek h
    exact ⟨t, by rw [hn], ht⟩
  · rintro ⟨t, hn, rfl⟩
    exact peek_of_token (next_eq hn)

/-- Nothing is seen at the end and where the next scan fails. -/
theorem peek_eq_none_iff : l.peek = none ↔ l.next.1 = .ok none ∨ ∃ e, l.next.1 = .error e := by
  constructor
  · intro h
    rcases hn : l.next.1 with e | found
    · exact .inr ⟨e, rfl⟩
    · cases found with
      | none => exact .inl rfl
      | some t =>
        rw [peek_of_token (next_eq hn)] at h
        cases h
  · rintro (hn | ⟨e, hn⟩)
    · exact peek_of_end hn
    · exact peek_of_error hn

end Lexer

/-! ### Runs that look ahead -/

namespace LexerState

variable {s : LexerState}

/-- The lexer and all its copies stand in their sources. -/
structure Sound (s : LexerState) : Prop where
  /-- The lexer does. -/
  lexer : s.lexer.Sound
  /-- The copies do. -/
  saved : ∀ n, (s.saved.getD n {}).Sound

theorem ofSource_sound (source : String) : Sound { lexer := ofSource source } where
  lexer := Lexer.ofSource_sound source
  saved := fun _ => Lexer.ofSource_sound ""

/-- No step takes a lexer out of its source. -/
theorem Sound.step (h : s.Sound) (step : LexerStep) : (s.step step).2.Sound := by
  have hstart : LexerHistory.Sound { state := s } :=
    ⟨h.lexer.soundAfter_nil, fun n => (h.saved n).soundAfter_nil⟩
  have hstep := hstart.step step
  exact ⟨hstep.lexer.toSound, fun n => (hstep.saved n).toSound⟩

/-- A step that reads and goes back is a step that only looks. -/
theorem Sound.stepReading_eq (h : s.Sound) (step : LexerStep) :
    s.stepReading step = s.step step := by
  cases step with
  | peek => rw [stepReading, h.lexer.lookAhead_eq, LexerState.step]
  | _ => rfl

theorem Sound.stepReading (h : s.Sound) (step : LexerStep) : (s.stepReading step).2.Sound := by
  rw [h.stepReading_eq]
  exact h.step step

theorem Sound.after (h : s.Sound) (steps : List LexerStep) : (s.after steps).Sound := by
  induction steps generalizing s with
  | nil => exact h
  | cons step steps ih => exact ih (h.stepReading step)

/-- So it is for a whole run. -/
theorem Sound.runReading_eq (h : s.Sound) (steps : List LexerStep) :
    s.runReading steps = s.run steps := by
  induction steps generalizing s with
  | nil => rfl
  | cons step steps ih =>
    rw [runReading, run, h.stepReading_eq, ih (h.step step)]

end LexerState

/-! ### Further looks -/

/-- The second list is the first with further elements put in, all of which are of the class. -/
inductive Inserted {α : Type} (p : α → Prop) : List α → List α → Prop where
  /-- Nothing is put in at the end. -/
  | nil : Inserted p [] []
  /-- An element of the first list. -/
  | keep {x : α} {xs ys : List α} : Inserted p xs ys → Inserted p (x :: xs) (x :: ys)
  /-- An element that is put in. -/
  | add {y : α} {xs ys : List α} : p y → Inserted p xs ys → Inserted p xs (y :: ys)

/-- The steps of a run with what each of them answers and leaves. -/
def LexerState.record (s : LexerState) (steps : List LexerStep) :
    List (LexerStep × LexerAnswer × LexerState) := steps.zip (s.runReading steps)

/-- Further looks put in their own answers, and nothing else of the record changes. -/
theorem LexerState.Sound.record_inserted {s : LexerState} {steps more : List LexerStep}
    (h : s.Sound) (hmore : Inserted (· = .peek) steps more) :
    Inserted (fun r => r.1 = .peek) (s.record steps) (s.record more) := by
  induction hmore generalizing s with
  | nil => exact .nil
  | @keep step steps more _ ih => exact .keep (ih (h.stepReading step))
  | @add look steps more hlook _ ih =>
    subst hlook
    have hstays : (s.stepReading .peek).2 = s := by rw [h.stepReading_eq, LexerState.step]
    refine .add rfl ?_
    rw [hstays]
    exact ih h

/-- A lexer after any steps, failed scans among them. Looking ahead leaves it as it is, its source,
its cursor and the place where its last scan started. What is seen is the lexeme that is read next,
and nothing is seen at the end and where the next scan fails. So a run in which looking is reading
and going back is one in which it is only looking, and however many looks are put into a run,
wherever they are put, all else is answered as it was and leaves the same state. -/
theorem look_ahead_pure (source : String) (before : List LexerStep) :
    let s := LexerState.after { lexer := ofSource source } before
    let l := s.lexer
    l.lookAhead.2 = l ∧
    (∀ x, l.lookAhead.1 = some x ↔ ∃ t, l.next.1 = .ok (some t) ∧ t.toLexeme = x) ∧
    (l.lookAhead.1 = none ↔ l.next.1 = .ok none ∨ ∃ e, l.next.1 = .error e) ∧
    (∀ steps, s.runReading steps = s.run steps) ∧
    ∀ steps more, Inserted (· = .peek) steps more →
      Inserted (fun r => r.1 = .peek) (s.record steps) (s.record more) := by
  intro s l
  have hs : s.Sound := (LexerState.ofSource_sound source).after before
  have hl : l.lookAhead = (l.peek, l) := hs.lexer.lookAhead_eq
  rw [hl]
  exact ⟨rfl, fun x => peek_eq_some_iff, peek_eq_none_iff, fun steps => hs.runReading_eq steps,
    fun steps more hmore => hs.record_inserted hmore⟩

/-- The lexer looks at a number with the mark of an exponent that is not one, and at what is left
when that has been read in vain. -/
theorem look_ahead_pure_exponent :
    let s := LexerState.after { lexer := ofSource "1 3.14ex" } [.next]
    s.lexer.lookAhead.1 = none ∧ s.lexer.lookAhead.2 = s.lexer ∧
      (∃ e, s.lexer.next.1 = .error e) ∧
      (s.after [.next]).lexer.lookAhead.1 = some ⟨.identifier, "x"⟩ ∧
      Inserted (fun r => r.1 = .peek) (s.record [.next, .next])
        (s.record [.peek, .next, .peek, .peek, .next]) := by
  intro s
  have hinserted :
      Inserted (· = LexerStep.peek) [.next, .next] [.peek, .next, .peek, .peek, .next] :=
    .add rfl (.keep (.add rfl (.add rfl (.keep .nil))))
  have hnext : s.lexer.next.1 = .error ⟨.exponentBefore 'x', 2⟩ := by decide +kernel
  have hnext' : (s.after [.next]).lexer.next.1 = .ok (some ⟨⟨.identifier, "x"⟩, 7, 7⟩) := by
    decide +kernel
  obtain ⟨hback, -, hnone, -, hrecord⟩ := look_ahead_pure "1 3.14ex" [.next]
  obtain ⟨-, hsome, -⟩ := look_ahead_pure "1 3.14ex" [.next, .next]
  exact ⟨hnone.mpr (.inr ⟨_, hnext⟩), hback, ⟨_, hnext⟩, (hsome _).mpr ⟨_, hnext', rfl⟩,
    hrecord _ _ hinserted⟩

end ExprView
