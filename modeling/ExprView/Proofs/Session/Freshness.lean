import ExprView.Proofs.Parser.Outcome
import ExprView.Proofs.Session.Editing

/-!
# Nothing that a session shows is stale

What a session knows of its line, and the message that sums it up, belong to the line as it is. One
lexer and one parser analyse all lines of a session, whatever became of those before; a key that
changes the line has it analysed anew, and no other key nor a frame touches the line or what is known
of it.

## Main statements

* `Session.press?_cases`: all that a key can do to the line and to what is known of it.
* `Session.Fresh.press`, `Session.Fresh.draw`: nothing becomes stale in one step.
* `run_fresh`: nothing is stale after any run.
-/

namespace ExprView

/-- The message on a program tells the number of tokens, and any other is that of the error. -/
theorem Analysis.status_ofSource (source : String) :
    (∃ p ts, parse source = .ok p ∧ tokenize source = .ok ts ∧
      (Analysis.ofSource source).status = "Parsed " ++ toString ts.length ++ " token(s)") ∨
    ∃ e, parse source = .error e ∧ (Analysis.ofSource source).status = e.diagnostic.render := by
  rw [Analysis.status, ofSource_tokens, ofSource_program]
  cases hp : parse source with
  | ok p =>
    obtain ⟨ts, hts⟩ := exists_tokenize_of_parse hp
    exact .inl ⟨p, ts, rfl, hts, by rw [hts]⟩
  | error e => exact .inr ⟨e, rfl, by cases tokenize source <;> rfl⟩

namespace Session

variable {s s' : Session}

/-- The sessions have the same line and know the same of it. -/
structure SameLine (s s' : Session) : Prop where
  /-- The line is the same. -/
  input_eq : s'.input = s.input
  /-- What is known of it is the same. -/
  analysis_eq : s'.analysis = s.analysis
  /-- The message is the same. -/
  status_eq : s'.status = s.status

/-- What is known of the line is what an analysis of it finds. -/
structure Analysed (s : Session) : Prop where
  /-- The analysis is that of the line. -/
  analysis_eq : s.analysis = Analysis.ofSource s.input
  /-- The message is that of the analysis. -/
  status_eq : s.status = (Analysis.ofSource s.input).status

/-- Nothing that the session shows is that of another line. -/
structure Fresh (s : Session) : Prop extends Analysed s where
  /-- The cursor is within the line. -/
  cursor_le : s.cursor ≤ s.input.length

/-! ### Keys -/

/-- A line that has been changed has been edited. -/
theorem change?_sameLine {o : Option (List Char)} {n : Nat} (h : s.change? o n = some s') :
    ∃ cs, SameLine (s.edit cs) s' := by
  obtain ⟨cs, -, rfl⟩ := Option.map_eq_some_iff.mp h
  exact ⟨cs, rfl, rfl, rfl⟩

/-- A change that is made under a condition. -/
theorem ite_change?_sameLine {o : Option (List Char)} {n : Nat} {p : Prop} [Decidable p]
    (h : (if p then s.change? o n else some s) = some s') :
    SameLine s s' ∨ ∃ cs, SameLine (s.edit cs) s' := by
  split at h
  · exact .inr (change?_sameLine h)
  · cases h
    exact .inl ⟨rfl, rfl, rfl⟩

/-- A key leaves the line alone or edits it. -/
theorem press?_cases {k : KeyPress} (h : s.press? k = some s') :
    SameLine s s' ∨ ∃ cs, SameLine (s.edit cs) s' := by
  obtain ⟨key, m⟩ := k
  cases key with
  | char c =>
    simp only [press?] at h
    split at h
    · cases h
      exact .inl ⟨rfl, rfl, rfl⟩
    · split at h
      · exact .inr (change?_sameLine h)
      · cases h
        exact .inl ⟨rfl, rfl, rfl⟩
  | backspace => exact ite_change?_sameLine h
  | delete => exact ite_change?_sameLine h
  | up | down =>
    cases h
    exact .inl ⟨s.scrollBy_input _, s.scrollBy_analysis _, s.scrollBy_status _⟩
  | escape | left | right | home | last | tab | other =>
    cases h
    exact .inl ⟨rfl, rfl, rfl⟩

/-! ### What is known of the line -/

/-- After an edit the line has been analysed, whatever was analysed before. -/
theorem edit_analysed (s : Session) (cs : List Char) : (s.edit cs).Analysed := by
  rw [edit, Analyser.run_eq s.analyser]
  exact ⟨rfl, rfl⟩

/-- What is known of the line is known of the same line. -/
theorem Analysed.of_sameLine (hs : s.Analysed) (h : SameLine s s') : s'.Analysed where
  analysis_eq := by rw [h.analysis_eq, h.input_eq, hs.analysis_eq]
  status_eq := by rw [h.status_eq, h.input_eq, hs.status_eq]

theorem start_fresh (input : String) : (start input).Fresh where
  analysis_eq := rfl
  status_eq := rfl
  cursor_le := Nat.le_refl _

/-- Nothing becomes stale by a key. -/
theorem Fresh.press (h : s.Fresh) (k : KeyPress) : (s.press k).Fresh where
  toAnalysed := by
    rcases press?_cases (press?_eq_some h.cursor_le k) with hsame | ⟨cs, hsame⟩
    · exact h.toAnalysed.of_sameLine hsame
    · exact (s.edit_analysed cs).of_sameLine hsame
  cursor_le := ((shows_line h.cursor_le).press k).cursor_le

/-- Nothing becomes stale by a frame. -/
theorem Fresh.draw (h : s.Fresh) (width height : Nat) : (s.draw width height).2.Fresh where
  analysis_eq := h.analysis_eq
  status_eq := h.status_eq
  cursor_le := h.cursor_le

theorem Fresh.handle (h : s.Fresh) (e : Event) : (s.handle e).Fresh := by
  cases e with
  | press k => exact h.press k
  | draw width height => exact h.draw width height

theorem Fresh.run (h : s.Fresh) (events : List Event) : (s.run events).Fresh := by
  induction events generalizing s with
  | nil => exact h
  | cons e events ih => exact ih (h.handle e)

end Session

/-- Nothing that a session shows is stale. After any keys and frames the cursor is within the line,
the tokens and the program are those that a new lexer and a new parser find in the line, and the
message tells the number of tokens if there is a program, and its error if there is none. -/
theorem run_fresh (input : String) (events : List Event) :
    let s := (Session.start input).run events
    s.cursor ≤ s.input.length ∧ s.analysis.tokens = tokenize s.input ∧
      s.analysis.program = parse s.input ∧
      ((∃ p ts, parse s.input = .ok p ∧ tokenize s.input = .ok ts ∧
          s.status = "Parsed " ++ toString ts.length ++ " token(s)") ∨
        ∃ e, parse s.input = .error e ∧ s.status = e.diagnostic.render) := by
  intro s
  have h : s.Fresh := (Session.start_fresh input).run events
  refine ⟨h.cursor_le, ?_, ?_, ?_⟩
  · rw [h.analysis_eq, Analysis.ofSource_tokens]
  · rw [h.analysis_eq, Analysis.ofSource_program]
  · rw [h.status_eq]
    exact Analysis.status_ofSource s.input

end ExprView
