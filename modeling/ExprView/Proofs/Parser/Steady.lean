import ExprView.Parser.Rules
import ExprView.Proofs.Lexer.Reading

/-!
# Steps keep the count of open rules

Whatever a step of the parser comes to, the parser goes on from the place where it was or from a
later one, and every rule that was opened is closed again. It is enough to see this for the steps
that look at tokens; a rule is built from them.

## Main statements

* `steady_level`: every rule of every level is steady.
-/

namespace ExprView

/-- The second parser stands further on in the source, with as many open rules. -/
structure Parser.Ahead (p q : Parser) : Prop where
  /-- What was opened is closed. -/
  depth_eq : q.depth = p.depth
  /-- The place does not go back. -/
  position_le : p.lexer.position ≤ q.lexer.position
  /-- There is no more left to read than before. -/
  rest_le : q.lexer.rest.length ≤ p.lexer.rest.length

theorem Parser.Ahead.refl (p : Parser) : p.Ahead p := ⟨rfl, Nat.le_refl _, Nat.le_refl _⟩

theorem Parser.Ahead.trans {p q r : Parser} (h : p.Ahead q) (h' : q.Ahead r) : p.Ahead r :=
  ⟨h'.depth_eq.trans h.depth_eq, Nat.le_trans h.position_le h'.position_le,
    Nat.le_trans h'.rest_le h.rest_le⟩

namespace ParserM

variable {α β : Type} {p q : Parser} {err : SyntaxError}

/-! ### Sequences of steps -/

@[simp] theorem pure_apply (a : α) (p : Parser) : (pure a : ParserM α) p = .ok a p := rfl

theorem bind_of_ok {x : ParserM α} {f : α → ParserM β} {a : α} (h : x p = .ok a q) :
    (x >>= f) p = f a q := by
  show EStateM.bind x f p = f a q
  rw [EStateM.bind, h]

theorem bind_of_error {x : ParserM α} {f : α → ParserM β} (h : x p = .error err q) :
    (x >>= f) p = .error err q := by
  show EStateM.bind x f p = .error err q
  rw [EStateM.bind, h]

/-- What a step comes to tells the step. -/
theorem eq_ok_of_outcome {step : ParserM α} {a : α} (h : step.outcome p = (.ok a, q)) :
    step p = .ok a q := by
  rw [outcome] at h
  cases hp : step p with
  | error e q' =>
    rw [hp] at h
    cases h
  | ok b q' =>
    rw [hp] at h
    cases h
    rfl

/-- Whatever the step comes to, it goes on in the source and closes what it opens. -/
def Steady (step : ParserM α) : Prop := ∀ p : Parser, p.Ahead (step.outcome p).2

theorem Steady.of_ok {step : ParserM α} {a : α} (h : Steady step) (hp : step p = .ok a q) :
    p.Ahead q := by
  have := h p
  rwa [outcome, hp] at this

theorem Steady.of_error {step : ParserM α} (h : Steady step) (hp : step p = .error err q) :
    p.Ahead q := by
  have := h p
  rwa [outcome, hp] at this

theorem steady_pure (a : α) : Steady (pure a : ParserM α) := fun p => .refl p

theorem steady_refuse (cause : ParseError.Cause) (found : Option Token) :
    Steady (refuse cause found : ParserM α) := fun p => .refl p

theorem Steady.bind {x : ParserM α} {f : α → ParserM β} (hx : Steady x)
    (hf : ∀ a, Steady (f a)) : Steady (x >>= f) := by
  intro p
  cases h : x p with
  | ok a q =>
    have := hf a q
    rw [outcome, bind_of_ok h]
    exact (hx.of_ok h).trans this
  | error err q =>
    rw [outcome, bind_of_error h]
    exact hx.of_error h

/-! ### Steps on tokens -/

theorem steady_peek : Steady peek := fun p => .refl p

theorem steady_advance : Steady advance := by
  have hstep (p : Parser) : p.Ahead { p with lexer := p.lexer.next.2 } :=
    ⟨rfl, p.lexer.position_next_le, p.lexer.rest_length_next_le⟩
  intro p
  have := hstep p
  rcases hn : p.lexer.next with ⟨token | e, l⟩
  all_goals
    rw [outcome, advance, hn]
    rwa [hn] at this

theorem steady_checkOperator (op : Char) : Steady (checkOperator op) :=
  steady_peek.bind fun _ => steady_pure _

theorem steady_matchOperator (ops : List Char) : Steady (matchOperator ops) := by
  refine steady_peek.bind fun next => ?_
  split
  · split
    · exact steady_advance
    · exact steady_pure none
  · exact steady_pure none

theorem steady_expectOperator (op : Char) (cause : ParseError.Cause) :
    Steady (expectOperator op cause) := by
  refine steady_advance.bind fun token => ?_
  split
  · split
    · exact steady_pure _
    · exact steady_refuse cause _
  · exact steady_refuse cause none

/-- What is opened is closed. -/
theorem Steady.nested {rule : ParserM α} (h : Steady rule) : Steady (nested rule) := by
  intro p
  have hrule := h { p with depth := p.depth + 1 }
  have hclose {q : Parser} (hq : Parser.Ahead { p with depth := p.depth + 1 } q) :
      p.Ahead { q with depth := q.depth - 1 } :=
    ⟨by rw [hq.depth_eq, Nat.add_sub_cancel], hq.position_le, hq.rest_le⟩
  rw [outcome, ParserM.nested]
  split_ifs with hdeep
  · exact .refl p
  · rw [outcome] at hrule
    cases hr : rule { p with depth := p.depth + 1 } with
    | ok a q =>
      rw [hr] at hrule
      exact hclose hrule
    | error e q =>
      rw [hr] at hrule
      exact hclose hrule

/-! ### Repetition -/

theorem many_of_error {step : ParserM (Option α)} (h : step p = .error err q) :
    many step p = .error err q := by
  rw [many, h]

theorem many_of_none {step : ParserM (Option α)} (h : step p = .ok none q) :
    many step p = .ok [] q := by
  rw [many, h]

theorem many_of_some {step : ParserM (Option α)} {a : α} (h : step p = .ok (some a) q)
    (hlt : q.lexer.rest.length < p.lexer.rest.length) :
    many step p = match many step q with
      | .ok as r => .ok (a :: as) r
      | .error e r => .error e r := by
  cases hm : many step q <;>
    rw [many, h] <;>
    simp only [if_pos hlt, hm]

theorem Steady.many {step : ParserM (Option α)} (h : Steady step) : Steady (many step) := by
  intro p
  generalize hn : p.lexer.rest.length = n
  induction n using Nat.strongRecOn generalizing p with
  | _ n ih =>
    cases hp : step p with
    | error e q =>
      rw [outcome, many_of_error hp]
      exact h.of_error hp
    | ok found q =>
      have hq := h.of_ok hp
      cases found with
      | none =>
        rw [outcome, many_of_none hp]
        exact hq
      | some a =>
        by_cases hlt : q.lexer.rest.length < p.lexer.rest.length
        · have hmore := ih _ (hn ▸ hlt) q rfl
          rw [outcome] at hmore ⊢
          rw [many_of_some hp hlt]
          cases hm : ParserM.many step q with
          | ok as r =>
            rw [hm] at hmore
            exact hq.trans hmore
          | error e r =>
            rw [hm] at hmore
            exact hq.trans hmore
        · rw [outcome, ParserM.many, hp]
          simp only [if_neg hlt]
          exact hq

/-! ### Rules -/

/-- The rules that open a level are steady. -/
structure Level.Steady (below : Level) : Prop where
  /-- The assignment. -/
  assignment : ParserM.Steady below.assignment
  /-- The operand of an operator in front. -/
  unary : ParserM.Steady below.unary

variable {below : Level}

theorem steady_unaryOperator (token : Token) : Steady (unaryOperator token) := by
  unfold unaryOperator
  split
  · exact steady_pure _
  · exact steady_refuse _ none

theorem steady_binaryOperator (token : Token) : Steady (binaryOperator token) := by
  unfold binaryOperator
  split
  · exact steady_pure _
  · exact steady_refuse _ none

theorem steady_nextArgument (h : below.Steady) (name : String) :
    Steady (nextArgument below name) := by
  refine (steady_matchOperator _).bind fun comma => ?_
  split
  · exact steady_pure none
  · refine (steady_checkOperator ')').bind fun closes => ?_
    split
    · exact steady_refuse _ _
    · exact h.assignment.bind fun _ => steady_pure _

theorem steady_argumentList (h : below.Steady) (name : String) :
    Steady (argumentList below name) :=
  h.assignment.bind fun _ => (steady_nextArgument h name).many.bind fun _ => steady_pure _

/-- However a call goes on after its opening parenthesis. -/
theorem steady_call_after (h : below.Steady) (name : String) : Steady (do
    let arguments ← if ← checkOperator ')' then pure [] else argumentList below name
    let _ ← expectOperator ')' (.unclosedCall name)
    return Expr.call name arguments) := by
  refine (steady_checkOperator ')').bind fun empty => ?_
  have hclose (es : List Expr) : Steady (do
      let _ ← expectOperator ')' (.unclosedCall name)
      return Expr.call name es) :=
    (steady_expectOperator ')' _).bind fun _ => steady_pure _
  split
  · exact (steady_pure _).bind hclose
  · exact (steady_argumentList h name).bind hclose

theorem steady_call (h : below.Steady) (name : String) : Steady (call below name) :=
  (steady_expectOperator '(' _).bind fun _ => steady_call_after h name

/-- However a primary expression goes on after its first token. -/
theorem steady_primary_after (h : below.Steady) (next : Lexeme) (token : Option Token) :
    Steady (match next.kind with
      | .identifier => do
        if ← checkOperator '(' then call below next.text else return .identifier next.text
      | .number => return .number next.text
      | .operator => do
        if next.isOperator '(' then
          let inner ← below.assignment
          let _ ← expectOperator ')' .unclosed
          return .grouping inner
        else refuse (.notAnOperand next.text) token : ParserM Expr) := by
  split
  · refine (steady_checkOperator '(').bind fun opens => ?_
    split
    · exact steady_call h _
    · exact steady_pure _
  · exact steady_pure _
  · split
    · exact h.assignment.bind fun _ => (steady_expectOperator ')' _).bind fun _ => steady_pure _
    · exact steady_refuse _ _

theorem steady_primary (h : below.Steady) : Steady (primary below) := by
  refine steady_peek.bind fun next => ?_
  split
  · exact steady_advance.bind fun _ => steady_refuse _ none
  · exact steady_advance.bind fun token => steady_primary_after h _ token

theorem steady_unary (h : below.Steady) : Steady (unary below) := by
  refine (steady_matchOperator _).bind fun sign => ?_
  split
  · exact (steady_unaryOperator _).bind fun _ => h.unary.bind fun _ => steady_pure _
  · exact steady_primary h

theorem steady_link (ops : List Char) {operand : ParserM Expr} (h : Steady operand) :
    Steady (link ops operand) := by
  refine (steady_matchOperator ops).bind fun token => ?_
  split
  · exact steady_pure none
  · exact (steady_binaryOperator _).bind fun _ => h.bind fun _ => steady_pure _

theorem steady_chain (ops : List Char) {operand : ParserM Expr} (h : Steady operand) :
    Steady (chain ops operand) :=
  h.bind fun _ => (steady_link ops h).many.bind fun _ => steady_pure _

theorem steady_multiplicative (h : below.Steady) : Steady (multiplicative below) :=
  steady_chain _ (steady_unary h)

theorem steady_additive (h : below.Steady) : Steady (additive below) :=
  steady_chain _ (steady_multiplicative h)

theorem steady_assignedValue (h : below.Steady) : Steady (assignedValue below) := by
  refine (steady_matchOperator _).bind fun sign => ?_
  split
  · exact h.assignment.bind fun _ => steady_pure _
  · exact steady_pure none

theorem steady_assignment (h : below.Steady) : Steady (assignment below) := by
  refine (steady_additive h).bind fun e => ?_
  split
  · exact (steady_assignedValue h).bind fun _ => steady_pure _
  · exact steady_pure e

/-- The rules of every level are steady. -/
theorem steady_level (n : Nat) : (level n).Steady := by
  induction n with
  | zero => exact ⟨steady_refuse _ none, steady_refuse _ none⟩
  | succ n ih => exact ⟨(steady_assignment ih).nested, (steady_unary ih).nested⟩

end ParserM

end ExprView
