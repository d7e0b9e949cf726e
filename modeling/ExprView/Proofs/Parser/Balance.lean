import ExprView.Proofs.Parser.Watched

/-!
# Rules close what they open

However a rule ends, with a tree or with an error that arises anywhere within it, as many rules are open
as before, and on the way there are never more than may be. The parser does not go back in its source,
and no rule comes to a tree without having read something.

## Main statements

* `ParserM.advances_onLevel`: a rule that comes to a tree has read something.
* `nesting_balanced`: every rule ends, with as many rules open as before and further on in the source.
-/

namespace ExprView

/-- A lexer that has read a token stands further on. -/
theorem Lexer.position_lt_of_token {l l' : Lexer} {t : Token} (h : l.next = (.ok (some t), l')) :
    l.position < l'.position := by
  obtain ⟨gap, text, hy⟩ := next_eq_token_iff.mp h
  have hpos := byteLength_pos hy.isText.ne_nil
  have hstart := hy.start_eq
  have hend := hy.position_eq
  omega

namespace ParserM

variable {α β : Type} {below : Level}

/-! ### Steps that read something -/

/-- Whenever the step comes to something it has read something. -/
def Advances (step : ParserM α) : Prop :=
  ∀ (p q : Parser) (a : α), step p = .ok a q → p.lexer.position < q.lexer.position

theorem advances_refuse (cause : ParseError.Cause) (found : Option Token) :
    Advances (refuse cause found : ParserM α) := by
  intro p q a h
  cases h

/-- What is read first has been read. -/
theorem Advances.bind {x : ParserM α} {f : α → ParserM β} (hx : Advances x)
    (hf : ∀ a, Steady (f a)) : Advances (x >>= f) := by
  intro p r b h
  obtain ⟨a, q, hq, hr⟩ := exists_of_bind_ok h
  exact Nat.lt_of_lt_of_le (hx p q a hq) ((hf a).of_ok hr).position_le

/-- What is read afterwards has been read. -/
theorem Steady.bind_advances {x : ParserM α} {f : α → ParserM β} (hx : Steady x)
    (hf : ∀ a, Advances (f a)) : Advances (x >>= f) := by
  intro p r b h
  obtain ⟨a, q, hq, hr⟩ := exists_of_bind_ok h
  exact Nat.lt_of_le_of_lt (hx.of_ok hq).position_le (hf a q r b hr)

theorem Advances.nested {rule : ParserM α} (h : Advances rule) : Advances (nested rule) := by
  intro p q a hp
  rw [ParserM.nested] at hp
  split_ifs at hp with hdeep
  · cases hp
  · cases hr : rule { p with depth := p.depth + 1 } with
    | error e r =>
      rw [hr] at hp
      cases hp
    | ok b r =>
      rw [hr] at hp
      obtain ⟨-, rfl⟩ := EStateM.Result.ok.inj hp
      exact h { p with depth := p.depth + 1 } r b hr

theorem advances_expectOperator (op : Char) (cause : ParseError.Cause) :
    Advances (expectOperator op cause) := by
  intro p q t h
  rcases hn : p.lexer.next with ⟨e | found, l⟩
  · rw [expectOperator, bind_of_error (advance_of_error hn)] at h
    cases h
  · rw [expectOperator, bind_of_ok (advance_of_ok hn)] at h
    cases found with
    | none => cases h
    | some u =>
      by_cases hu : u.isOperator op = true
      · simp only [if_pos hu] at h
        obtain ⟨-, rfl⟩ := EStateM.Result.ok.inj h
        exact Lexer.position_lt_of_token hn
      · simp only [if_neg hu] at h
        cases h

/-! ### Rules -/

/-- The rules that open a level come to nothing without having read something. -/
structure Level.Advances (below : Level) : Prop where
  /-- The assignment. -/
  assignment : ParserM.Advances below.assignment
  /-- The operand of an operator in front. -/
  unary : ParserM.Advances below.unary

theorem advances_argumentList (h : below.Advances) (hs : below.Steady) (name : String) :
    Advances (argumentList below name) :=
  h.assignment.bind fun _ => (steady_nextArgument hs name).many.bind fun _ => steady_pure _

theorem advances_call (hs : below.Steady) (name : String) : Advances (call below name) :=
  (advances_expectOperator '(' _).bind fun _ => steady_call_after hs name

theorem advances_primary (hs : below.Steady) : Advances (primary below) := by
  intro p q e h
  cases hpeek : p.lexer.peek with
  | none =>
    rw [primary, bind_of_ok (peek_of_eq hpeek)] at h
    obtain ⟨_, r, -, hr⟩ := exists_of_bind_ok h
    cases hr
  | some x =>
    obtain ⟨t, l, hn, rfl⟩ := Lexer.exists_token_of_peek hpeek
    rw [primary_of_token hn] at h
    have hahead := (steady_primary_after hs t.toLexeme (some t)).of_ok h
    exact Nat.lt_of_lt_of_le (Lexer.position_lt_of_token hn) hahead.position_le

theorem advances_unary (h : below.Advances) (hs : below.Steady) : Advances (unary below) := by
  refine (steady_matchOperator _).bind_advances fun sign => ?_
  split
  · refine (steady_unaryOperator _).bind_advances fun op => ?_
    exact h.unary.bind fun _ => steady_pure _
  · exact advances_primary hs

theorem advances_chain (ops : List Char) {operand : ParserM Expr} (h : Advances operand)
    (hs : Steady operand) : Advances (chain ops operand) :=
  h.bind fun _ => (steady_link ops hs).many.bind fun _ => steady_pure _

theorem advances_multiplicative (h : below.Advances) (hs : below.Steady) :
    Advances (multiplicative below) :=
  advances_chain _ (advances_unary h hs) (steady_unary hs)

theorem advances_additive (h : below.Advances) (hs : below.Steady) : Advances (additive below) :=
  advances_chain _ (advances_multiplicative h hs) (steady_multiplicative hs)

theorem advances_assignment (h : below.Advances) (hs : below.Steady) :
    Advances (assignment below) := by
  refine (advances_additive h hs).bind fun e => ?_
  split
  · exact (steady_assignedValue hs).bind fun _ => steady_pure _
  · exact steady_pure e

/-- The rules of every level that come to a tree have read something. -/
theorem advances_level (n : Nat) : (level n).Advances := by
  induction n with
  | zero => exact ⟨advances_refuse _ none, advances_refuse _ none⟩
  | succ n ih =>
    have hs := steady_level n
    exact ⟨(advances_assignment ih hs).nested, (advances_unary ih hs).nested⟩

/-- So has every rule. -/
theorem advances_onLevel (n : Nat) (rule : Watched.Rule) : Advances (rule.onLevel (level n)) := by
  have h := advances_level n
  have hs := steady_level n
  cases rule with
  | expression | assignment => exact h.assignment
  | additive => exact advances_additive h hs
  | multiplicative => exact advances_multiplicative h hs
  | unary => exact advances_unary h hs
  | primary => exact advances_primary hs
  | call name => exact advances_call hs name
  | arguments name => exact advances_argumentList h hs name

end ParserM

open Lexer

/-- A rule on a parser that stands in its source, wherever that is and however many rules are open
there. The rule ends, in what it ends with on the levels that are left to open. As many rules are open
then as before. On the way there are as many or more, but never more than may be, and the places of the
parser are in order. If the rule has come to a tree it has read something. -/
theorem nesting_balanced (rule : Watched.Rule) (p : Parser) (hp : p.lexer.Sound)
    (hd : p.depth ≤ maxNesting) :
    ∃ result q seen,
      Watched.Ends rule.watched { parser := p } (result, { parser := q, seen }) ∧
      (result, q) = (rule.onLevel (ParserM.level (maxNesting - p.depth))).outcome p ∧
      q.depth = p.depth ∧
      (∀ r ∈ seen, p.depth ≤ r.depth ∧ r.depth ≤ maxNesting) ∧
      (p :: seen).getLast? = some q ∧
      (p :: seen).Pairwise (fun r r' => r.lexer.position ≤ r'.lexer.position) ∧
      ∀ tree, result = .ok tree → p.lexer.position < q.lexer.position := by
  have hlevel : Watched.FollowsLevel p.depth (ParserM.level (maxNesting - p.depth)) :=
    Watched.followsLevel (Nat.sub_add_cancel hd)
  obtain ⟨seen, hrun, htrail⟩ := hlevel.rule rule { parser := p } hp rfl
  refine ⟨_, _, seen, hrun, rfl, htrail.ahead.depth_eq, ?_, htrail.last, htrail.pairwise, ?_⟩
  · exact fun r hr => ⟨(htrail.passed r hr).depth_le, (htrail.passed r hr).depth_le_max⟩
  · intro tree htree
    exact ParserM.advances_onLevel _ rule _ _ tree (ParserM.eq_ok_of_outcome (Prod.ext htree rfl))

/-- A call in the middle of a source takes two levels. With two levels left it is read and with one it
is refused, and what has been opened is closed. -/
theorem nesting_balanced_call :
    let l := (ofSource "1+f(-2)").next.2.next.2.next.2
    (∃ q seen, Watched.Ends (·.call "f") { parser := ⟨l, 62⟩ }
        (.ok (.call "f" [.unary .minus (.number "2")]), { parser := q, seen }) ∧
      q.depth = 62 ∧ (∀ r ∈ seen, 62 ≤ r.depth ∧ r.depth ≤ 64) ∧
      l.position < q.lexer.position) ∧
    ∃ q seen, Watched.Ends (·.call "f") { parser := ⟨l, 63⟩ }
        (.error (.grammatical ⟨.tooDeep, none⟩), { parser := q, seen }) ∧ q.depth = 63 := by
  intro l
  have hsound : l.Sound := (ofSource_sound "1+f(-2)").next.1.next.1.next.1
  have hl : l = ⟨"1+f(-2)", ['(', '-', '2', ')'], 3, 2⟩ := by decide +kernel
  clear_value l
  subst hl
  have hread : (ParserM.call (ParserM.level (maxNesting - 62)) "f").outcome
      ⟨⟨"1+f(-2)", ['(', '-', '2', ')'], 3, 2⟩, 62⟩ =
      (.ok (.call "f" [.unary .minus (.number "2")]), ⟨⟨"1+f(-2)", [], 7, 6⟩, 62⟩) := by
    decide +kernel
  have hrefused : (ParserM.call (ParserM.level (maxNesting - 63)) "f").outcome
      ⟨⟨"1+f(-2)", ['(', '-', '2', ')'], 3, 2⟩, 63⟩ =
      (.error (.grammatical ⟨.tooDeep, none⟩), ⟨⟨"1+f(-2)", ['2', ')'], 5, 4⟩, 63⟩) := by
    decide +kernel
  refine ⟨?_, ?_⟩
  · obtain ⟨result, q, seen, hrun, hout, hdepth, hseen, -, -, hlt⟩ :=
      nesting_balanced (.call "f") ⟨_, 62⟩ hsound (by decide)
    obtain ⟨rfl, -⟩ := Prod.mk.inj (hout.trans hread)
    exact ⟨q, seen, hrun, hdepth, hseen, hlt _ rfl⟩
  · obtain ⟨result, q, seen, hrun, hout, hdepth, -⟩ :=
      nesting_balanced (.call "f") ⟨_, 63⟩ hsound (by decide)
    obtain ⟨rfl, -⟩ := Prod.mk.inj (hout.trans hrefused)
    exact ⟨q, seen, hrun, hdepth⟩

end ExprView
