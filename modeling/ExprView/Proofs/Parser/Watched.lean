import ExprView.Parser.Watched
import ExprView.Proofs.Lexer.Preview
import ExprView.Proofs.Parser.Chains

/-!
# Rules that call each other come to an end

A rule that calls others, on a parser that stands in its source and has no more rules open than there
may be, comes to an end, and to what the rule with levels comes to. The levels are those that can still
be opened: each call of a rule that opens one leaves one less, and a rule calls only tighter ones before
it opens one; a repetition goes on only where something has been read. What the parser was on the way
has a count of open rules within the limit, and stands in the source further and further on.

## Main statements

* `Watched.Follows.bind`, `Watched.follows_repetition`: the one follows the other in sequences and
  repetitions.
* `Watched.followsLevel`: the rules that open a level end, and do what the level says.
* `Watched.FollowsLevel.rule`, `Watched.follows_program`: so do all rules.
-/

namespace ExprView

/-! ### On the way -/

/-- A parser that is passed on the way from one to another. -/
structure Parser.Passed (p q r : Parser) : Prop where
  /-- It stands in its source. -/
  sound : r.lexer.Sound
  /-- What was open at the start is open. -/
  depth_le : p.depth ≤ r.depth
  /-- No more is open than may be. -/
  depth_le_max : r.depth ≤ maxNesting
  /-- Its place is not in front of the start. -/
  position_le : p.lexer.position ≤ r.lexer.position
  /-- Its place is not behind the end. -/
  le_position : r.lexer.position ≤ q.lexer.position

/-- The parsers that are passed one after the other. -/
structure Parser.Trail (p : Parser) (seen : List Parser) (q : Parser) : Prop where
  /-- The last one stands in its source. -/
  sound : q.lexer.Sound
  /-- It stands further on, with as many open rules. -/
  ahead : p.Ahead q
  /-- All of them are on the way. -/
  passed : ∀ r ∈ seen, p.Passed q r
  /-- No place is in front of the one before. -/
  ordered : seen.Pairwise fun r r' => r.lexer.position ≤ r'.lexer.position
  /-- The way ends at the last one. -/
  last : (p :: seen).getLast? = some q

namespace Parser

variable {p q r : Parser} {seen more : List Parser}

theorem Trail.refl (h : p.lexer.Sound) : p.Trail [] p := ⟨h, .refl p, by simp, .nil, rfl⟩

theorem Trail.single (hq : q.lexer.Sound) (h : p.Ahead q) (hd : p.depth ≤ maxNesting) :
    p.Trail [q] q where
  sound := hq
  ahead := h
  passed := List.forall_mem_singleton.mpr
    ⟨hq, h.depth_eq.ge, h.depth_eq.trans_le hd, h.position_le, Nat.le_refl _⟩
  ordered := List.pairwise_singleton _ q
  last := rfl

theorem Trail.append (h : p.Trail seen q) (h' : q.Trail more r) : p.Trail (seen ++ more) r where
  sound := h'.sound
  ahead := h.ahead.trans h'.ahead
  passed := by
    intro x hx
    rcases List.mem_append.mp hx with hx | hx
    · have hpassed := h.passed x hx
      exact { hpassed with le_position := Nat.le_trans hpassed.le_position h'.ahead.position_le }
    · have hpassed := h'.passed x hx
      exact { hpassed with
        depth_le := h.ahead.depth_eq ▸ hpassed.depth_le
        position_le := Nat.le_trans h.ahead.position_le hpassed.position_le }
  ordered := List.pairwise_append.mpr ⟨h.ordered, h'.ordered, fun x hx y hy =>
    Nat.le_trans (h.passed x hx).le_position (h'.passed y hy).position_le⟩
  last := by
    rw [← List.cons_append, List.getLast?_append, h.last, ← h'.last, List.getLast?_cons]
    cases more.getLast? <;> rfl

/-- The places of the start and of all that is passed are in order. -/
theorem Trail.pairwise (h : p.Trail seen q) :
    (p :: seen).Pairwise fun r r' => r.lexer.position ≤ r'.lexer.position :=
  List.pairwise_cons.mpr ⟨fun r hr => (h.passed r hr).position_le, h.ordered⟩

/-- The parser with one more rule open. -/
def opened (p : Parser) : Parser := { p with depth := p.depth + 1 }

/-- The parser with one rule less open. -/
def closed (p : Parser) : Parser := { p with depth := p.depth - 1 }

/-- Between the opening and the closing of a rule there is one more rule open. -/
theorem Trail.nested (h : p.opened.Trail seen q) (hp : p.lexer.Sound)
    (hd : p.depth < maxNesting) : p.Trail ([p.opened] ++ seen ++ [q.closed]) q.closed := by
  have hdepth : q.closed.depth = p.depth := by
    rw [closed, h.ahead.depth_eq, opened, Nat.add_sub_cancel]
  have hahead : p.Ahead q.closed := ⟨hdepth, h.ahead.position_le, h.ahead.rest_le⟩
  have hbetween : ∀ r ∈ seen, p.Passed q.closed r := fun r hr =>
    have hpassed := h.passed r hr
    { hpassed with depth_le := Nat.le_of_succ_le hpassed.depth_le }
  refine ⟨h.sound, hahead, ?_, ?_, by simp [List.getLast?_cons]⟩
  · simp only [List.forall_mem_append, List.forall_mem_singleton]
    exact ⟨⟨⟨hp, Nat.le_succ _, hd, Nat.le_refl _, hahead.position_le⟩, hbetween⟩,
      ⟨h.sound, hdepth.ge, hdepth.trans_le hd.le, hahead.position_le, Nat.le_refl _⟩⟩
  · refine List.pairwise_append.mpr ⟨h.pairwise, List.pairwise_singleton _ _, fun r hr x hx => ?_⟩
    obtain rfl := List.mem_singleton.mp hx
    rcases List.mem_cons.mp hr with rfl | hr
    · exact h.ahead.position_le
    · exact (h.passed r hr).le_position

end Parser

/-! ### Looking ahead -/

namespace ParserM

variable {p : Parser}

theorem lookAhead_eq (h : p.lexer.Sound) : lookAhead p = peek p := by
  rw [lookAhead, h.lookAhead_eq]
  rfl

theorem looksAt_eq (h : p.lexer.Sound) (op : Char) : looksAt op p = checkOperator op p :=
  bind_congr_left (lookAhead_eq h)

theorem looksAtAny_eq (h : p.lexer.Sound) (ops : List Char) :
    looksAtAny ops p = .ok (p.lexer.peek.any fun next => ops.any next.isOperator) p := by
  induction ops with
  | nil => cases hnext : p.lexer.peek <;> simp [looksAtAny]
  | cons op ops ih =>
    have hlook : looksAt op p = .ok (p.lexer.peek.any (·.isOperator op)) p := looksAt_eq h op
    rw [looksAtAny, bind_of_ok hlook]
    cases hnext : p.lexer.peek with
    | none => simpa [hnext] using ih
    | some next =>
      cases hop : next.isOperator op with
      | true => simp [hop]
      | false => simpa [hop, hnext] using ih

/-- An operator is taken whether it is looked for in turn or at once. -/
theorem takeOperator_eq (h : p.lexer.Sound) (ops : List Char) :
    takeOperator ops p = matchOperator ops p := by
  rw [takeOperator, bind_of_ok (looksAtAny_eq h ops), matchOperator, bind_of_ok (peek_of_eq rfl)]
  cases p.lexer.peek <;> rfl

end ParserM

namespace Watched

open ParserM

variable {α β : Type} {d : Nat} {x x' : Calls → Watched α} {f : Calls → α → Watched β}
  {y : ParserM α} {g : α → ParserM β} {w w' : Watch}

/-! ### Sequences -/

theorem bind_of_some {m : StateT Watch Option α} {k : α → StateT Watch Option β} {a : α}
    (h : m w = some (a, w')) : (m >>= k) w = k a w' := by
  show (m w).bind (fun r => k r.1 r.2) = _
  rw [h]
  rfl

theorem bind_of_ok {x : Watched α} {f : α → Watched β} {a : α} (h : x w = some (.ok a, w')) :
    (x >>= f) w = f a w' := by
  show (x w).bind (fun r => ExceptT.bindCont f r.1 r.2) = _
  rw [h]
  rfl

theorem bind_of_error {x : Watched α} {f : α → Watched β} {e : SyntaxError}
    (h : x w = some (.error e, w')) : (x >>= f) w = some (.error e, w') := by
  show (x w).bind (fun r => ExceptT.bindCont f r.1 r.2) = _
  rw [h]
  rfl

theorem Ends.bind_ok {a : α} {r : Except SyntaxError β × Watch} (h : Ends x w (.ok a, w'))
    (h' : Ends (f · a) w' r) : Ends (fun c => x c >>= f c) w r := by
  obtain ⟨n, hn⟩ := h
  obtain ⟨n', hn'⟩ := h'
  refine ⟨max n n', fun m hm => ?_⟩
  obtain ⟨hle, hle'⟩ := Nat.max_le.mp hm
  exact (bind_of_ok (hn m hle)).trans (hn' m hle')

theorem Ends.bind_error {e : SyntaxError} (h : Ends x w (.error e, w')) :
    Ends (fun c => x c >>= f c) w (.error e, w') := by
  obtain ⟨n, hn⟩ := h
  exact ⟨n, fun m hm => bind_of_error (hn m hm)⟩

/-- A rule that is called ends as it does by itself, with one call less to make. -/
theorem Ends.called {r : Except SyntaxError α × Watch} (h : Ends x w r)
    (heq : ∀ n, x' (calls (n + 1)) = x (calls n)) : Ends x' w r := by
  obtain ⟨n, hn⟩ := h
  refine ⟨n + 1, fun m hm => ?_⟩
  obtain ⟨k, rfl⟩ := Nat.exists_eq_add_of_le' hm
  rw [← Nat.add_assoc, heq]
  exact hn _ (Nat.le_add_left n k)

/-- With so many rules open, the watched rule comes to an end and to what the other one comes to, and
what it passes is on the way. -/
def Follows (d : Nat) (x : Calls → Watched α) (y : ParserM α) : Prop :=
  ∀ w : Watch, w.parser.lexer.Sound → w.parser.depth = d →
    ∃ more, Ends x w ((y.outcome w.parser).1, ⟨(y.outcome w.parser).2, w.seen ++ more⟩) ∧
      w.parser.Trail more (y.outcome w.parser).2

theorem follows_pure (a : α) : Follows d (fun _ => pure a) (pure a) := by
  intro w hw _
  refine ⟨[], ⟨0, fun _ _ => ?_⟩, .refl hw⟩
  rw [List.append_nil]
  rfl

theorem Follows.bind (hx : Follows d x y) (hf : ∀ a, Follows d (f · a) (g a)) :
    Follows d (fun c => x c >>= f c) (y >>= g) := by
  intro w hw hd
  obtain ⟨seen, hrun, htrail⟩ := hx w hw hd
  cases hy : y w.parser with
  | error e q =>
    rw [outcome, hy] at hrun htrail
    refine ⟨seen, ?_, ?_⟩
    · rw [outcome, ParserM.bind_of_error hy]
      exact hrun.bind_error
    · rw [outcome, ParserM.bind_of_error hy]
      exact htrail
  | ok a q =>
    rw [outcome, hy] at hrun htrail
    obtain ⟨more, hrun', htrail'⟩ :=
      hf a ⟨q, w.seen ++ seen⟩ htrail.sound (htrail.ahead.depth_eq.trans hd)
    refine ⟨seen ++ more, ?_, ?_⟩
    · rw [outcome, ParserM.bind_of_ok hy, ← List.append_assoc]
      exact hrun.bind_ok hrun'
    · rw [outcome, ParserM.bind_of_ok hy]
      exact htrail.append htrail'

/-- A rule that is called follows if it does by itself. -/
theorem Follows.called (h : Follows d x y) (heq : ∀ n, x' (calls (n + 1)) = x (calls n)) :
    Follows d x' y := by
  intro w hw hd
  obtain ⟨more, hrun, htrail⟩ := h w hw hd
  exact ⟨more, hrun.called heq, htrail⟩

/-! ### Steps -/

/-- The step reads one token or leaves the parser as it is. -/
def ReadsAtMostOne (y : ParserM α) : Prop :=
  ∀ p, (y.outcome p).2 = p ∨ (y.outcome p).2 = { p with lexer := p.lexer.next.2 }

theorem readsAtMostOne_peek : ReadsAtMostOne peek := fun _ => .inl rfl

theorem readsAtMostOne_refuse (cause : ParseError.Cause) (found : Option Token) :
    ReadsAtMostOne (refuse cause found : ParserM α) := fun _ => .inl rfl

theorem readsAtMostOne_checkOperator (op : Char) : ReadsAtMostOne (checkOperator op) :=
  fun _ => .inl rfl

theorem readsAtMostOne_unaryOperator (token : Token) : ReadsAtMostOne (unaryOperator token) := by
  intro p
  rw [unaryOperator]
  split <;> exact .inl rfl

theorem readsAtMostOne_binaryOperator (token : Token) :
    ReadsAtMostOne (binaryOperator token) := by
  intro p
  rw [binaryOperator]
  split <;> exact .inl rfl

theorem readsAtMostOne_advance : ReadsAtMostOne advance := by
  intro p
  right
  rcases hn : p.lexer.next with ⟨e | found, l⟩
  · rw [outcome, advance_of_error hn]
  · rw [outcome, advance_of_ok hn]

theorem readsAtMostOne_matchOperator (ops : List Char) : ReadsAtMostOne (matchOperator ops) := by
  intro p
  obtain ⟨t, l, hn, -, htake⟩ | ⟨-, hleft⟩ := matchOperator_cases ops p
  · right
    rw [outcome, htake, hn]
  · left
    rw [outcome, hleft]

theorem readsAtMostOne_expectOperator (op : Char) (cause : ParseError.Cause) :
    ReadsAtMostOne (expectOperator op cause) := by
  intro p
  right
  rw [outcome, expectOperator]
  rcases hn : p.lexer.next with ⟨e | found, l⟩
  · rw [ParserM.bind_of_error (advance_of_error hn)]
  · rw [ParserM.bind_of_ok (advance_of_ok hn)]
    cases found with
    | none => rfl
    | some token => by_cases htoken : token.isOperator op = true <;> simp only [htoken] <;> rfl

/-- A step that looks ahead by reading and going back is followed by one that only looks. -/
theorem follows_step {x : ParserM α} (hd : d ≤ maxNesting) (hy : ReadsAtMostOne y)
    (hxy : ∀ p : Parser, p.lexer.Sound → x p = y p) : Follows d (fun _ => step x) y := by
  intro w hw hdepth
  have hrun : x.outcome w.parser = y.outcome w.parser := by
    rw [outcome, outcome, hxy _ hw]
  have hstep : step x w = some ((y.outcome w.parser).1,
      ⟨(y.outcome w.parser).2, w.seen ++ [(y.outcome w.parser).2]⟩) := by
    rw [step, hrun]
  refine ⟨[(y.outcome w.parser).2], ⟨0, fun _ _ => hstep⟩, ?_⟩
  have hle : w.parser.depth ≤ maxNesting := hdepth ▸ hd
  rcases hy w.parser with hq | hq
  · rw [hq]
    exact .single hw (.refl _) hle
  · rw [hq]
    exact .single hw.next.1
      ⟨rfl, w.parser.lexer.position_next_le, w.parser.lexer.rest_length_next_le⟩ hle

section
variable (hd : d ≤ maxNesting)
include hd

theorem follows_advance : Follows d (fun _ => step advance) advance :=
  follows_step hd readsAtMostOne_advance fun _ _ => rfl

theorem follows_refuse (cause : ParseError.Cause) (found : Option Token) :
    Follows d (fun _ => step (refuse cause found : ParserM α)) (refuse cause found) :=
  follows_step hd (readsAtMostOne_refuse cause found) fun _ _ => rfl

theorem follows_unaryOperator (token : Token) :
    Follows d (fun _ => step (unaryOperator token)) (unaryOperator token) :=
  follows_step hd (readsAtMostOne_unaryOperator token) fun _ _ => rfl

theorem follows_binaryOperator (token : Token) :
    Follows d (fun _ => step (binaryOperator token)) (binaryOperator token) :=
  follows_step hd (readsAtMostOne_binaryOperator token) fun _ _ => rfl

theorem follows_expectOperator (op : Char) (cause : ParseError.Cause) :
    Follows d (fun _ => step (expectOperator op cause)) (expectOperator op cause) :=
  follows_step hd (readsAtMostOne_expectOperator op cause) fun _ _ => rfl

theorem follows_peek : Follows d (fun _ => step lookAhead) peek :=
  follows_step hd readsAtMostOne_peek fun _ => lookAhead_eq

theorem follows_checkOperator (op : Char) : Follows d (fun _ => step (looksAt op)) (checkOperator op) :=
  follows_step hd (readsAtMostOne_checkOperator op) fun _ hp => looksAt_eq hp op

theorem follows_matchOperator (ops : List Char) :
    Follows d (fun _ => step (takeOperator ops)) (matchOperator ops) :=
  follows_step hd (readsAtMostOne_matchOperator ops) fun _ hp => takeOperator_eq hp ops

end

/-! ### Repetition -/

/-- What a repetition yields comes behind what there is. -/
theorem cons_many_eq_gather (y : ParserM (Option α)) (a : α) :
    (do return a :: (← many y) : ParserM (List α)) = gather y [a] := by
  funext p
  rw [gather_eq]
  cases hm : many y p with
  | ok as q => rw [ParserM.bind_of_ok hm]; rfl
  | error e q => rw [ParserM.bind_of_error hm]

/-- A repetition that puts what a step yields behind what there is. -/
theorem follows_repetition (loop : Calls → List α → Watched (List α))
    {again : Calls → Watched (Option α)} {y : ParserM (Option α)}
    (hloop : ∀ n done, loop (calls (n + 1)) done = again (calls n) >>= fun found =>
      found.elim (pure done) fun a => loop (calls n) (done ++ [a]))
    (h : Follows d again y) (ht : Takes y) (done : List α) :
    Follows d (loop · done) (gather y done) := by
  intro w
  generalize hn : w.parser.lexer.rest.length = n
  induction n using Nat.strongRecOn generalizing w done with
  | _ n ih =>
    intro hw hdepth
    obtain ⟨seen, hrun, htrail⟩ := h w hw hdepth
    have hcalled {r : Except SyntaxError (List α) × Watch}
        (hr : Ends (fun c => again c >>= fun found =>
          found.elim (pure done) fun a => loop c (done ++ [a])) w r) : Ends (loop · done) w r :=
      hr.called fun n => hloop n done
    cases hy : y w.parser with
    | error e q =>
      rw [outcome, hy] at hrun htrail
      refine ⟨seen, ?_, ?_⟩
      · rw [outcome, gather, hy]
        exact hcalled hrun.bind_error
      · rw [outcome, gather, hy]
        exact htrail
    | ok found q =>
      rw [outcome, hy] at hrun htrail
      cases found with
      | none =>
        refine ⟨seen, ?_, ?_⟩
        · rw [outcome, gather, hy]
          exact hcalled (hrun.bind_ok ⟨0, fun _ _ => rfl⟩)
        · rw [outcome, gather, hy]
          exact htrail
      | some a =>
        -- something has been taken, so the repetition goes on
        have hlt := ht w.parser q a hy
        obtain ⟨more, hrun', htrail'⟩ := ih _ (hn ▸ hlt) (done ++ [a]) ⟨q, w.seen ++ seen⟩ rfl
          htrail.sound (htrail.ahead.depth_eq.trans hdepth)
        have hgather : (gather y done).outcome w.parser = (gather y (done ++ [a])).outcome q := by
          rw [outcome, outcome, gather, hy]
          simp only [if_pos hlt]
        refine ⟨seen ++ more, ?_, ?_⟩
        · rw [hgather, ← List.append_assoc]
          exact hcalled (hrun.bind_ok hrun')
        · rw [hgather]
          exact htrail.append htrail'

/-! ### Rules -/

/-- An argument after a comma, if there is a comma. -/
def nextArgument (name : String) (calls : Calls) : Watched (Option Expr) := do
  match ← step (takeOperator [',']) with
  | none => return none
  | some comma =>
    if ← step (looksAt ')') then step (refuse (.missingArgument name) (some comma))
    else return some (← calls.expression)

theorem moreArguments_eq (name : String) (c : Calls) (done : List Expr) :
    moreArguments c name done = nextArgument name c >>= fun found =>
      found.elim (pure done) fun e => c.moreArguments name (done ++ [e]) := by
  rw [moreArguments, nextArgument, bind_assoc]
  refine bind_congr fun comma => ?_
  cases comma with
  | none => rfl
  | some comma =>
    simp only [bind_assoc]
    refine bind_congr fun closes => ?_
    cases closes with
    | true => rfl
    | false => simp

/-- An operator of a chain with the operand after it, if there is an operator. -/
def link (strength : Strength) (calls : Calls) : Watched (Option (BinaryOperator × Expr)) := do
  match ← step (takeOperator strength.operators) with
  | none => return none
  | some token =>
    let op ← step (binaryOperator token)
    return some (op, ← calls.operand strength)

theorem links_eq (strength : Strength) (c : Calls) (done : List (BinaryOperator × Expr)) :
    links c strength done = link strength c >>= fun found =>
      found.elim (pure done) fun next => c.links strength (done ++ [next]) := by
  rw [links, link, bind_assoc]
  refine bind_congr fun token => ?_
  cases token with
  | none => rfl
  | some token => simp only [bind_assoc, pure_bind, Option.elim_some]

/-- The rules that open a level come to an end with so many rules open. -/
structure FollowsLevel (d : Nat) (below : Level) : Prop where
  /-- No more is open than may be. -/
  depth_le : d ≤ maxNesting
  /-- The rules of the level are steady. -/
  steady : below.Steady
  /-- An expression that may be assigned to. -/
  nested_target : Follows d (·.nested .assignment) below.assignment
  /-- The operand of an operator in front. -/
  nested_unary : Follows d (·.nested .operand) below.unary

namespace FollowsLevel

variable {below : Level}

theorem assignment (h : FollowsLevel d below) : Follows d (·.assignment) below.assignment :=
  h.nested_target.called fun _ => rfl

theorem expression (h : FollowsLevel d below) : Follows d (·.expression) below.assignment :=
  h.assignment.called fun _ => rfl

theorem nextArgument (h : FollowsLevel d below) (name : String) :
    Follows d (Watched.nextArgument name) (ParserM.nextArgument below name) := by
  refine (follows_matchOperator h.depth_le [',']).bind fun comma => ?_
  cases comma with
  | none => exact follows_pure none
  | some comma =>
    refine (follows_checkOperator h.depth_le ')').bind fun closes => ?_
    cases closes with
    | true => exact follows_refuse h.depth_le _ _
    | false => exact h.expression.bind fun e => follows_pure (some e)

theorem argumentList (h : FollowsLevel d below) (name : String) :
    Follows d (·.argumentList name) (ParserM.argumentList below name) := by
  refine Follows.called (x := fun c => Watched.argumentList c name) ?_ fun _ => rfl
  rw [ParserM.argumentList]
  refine h.expression.bind fun first => ?_
  rw [cons_many_eq_gather]
  exact follows_repetition (·.moreArguments name) (fun n => moreArguments_eq name (calls n))
    (h.nextArgument name) (takes_nextArgument h.steady name) [first]

theorem call (h : FollowsLevel d below) (name : String) :
    Follows d (·.call name) (ParserM.call below name) := by
  have hclose (es : List Expr) : Follows d (fun _ => do
      let _ ← step (expectOperator ')' (.unclosedCall name))
      return Expr.call name es) (do
      let _ ← expectOperator ')' (.unclosedCall name)
      return Expr.call name es) :=
    (follows_expectOperator h.depth_le ')' _).bind fun _ => follows_pure _
  refine Follows.called (x := fun c => Watched.call c name) ?_ fun _ => rfl
  rw [ParserM.call]
  refine (follows_expectOperator h.depth_le '(' _).bind fun _ => ?_
  refine (follows_checkOperator h.depth_le ')').bind fun empty => ?_
  cases empty with
  | true => exact (follows_pure []).bind hclose
  | false => exact (h.argumentList name).bind hclose

theorem primary (h : FollowsLevel d below) : Follows d (·.primary) (ParserM.primary below) := by
  refine Follows.called (x := Watched.primary) ?_ fun _ => rfl
  rw [ParserM.primary]
  refine (follows_peek h.depth_le).bind fun next => ?_
  cases next with
  | none => exact (follows_advance h.depth_le).bind fun _ => follows_refuse h.depth_le _ none
  | some next =>
    refine (follows_advance h.depth_le).bind fun token => ?_
    cases hkind : next.kind with
    | identifier =>
      refine (follows_checkOperator h.depth_le '(').bind fun opens => ?_
      cases opens with
      | true => exact h.call next.text
      | false => exact follows_pure _
    | number => exact follows_pure _
    | operator =>
      by_cases hopen : next.isOperator '(' = true
      · simp only [if_pos hopen]
        refine h.assignment.bind fun inner => ?_
        exact (follows_expectOperator h.depth_le ')' _).bind fun _ => follows_pure _
      · simp only [if_neg hopen]
        exact follows_refuse h.depth_le _ token

theorem unary (h : FollowsLevel d below) : Follows d (·.unary) (ParserM.unary below) := by
  refine Follows.called (x := Watched.unary) ?_ fun _ => rfl
  rw [ParserM.unary]
  refine (follows_matchOperator h.depth_le _).bind fun sign => ?_
  cases sign with
  | none => exact h.primary
  | some token =>
    refine (follows_unaryOperator h.depth_le token).bind fun op => ?_
    exact h.nested_unary.bind fun e => follows_pure _

theorem link {strength : Strength} {y : ParserM Expr} (hd : d ≤ maxNesting)
    (h : Follows d (·.operand strength) y) :
    Follows d (Watched.link strength) (ParserM.link strength.operators y) := by
  refine (follows_matchOperator hd _).bind fun found => ?_
  cases found with
  | none => exact follows_pure none
  | some token =>
    refine (follows_binaryOperator hd token).bind fun op => ?_
    exact h.bind fun e => follows_pure _

theorem chain {strength : Strength} {y : ParserM Expr} (hd : d ≤ maxNesting)
    (h : Follows d (·.operand strength) y) (hy : Steady y) :
    Follows d (·.chain strength) (ParserM.chain strength.operators y) := by
  refine Follows.called (x := fun c => Watched.chain c strength) ?_ fun _ => rfl
  rw [chain_eq_iterativeChain, iterativeChain]
  refine h.bind fun first => ?_
  have htakes : Takes (ParserM.link strength.operators y) := takes_link hy
  have hlinks := follows_repetition (·.links strength) (fun n => links_eq strength (calls n))
    (link hd h) htakes []
  exact hlinks.bind fun rest => follows_pure _

theorem multiplicative (h : FollowsLevel d below) :
    Follows d (·.chain .product) (ParserM.multiplicative below) := by
  have hoperand : Follows d (·.operand .product) (ParserM.unary below) :=
    h.unary.called fun _ => rfl
  exact chain h.depth_le hoperand (steady_unary h.steady)

theorem additive (h : FollowsLevel d below) :
    Follows d (·.chain .sum) (ParserM.additive below) := by
  have hoperand : Follows d (·.operand .sum) (ParserM.multiplicative below) :=
    h.multiplicative.called fun _ => rfl
  exact chain h.depth_le hoperand (steady_multiplicative h.steady)

theorem target (h : FollowsLevel d below) :
    Follows d (·.target) (ParserM.assignment below) := by
  refine Follows.called (x := Watched.target) ?_ fun _ => rfl
  rw [ParserM.assignment]
  refine h.additive.bind fun e => ?_
  by_cases hname : e.isIdentifier = true
  · simp only [if_pos hname]
    rw [assignedValue, bind_assoc]
    refine (follows_matchOperator h.depth_le _).bind fun sign => ?_
    cases sign with
    | none => exact follows_pure _
    | some _ =>
      rw [bind_assoc]
      exact h.assignment.bind fun v => follows_pure _
  · simp only [if_neg hname]
    exact follows_pure e

end FollowsLevel

/-! ### Levels -/

/-- Where as many rules are open as may be, no more is opened. -/
theorem nested_of_full {c : Calls} {opening : Opening} (h : maxNesting ≤ w.parser.depth) :
    nested c opening w =
      some (.error (.grammatical ⟨.tooDeep, none⟩), ⟨w.parser, w.seen ++ [w.parser]⟩) := by
  have hstep : step enter w =
      some (.error (.grammatical ⟨.tooDeep, none⟩), ⟨w.parser, w.seen ++ [w.parser]⟩) := by
    rw [step, outcome, enter, if_pos h]
    rfl
  rw [nested]
  exact bind_of_some hstep

/-- What is opened is closed, whatever the rule comes to. -/
theorem nested_of_rule {c : Calls} {opening : Opening} {q : Parser} {seen : List Parser}
    {result : Except SyntaxError Expr} (h : w.parser.depth < maxNesting)
    (hrule : opening.rule c ⟨w.parser.opened, w.seen ++ [w.parser.opened]⟩ =
      some (result, ⟨q, seen⟩)) :
    nested c opening w = some (result, ⟨q.closed, seen ++ [q.closed]⟩) := by
  have hstep : step enter w =
      some (.ok (), ⟨w.parser.opened, w.seen ++ [w.parser.opened]⟩) := by
    rw [step, outcome, enter, if_neg (Nat.not_le.mpr h)]
    rfl
  rw [nested]
  exact (bind_of_some hstep).trans (bind_of_some hrule)

theorem follows_nested_of_full (opening : Opening) :
    Follows maxNesting (·.nested opening) (refuse .tooDeep) := by
  refine Follows.called (x := fun c => nested c opening) ?_ fun _ => rfl
  intro w hw hdepth
  exact ⟨[w.parser], ⟨0, fun _ _ => nested_of_full hdepth.ge⟩, .single hw (.refl _) hdepth.le⟩

theorem outcome_nested {p : Parser} {y : ParserM α} (h : p.depth < maxNesting) :
    (ParserM.nested y).outcome p = ((y.outcome p.opened).1, (y.outcome p.opened).2.closed) := by
  have hopened : ({ p with depth := p.depth + 1 } : Parser) = p.opened := rfl
  rw [outcome, ParserM.nested, if_neg (Nat.not_le.mpr h), hopened, outcome]
  cases y p.opened <;> rfl

theorem follows_nested {opening : Opening} {y : ParserM Expr} (hd : d < maxNesting)
    (h : Follows (d + 1) (opening.rule ·) y) :
    Follows d (·.nested opening) (ParserM.nested y) := by
  refine Follows.called (x := fun c => nested c opening) ?_ fun _ => rfl
  intro w hw hdepth
  have hlt : w.parser.depth < maxNesting := hdepth ▸ hd
  have hopened : w.parser.opened.depth = d + 1 := congrArg (· + 1) hdepth
  obtain ⟨more, ⟨n, hrun⟩, htrail⟩ :=
    h ⟨w.parser.opened, w.seen ++ [w.parser.opened]⟩ hw hopened
  rw [outcome_nested hlt]
  refine ⟨_, ⟨n, fun m hm => ?_⟩, htrail.nested hw hlt⟩
  have hnested := nested_of_rule hlt (hrun m hm)
  simpa only [List.append_assoc] using hnested

theorem followsLevel {n : Nat} (h : n + d = maxNesting) : FollowsLevel d (level n) := by
  induction n generalizing d with
  | zero =>
    obtain rfl : d = maxNesting := by omega
    exact ⟨Nat.le_refl _, steady_level 0, follows_nested_of_full _, follows_nested_of_full _⟩
  | succ n ih =>
    have hbelow : FollowsLevel (d + 1) (level n) := ih (by omega)
    have hd : d < maxNesting := by omega
    exact ⟨hd.le, steady_level (n + 1), follows_nested hd hbelow.target,
      follows_nested hd hbelow.unary⟩

/-- All rules come to an end, and to what they come to with levels. -/
theorem FollowsLevel.rule {below : Level} (h : FollowsLevel d below) (r : Rule) :
    Follows d r.watched (r.onLevel below) := by
  cases r with
  | expression => exact h.expression
  | assignment => exact h.assignment
  | additive => exact h.additive
  | multiplicative => exact h.multiplicative
  | unary => exact h.unary
  | primary => exact h.primary
  | call name => exact h.call name
  | arguments name => exact h.argumentList name

theorem follows_program : Follows 0 program ParserM.program := by
  have h : FollowsLevel 0 (level maxNesting) := followsLevel (Nat.add_zero _)
  refine h.expression.bind fun body => (follows_advance h.depth_le).bind fun found => ?_
  cases found with
  | none => exact follows_pure _
  | some token => exact follows_refuse h.depth_le _ _

end Watched

end ExprView
