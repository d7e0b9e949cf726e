import ExprView.Parser.Recursive
import ExprView.Proofs.Grammar.Follow
import ExprView.Proofs.Parser.Steady

/-!
# What the rules do with the next token

One fact for each way in which a rule can go on at the token that comes next. A chain, and the
arguments of a call, are read like the grammar words them: what comes after the first operator is
read like a chain of its own.

## Main statements

* `many_eq`: a repetition is its first step and, if that yields something, the repetition after it.
* `chain_eq`, `argumentList_eq`: chains and arguments are read as the grammar words them.
-/

namespace ExprView

/-- What is reported at the next token if it is not what is due: a text that cannot be scanned is
reported as that. -/
def SyntaxError.atNext (cause : Option Token → ParseError.Cause) :
    Except LexError (Option Token) → SyntaxError
  | .error e => .lexical e
  | .ok found => .grammatical ⟨cause found, found⟩

namespace ParserM

variable {α β : Type} {p q : Parser} {err : SyntaxError} {l l' : Lexer} {d : Nat} {t : Token}

/-! ### Failures -/

/-- The step fails, and this is reported. -/
def Fails (step : ParserM α) (p : Parser) (err : SyntaxError) : Prop :=
  ∃ q, step p = .error err q

theorem Fails.bind {x : ParserM α} {f : α → ParserM β} (h : Fails x p err) :
    Fails (x >>= f) p err := by
  obtain ⟨q, h⟩ := h
  exact ⟨q, bind_of_error h⟩

/-- A step fails after one that does not. -/
theorem Fails.after {x : ParserM α} {f : α → ParserM β} {a : α} (h : Fails (f a) q err)
    (hx : x p = .ok a q) : Fails (x >>= f) p err := by
  obtain ⟨r, h⟩ := h
  exact ⟨r, (bind_of_ok hx).trans h⟩

theorem fails_refuse (cause : ParseError.Cause) (found : Option Token) (p : Parser) :
    Fails (refuse cause found : ParserM α) p (.grammatical ⟨cause, found⟩) := ⟨p, rfl⟩

theorem Fails.of_eq {step step' : ParserM α} (h : Fails step' q err) (heq : step p = step' q) :
    Fails step p err := by
  obtain ⟨r, h⟩ := h
  exact ⟨r, heq.trans h⟩

/-! ### Tokens -/

theorem advance_of_ok {found : Option Token} (h : l.next = (.ok found, l')) :
    advance ⟨l, d⟩ = .ok found ⟨l', d⟩ := by
  rw [advance, h]

theorem advance_of_error {e : LexError} (h : l.next = (.error e, l')) :
    advance ⟨l, d⟩ = .error (.lexical e) ⟨l', d⟩ := by
  rw [advance, h]

theorem peek_of_eq {next : Option Lexeme} (h : l.peek = next) : peek ⟨l, d⟩ = .ok next ⟨l, d⟩ := by
  rw [← h]
  rfl

theorem checkOperator_of_noneOf {op : Char} (h : NoneOf [op] l.peek) :
    checkOperator op ⟨l, d⟩ = .ok false ⟨l, d⟩ := by
  have hpeek : l.peek.any (·.isOperator op) = false := by
    cases hx : l.peek with
    | none => rfl
    | some x => simpa using h x hx
  show EStateM.Result.ok (l.peek.any (·.isOperator op)) _ = _
  rw [hpeek]

theorem checkOperator_of_token {op : Char} (h : l.next = (.ok (some t), l'))
    (ht : t.toLexeme.isOperator op = true) : checkOperator op ⟨l, d⟩ = .ok true ⟨l, d⟩ := by
  show EStateM.Result.ok (l.peek.any (·.isOperator op)) _ = _
  rw [Lexer.peek_of_token h, Option.any_some, ht]

theorem matchOperator_of_noneOf {ops : List Char} (h : NoneOf ops l.peek) :
    matchOperator ops ⟨l, d⟩ = .ok none ⟨l, d⟩ := by
  rw [matchOperator, bind_of_ok (peek_of_eq rfl)]
  cases hx : l.peek with
  | none => rfl
  | some x => simp [h x hx]

theorem matchOperator_of_token {ops : List Char} (h : l.next = (.ok (some t), l'))
    (ht : ops.any t.toLexeme.isOperator = true) :
    matchOperator ops ⟨l, d⟩ = .ok (some t) ⟨l', d⟩ := by
  rw [matchOperator, bind_of_ok (peek_of_eq (Lexer.peek_of_token h))]
  simp only [ht, if_pos]
  exact advance_of_ok h

/-- Either the next token is one of the operators and is taken, or nothing is. -/
theorem matchOperator_cases (ops : List Char) (p : Parser) :
    (∃ t l, p.lexer.next = (.ok (some t), l) ∧ ops.any t.toLexeme.isOperator = true ∧
      matchOperator ops p = .ok (some t) { p with lexer := l }) ∨
    NoneOf ops p.lexer.peek ∧ matchOperator ops p = .ok none p := by
  by_cases hnone : NoneOf ops p.lexer.peek
  · exact .inr ⟨hnone, matchOperator_of_noneOf hnone⟩
  · obtain ⟨x, hpeek, hx⟩ : ∃ x, p.lexer.peek = some x ∧ ops.any x.isOperator = true := by
      simpa only [NoneOf, not_forall, exists_prop, Bool.not_eq_false] using hnone
    obtain ⟨t, l, hn, rfl⟩ := Lexer.exists_token_of_peek hpeek
    exact .inl ⟨t, l, hn, hx, matchOperator_of_token hn hx⟩

theorem expectOperator_of_token {op : Char} {cause : ParseError.Cause}
    (h : l.next = (.ok (some t), l')) (ht : t.toLexeme.isOperator op = true) :
    expectOperator op cause ⟨l, d⟩ = .ok t ⟨l', d⟩ := by
  rw [expectOperator, bind_of_ok (advance_of_ok h)]
  simp [Token.isOperator, ht]

theorem fails_expectOperator {op : Char} {cause : ParseError.Cause} (h : NoneOf [op] l.peek) :
    Fails (expectOperator op cause) ⟨l, d⟩ (.atNext (fun _ => cause) l.next.1) := by
  rcases hn : l.next with ⟨found | found, l'⟩
  · exact .bind ⟨_, advance_of_error hn⟩
  · refine Fails.after ?_ (advance_of_ok hn)
    cases found with
    | none => exact fails_refuse cause none _
    | some t =>
      have ht : t.isOperator op = false := by
        simpa [Token.isOperator] using h _ (Lexer.peek_of_token hn)
      simp only [ht]
      exact fails_refuse cause (some t) _

/-! ### Repetition -/

theorem exists_of_bind_ok {x : ParserM α} {f : α → ParserM β} {b : β} {r : Parser}
    (h : (x >>= f) p = .ok b r) : ∃ a q, x p = .ok a q ∧ f a q = .ok b r := by
  cases hx : x p with
  | ok a q => exact ⟨a, q, rfl, (bind_of_ok hx).symm.trans h⟩
  | error e q =>
    rw [bind_of_error hx] at h
    cases h

/-- Whenever the step yields something there is less left to read. -/
def Takes (step : ParserM (Option α)) : Prop :=
  ∀ (p q : Parser) (a : α), step p = .ok (some a) q →
    q.lexer.rest.length < p.lexer.rest.length

theorem takes_matchOperator (ops : List Char) : Takes (matchOperator ops) := by
  intro p q t h
  obtain ⟨u, l, hn, -, htake⟩ | ⟨-, hnone⟩ := matchOperator_cases ops p
  · obtain ⟨-, rfl⟩ := EStateM.Result.ok.inj (htake.symm.trans h)
    exact Lexer.next_rest_lt hn
  · simp [hnone] at h

/-- A step that takes something and goes on from there takes something. -/
theorem Takes.bind {x : ParserM (Option α)} {f : Option α → ParserM (Option β)} (hx : Takes x)
    (hnone : f none = pure none) (hsome : ∀ a, Steady (f (some a))) : Takes (x >>= f) := by
  intro p r b h
  obtain ⟨found, q, hq, hr⟩ := exists_of_bind_ok h
  cases found with
  | none =>
    rw [hnone] at hr
    cases hr
  | some a => exact Nat.lt_of_le_of_lt ((hsome a).of_ok hr).rest_le (hx p q a hq)

/-- A repetition is its first step and, if that yields something, the repetition after it. -/
theorem many_eq {step : ParserM (Option α)} (h : Takes step) : many step = (do
    match ← step with
    | none => return []
    | some a => return a :: (← many step)) := by
  funext p
  cases hp : step p with
  | error e q => rw [many_of_error hp, bind_of_error hp]
  | ok found q =>
    rw [bind_of_ok hp]
    cases found with
    | none => exact many_of_none hp
    | some a =>
      show _ = (many step >>= fun as => pure (a :: as)) q
      rw [many_of_some hp (h p q a hp)]
      cases hm : many step q with
      | ok as r => rw [bind_of_ok hm, pure_apply]
      | error e r => rw [bind_of_error hm]

/-! ### Levels -/

theorem nested_of_ok {rule : ParserM α} {a : α} (hd : d < maxNesting)
    (h : rule ⟨l, d + 1⟩ = .ok a ⟨l', d + 1⟩) : nested rule ⟨l, d⟩ = .ok a ⟨l', d⟩ := by
  rw [nested, if_neg (Nat.not_le.mpr hd), h]
  rfl

theorem Fails.nested {rule : ParserM α} (hd : d < maxNesting) (h : Fails rule ⟨l, d + 1⟩ err) :
    Fails (nested rule) ⟨l, d⟩ err := by
  obtain ⟨q, h⟩ := h
  refine ⟨{ q with depth := q.depth - 1 }, ?_⟩
  rw [ParserM.nested, if_neg (Nat.not_le.mpr hd), h]

/-! ### Operands -/

variable {below : Level}

/-- The next token is looked at and taken. -/
theorem primary_of_token (h : l.next = (.ok (some t), l')) :
    primary below ⟨l, d⟩ = (match t.kind with
      | .identifier => do
        if ← checkOperator '(' then call below t.text else return .identifier t.text
      | .number => return .number t.text
      | .operator => do
        if t.toLexeme.isOperator '(' then
          let inner ← below.assignment
          let _ ← expectOperator ')' .unclosed
          return .grouping inner
        else refuse (.notAnOperand t.text) (some t) : ParserM Expr) ⟨l', d⟩ := by
  rw [primary, bind_of_ok (peek_of_eq (Lexer.peek_of_token h))]
  exact bind_of_ok (advance_of_ok h)

theorem primary_of_number {n : String} (h : l.next = (.ok (some t), l'))
    (ht : t.toLexeme = .number n) : primary below ⟨l, d⟩ = .ok (.number n) ⟨l', d⟩ := by
  rw [primary_of_token h, ht]
  rfl

theorem primary_of_name {x : String} (h : l.next = (.ok (some t), l'))
    (ht : t.toLexeme = .identifier x) (hstop : NoneOf ['('] l'.peek) :
    primary below ⟨l, d⟩ = .ok (.identifier x) ⟨l', d⟩ := by
  rw [primary_of_token h, ht]
  exact bind_of_ok (checkOperator_of_noneOf hstop)

/-- After a name and an opening parenthesis. -/
theorem primary_of_call {f : String} {u : Token} {l₁ : Lexer} (h : l.next = (.ok (some t), l₁))
    (ht : t.toLexeme = .identifier f) (hu : l₁.next = (.ok (some u), l'))
    (hopen : u.toLexeme = .operator '(') :
    primary below ⟨l, d⟩ = (do
      let arguments ← if ← checkOperator ')' then pure [] else argumentList below f
      let _ ← expectOperator ')' (.unclosedCall f)
      return .call f arguments : ParserM Expr) ⟨l', d⟩ := by
  have hparen : u.toLexeme.isOperator '(' = true := hopen ▸ isOperator_self rfl
  rw [primary_of_token h, ht]
  show (checkOperator '(' >>= _) _ = _
  rw [bind_of_ok (checkOperator_of_token hu hparen)]
  show (expectOperator '(' _ >>= _) _ = _
  rw [bind_of_ok (expectOperator_of_token hu hparen)]
  rfl

/-- After an opening parenthesis. -/
theorem primary_of_open (h : l.next = (.ok (some t), l')) (ht : t.toLexeme = .operator '(') :
    primary below ⟨l, d⟩ = (do
      let inner ← below.assignment
      let _ ← expectOperator ')' .unclosed
      return .grouping inner : ParserM Expr) ⟨l', d⟩ := by
  have hparen : (Lexeme.operator '(').isOperator '(' = true := isOperator_self rfl
  rw [primary_of_token h, ht]
  show (if (Lexeme.operator '(').isOperator '(' then _ else _ : ParserM Expr) _ = _
  rw [if_pos hparen]

section
variable {l₁ l₂ l₃ : Lexer} {u v : Token} {f : String}

/-- An expression in parentheses. -/
theorem primary_of_grouping {inner : Expr} (h : l.next = (.ok (some t), l₁))
    (ht : t.toLexeme = .operator '(') (hinner : below.assignment ⟨l₁, d⟩ = .ok inner ⟨l₂, d⟩)
    (hu : l₂.next = (.ok (some u), l')) (hclose : u.toLexeme = .operator ')') :
    primary below ⟨l, d⟩ = .ok (.grouping inner) ⟨l', d⟩ := by
  have hparen : u.toLexeme.isOperator ')' = true := hclose ▸ isOperator_self rfl
  refine (primary_of_open h ht).trans ((bind_of_ok hinner).trans ?_)
  exact bind_of_ok (expectOperator_of_token hu hparen)

/-- A call without arguments. -/
theorem primary_of_callEmpty (h : l.next = (.ok (some t), l₁)) (ht : t.toLexeme = .identifier f)
    (hu : l₁.next = (.ok (some u), l₂)) (hopen : u.toLexeme = .operator '(')
    (hv : l₂.next = (.ok (some v), l')) (hclose : v.toLexeme = .operator ')') :
    primary below ⟨l, d⟩ = .ok (.call f []) ⟨l', d⟩ := by
  have hparen : v.toLexeme.isOperator ')' = true := hclose ▸ isOperator_self rfl
  refine (primary_of_call h ht hu hopen).trans ?_
  refine (bind_of_ok (checkOperator_of_token hv hparen)).trans ?_
  exact bind_of_ok (expectOperator_of_token hv hparen)

/-- A call with arguments. -/
theorem primary_of_arguments {es : List Expr} (h : l.next = (.ok (some t), l₁))
    (ht : t.toLexeme = .identifier f) (hu : l₁.next = (.ok (some u), l₂))
    (hopen : u.toLexeme = .operator '(') (hempty : NoneOf [')'] l₂.peek)
    (harguments : argumentList below f ⟨l₂, d⟩ = .ok es ⟨l₃, d⟩)
    (hv : l₃.next = (.ok (some v), l')) (hclose : v.toLexeme = .operator ')') :
    primary below ⟨l, d⟩ = .ok (.call f es) ⟨l', d⟩ := by
  have hparen : v.toLexeme.isOperator ')' = true := hclose ▸ isOperator_self rfl
  refine (primary_of_call h ht hu hopen).trans ?_
  refine (bind_of_ok (checkOperator_of_noneOf hempty)).trans ?_
  refine (bind_of_ok harguments).trans ?_
  exact bind_of_ok (expectOperator_of_token hv hparen)

/-- Parentheses that are not closed. -/
theorem fails_primary_of_unclosed {inner : Expr} (h : l.next = (.ok (some t), l₁))
    (ht : t.toLexeme = .operator '(') (hinner : below.assignment ⟨l₁, d⟩ = .ok inner ⟨l₂, d⟩)
    (hclose : NoneOf [')'] l₂.peek) :
    Fails (primary below) ⟨l, d⟩ (.atNext (fun _ => .unclosed) l₂.next.1) := by
  have hf : Fails (expectOperator ')' .unclosed) ⟨l₂, d⟩
      (.atNext (fun _ => .unclosed) l₂.next.1) := fails_expectOperator hclose
  refine .of_eq (.after ?_ hinner) (primary_of_open h ht)
  exact hf.bind

/-- A call that is not closed. -/
theorem fails_primary_of_unclosedCall {es : List Expr} (h : l.next = (.ok (some t), l₁))
    (ht : t.toLexeme = .identifier f) (hu : l₁.next = (.ok (some u), l₂))
    (hopen : u.toLexeme = .operator '(') (hempty : NoneOf [')'] l₂.peek)
    (harguments : argumentList below f ⟨l₂, d⟩ = .ok es ⟨l₃, d⟩) (hclose : NoneOf [')'] l₃.peek) :
    Fails (primary below) ⟨l, d⟩ (.atNext (fun _ => .unclosedCall f) l₃.next.1) := by
  have hf : Fails (expectOperator ')' (.unclosedCall f)) ⟨l₃, d⟩
      (.atNext (fun _ => .unclosedCall f) l₃.next.1) := fails_expectOperator hclose
  refine .of_eq ?_ (primary_of_call h ht hu hopen)
  refine .after (.after ?_ harguments) (checkOperator_of_noneOf hempty)
  exact hf.bind

end

/-- The cause that is named where an operand is due. -/
def operandCause : Option Token → ParseError.Cause
  | none => .unexpectedEnd
  | some t => .notAnOperand t.text

theorem fails_primary (h : StartsNone l.peek) :
    Fails (primary below) ⟨l, d⟩ (.atNext operandCause l.next.1) := by
  rcases hn : l.next with ⟨e | found, l'⟩
  · refine ⟨⟨l', d⟩, ?_⟩
    rw [primary, bind_of_ok (peek_of_eq (Lexer.peek_of_error (congrArg Prod.fst hn)))]
    exact bind_of_error (advance_of_error hn)
  · cases found with
    | none =>
      refine ⟨⟨l', d⟩, ?_⟩
      rw [primary, bind_of_ok (peek_of_eq (Lexer.peek_of_end (congrArg Prod.fst hn)))]
      exact bind_of_ok (advance_of_ok hn)
    | some t =>
      obtain ⟨hkind, hopen⟩ := h _ (Lexer.peek_of_token hn)
      refine ⟨⟨l', d⟩, ?_⟩
      rw [primary_of_token hn, hkind]
      simp only [hopen]
      rfl

/-! ### Signs -/

theorem unaryOperator_of_lexeme {op : UnaryOperator} (ht : t.toLexeme = .operator op.symbol) :
    unaryOperator t p = .ok op p := by
  rw [unaryOperator, ht]
  cases op <;> rfl

theorem binaryOperator_of_lexeme {op : BinaryOperator} (ht : t.toLexeme = .operator op.symbol) :
    binaryOperator t p = .ok op p := by
  rw [binaryOperator, ht]
  cases op <;> rfl

/-- After a sign. -/
theorem unary_of_sign {op : UnaryOperator} (h : l.next = (.ok (some t), l'))
    (ht : t.toLexeme = .operator op.symbol) :
    unary below ⟨l, d⟩ = (do return .unary op (← below.unary) : ParserM Expr) ⟨l', d⟩ := by
  have hsign : ['+', '-'].any t.toLexeme.isOperator = true :=
    ht ▸ any_isOperator op.utf8Size_symbol (by cases op <;> simp [UnaryOperator.symbol])
  rw [unary, bind_of_ok (matchOperator_of_token h hsign)]
  simp only
  rw [bind_of_ok (unaryOperator_of_lexeme ht)]

theorem unary_of_noneOf (h : NoneOf ['+', '-'] l.peek) :
    unary below ⟨l, d⟩ = primary below ⟨l, d⟩ := by
  rw [unary, bind_of_ok (matchOperator_of_noneOf h)]

/-! ### Chains -/

section chain
variable {ops : List Char} {operand : ParserM Expr} {first : Expr}

theorem takes_link (h : Steady operand) : Takes (link ops operand) :=
  (takes_matchOperator ops).bind rfl fun token =>
    (steady_binaryOperator token).bind fun _ => h.bind fun _ => steady_pure _

/-- A chain is an operand and, if an operator follows, the operator and again a chain. -/
theorem chain_eq (h : Steady operand) :
    chain ops operand = rightGrouped ops operand (chain ops operand) := by
  have hchain : chain ops operand = operand >>= fun first =>
    many (link ops operand) >>= fun rest => pure (first.rightChain rest) := rfl
  have hmore := many_eq (takes_link h : Takes (link ops operand))
  generalize many (link ops operand) = more at hchain hmore
  rw [hchain]
  refine bind_congr fun first => ?_
  -- on the left the repetition does its first step
  conv => lhs; rw [hmore]
  simp only [link, bind_assoc]
  refine bind_congr fun token => ?_
  cases token with
  | none =>
    simp only [pure_bind]
    rfl
  | some token =>
    simp only [bind_assoc, pure_bind]
    rfl

theorem chain_of_noneOf (hfirst : operand p = .ok first ⟨l, d⟩) (h : NoneOf ops l.peek) :
    chain ops operand p = .ok first ⟨l, d⟩ := by
  have hlink : link ops operand ⟨l, d⟩ = .ok none ⟨l, d⟩ := by
    rw [link, bind_of_ok (matchOperator_of_noneOf h)]
    rfl
  rw [chain, bind_of_ok hfirst, bind_of_ok (many_of_none hlink)]
  rfl

/-- A chain that goes on is its first operand and the chain after the operator. -/
theorem chain_of_operator {op : BinaryOperator} (hsteady : Steady operand)
    (hfirst : operand p = .ok first ⟨l, d⟩) (h : l.next = (.ok (some t), l'))
    (ht : t.toLexeme = .operator op.symbol) (hop : op.symbol ∈ ops) :
    chain ops operand p =
      (do return .binary op first (← chain ops operand) : ParserM Expr) ⟨l', d⟩ := by
  have hany : ops.any t.toLexeme.isOperator = true :=
    ht ▸ any_isOperator op.utf8Size_symbol hop
  refine (congrFun (chain_eq hsteady) p).trans ?_
  rw [rightGrouped, bind_of_ok hfirst, bind_of_ok (matchOperator_of_token h hany)]
  exact bind_of_ok (binaryOperator_of_lexeme ht)

end chain

section
variable {first : Expr} {op : BinaryOperator}

/-- After a term and the sign of a sum. -/
theorem additive_of_operator (hsteady : below.Steady) (hop : op.isSum = true)
    (hfirst : multiplicative below p = .ok first ⟨l, d⟩) (h : l.next = (.ok (some t), l'))
    (ht : t.toLexeme = .operator op.symbol) :
    additive below p = (do return .binary op first (← additive below) : ParserM Expr) ⟨l', d⟩ := by
  have hmem : op.symbol ∈ ['+', '-'] := by
    cases op <;> simp [BinaryOperator.symbol, BinaryOperator.isSum] at hop ⊢
  exact chain_of_operator (steady_multiplicative hsteady) hfirst h ht hmem

/-- After a factor and the sign of a product. -/
theorem multiplicative_of_operator (hsteady : below.Steady) (hop : op.isSum = false)
    (hfirst : unary below p = .ok first ⟨l, d⟩) (h : l.next = (.ok (some t), l'))
    (ht : t.toLexeme = .operator op.symbol) :
    multiplicative below p =
      (do return .binary op first (← multiplicative below) : ParserM Expr) ⟨l', d⟩ := by
  have hmem : op.symbol ∈ ['*', '/'] := by
    cases op <;> simp [BinaryOperator.symbol, BinaryOperator.isSum] at hop ⊢
  exact chain_of_operator (steady_unary hsteady) hfirst h ht hmem

end

/-! ### Arguments -/

section arguments
variable {f : String} {e : Expr}

theorem takes_nextArgument (h : below.Steady) (f : String) : Takes (nextArgument below f) := by
  refine (takes_matchOperator [',']).bind rfl fun comma => ?_
  refine (steady_checkOperator ')').bind fun closes => ?_
  split
  · exact steady_refuse _ _
  · exact h.assignment.bind fun _ => steady_pure _

/-- Arguments are an expression and, if a comma follows, the comma and again arguments. -/
theorem argumentList_eq (h : below.Steady) (f : String) : argumentList below f = (do
    let first ← below.assignment
    match ← matchOperator [','] with
    | none => return [first]
    | some comma =>
      if ← checkOperator ')' then refuse (.missingArgument f) (some comma)
      else return first :: (← argumentList below f)) := by
  have hlist : argumentList below f = below.assignment >>= fun first =>
    many (nextArgument below f) >>= fun rest => pure (first :: rest) := rfl
  have hmore := many_eq (takes_nextArgument h f)
  generalize many (nextArgument below f) = more at hlist hmore
  rw [hlist]
  refine bind_congr fun first => ?_
  -- on the left the repetition does its first step
  conv => lhs; rw [hmore]
  simp only [nextArgument, bind_assoc]
  refine bind_congr fun comma => ?_
  cases comma with
  | none => simp only [pure_bind]
  | some comma =>
    simp only [bind_assoc]
    refine bind_congr fun closes => ?_
    cases closes with
    | true => rfl
    | false => simp

theorem argumentList_of_noneOf (hfirst : below.assignment p = .ok e ⟨l, d⟩)
    (h : NoneOf [','] l.peek) : argumentList below f p = .ok [e] ⟨l, d⟩ := by
  have hnext : nextArgument below f ⟨l, d⟩ = .ok none ⟨l, d⟩ := by
    rw [nextArgument, bind_of_ok (matchOperator_of_noneOf h)]
    rfl
  rw [argumentList, bind_of_ok hfirst, bind_of_ok (many_of_none hnext)]
  rfl

/-- Arguments that go on are the first one and those after the comma. -/
theorem argumentList_of_comma (hsteady : below.Steady)
    (hfirst : below.assignment p = .ok e ⟨l, d⟩) (h : l.next = (.ok (some t), l'))
    (ht : t.toLexeme = .operator ',') (hclose : NoneOf [')'] l'.peek) :
    argumentList below f p =
      (do return e :: (← argumentList below f) : ParserM (List Expr)) ⟨l', d⟩ := by
  have hcomma : [','].any t.toLexeme.isOperator = true :=
    ht ▸ any_isOperator rfl (by simp)
  refine (congrFun (argumentList_eq hsteady f) p).trans ?_
  rw [bind_of_ok hfirst, bind_of_ok (matchOperator_of_token h hcomma)]
  exact bind_of_ok (checkOperator_of_noneOf hclose)

/-- A closing parenthesis after a comma is refused at the comma. -/
theorem fails_argumentList_of_close {u : Token} {l₁ : Lexer}
    (hfirst : below.assignment p = .ok e ⟨l₁, d⟩) (h : l₁.next = (.ok (some t), l))
    (ht : t.toLexeme = .operator ',') (hu : l.next = (.ok (some u), l'))
    (hclose : u.toLexeme = .operator ')') :
    Fails (argumentList below f) p (.grammatical ⟨.missingArgument f, some t⟩) := by
  have hcomma : [','].any t.toLexeme.isOperator = true :=
    ht ▸ any_isOperator rfl (by simp)
  have hparen : u.toLexeme.isOperator ')' = true := hclose ▸ isOperator_self rfl
  have hnext : nextArgument below f ⟨l₁, d⟩ =
      .error (.grammatical ⟨.missingArgument f, some t⟩) ⟨l, d⟩ := by
    rw [nextArgument, bind_of_ok (matchOperator_of_token h hcomma)]
    simp only
    rw [bind_of_ok (checkOperator_of_token hu hparen)]
    rfl
  exact Fails.after (.bind ⟨_, many_of_error hnext⟩) hfirst

end arguments

/-! ### Assignments -/

theorem assignment_of_sum {e : Expr} (h : additive below p = .ok e q)
    (hname : e.isIdentifier = false) : assignment below p = .ok e q := by
  rw [assignment, bind_of_ok h]
  simp [hname]

theorem assignment_of_name {x : String} (h : additive below p = .ok (.identifier x) ⟨l, d⟩)
    (hno : NoneOf ['='] l.peek) :
    assignment below p = .ok (.assignment (.identifier x) none) ⟨l, d⟩ := by
  have hvalue : assignedValue below ⟨l, d⟩ = .ok none ⟨l, d⟩ := by
    rw [assignedValue, bind_of_ok (matchOperator_of_noneOf hno)]
    rfl
  rw [assignment, bind_of_ok h]
  exact bind_of_ok hvalue

/-- After a name and the sign of an assignment. -/
theorem assignment_of_value {x : String} (h : additive below p = .ok (.identifier x) ⟨l, d⟩)
    (hn : l.next = (.ok (some t), l')) (ht : t.toLexeme = .operator '=') :
    assignment below p =
      (do return .assignment (.identifier x) (some (← below.assignment)) : ParserM Expr)
        ⟨l', d⟩ := by
  have hsign : ['='].any t.toLexeme.isOperator = true :=
    ht ▸ any_isOperator rfl (by simp)
  rw [assignment, bind_of_ok h]
  show (assignedValue below >>= _) _ = _
  cases hv : below.assignment ⟨l', d⟩ with
  | ok v q =>
    have hvalue : assignedValue below ⟨l, d⟩ = .ok (some v) q := by
      rw [assignedValue, bind_of_ok (matchOperator_of_token hn hsign)]
      exact bind_of_ok hv
    rw [bind_of_ok hvalue, bind_of_ok hv]
  | error e q =>
    have hvalue : assignedValue below ⟨l, d⟩ = .error e q := by
      rw [assignedValue, bind_of_ok (matchOperator_of_token hn hsign)]
      exact bind_of_error hv
    rw [bind_of_error hvalue, bind_of_error hv]

end ParserM

end ExprView
