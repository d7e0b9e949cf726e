import ExprView.Proofs.Parser.Agreement

/-!
# What is reported

Where the grammar refuses what comes next, the rules of the parser fail and report what is missing
there: at the next token, at the comma before a missing argument, or without a place if no level
is left.

## Main statements

* `Refuses.fails`, `RefusesArguments.fails`: what is refused is reported.
-/

namespace ExprView

open ParserM Lexer

/-! ### Reports -/

/-- The cause that is named where something is missing. -/
def Need.causeAt : Need → Option Token → ParseError.Cause
  | .level, _ => .tooDeep
  | .operand, found => ParserM.operandCause found
  | .close, _ => .unclosed
  | .closeCall f, _ => .unclosedCall f
  | .argument f, _ => .missingArgument f

/-- Whether what is missing is looked for in the next token. -/
def Need.isAwaited : Need → Bool
  | .operand | .close | .closeCall _ => true
  | .level | .argument _ => false

/-- What is reported where something is missing, after the tokens and in front of what comes
next. A missing level is reported without a place, a missing argument at the comma. -/
inductive Need.Reports (next : Except LexError (Option Token)) :
    Need → List Token → SyntaxError → Prop where
  /-- No token is at fault. -/
  | level (ts : List Token) : Reports next .level ts (.grammatical ⟨.tooDeep, none⟩)
  /-- The last token is at fault. -/
  | argument (f : String) (ts : List Token) (comma : Token) :
      Reports next (.argument f) (ts ++ [comma])
        (.grammatical ⟨.missingArgument f, some comma⟩)
  /-- The next token is at fault. -/
  | awaited {w : Need} (ts : List Token) :
      w.isAwaited = true → Reports next w ts (.atNext w.causeAt next)

theorem Need.Reports.append {next : Except LexError (Option Token)} {w : Need} {ts : List Token}
    {err : SyntaxError} (h : w.Reports next ts err) (us : List Token) :
    w.Reports next (us ++ ts) err := by
  cases h with
  | level => exact .level _
  | argument f ts comma =>
    rw [← List.append_assoc]
    exact .argument f _ comma
  | awaited _ hw => exact .awaited _ hw

theorem Need.Reports.cons {next : Except LexError (Option Token)} {w : Need} {ts : List Token}
    {err : SyntaxError} (h : w.Reports next ts err) (t : Token) : w.Reports next (t :: ts) err :=
  h.append [t]

/-! ### Failures -/

/-- What is refused as a primary expression is not taken for an operand with a sign. -/
theorem Refuses.head?_noneOf_sign {next : Option Lexeme} {n : Nat} {us : List Lexeme} {w : Need}
    (h : Refuses next .primary n us w) (hsign : us = [] → NoneOf ['+', '-'] next) :
    NoneOf ['+', '-'] (us.head?.or next) := by
  cases h with
  | nothing _ => exact hsign rfl
  | grouping _ | unclosed _ _ _ _ | call _ _ | unclosedCall _ _ _ _ => simp

mutual

/-- What is refused within an argument does not start with a closing parenthesis. -/
theorem Refuses.head?_noneOf_close {next : Option Lexeme} {c : Category} {n : Nat}
    {us : List Lexeme} {w : Need} (hempty : us = [] → NoneOf [')'] next) :
    Refuses next c n us w → NoneOf [')'] (us.head?.or next)
  | .sum h | .term h | .factor h | .operand h _ => h.head?_noneOf_close hempty
  | .add _ hl _ _ | .mul _ hl _ _ => by
    rw [List.head?_append, Option.or_assoc]
    exact hl.head?_noneOf_close _
  | .level | .nothing _ => hempty rfl
  | .signedLevel op => by cases op <;> simp [UnaryOperator.symbol]
  | @Refuses.signed _ _ op _ _ _ => by cases op <;> simp [UnaryOperator.symbol]
  | .assign _ | .grouping _ | .unclosed _ _ _ _ | .call _ _ | .unclosedCall _ _ _ _ => by simp

theorem RefusesArguments.head?_noneOf_close {next : Option Lexeme} {f : String} {n : Nat}
    {us : List Lexeme} {w : Need} (hempty : us = [] → NoneOf [')'] next) :
    RefusesArguments next f n us w → NoneOf [')'] (us.head?.or next)
  | .first h => h.head?_noneOf_close hempty
  | .further he _ _ _ | .missing he _ _ => by
    rw [List.head?_append, Option.or_assoc]
    exact he.head?_noneOf_close _

end

mutual

/-- What is refused is reported. -/
theorem Refuses.fails {next : Option Lexeme} {c : Category} {us : List Lexeme} {w : Need}
    {n d : Nat} {l l' : Lexer} {ts : List Token} (hd : n + d = maxNesting)
    (hr : l.Reads ts l') (hls : lexemes ts = us) (hnext : l'.peek = next) :
    Refuses next c n us w → ∃ err, w.Reports l'.next.1 ts err ∧ Fails (rule c n) ⟨l, d⟩ err
  | .level => ⟨_, .level ts, fails_refuse .tooDeep none ⟨l, d⟩⟩
  | @Refuses.sum _ n _ _ h => by
    have hd' : n + (d + 1) = maxNesting := by omega
    obtain ⟨err, hrep, hf⟩ := h.fails hd' hr hls hnext
    have hassignment : Fails (assignment (level n)) ⟨l, d + 1⟩ err := .bind hf
    exact ⟨err, hrep, .nested (by omega) hassignment⟩
  | @Refuses.assign _ n x us _ h => by
    have hd' : n + (d + 1) = maxNesting := by omega
    obtain ⟨t, ts', l₁, rfl, hn, ht, hr₁, hls₁⟩ := hr.uncons hls
    obtain ⟨u, ts', l₂, rfl, hu, hop, hr₂, hls₂⟩ := hr₁.uncons hls₁
    obtain ⟨err, hrep, hf⟩ := h.fails hd' hr₂ hls₂ hnext
    have hname : additive (level n) ⟨l, d + 1⟩ = .ok (.identifier x) ⟨l₁, d + 1⟩ :=
      additive_of_target hn ht hu hop
    have hassignment : Fails (assignment (level n)) ⟨l, d + 1⟩ err :=
      .of_eq (.bind hf) (assignment_of_value hname hu hop)
    exact ⟨err, (hrep.cons u).cons t, .nested (by omega) hassignment⟩
  | .term h => by
    obtain ⟨err, hrep, hf⟩ := h.fails hd hr hls hnext
    exact ⟨err, hrep, .bind hf⟩
  | @Refuses.add _ m n op us vs first _ hop hl hm h => by
    obtain ⟨ts₁, ts₂, l₁, rfl, hr₁, hls₁, hr₂, hls₂⟩ := hr.split hls
    obtain ⟨t, ts₂, l₂, rfl, hn, ht, hr₃, hls₃⟩ := hr₂.uncons hls₂
    obtain ⟨err, hrep, hf⟩ := h.fails hd hr₃ hls₃ hnext
    have hend : NoneOf (first.continuations .multiplicative) l₁.peek := by
      rw [peek_of_token hn, ht]
      exact noneOf_of_derives_multiplicative hop hl
    have hfirst : multiplicative (level n) ⟨l, d⟩ = .ok first ⟨l₁, d⟩ :=
      hl.accepts hm hd hr₁ hls₁ hend
    have hchain := additive_of_operator (steady_level n) hop hfirst hn ht
    exact ⟨err, (hrep.cons t).append ts₁, .of_eq (.bind hf) hchain⟩
  | .factor h => by
    obtain ⟨err, hrep, hf⟩ := h.fails hd hr hls hnext
    exact ⟨err, hrep, .bind hf⟩
  | @Refuses.mul _ m n op us vs first _ hop hl hm h => by
    obtain ⟨ts₁, ts₂, l₁, rfl, hr₁, hls₁, hr₂, hls₂⟩ := hr.split hls
    obtain ⟨t, ts₂, l₂, rfl, hn, ht, hr₃, hls₃⟩ := hr₂.uncons hls₂
    obtain ⟨err, hrep, hf⟩ := h.fails hd hr₃ hls₃ hnext
    have hend : NoneOf (first.continuations .unary) l₁.peek := by
      rw [peek_of_token hn, ht]
      exact noneOf_of_derives_unary op hl
    have hfirst : unary (level n) ⟨l, d⟩ = .ok first ⟨l₁, d⟩ :=
      hl.accepts hm hd hr₁ hls₁ hend
    have hchain := multiplicative_of_operator (steady_level n) hop hfirst hn ht
    exact ⟨err, (hrep.cons t).append ts₁, .of_eq (.bind hf) hchain⟩
  | .signedLevel op => by
    obtain ⟨t, ts', l₁, rfl, hn, ht, hr₁, hls₁⟩ := hr.uncons hls
    have hbelow : Fails (level 0).unary ⟨l₁, d⟩ (.grammatical ⟨.tooDeep, none⟩) :=
      fails_refuse .tooDeep none _
    exact ⟨_, .level _, .of_eq (.bind hbelow) (unary_of_sign hn ht)⟩
  | @Refuses.signed _ n op _ _ h => by
    have hd' : n + (d + 1) = maxNesting := by omega
    obtain ⟨t, ts', l₁, rfl, hn, ht, hr₁, hls₁⟩ := hr.uncons hls
    obtain ⟨err, hrep, hf⟩ := h.fails hd' hr₁ hls₁ hnext
    have hoperand : Fails (level (n + 1)).unary ⟨l₁, d⟩ err := .nested (by omega) hf
    exact ⟨err, hrep.cons t, .of_eq (.bind hoperand) (unary_of_sign hn ht)⟩
  | .operand h hsign => by
    obtain ⟨err, hrep, hf⟩ := h.fails hd hr hls hnext
    have hno : NoneOf ['+', '-'] l.peek := by
      rw [hr.peek_eq, hls, hnext]
      exact h.head?_noneOf_sign hsign
    exact ⟨err, hrep, .of_eq hf (unary_of_noneOf hno)⟩
  | .nothing h => by
    obtain rfl : ts = [] := by simpa [lexemes] using hls
    obtain rfl := hr.nil_eq
    exact ⟨_, .awaited [] rfl, fails_primary (hnext ▸ h)⟩
  | .grouping h => by
    obtain ⟨t, ts', l₁, rfl, hn, ht, hr₁, hls₁⟩ := hr.uncons hls
    obtain ⟨err, hrep, hf⟩ := h.fails hd hr₁ hls₁ hnext
    exact ⟨err, hrep.cons t, .of_eq (.bind hf) (primary_of_open hn ht)⟩
  | @Refuses.unclosed _ m n _ inner he hm hstop hclose => by
    obtain ⟨t, ts', l₁, rfl, hn, ht, hr₁, hls₁⟩ := hr.uncons hls
    have hinner : (level n).assignment ⟨l₁, d⟩ = .ok inner ⟨l', d⟩ :=
      he.accepts hm hd hr₁ hls₁ (hnext ▸ hstop)
    exact ⟨_, .awaited _ rfl, fails_primary_of_unclosed hn ht hinner (hnext ▸ hclose)⟩
  | @Refuses.call _ n f us _ h hempty => by
    obtain ⟨t, ts', l₁, rfl, hn, ht, hr₁, hls₁⟩ := hr.uncons hls
    obtain ⟨u, ts', l₂, rfl, hu, hopen, hr₂, hls₂⟩ := hr₁.uncons hls₁
    obtain ⟨err, hrep, hf⟩ := h.fails hd hr₂ hls₂ hnext
    have hno : NoneOf [')'] l₂.peek := by
      rw [hr₂.peek_eq, hls₂, hnext]
      exact h.head?_noneOf_close hempty
    refine ⟨err, (hrep.cons u).cons t, .of_eq ?_ (primary_of_call hn ht hu hopen)⟩
    exact .after (.bind hf) (checkOperator_of_noneOf hno)
  | @Refuses.unclosedCall _ m n f us es hes hm hstop hclose => by
    obtain ⟨t, ts', l₁, rfl, hn, ht, hr₁, hls₁⟩ := hr.uncons hls
    obtain ⟨u, ts', l₂, rfl, hu, hopen, hr₂, hls₂⟩ := hr₁.uncons hls₁
    have hno : NoneOf [')'] l₂.peek := by
      rw [hr₂.peek_eq, hls₂]
      exact hes.head?_noneOf_close _
    have harguments : argumentList (level n) f ⟨l₂, d⟩ = .ok es ⟨l', d⟩ :=
      hes.accepts f hm hd hr₂ hls₂ (hnext ▸ hstop)
    exact ⟨_, .awaited _ rfl,
      fails_primary_of_unclosedCall hn ht hu hopen hno harguments (hnext ▸ hclose)⟩

theorem RefusesArguments.fails {next : Option Lexeme} {f : String} {us : List Lexeme} {w : Need}
    {n d : Nat} {l l' : Lexer} {ts : List Token} (hd : n + d = maxNesting)
    (hr : l.Reads ts l') (hls : lexemes ts = us) (hnext : l'.peek = next) :
    RefusesArguments next f n us w →
      ∃ err, w.Reports l'.next.1 ts err ∧ Fails (argumentList (level n) f) ⟨l, d⟩ err
  | .first h => by
    obtain ⟨err, hrep, hf⟩ := h.fails hd hr hls hnext
    exact ⟨err, hrep, .bind hf⟩
  | @RefusesArguments.further _ m n f us vs e _ he hm h hempty => by
    obtain ⟨ts₁, ts₂, l₁, rfl, hr₁, hls₁, hr₂, hls₂⟩ := hr.split hls
    obtain ⟨t, ts₂, l₂, rfl, hn, ht, hr₃, hls₃⟩ := hr₂.uncons hls₂
    obtain ⟨err, hrep, hf⟩ := h.fails hd hr₃ hls₃ hnext
    have hend : NoneOf (e.continuations .assignment) l₁.peek := by
      rw [peek_of_token hn, ht]
      exact (noneOf_close .assignment e).2
    have hfirst : (level n).assignment ⟨l, d⟩ = .ok e ⟨l₁, d⟩ :=
      he.accepts hm hd hr₁ hls₁ hend
    have hno : NoneOf [')'] l₂.peek := by
      rw [hr₃.peek_eq, hls₃, hnext]
      exact h.head?_noneOf_close hempty
    exact ⟨err, (hrep.cons t).append ts₁,
      .of_eq (.bind hf) (argumentList_of_comma (steady_level n) hfirst hn ht hno)⟩
  | @RefusesArguments.missing _ m n f us e he hm hparen => by
    obtain ⟨ts₁, ts₂, l₁, rfl, hr₁, hls₁, hr₂, hls₂⟩ := hr.split hls
    obtain ⟨t, rfl, hn, ht⟩ := hr₂.of_singleton hls₂
    obtain ⟨u, l₃, hu, hclose⟩ := exists_token_of_peek (hnext.trans hparen)
    have hend : NoneOf (e.continuations .assignment) l₁.peek := by
      rw [peek_of_token hn, ht]
      exact (noneOf_close .assignment e).2
    have hfirst : (level n).assignment ⟨l, d⟩ = .ok e ⟨l₁, d⟩ :=
      he.accepts hm hd hr₁ hls₁ hend
    exact ⟨_, .argument f ts₁ t, fails_argumentList_of_close hfirst hn ht hu hclose⟩

end

end ExprView
