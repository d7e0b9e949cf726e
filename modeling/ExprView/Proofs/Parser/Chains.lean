import ExprView.Parser.Iterative
import ExprView.Proofs.Parser.Steps

/-!
# Chains by recursion and by iteration

The grammar words a chain as an operand and, if an operator follows, again a chain on its right. A
rule that does what these words say is determined by them, for there is less left to read after the
operator. The rule that collects the operands and groups them afterwards does what they say, and so
does the one that reads on by recursion: they are the same rule, and the parsers built from them are
the same parser.

## Main statements

* `ParserM.chain_eq_iterativeChain`: collecting in a loop and grouping from the end is the chain.
* `ParserM.eq_of_rightGrouped`: there is one rule that does what the grammar says.
* `parse_right_recursive`: the parser with recursive chains is the parser.
-/

namespace ExprView

/-! ### Grouping from the end -/

namespace Expr

/-- What comes first in the list is joined last. -/
theorem foldChain_cons (first second : Expr) (op : BinaryOperator)
    (rest : List (BinaryOperator × Expr)) :
    first.foldChain ((op, second) :: rest) = .binary op first (second.foldChain rest) := by
  unfold foldChain
  rw [List.reverse_cons]
  cases rest.reverse with
  | nil => rfl
  | cons last pending =>
    simp only [List.cons_append, List.foldl_append, List.foldl_cons, List.foldl_nil, joinLeft]

theorem foldChain_eq (first : Expr) (rest : List (BinaryOperator × Expr)) :
    first.foldChain rest = first.rightChain rest := by
  induction rest generalizing first with
  | nil => rfl
  | cons link rest ih => rw [foldChain_cons, ih, rightChain]

end Expr

namespace ParserM

variable {α β : Type} {ops : List Char} {operand : ParserM Expr}

/-! ### Collecting -/

/-- The loop puts what the repetition yields behind what it has. -/
theorem gather_eq (step : ParserM (Option α)) (done : List α) (p : Parser) :
    gather step done p = match many step p with
      | .ok as q => .ok (done ++ as) q
      | .error e q => .error e q := by
  generalize hn : p.lexer.rest.length = n
  induction n using Nat.strongRecOn generalizing p done with
  | _ n ih =>
    cases hp : step p with
    | error e q => rw [gather, hp, many_of_error hp]
    | ok found q =>
      cases found with
      | none =>
        rw [gather, hp, many_of_none hp]
        simp only [List.append_nil]
      | some a =>
        by_cases hlt : q.lexer.rest.length < p.lexer.rest.length
        · rw [gather, hp, many_of_some hp hlt]
          simp only [if_pos hlt]
          rw [ih _ (hn ▸ hlt) (done ++ [a]) q rfl]
          cases many step q with
          | ok as r => simp only [List.append_assoc, List.singleton_append]
          | error e r => rfl
        · rw [gather, many, hp]
          simp only [if_neg hlt]

/-- Collecting in a loop and grouping from the end is the chain. -/
theorem chain_eq_iterativeChain (ops : List Char) (operand : ParserM Expr) :
    chain ops operand = iterativeChain ops operand := by
  have hgather : gather (link ops operand) [] = many (link ops operand) := by
    funext p
    rw [gather_eq]
    cases many (link ops operand) p <;> rfl
  unfold chain iterativeChain
  simp only [hgather, Expr.foldChain_eq]

/-! ### Reading on by recursion -/

theorem bind_congr_left {x y : ParserM α} {f : α → ParserM β} {p : Parser} (h : x p = y p) :
    (x >>= f) p = (y >>= f) p := by
  show EStateM.bind x f p = EStateM.bind y f p
  rw [EStateM.bind, EStateM.bind, h]

theorem bind_congr_of_ok {x : ParserM α} {f g : α → ParserM β} {p : Parser}
    (h : ∀ a q, x p = .ok a q → f a q = g a q) : (x >>= f) p = (x >>= g) p := by
  cases hx : x p with
  | ok a q => rw [bind_of_ok hx, bind_of_ok hx, h a q hx]
  | error e q => rw [bind_of_error hx, bind_of_error hx]

/-- After an operand and an operator there is less left to read. -/
theorem rest_lt_of_operator {p q r s : Parser} {first : Expr} {token : Token} {op : BinaryOperator}
    (h : Steady operand) (hfirst : operand p = .ok first q)
    (hmatch : matchOperator ops q = .ok (some token) r) (hop : binaryOperator token r = .ok op s) :
    s.lexer.rest.length < p.lexer.rest.length := by
  have hoperand := (h.of_ok hfirst).rest_le
  have htaken := takes_matchOperator ops q r token hmatch
  have hsymbol := ((steady_binaryOperator token).of_ok hop).rest_le
  omega

/-- What is read after the operator is read where there is less left. -/
theorem rightGrouped_congr {f g : ParserM Expr} {p : Parser} (h : Steady operand)
    (hfg : ∀ q : Parser, q.lexer.rest.length < p.lexer.rest.length → f q = g q) :
    rightGrouped ops operand f p = rightGrouped ops operand g p := by
  refine bind_congr_of_ok fun first q hfirst => bind_congr_of_ok fun found r hmatch => ?_
  cases found with
  | none => rfl
  | some token =>
    refine bind_congr_of_ok fun op s hop => bind_congr_left (hfg s ?_)
    exact rest_lt_of_operator h hfirst hmatch hop

/-- There is one rule that does what the grammar says of chains. -/
theorem eq_of_rightGrouped {f g : ParserM Expr} (h : Steady operand)
    (hf : f = rightGrouped ops operand f) (hg : g = rightGrouped ops operand g) : f = g := by
  funext p
  generalize hn : p.lexer.rest.length = n
  induction n using Nat.strongRecOn generalizing p with
  | _ n ih =>
    calc f p = rightGrouped ops operand f p := congrFun hf p
      _ = rightGrouped ops operand g p :=
        rightGrouped_congr h fun q hq => ih _ (hn ▸ hq) q rfl
      _ = g p := (congrFun hg p).symm

/-- Reading on by recursion does what the grammar says: after an operator there is less left to
read, so it always goes on. -/
theorem rightRecursive_eq (h : Steady operand) :
    rightRecursive ops operand = rightGrouped ops operand (rightRecursive ops operand) := by
  funext p
  unfold rightGrouped
  cases hfirst : operand p with
  | error e q => rw [rightRecursive, hfirst, bind_of_error hfirst]
  | ok first q =>
    rw [rightRecursive, hfirst, bind_of_ok hfirst]
    cases hmatch : matchOperator ops q with
    | error e r =>
      rw [bind_of_error hmatch]
      simp only [hmatch]
    | ok found r =>
      rw [bind_of_ok hmatch]
      simp only [hmatch]
      cases found with
      | none => rfl
      | some token =>
        simp only
        cases hop : binaryOperator token r with
        | error e s => rw [bind_of_error hop]
        | ok op s =>
          rw [bind_of_ok hop]
          simp only [if_pos (rest_lt_of_operator h hfirst hmatch hop)]
          cases hagain : rightRecursive ops operand s with
          | ok second t => rw [bind_of_ok hagain, pure_apply]
          | error e t => rw [bind_of_error hagain]

theorem rightRecursive_eq_chain (h : Steady operand) :
    rightRecursive ops operand = chain ops operand :=
  eq_of_rightGrouped h (rightRecursive_eq h) (chain_eq h)

/-! ### Rules -/

theorem recursiveSum_eq {below : Level} (h : below.Steady) :
    recursiveSum below = additive below := by
  rw [recursiveSum, rightRecursive_eq_chain (steady_unary h)]
  exact rightRecursive_eq_chain (steady_multiplicative h)

theorem recursiveLevel_eq (n : Nat) : recursiveLevel n = level n := by
  induction n with
  | zero => rfl
  | succ n ih =>
    have hassignment : recursiveAssignment (level n) = assignment (level n) := by
      rw [recursiveAssignment, recursiveSum_eq (steady_level n), assignment]
    rw [recursiveLevel, level, ih, hassignment]

theorem recursiveProgram_eq : recursiveProgram = program := by
  rw [recursiveProgram, recursiveLevel_eq]
  rfl

end ParserM

open ParserM

/-- The chains of the parser are collected in a loop, in which each operand stands beside the
operator in front of it, and grouped from the end. In another parser, which has the same rules
otherwise and counts the same rules as open, a product is a unary expression and, if `*` or `/`
follows, a product on its right, and a sum is made of products in that way. From every source both
come to the same tree or to the same error, and are the same afterwards. -/
theorem parse_right_recursive :
    (∀ ops operand, chain ops operand = iterativeChain ops operand) ∧
    (∀ n, let below := recursiveLevel n
      let product := rightRecursive ['*', '/'] (unary below)
      product = rightGrouped ['*', '/'] (unary below) product ∧
        recursiveSum below = rightGrouped ['+', '-'] product (recursiveSum below)) ∧
    ∀ (p : Parser) (source : String),
      recursiveProgram.outcome { lexer := p.lexer.reset source, depth := 0 } = p.parse source := by
  refine ⟨chain_eq_iterativeChain, ?_, ?_⟩
  · intro n below product
    have hbelow : below.Steady := by
      rw [show below = level n from recursiveLevel_eq n]
      exact steady_level n
    have hproduct : Steady product := by
      rw [show product = multiplicative below from rightRecursive_eq_chain (steady_unary hbelow)]
      exact steady_multiplicative hbelow
    exact ⟨rightRecursive_eq (steady_unary hbelow), rightRecursive_eq hproduct⟩
  · intro p source
    rw [recursiveProgram_eq, Parser.parse]

end ExprView
