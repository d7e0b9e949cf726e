import ExprView.Grammar

/-!
# What follows an expression

Reading does not stop at the first place where an expression could end. After an operand there
may be an operator that goes on with it, and after a name there may be the parenthesis of a call
or the sign of an assignment. `Expr.continuations` are the operators that would be read on.

## Main statements

* `noneOf_of_derives_multiplicative`, `noneOf_of_derives_unary`: an operator of a chain is not
  read on by the operand in front of it.
* `noneOf_close`: no expression is read on over a closing parenthesis or a comma.
* `Derives.head`: what an expression starts with.
-/

namespace ExprView

/-! ### Operators -/

@[simp] theorem isOperator_identifier (x : String) (op : Char) :
    (Lexeme.identifier x).isOperator op = false := rfl

@[simp] theorem isOperator_number (n : String) (op : Char) :
    (Lexeme.number n).isOperator op = false := rfl

@[simp] theorem isOperator_operator (c op : Char) :
    (Lexeme.operator c).isOperator op = (op.utf8Size == 1 && c == op) := by
  have h : (String.singleton c == String.singleton op) = (c == op) := by
    rw [Bool.eq_iff_iff, beq_iff_eq, beq_iff_eq]
    constructor
    · intro h
      simpa using congrArg String.toList h
    · rintro rfl
      rfl
  simp [Lexeme.isOperator, Lexeme.operator, h]

theorem isOperator_self {op : Char} (h : op.utf8Size = 1) :
    (Lexeme.operator op).isOperator op = true := by
  simp [h]

theorem UnaryOperator.utf8Size_symbol (op : UnaryOperator) : op.symbol.utf8Size = 1 := by
  cases op <;> rfl

theorem BinaryOperator.utf8Size_symbol (op : BinaryOperator) : op.symbol.utf8Size = 1 := by
  cases op <;> rfl

theorem any_isOperator {op : Char} {ops : List Char} (h : op.utf8Size = 1) (hmem : op ∈ ops) :
    ops.any (Lexeme.operator op).isOperator = true :=
  List.any_eq_true.mpr ⟨op, hmem, isOperator_self h⟩

/-- Only one lexeme is the operator. -/
theorem eq_operator_of_isOperator {x : Lexeme} {op : Char} (h : x.isOperator op = true) :
    x = .operator op := by
  obtain ⟨kind, text⟩ := x
  simp only [Lexeme.isOperator, Bool.and_eq_true, beq_iff_eq] at h
  obtain ⟨⟨rfl, -⟩, rfl⟩ := h
  rfl

/-- The lexeme that comes next, if there is one, is none of the operators. -/
def NoneOf (ops : List Char) (next : Option Lexeme) : Prop :=
  ∀ x, next = some x → ops.any x.isOperator = false

@[simp] theorem noneOf_none (ops : List Char) : NoneOf ops none := by
  intro x h
  cases h

@[simp] theorem noneOf_some {ops : List Char} {x : Lexeme} :
    NoneOf ops (some x) ↔ ops.any x.isOperator = false := by
  constructor
  · exact fun h => h x rfl
  · rintro h y hy
    exact Option.some.inj hy ▸ h

@[simp] theorem noneOf_nil (next : Option Lexeme) : NoneOf [] next := fun _ _ => rfl

@[simp] theorem noneOf_append {ops ops' : List Char} {next : Option Lexeme} :
    NoneOf (ops ++ ops') next ↔ NoneOf ops next ∧ NoneOf ops' next := by
  cases next <;> simp

theorem noneOf_cons {op : Char} {ops : List Char} {next : Option Lexeme} :
    NoneOf (op :: ops) next ↔ NoneOf [op] next ∧ NoneOf ops next := by
  rw [← noneOf_append]
  rfl

/-! ### Continuations -/

/-- The operators of the chains of which an expression of the strength may be a part. -/
def Category.operators : Category → List Char
  | .assignment | .additive => ['*', '/', '+', '-']
  | .multiplicative => ['*', '/']
  | .unary | .primary => []

namespace Expr

/-- Whether the last lexeme of the expression is a name. -/
def endsInName : Expr → Bool
  | .identifier _ => true
  | .unary _ operand => operand.endsInName
  | .binary _ _ right => right.endsInName
  | .assignment _ none => true
  | .assignment _ (some value) => value.endsInName
  | .number _ | .call .. | .grouping _ => false

/-- Whether the expression ends in a name that could take a value. -/
def awaitsValue : Expr → Bool
  | .assignment _ none => true
  | .assignment _ (some value) => value.awaitsValue
  | _ => false

/-- The operators that would be read on as a part of the expression. -/
def continuations (c : Category) (e : Expr) : List Char :=
  c.operators ++ ((if e.endsInName then ['('] else []) ++ if e.awaitsValue then ['='] else [])

/-- The operators that would be read on as a part of the last argument or after it. -/
def argumentsContinuations : List Expr → List Char
  | [] => [',']
  | [e] => ',' :: e.continuations .assignment
  | _ :: es => argumentsContinuations es

theorem noneOf_additive_iff {e : Expr} {next : Option Lexeme} :
    NoneOf (e.continuations .additive) next ↔
      NoneOf (e.continuations .multiplicative) next ∧ NoneOf ['+', '-'] next := by
  have h : ['*', '/', '+', '-'] = ['*', '/'] ++ ['+', '-'] := rfl
  simp only [continuations, Category.operators, h, noneOf_append]
  exact and_right_comm

theorem noneOf_multiplicative_iff {e : Expr} {next : Option Lexeme} :
    NoneOf (e.continuations .multiplicative) next ↔
      NoneOf (e.continuations .unary) next ∧ NoneOf ['*', '/'] next := by
  simp only [continuations, Category.operators, noneOf_append, noneOf_nil, true_and]
  exact and_comm

theorem noneOf_name_iff {x : String} {next : Option Lexeme} :
    NoneOf ((assignment (.identifier x) none).continuations .assignment) next ↔
      NoneOf ((identifier x).continuations .additive) next ∧ NoneOf ['='] next := by
  rw [← noneOf_append]
  rfl

theorem continuations_binary {r : Expr} (c : Category) (op : BinaryOperator) (l : Expr)
    (h : r.awaitsValue = false) : (binary op l r).continuations c = r.continuations c := by
  have hvalue : (binary op l r).awaitsValue = r.awaitsValue := h.symm
  have hname : (binary op l r).endsInName = r.endsInName := rfl
  rw [continuations, continuations, hname, hvalue]

theorem continuations_signed {e : Expr} (c : Category) (op : UnaryOperator)
    (h : e.awaitsValue = false) : (unary op e).continuations c = e.continuations c := by
  have hvalue : (unary op e).awaitsValue = e.awaitsValue := h.symm
  have hname : (unary op e).endsInName = e.endsInName := rfl
  rw [continuations, continuations, hname, hvalue]

theorem argumentsContinuations_cons {es : List Expr} (e : Expr) (h : es ≠ []) :
    argumentsContinuations (e :: es) = argumentsContinuations es := by
  obtain ⟨f, es, rfl⟩ := List.exists_cons_of_ne_nil h
  rfl

end Expr

/-- Only an assignment can take a value. -/
theorem Derives.awaitsValue_eq {c : Category} {n : Nat} {ls : List Lexeme} {e : Expr}
    (hc : c ≠ .assignment) : Derives c n ls e → e.awaitsValue = false
  | .sum _ _ | .name _ | .assign _ => absurd rfl hc
  | .term h => h.awaitsValue_eq (by simp)
  | .factor h => h.awaitsValue_eq (by simp)
  | .operand h => h.awaitsValue_eq (by simp)
  | .add _ _ _ | .mul _ _ _ | .signed _ => rfl
  | .identifier _ | .number _ | .grouping _ | .callEmpty _ | .call _ => rfl

/-- What cannot take a value is not read on over the operator of a chain that it is no part of. -/
theorem noneOf_continuations {c : Category} {e : Expr} {op : BinaryOperator}
    (hvalue : e.awaitsValue = false) (hops : NoneOf c.operators (some (.operator op.symbol))) :
    NoneOf (e.continuations c) (some (.operator op.symbol)) := by
  refine noneOf_append.mpr ⟨hops, noneOf_append.mpr ⟨?_, ?_⟩⟩
  · cases e.endsInName <;> cases op <;> simp [BinaryOperator.symbol]
  · simp [hvalue]

/-- A term is not read on over the sign of a sum. -/
theorem noneOf_of_derives_multiplicative {n : Nat} {ls : List Lexeme} {e : Expr}
    {op : BinaryOperator} (hop : op.isSum = true) (h : Derives .multiplicative n ls e) :
    NoneOf (e.continuations .multiplicative) (some (.operator op.symbol)) := by
  refine noneOf_continuations (h.awaitsValue_eq (by simp)) ?_
  cases op <;> simp [Category.operators, BinaryOperator.symbol, BinaryOperator.isSum] at hop ⊢

/-- A factor is not read on over the sign of a product. -/
theorem noneOf_of_derives_unary {n : Nat} {ls : List Lexeme} {e : Expr} (op : BinaryOperator)
    (h : Derives .unary n ls e) :
    NoneOf (e.continuations .unary) (some (.operator op.symbol)) :=
  noneOf_continuations (h.awaitsValue_eq (by simp)) (noneOf_nil _)

/-- No expression is read on over a closing parenthesis or a comma. -/
theorem noneOf_close (c : Category) (e : Expr) :
    NoneOf (e.continuations c) (some (.operator ')')) ∧
      NoneOf (e.continuations c) (some (.operator ',')) := by
  cases c <;> cases hname : e.endsInName <;> cases hvalue : e.awaitsValue <;>
    simp [Expr.continuations, Category.operators, hname, hvalue]

theorem noneOf_argumentsContinuations (es : List Expr) :
    NoneOf (Expr.argumentsContinuations es) (some (.operator ')')) := by
  match es with
  | [] => simp [Expr.argumentsContinuations]
  | [e] =>
    rw [Expr.argumentsContinuations, noneOf_cons]
    exact ⟨by simp, (noneOf_close .assignment e).1⟩
  | e :: f :: es =>
    rw [Expr.argumentsContinuations_cons e (by simp)]
    exact noneOf_argumentsContinuations (f :: es)

/-! ### First lexemes -/

theorem head?_eq_or (ls : List Lexeme) (op : Char) :
    (∃ ls', ls = .operator op :: ls') ∨ NoneOf [op] ls.head? := by
  cases ls with
  | nil => exact .inr (by simp)
  | cons x ls =>
    by_cases h : x.isOperator op = true
    · exact .inl ⟨ls, by rw [eq_operator_of_isOperator h]⟩
    · exact .inr (by simp [h])

/-- What comes next is a sign or it is not. -/
theorem head?_eq_sign_or (ls : List Lexeme) :
    (∃ (op : UnaryOperator) (ls' : List Lexeme), ls = .operator op.symbol :: ls') ∨
      NoneOf ['+', '-'] ls.head? := by
  rcases head?_eq_or ls '+' with ⟨ls', h⟩ | hplus
  · exact .inl ⟨.plus, ls', h⟩
  rcases head?_eq_or ls '-' with ⟨ls', h⟩ | hminus
  · exact .inl ⟨.minus, ls', h⟩
  · exact .inr (noneOf_cons.mpr ⟨hplus, hminus⟩)

/-- What comes next goes on with a sum or it does not. -/
theorem head?_eq_sum_or (ls : List Lexeme) :
    (∃ (op : BinaryOperator) (ls' : List Lexeme), op.isSum = true ∧
      ls = .operator op.symbol :: ls') ∨ NoneOf ['+', '-'] ls.head? := by
  rcases head?_eq_sign_or ls with ⟨op, ls', h⟩ | h
  · cases op with
    | plus => exact .inl ⟨.add, ls', rfl, h⟩
    | minus => exact .inl ⟨.sub, ls', rfl, h⟩
  · exact .inr h

/-- What comes next goes on with a product or it does not. -/
theorem head?_eq_product_or (ls : List Lexeme) :
    (∃ (op : BinaryOperator) (ls' : List Lexeme), op.isSum = false ∧
      ls = .operator op.symbol :: ls') ∨ NoneOf ['*', '/'] ls.head? := by
  rcases head?_eq_or ls '*' with ⟨ls', h⟩ | hmul
  · exact .inl ⟨.mul, ls', rfl, h⟩
  rcases head?_eq_or ls '/' with ⟨ls', h⟩ | hdiv
  · exact .inl ⟨.div, ls', rfl, h⟩
  · exact .inr (noneOf_cons.mpr ⟨hmul, hdiv⟩)

/-- The lexeme that comes next does not start an operand. -/
def StartsNone (next : Option Lexeme) : Prop :=
  ∀ x, next = some x → x.kind = .operator ∧ x.isOperator '(' = false

/-- An expression starts with a name, a literal or one of three operators. -/
theorem Derives.head {c : Category} {n : Nat} {ls : List Lexeme} {e : Expr} :
    Derives c n ls e → ∃ x xs, ls = x :: xs ∧
      (x.kind ≠ .operator ∨ x = .operator '(' ∨ ∃ op : UnaryOperator, x = .operator op.symbol)
  | .sum h _ | .term h | .factor h | .operand h => h.head
  | .add _ hl _ | .mul _ hl _ => by
    obtain ⟨x, xs, rfl, hx⟩ := hl.head
    exact ⟨x, _, rfl, hx⟩
  | @Derives.signed _ op _ _ _ => ⟨_, _, rfl, .inr (.inr ⟨op, rfl⟩)⟩
  | .grouping _ => ⟨_, _, rfl, .inr (.inl rfl)⟩
  | .number _ => ⟨_, _, rfl, .inl (by simp [Lexeme.number])⟩
  | .name _ | .assign _ | .identifier _ | .callEmpty _ | .call _ =>
    ⟨_, _, rfl, .inl (by simp [Lexeme.identifier])⟩

/-- An expression does not start with a closing parenthesis. -/
theorem Derives.head?_noneOf_close {c : Category} {n : Nat} {ls : List Lexeme} {e : Expr}
    (h : Derives c n ls e) (next : Option Lexeme) : NoneOf [')'] (ls.head?.or next) := by
  obtain ⟨x, xs, rfl, hx⟩ := h.head
  rcases hx with hkind | rfl | ⟨op, rfl⟩
  · have : (x.kind == .operator) = false := by simpa using hkind
    simp [Lexeme.isOperator, this]
  · simp
  · cases op <;> simp [UnaryOperator.symbol]

theorem DerivesArguments.head?_noneOf_close {n : Nat} {ls : List Lexeme} {es : List Expr}
    (h : DerivesArguments n ls es) (next : Option Lexeme) : NoneOf [')'] (ls.head?.or next) := by
  cases h with
  | one he => exact he.head?_noneOf_close next
  | more he _ =>
    rw [List.head?_append, Option.or_assoc]
    exact he.head?_noneOf_close _

end ExprView
