import ExprView.Expr.Print

/-!
# The grammar

What it is for lexemes to denote an expression, independently of how it is found out. A chain of
operators of one strength is its first operand, the operator, and the rest of the chain. A name
that stands where an assignment may stand is an assignment.

Each derivation has a nesting: the most levels that are open at once on the way down to one of
its lexemes. The rules for an assignment and for an operator in front open one level each.

## Main statements

* `Derives.lexemes_eq`: an expression is denoted by one row of lexemes at most, the one that it
  is printed with.
-/

namespace ExprView

/-- The strengths at which parts of an expression bind, from the loosest to the tightest. -/
inductive Category where
  /-- What may be assigned to. -/
  | assignment
  /-- A sum. -/
  | additive
  /-- A product. -/
  | multiplicative
  /-- An operand with operators in front. -/
  | unary
  /-- An operand. -/
  | primary
  deriving DecidableEq, Repr

mutual

/-- The lexemes denote the expression, as a part that binds at the given strength, by a derivation
of the given nesting. -/
inductive Derives : Category → Nat → List Lexeme → Expr → Prop where
  /-- A sum that is not just a name. -/
  | sum {n : Nat} {ls : List Lexeme} {e : Expr} :
      Derives .additive n ls e → e.isIdentifier = false → Derives .assignment (n + 1) ls e
  /-- A name that stands alone. -/
  | name (x : String) :
      Derives .assignment 1 [.identifier x] (.assignment (.identifier x) none)
  /-- A name with the value that it is to take. -/
  | assign {n : Nat} {x : String} {ls : List Lexeme} {e : Expr} :
      Derives .assignment n ls e →
        Derives .assignment (n + 1) (.identifier x :: .operator '=' :: ls)
          (.assignment (.identifier x) (some e))
  /-- A sum of one term. -/
  | term {n : Nat} {ls : List Lexeme} {e : Expr} :
      Derives .multiplicative n ls e → Derives .additive n ls e
  /-- A term, a sign and a sum. -/
  | add {m n : Nat} {op : BinaryOperator} {ls rs : List Lexeme} {l r : Expr} :
      op.isSum = true → Derives .multiplicative m ls l → Derives .additive n rs r →
        Derives .additive (max m n) (ls ++ .operator op.symbol :: rs) (.binary op l r)
  /-- A product of one factor. -/
  | factor {n : Nat} {ls : List Lexeme} {e : Expr} :
      Derives .unary n ls e → Derives .multiplicative n ls e
  /-- A factor, a sign and a product. -/
  | mul {m n : Nat} {op : BinaryOperator} {ls rs : List Lexeme} {l r : Expr} :
      op.isSum = false → Derives .unary m ls l → Derives .multiplicative n rs r →
        Derives .multiplicative (max m n) (ls ++ .operator op.symbol :: rs) (.binary op l r)
  /-- A sign in front of an operand. -/
  | signed {n : Nat} {op : UnaryOperator} {ls : List Lexeme} {e : Expr} :
      Derives .unary n ls e → Derives .unary (n + 1) (.operator op.symbol :: ls) (.unary op e)
  /-- An operand with nothing in front. -/
  | operand {n : Nat} {ls : List Lexeme} {e : Expr} :
      Derives .primary n ls e → Derives .unary n ls e
  /-- A name. -/
  | identifier (x : String) : Derives .primary 0 [.identifier x] (.identifier x)
  /-- A literal. -/
  | number (n : String) : Derives .primary 0 [.number n] (.number n)
  /-- An expression in parentheses. -/
  | grouping {n : Nat} {ls : List Lexeme} {e : Expr} :
      Derives .assignment n ls e →
        Derives .primary n (.operator '(' :: (ls ++ [.operator ')'])) (.grouping e)
  /-- A function without arguments. -/
  | callEmpty (f : String) :
      Derives .primary 0 [.identifier f, .operator '(', .operator ')'] (.call f [])
  /-- A function with arguments. -/
  | call {n : Nat} {f : String} {ls : List Lexeme} {es : List Expr} :
      DerivesArguments n ls es →
        Derives .primary n (.identifier f :: .operator '(' :: (ls ++ [.operator ')'])) (.call f es)

/-- The lexemes denote arguments with commas between them. -/
inductive DerivesArguments : Nat → List Lexeme → List Expr → Prop where
  /-- The last argument. -/
  | one {n : Nat} {ls : List Lexeme} {e : Expr} :
      Derives .assignment n ls e → DerivesArguments n ls [e]
  /-- An argument, a comma and more arguments. -/
  | more {m n : Nat} {ls rs : List Lexeme} {e : Expr} {es : List Expr} :
      Derives .assignment m ls e → DerivesArguments n rs es →
        DerivesArguments (max m n) (ls ++ .operator ',' :: rs) (e :: es)

end

/-- There is at least one argument. -/
theorem DerivesArguments.ne_nil {n : Nat} {ls : List Lexeme} {es : List Expr}
    (h : DerivesArguments n ls es) : es ≠ [] := by
  cases h <;> simp

/-- Further arguments are printed with a comma in front. -/
theorem Expr.moreLexemes_eq {es : List Expr} (h : es ≠ []) :
    moreLexemes es = .operator ',' :: argumentsLexemes es := by
  cases es with
  | nil => exact absurd rfl h
  | cons e es => simp [moreLexemes, argumentsLexemes]

mutual

/-- The lexemes that denote an expression are those that it is printed with. -/
theorem Derives.lexemes_eq {c : Category} {n : Nat} {ls : List Lexeme} {e : Expr} :
    Derives c n ls e → ls = e.lexemes
  | .sum h _ => h.lexemes_eq
  | .name _ => rfl
  | .assign h => by rw [h.lexemes_eq]; rfl
  | .term h => h.lexemes_eq
  | .add _ hl hr => by rw [hl.lexemes_eq, hr.lexemes_eq]; rfl
  | .factor h => h.lexemes_eq
  | .mul _ hl hr => by rw [hl.lexemes_eq, hr.lexemes_eq]; rfl
  | .signed h => by rw [h.lexemes_eq]; rfl
  | .operand h => h.lexemes_eq
  | .identifier _ => rfl
  | .number _ => rfl
  | .grouping h => by rw [h.lexemes_eq]; rfl
  | .callEmpty _ => rfl
  | .call h => by rw [h.lexemes_eq]; rfl

theorem DerivesArguments.lexemes_eq {n : Nat} {ls : List Lexeme} {es : List Expr} :
    DerivesArguments n ls es → ls = Expr.argumentsLexemes es
  | .one h => by rw [h.lexemes_eq]; simp [Expr.argumentsLexemes, Expr.moreLexemes]
  | .more h hs => by
    rw [h.lexemes_eq, hs.lexemes_eq, Expr.argumentsLexemes, Expr.moreLexemes_eq hs.ne_nil]

end

end ExprView
