/-!
# Expressions

The tree that a source denotes. Numbers are kept as written, and a grouping keeps the
parentheses of the source.
-/

namespace ExprView

/-- The operators that stand before their operand. -/
inductive UnaryOperator where
  /-- Keeps the sign. -/
  | plus
  /-- Changes the sign. -/
  | minus
  deriving DecidableEq, Repr, Inhabited

/-- The operators that stand between their operands. -/
inductive BinaryOperator where
  /-- A sum. -/
  | add
  /-- A difference. -/
  | sub
  /-- A product. -/
  | mul
  /-- A quotient. -/
  | div
  deriving DecidableEq, Repr, Inhabited

/-- The character of the operator. -/
def UnaryOperator.symbol : UnaryOperator → Char
  | .plus => '+'
  | .minus => '-'

/-- The character of the operator. -/
def BinaryOperator.symbol : BinaryOperator → Char
  | .add => '+'
  | .sub => '-'
  | .mul => '*'
  | .div => '/'

/-- Whether the operator binds as loosely as a sum. -/
def BinaryOperator.isSum : BinaryOperator → Bool
  | .add | .sub => true
  | .mul | .div => false

/-- The operator that a text denotes before an operand. -/
def UnaryOperator.ofSymbol? (text : String) : Option UnaryOperator :=
  [UnaryOperator.plus, .minus].find? fun op => text == String.singleton op.symbol

/-- The operator that a text denotes between operands. -/
def BinaryOperator.ofSymbol? (text : String) : Option BinaryOperator :=
  [BinaryOperator.add, .sub, .mul, .div].find? fun op => text == String.singleton op.symbol

/-- An expression. -/
inductive Expr where
  /-- A decimal literal, as written. -/
  | number (literal : String)
  /-- A name that is an operand. -/
  | identifier (name : String)
  /-- An operator before its operand. -/
  | unary (operator : UnaryOperator) (operand : Expr)
  /-- An operator between its operands. -/
  | binary (operator : BinaryOperator) (left right : Expr)
  /-- A name that stands alone, perhaps with the value it is to take. -/
  | assignment (target : Expr) (value : Option Expr)
  /-- A function applied to arguments. -/
  | call (name : String) (arguments : List Expr)
  /-- A parenthesised expression. -/
  | grouping (inner : Expr)
  deriving Repr, Inhabited

/-- Whether the expression is a bare name, the only thing that a value can be assigned to. -/
def Expr.isIdentifier : Expr → Bool
  | .identifier _ => true
  | _ => false

theorem Expr.exists_of_isIdentifier {e : Expr} (h : e.isIdentifier = true) :
    ∃ x, e = .identifier x := by
  cases e <;> simp [isIdentifier] at h ⊢

/-! ### Equality -/

namespace Expr

mutual

/-- Whether two expressions are the same. -/
def same : Expr → Expr → Bool
  | .number a, .number b => a == b
  | .identifier a, .identifier b => a == b
  | .unary o a, .unary p b => o == p && same a b
  | .binary o a c, .binary p b d => o == p && same a b && same c d
  | .assignment a v, .assignment b w => same a b && sameValue v w
  | .call f as, .call g bs => f == g && sameList as bs
  | .grouping a, .grouping b => same a b
  | _, _ => false

/-- Whether two values that may be absent are the same. -/
def sameValue : Option Expr → Option Expr → Bool
  | none, none => true
  | some a, some b => same a b
  | _, _ => false

/-- Whether two lists of arguments are the same. -/
def sameList : List Expr → List Expr → Bool
  | [], [] => true
  | a :: as, b :: bs => same a b && sameList as bs
  | _, _ => false

end

mutual

theorem same_iff : (a b : Expr) → (same a b = true ↔ a = b)
  | .number _, b => by cases b <;> simp [same]
  | .identifier _, b => by cases b <;> simp [same]
  | .unary _ a, b => by cases b <;> simp [same, same_iff a]
  | .binary _ a c, b => by cases b <;> simp [same, same_iff a, same_iff c, and_assoc]
  | .assignment a v, b => by cases b <;> simp [same, same_iff a, sameValue_iff v]
  | .call _ as, b => by cases b <;> simp [same, sameList_iff as]
  | .grouping a, b => by cases b <;> simp [same, same_iff a]

theorem sameValue_iff : (v w : Option Expr) → (sameValue v w = true ↔ v = w)
  | none, w => by cases w <;> simp [sameValue]
  | some a, w => by cases w <;> simp [sameValue, same_iff a]

theorem sameList_iff : (as bs : List Expr) → (sameList as bs = true ↔ as = bs)
  | [], bs => by cases bs <;> simp [sameList]
  | a :: as, bs => by cases bs <;> simp [sameList, same_iff a, sameList_iff as]

end

instance : DecidableEq Expr := fun a b => decidable_of_iff _ (same_iff a b)

end Expr

/-- What a whole source denotes. -/
structure Program where
  /-- The one expression. -/
  body : Expr
  deriving DecidableEq, Repr, Inhabited

end ExprView
