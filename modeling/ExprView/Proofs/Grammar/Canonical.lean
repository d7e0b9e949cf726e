import ExprView.Expr.Nesting
import ExprView.Grammar

/-!
# Canonical trees

Not every tree is denoted by lexemes: the grammar groups operators of one strength to the right,
lets an operator in front take one operand only, and makes a name that stands alone an assignment.
The trees that respect this at every node are canonical.

## Main statements

* `Derives.canonical`: the tree of a derivation is canonical, and its nesting is the derivation's.
* `Expr.derivable_of_isCanonical`: a canonical tree has a derivation.
* `derives_iff_isCanonical`: the two together.
-/

namespace ExprView

namespace Expr

/-- Whether the expression is an assignment. -/
def isAssignment : Expr → Bool
  | .assignment .. => true
  | _ => false

/-- Whether the expression has an operator between two operands. -/
def isBinary : Expr → Bool
  | .binary .. => true
  | _ => false

/-- Whether the expression is a sum or a difference. -/
def isSum : Expr → Bool
  | .binary op _ _ => op.isSum
  | _ => false

mutual

/-- Whether every node of the tree has children that can stand there. -/
def isCanonical : Expr → Bool
  | .number _ | .identifier _ => true
  | .unary _ operand => !operand.isAssignment && !operand.isBinary && operand.isCanonical
  | .binary op left right =>
    !left.isAssignment && !right.isAssignment &&
      (if op.isSum then !left.isSum else !left.isBinary && !right.isSum) &&
      left.isCanonical && right.isCanonical
  | .assignment target value => target.isIdentifier && valueCanonical value
  | .call _ arguments => argumentsCanonical arguments
  | .grouping inner => !inner.isIdentifier && inner.isCanonical

/-- Whether an assigned value is canonical and no bare name. -/
def valueCanonical : Option Expr → Bool
  | none => true
  | some value => !value.isIdentifier && value.isCanonical

/-- Whether all arguments are canonical and none is a bare name. -/
def argumentsCanonical : List Expr → Bool
  | [] => true
  | argument :: arguments =>
    !argument.isIdentifier && argument.isCanonical && argumentsCanonical arguments

end

theorem isSum_eq_false {e : Expr} (h : e.isBinary = false) : e.isSum = false := by
  cases e <;> simp [isBinary, isSum] at h ⊢

end Expr

/-- Whether the tree of the program is canonical and no bare name. -/
def Program.isCanonical (p : Program) : Bool := !p.body.isIdentifier && p.body.isCanonical

/-! ### From derivations -/

/-- Whether an expression of this form can bind as tightly as the strength asks. -/
def Category.admits : Category → Expr → Bool
  | .assignment, e => !e.isIdentifier
  | .additive, e => !e.isAssignment
  | .multiplicative, e => !e.isAssignment && !e.isSum
  | .unary, e | .primary, e => !e.isAssignment && !e.isBinary

/-- The levels that an expression opens where it stands. -/
def Category.levels : Category → Expr → Nat
  | .assignment, e => e.nesting + 1
  | .additive, e | .multiplicative, e | .unary, e | .primary, e => e.nesting

mutual

/-- The tree of a derivation is canonical, and opens as many levels as the derivation. -/
theorem Derives.canonical {c : Category} {n : Nat} {ls : List Lexeme} {e : Expr} :
    Derives c n ls e → e.isCanonical = true ∧ c.admits e = true ∧ n = c.levels e
  | .sum h hname => by
    obtain ⟨hc, -, rfl⟩ := h.canonical
    exact ⟨hc, by simp [Category.admits, hname], rfl⟩
  | .name x => ⟨rfl, rfl, rfl⟩
  | .assign h => by
    obtain ⟨hc, hf, rfl⟩ := h.canonical
    exact ⟨Bool.and_eq_true_iff.mpr ⟨rfl, Bool.and_eq_true_iff.mpr ⟨hf, hc⟩⟩, rfl, rfl⟩
  | .term h => by
    obtain ⟨hc, hf, rfl⟩ := h.canonical
    simp only [Category.admits, Bool.and_eq_true] at hf ⊢
    exact ⟨hc, hf.1, rfl⟩
  | .add hop hl hr => by
    obtain ⟨hcl, hfl, rfl⟩ := hl.canonical
    obtain ⟨hcr, hfr, rfl⟩ := hr.canonical
    simp only [Category.admits, Bool.and_eq_true] at hfl hfr
    exact ⟨by simp [Expr.isCanonical, hop, hfl, hfr, hcl, hcr], rfl, rfl⟩
  | .factor h => by
    obtain ⟨hc, hf, rfl⟩ := h.canonical
    simp only [Category.admits, Bool.and_eq_true, Bool.not_eq_true'] at hf ⊢
    exact ⟨hc, ⟨hf.1, Expr.isSum_eq_false hf.2⟩, rfl⟩
  | .mul hop hl hr => by
    obtain ⟨hcl, hfl, rfl⟩ := hl.canonical
    obtain ⟨hcr, hfr, rfl⟩ := hr.canonical
    simp only [Category.admits, Bool.and_eq_true] at hfl hfr
    exact ⟨by simp [Expr.isCanonical, hop, hfl, hfr, hcl, hcr],
      by simp [Category.admits, Expr.isAssignment, Expr.isSum, hop], rfl⟩
  | .signed h => by
    obtain ⟨hc, hf, rfl⟩ := h.canonical
    exact ⟨Bool.and_eq_true_iff.mpr ⟨hf, hc⟩, rfl, rfl⟩
  | .operand h => by
    obtain ⟨hc, hf, rfl⟩ := h.canonical
    exact ⟨hc, hf, rfl⟩
  | .identifier _ | .number _ | .callEmpty _ => ⟨rfl, rfl, rfl⟩
  | .grouping h => by
    obtain ⟨hc, hf, rfl⟩ := h.canonical
    exact ⟨Bool.and_eq_true_iff.mpr ⟨hf, hc⟩, rfl, rfl⟩
  | .call h => by
    obtain ⟨hc, rfl⟩ := h.canonical
    exact ⟨hc, rfl, rfl⟩

theorem DerivesArguments.canonical {n : Nat} {ls : List Lexeme} {es : List Expr} :
    DerivesArguments n ls es → Expr.argumentsCanonical es = true ∧ n = Expr.argumentsNesting es
  | .one h => by
    obtain ⟨hc, hf, rfl⟩ := h.canonical
    simp only [Category.admits] at hf
    exact ⟨by simp [Expr.argumentsCanonical, hc, hf],
      by simp [Expr.argumentsNesting, Category.levels]⟩
  | .more h hs => by
    obtain ⟨hc, hf, rfl⟩ := h.canonical
    obtain ⟨hcs, rfl⟩ := hs.canonical
    simp only [Category.admits] at hf
    exact ⟨by simp [Expr.argumentsCanonical, hc, hf, hcs], rfl⟩

end

/-! ### To derivations -/

namespace Expr

/-- The expression is derived wherever its form allows it to stand. -/
structure Derivable (e : Expr) : Prop where
  /-- Where an assignment may stand. -/
  assignment : e.isIdentifier = false → Derives .assignment (e.nesting + 1) e.lexemes e
  /-- As a sum. -/
  additive : e.isAssignment = false → Derives .additive e.nesting e.lexemes e
  /-- As a term of a sum. -/
  multiplicative : e.isAssignment = false → e.isSum = false →
    Derives .multiplicative e.nesting e.lexemes e
  /-- As an operand. -/
  unary : e.isAssignment = false → e.isBinary = false → Derives .unary e.nesting e.lexemes e

theorem derivable_of_unary {e : Expr} (h : Derives .unary e.nesting e.lexemes e) : e.Derivable :=
  ⟨.sum (.term (.factor h)), fun _ => .term (.factor h), fun _ _ => .factor h, fun _ _ => h⟩

theorem derivable_of_primary {e : Expr} (h : Derives .primary e.nesting e.lexemes e) :
    e.Derivable :=
  derivable_of_unary (.operand h)

/-- Two operands that may stand on the sides of an operator make an expression. -/
theorem derivable_binary {op : BinaryOperator} {l r : Expr} (hl : l.Derivable) (hr : r.Derivable)
    (hleft : l.isAssignment = false) (hright : r.isAssignment = false)
    (h : (if op.isSum then !l.isSum else !l.isBinary && !r.isSum) = true) :
    (binary op l r).Derivable := by
  by_cases hop : op.isSum = true
  · rw [if_pos hop] at h
    have hsum := Derives.add hop (hl.multiplicative hleft (by simpa using h)) (hr.additive hright)
    refine ⟨fun _ => .sum hsum rfl, fun _ => hsum, fun _ hno => ?_, fun _ hno => ?_⟩
    · exact absurd (hop.symm.trans hno) (by simp)
    · cases hno
  · rw [if_neg hop, Bool.and_eq_true] at h
    have hmul := Derives.mul (Bool.eq_false_iff.mpr hop) (hl.unary hleft (by simpa using h.1))
      (hr.multiplicative hright (by simpa using h.2))
    refine ⟨fun _ => .sum (.term hmul) rfl, fun _ => .term hmul, fun _ _ => hmul, fun _ hno => ?_⟩
    cases hno

/-- An assignment stands only where an assignment may. -/
theorem derivable_assignment {t : Expr} {v : Option Expr}
    (h : Derives .assignment ((assignment t v).nesting + 1) (assignment t v).lexemes
      (assignment t v)) : (assignment t v).Derivable := by
  refine ⟨fun _ => h, fun hno => ?_, fun hno => ?_, fun hno => ?_⟩
  all_goals cases hno

mutual

/-- A canonical expression is derived. -/
theorem derivable_of_isCanonical : (e : Expr) → e.isCanonical = true → e.Derivable
  | .number x, _ => derivable_of_primary (.number x)
  | .identifier x, _ => derivable_of_primary (.identifier x)
  | .unary op operand, h => by
    simp only [isCanonical, Bool.and_eq_true, Bool.not_eq_true'] at h
    have hbelow := derivable_of_isCanonical operand h.2
    exact derivable_of_unary (.signed (hbelow.unary h.1.1 h.1.2))
  | .binary op l r, h => by
    simp only [isCanonical, Bool.and_eq_true, Bool.not_eq_true'] at h
    obtain ⟨⟨⟨⟨hl, hr⟩, hsides⟩, hcl⟩, hcr⟩ := h
    exact derivable_binary (derivable_of_isCanonical l hcl) (derivable_of_isCanonical r hcr)
      hl hr hsides
  | .assignment target value, h => by
    simp only [isCanonical, Bool.and_eq_true] at h
    obtain ⟨x, rfl⟩ := exists_of_isIdentifier h.1
    exact derivable_assignment (derives_value x value h.2)
  | .call f arguments, h => by
    by_cases hnil : arguments = []
    · subst hnil
      exact derivable_of_primary (.callEmpty f)
    · exact derivable_of_primary (.call (derives_arguments arguments h hnil))
  | .grouping inner, h => by
    simp only [isCanonical, Bool.and_eq_true, Bool.not_eq_true'] at h
    have hinner := derivable_of_isCanonical inner h.2
    exact derivable_of_primary (.grouping (hinner.assignment h.1))

theorem derives_value (x : String) : (v : Option Expr) → valueCanonical v = true →
    Derives .assignment (valueNesting v + 1) (.identifier x :: valueLexemes v)
      (.assignment (.identifier x) v)
  | none, _ => .name x
  | some v, h => by
    simp only [valueCanonical, Bool.and_eq_true, Bool.not_eq_true'] at h
    exact .assign ((derivable_of_isCanonical v h.2).assignment h.1)

theorem derives_arguments : (es : List Expr) → argumentsCanonical es = true → es ≠ [] →
    DerivesArguments (argumentsNesting es) (argumentsLexemes es) es
  | [], _, h => absurd rfl h
  | e :: es, h, _ => by
    simp only [argumentsCanonical, Bool.and_eq_true, Bool.not_eq_true'] at h
    have hfirst := (derivable_of_isCanonical e h.1.2).assignment h.1.1
    by_cases hnil : es = []
    · subst hnil
      simpa [argumentsNesting, argumentsLexemes, moreLexemes] using DerivesArguments.one hfirst
    · have hmore := DerivesArguments.more hfirst (derives_arguments es h.2 hnil)
      rwa [← moreLexemes_eq hnil] at hmore

end

end Expr

/-- What is derived where an assignment may stand are the canonical expressions. -/
theorem derives_iff_isCanonical {n : Nat} {ls : List Lexeme} {e : Expr} :
    Derives .assignment n ls e ↔
      Program.isCanonical ⟨e⟩ = true ∧ n = Program.nesting ⟨e⟩ ∧ ls = e.lexemes := by
  constructor
  · intro h
    obtain ⟨hc, hf, hn⟩ := h.canonical
    exact ⟨Bool.and_eq_true_iff.mpr ⟨hf, hc⟩, hn, h.lexemes_eq⟩
  · rintro ⟨hc, rfl, rfl⟩
    rw [Program.isCanonical, Bool.and_eq_true, Bool.not_eq_true'] at hc
    exact (Expr.derivable_of_isCanonical e hc.2).assignment hc.1

end ExprView
