import ExprView.Expr.Shape
import ExprView.Pane.Tree
import ExprView.Proofs.Json.Lines

/-!
# The lines of the tree

Every line of the indented text of a program starts at a bracket or at a part between brackets, and how
many of those there are and how deep they stand is told by the shape of the tree alone. So two programs
that differ in their literals, names and operators have the same lines as far as scrolling goes.

## Main statements

* `Expr.indents_toJson`: the record of an expression is indented by its shape.
* `tree_lines_by_shape`: the lines of a program, and what its shape tells about them.
-/

namespace ExprView

open Json

/-! ### The indents of a shape -/

namespace Shape

/-- The indents of a node whose parts are named: the form stands in brackets, and its parts in brackets
inside these. -/
def nodeIndents (n : Nat) (parts : List (List Nat)) : List Nat :=
  bracketed n [bracketed (n + 1) parts]

mutual

/-- How far the lines that start inside the record of an expression of this shape are indented. A
literal, a name and an operator start no lines. -/
def indents (n : Nat) : Shape → List Nat
  | .number => bracketed n [[]]
  | .identifier => bracketed n [[]]
  | .unary operand => nodeIndents n [[], operand.indents (n + 2)]
  | .binary left right => nodeIndents n [[], left.indents (n + 2), right.indents (n + 2)]
  | .assignment target value =>
    nodeIndents n [target.indents (n + 2), valueIndents (n + 2) value]
  | .call arguments => nodeIndents n [[], bracketed (n + 2) (argumentIndents (n + 3) arguments)]
  | .grouping inner => nodeIndents n [inner.indents (n + 2)]

/-- An absent value starts no line. -/
def valueIndents (n : Nat) : Option Shape → List Nat
  | none => []
  | some value => value.indents n

/-- The same for each argument. -/
def argumentIndents (n : Nat) : List Shape → List (List Nat)
  | [] => []
  | argument :: arguments => argument.indents n :: argumentIndents n arguments

end

/-- How far the lines of a program with a body of this shape are indented, from the first one on. -/
def lineIndents (body : Shape) : List Nat := 0 :: nodeIndents 0 [body.indents 2]

end Shape

namespace Expr

mutual

/-- The record of an expression is indented by its shape. -/
theorem indents_toJson (n : Nat) : (e : Expr) → e.toJson.indents n = e.shape.indents n
  | .number _ => rfl
  | .identifier _ => rfl
  | .unary _ operand => by
    -- but for its operands, a node and its shape have the same brackets by definition
    rw [shape, Shape.indents, ← indents_toJson (n + 2) operand]
    rfl
  | .binary _ left right => by
    rw [shape, Shape.indents, ← indents_toJson (n + 2) left, ← indents_toJson (n + 2) right]
    rfl
  | .assignment target value => by
    rw [shape, Shape.indents, ← indents_toJson (n + 2) target,
      ← indents_valueToJson (n + 2) value]
    rfl
  | .call _ arguments => by
    rw [shape, Shape.indents, ← itemIndents_argumentsToJson (n + 3) arguments]
    rfl
  | .grouping inner => by
    rw [shape, Shape.indents, ← indents_toJson (n + 2) inner]
    rfl

theorem indents_valueToJson (n : Nat) : (value : Option Expr) →
    (valueToJson value).indents n = Shape.valueIndents n (valueShape value)
  | none => rfl
  | some value => indents_toJson n value

theorem itemIndents_argumentsToJson (n : Nat) : (arguments : List Expr) →
    itemIndents n (argumentsToJson arguments) =
      Shape.argumentIndents n (argumentShapes arguments)
  | [] => rfl
  | argument :: arguments => by
    rw [argumentShapes, Shape.argumentIndents, ← indents_toJson n argument,
      ← itemIndents_argumentsToJson n arguments]
    rfl

end

end Expr

/-! ### The lines of a program -/

/-- The lines of the text of a program are the text again between line feeds, and its shape tells how
far each of them is indented. -/
theorem Program.lines_pretty (p : Program) :
    ['\n'].intercalate (splitLines p.pretty.toList) = p.pretty.toList ∧
      (splitLines p.pretty.toList).map indentation = p.body.shape.lineIndents := by
  obtain ⟨hjoin, hindents⟩ := Json.lines_pretty (tagged "Program" p.toJson)
  refine ⟨hjoin, ?_⟩
  rw [Shape.lineIndents, ← p.body.indents_toJson 2]
  exact hindents

/-- Nothing is lost when the text of a program is taken apart into lines, whatever literals and names it
holds: between line feeds the lines are the text again. How many lines there are and how far each is
indented is told by the shape of the tree, so it is the same for programs that differ in literals, names
and operators only, and these are scrolled to the same offsets. -/
theorem tree_lines_by_shape (p : Program) :
    ['\n'].intercalate (splitLines p.pretty.toList) = p.pretty.toList ∧
    (splitLines p.pretty.toList).map indentation = p.body.shape.lineIndents ∧
    ∀ q : Program, p.body.shape = q.body.shape →
      (splitLines p.pretty.toList).length = (splitLines q.pretty.toList).length ∧
      (splitLines p.pretty.toList).map indentation =
        (splitLines q.pretty.toList).map indentation ∧
      ∀ area scroll, treeScroll area (.ok p) scroll = treeScroll area (.ok q) scroll := by
  obtain ⟨hjoin, hindents⟩ := p.lines_pretty
  refine ⟨hjoin, hindents, fun q hshape => ?_⟩
  have hsame : (splitLines p.pretty.toList).map indentation =
      (splitLines q.pretty.toList).map indentation := by
    rw [hindents, q.lines_pretty.2, hshape]
  have hlength : (splitLines p.pretty.toList).length = (splitLines q.pretty.toList).length := by
    simpa using congrArg List.length hsame
  refine ⟨hlength, hsame, fun area scroll => ?_⟩
  exact congrArg (fun lines => clampScroll scroll lines area.height) hlength

/-- Line breaks in a literal and in names do not show, nor does the operator. -/
theorem tree_lines_by_shape_breaks :
    let p : Program :=
      ⟨.call "f\r\n" [.unary .minus (.number "1\n"), .assignment (.identifier "\r") none]⟩
    let q : Program :=
      ⟨.call "g" [.unary .plus (.number "2"), .assignment (.identifier "x") none]⟩
    p.body.shape = q.body.shape ∧
      (splitLines p.pretty.toList).length = (splitLines q.pretty.toList).length ∧
      (splitLines p.pretty.toList).map indentation =
        [0, 2, 4, 6, 8, 8, 10, 12, 14, 14, 16, 14, 12, 10, 10, 12, 14, 16, 14, 14, 12, 10, 8, 6, 4,
          2, 0] ∧
      ∀ area scroll, treeScroll area (.ok p) scroll = treeScroll area (.ok q) scroll := by
  intro p q
  obtain ⟨-, hindents, hsame⟩ := tree_lines_by_shape p
  obtain ⟨hlength, -, hscroll⟩ := hsame q rfl
  exact ⟨rfl, hlength, hindents.trans (by decide), hscroll⟩

end ExprView
