import ExprView.Proofs.Json.Layout
import ExprView.Record

/-!
# The text of a tree

The record of a tree names the form of every node and keeps all its parts, and the text of a record
tells the record, so a tree can be told from its text, whatever its names and literals are.

## Main statements

* `Expr.toJson_inj`: the record of a tree tells the tree.
* `Program.pretty_inj`: so does the indented text of a program.
* `tree_text_faithful`: what the texts of trees tell, in both layouts.
-/

namespace ExprView

/-! ### Records -/

theorem UnaryOperator.toJson_inj {op op' : UnaryOperator} : op.toJson = op'.toJson ↔ op = op' := by
  cases op <;> cases op' <;> simp [toJson, symbol]

theorem BinaryOperator.toJson_inj {op op' : BinaryOperator} :
    op.toJson = op'.toJson ↔ op = op' := by
  cases op <;> cases op' <;> simp [toJson, symbol]

namespace Expr

theorem toJson_ne_null (e : Expr) : e.toJson ≠ .null := by
  cases e <;> simp [toJson, Json.tagged]

mutual

/-- The record of a tree tells the tree. -/
theorem toJson_inj : (a b : Expr) → (a.toJson = b.toJson ↔ a = b)
  | .number _, b => by cases b <;> simp [toJson, Json.tagged]
  | .identifier _, b => by cases b <;> simp [toJson, Json.tagged]
  | .unary _ a, b => by
    cases b <;> simp [toJson, Json.tagged, toJson_inj a, UnaryOperator.toJson_inj]
  | .binary _ a c, b => by
    cases b <;> simp [toJson, Json.tagged, toJson_inj a, toJson_inj c, BinaryOperator.toJson_inj]
  | .assignment a v, b => by
    cases b <;> simp [toJson, Json.tagged, toJson_inj a, valueToJson_inj v]
  | .call _ as, b => by cases b <;> simp [toJson, Json.tagged, argumentsToJson_inj as]
  | .grouping a, b => by cases b <;> simp [toJson, Json.tagged, toJson_inj a]

theorem valueToJson_inj : (v w : Option Expr) → (valueToJson v = valueToJson w ↔ v = w)
  | none, none => by simp
  | none, some b => by simp [valueToJson, (toJson_ne_null b).symm]
  | some a, none => by simp [valueToJson, toJson_ne_null a]
  | some a, some b => by simp [valueToJson, toJson_inj a]

theorem argumentsToJson_inj :
    (as bs : List Expr) → (argumentsToJson as = argumentsToJson bs ↔ as = bs)
  | [], bs => by cases bs <;> simp [argumentsToJson]
  | a :: as, bs => by
    cases bs <;> simp [argumentsToJson, toJson_inj a, argumentsToJson_inj as]

end

end Expr

/-! ### Texts -/

/-- The indented text of a program tells its tree. -/
theorem Program.pretty_inj {a b : Expr} :
    (Program.mk a).pretty = (Program.mk b).pretty ↔ a = b := by
  constructor
  · intro h
    have hrecord : Json.tagged "Program" (Program.mk a).toJson =
        Json.tagged "Program" (Program.mk b).toJson := Json.render_injective h
    rw [← Expr.toJson_inj]
    simpa [Json.tagged, Program.toJson] using hrecord
  · rintro rfl
    rfl

/-- An object with one field is its compact text between the name and the closing brace. -/
theorem Json.compact_tagged (tag : String) (j : Json) :
    (tagged tag j).compact.toList =
      '{' :: (quote tag ++ ':' :: (j.compact.toList ++ ['}'])) := by
  have hobject : (tagged tag j).compact.toList = '{' :: writeField .compact 1 (tag, j) ['}'] :=
    String.toList_ofList
  rw [hobject, writeField, write_compact, Layout.gap_compact, List.nil_append]

/-- Texts of trees are faithful, whatever names and literals they hold. Compact texts are the same
exactly if the trees are, and so are the indented texts of programs; and without the spaces and line
feeds outside of quotes the indented text is the compact one under the name of its class. -/
theorem tree_text_faithful (a b : Expr) :
    (a.toJson.compact = b.toJson.compact ↔ a = b) ∧
    ((Program.mk a).pretty = (Program.mk b).pretty ↔ a = b) ∧
    String.ofList (Json.squeeze (Program.mk a).pretty.toList) =
      "\x7b\"Program\":" ++ (Program.mk a).toJson.compact ++ "\x7d" := by
  refine ⟨⟨fun h => ?_, fun h => h ▸ rfl⟩, Program.pretty_inj, ?_⟩
  · exact (Expr.toJson_inj a b).mp (Json.compact_injective h)
  · rw [Program.pretty, Json.pretty, Json.squeeze_render, ← String.toList_inj,
      Json.compact_tagged]
    have hname : quote "Program" = "\"Program\"".toList := by decide
    rw [hname]
    simp

end ExprView
