import ExprView.Json.Basic
import ExprView.Json.Quoted

/-!
# Written JSON

One writer with two layouts. The compact layout has no blank between the parts; the indented
layout puts every item and every field on a line of its own, two spaces further in than the
bracket that holds it, and a space after the colon. An empty array or object has nothing
between its brackets in either.

The writer takes the text that follows, so that it never copies what it has written.

## Scope

This stands for the compact and the pretty text that serde_json writes. It follows what is documented
of them: no blanks at all in the one, and two spaces for each level in the other; fields in the order
in which they are given; and the escapes of `Json.Quoted`, with every other character as it is. Only
the values of `Json` are written, so there are no truth values and no numbers but natural ones.
-/

namespace ExprView

/-- How the parts of a value are set apart. -/
inductive Layout where
  /-- No blanks. -/
  | compact
  /-- A line for each part. -/
  | indented
  deriving DecidableEq, Repr

/-- The blanks in front of a part at nesting depth `n`. -/
def Layout.lineBreak : Layout → Nat → List Char
  | .compact, _ => []
  | .indented, n => '\n' :: List.replicate (2 * n) ' '

/-- The blanks between a field's colon and its value. -/
def Layout.gap : Layout → List Char
  | .compact => []
  | .indented => [' ']

namespace Json

mutual

/-- Writes a value at nesting depth `n` in front of `tail`. -/
def write (layout : Layout) (n : Nat) : Json → List Char → List Char
  | .null, tail => 'n' :: 'u' :: 'l' :: 'l' :: tail
  | .string text, tail => quote text ++ tail
  | .number k, tail => Nat.toDigits 10 k ++ tail
  | .array [], tail => '[' :: ']' :: tail
  | .array (item :: items), tail =>
    '[' :: (layout.lineBreak (n + 1) ++ write layout (n + 1) item (writeItems layout n items tail))
  | .object [], tail => '{' :: '}' :: tail
  | .object (field :: fields), tail =>
    '{' :: (layout.lineBreak (n + 1) ++
      writeField layout (n + 1) field (writeFields layout n fields tail))

/-- Writes the items after the first one, and closes the array. -/
def writeItems (layout : Layout) (n : Nat) : List Json → List Char → List Char
  | [], tail => layout.lineBreak n ++ ']' :: tail
  | item :: items, tail =>
    ',' :: (layout.lineBreak (n + 1) ++ write layout (n + 1) item (writeItems layout n items tail))

/-- Writes one field. -/
def writeField (layout : Layout) (n : Nat) : String × Json → List Char → List Char
  | (key, value), tail => quote key ++ ':' :: (layout.gap ++ write layout n value tail)

/-- Writes the fields after the first one, and closes the object. -/
def writeFields (layout : Layout) (n : Nat) : List (String × Json) → List Char → List Char
  | [], tail => layout.lineBreak n ++ '}' :: tail
  | field :: fields, tail =>
    ',' :: (layout.lineBreak (n + 1) ++
      writeField layout (n + 1) field (writeFields layout n fields tail))

end

/-- The text of a value in a layout. -/
def render (layout : Layout) (j : Json) : String := String.ofList (j.write layout 0 [])

/-- The text of a value without blanks. -/
def compact (j : Json) : String := j.render .compact

/-- The text of a value with a line for each part. -/
def pretty (j : Json) : String := j.render .indented

end Json

end ExprView
