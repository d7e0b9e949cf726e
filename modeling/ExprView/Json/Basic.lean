/-!
# JSON values

The values that are written: text, natural numbers, arrays, and objects whose fields keep the
order in which they are given.
-/

namespace ExprView

/-- A value to be written. -/
inductive Json where
  /-- The absent value. -/
  | null
  /-- A text. -/
  | string (text : String)
  /-- A natural number. -/
  | number (n : Nat)
  /-- A list of values. -/
  | array (items : List Json)
  /-- Named values, in order. -/
  | object (fields : List (String × Json))

end ExprView
