/-!
# Padding
-/

namespace ExprView

/-- A text followed by as many spaces as bring it to `n` characters. A longer text is left as
it is. -/
def padRight (n : Nat) (text : String) : String :=
  text ++ String.ofList (List.replicate (n - text.length) ' ')

end ExprView
