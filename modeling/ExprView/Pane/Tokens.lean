import ExprView.Highlight
import ExprView.Pane.Basic
import ExprView.Text.Pad

/-!
# The table of tokens

One row for each token, with its kind, its text and its place, and the counts in the title. For
a source without tokens there is one row, which reports the failure.
-/

namespace ExprView

/-- The row of a token. -/
def tokenRow (t : Token) : List Span :=
  [{ text := padRight 11 t.kind.name, style := t.kind.style },
    { text := padRight 10 t.quoted, style := palette.text.style },
    { text := t.range, style := palette.comment.style }]

/-- The rows of the table. -/
def tokenRows : Except LexError (List Token) → List (List Span)
  | .ok tokens => tokens.map tokenRow
  | .error e => [[{ text := e.diagnostic.render, style := palette.failure.style }]]

/-- The title of the table. -/
def tokensTitle : Except LexError (List Token) → String
  | .ok [] | .error _ => " Tokens "
  | .ok tokens => " Tokens (" ++ summary tokens ++ ") "

/-- The scroll offset with which the table is drawn. -/
def tokensScroll (area : Area) (tokens : Except LexError (List Token)) (scroll : Nat) : Nat :=
  clampScroll scroll (tokenRows tokens).length area.height

/-- The table. -/
def tokensLayers (area : Area) (tokens : Except LexError (List Token)) (focused : Bool)
    (scroll : Nat) : List Layer :=
  paneLayers area (tokensTitle tokens) focused (tokensScroll area tokens scroll)
    ((tokenRows tokens).map (cutRow area.inner))

end ExprView
