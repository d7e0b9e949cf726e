/-!
# Styles

Colours, and the style that a piece of text asks for: a style may leave a colour as it is.
-/

namespace ExprView

/-- A colour of the terminal. -/
inductive Color where
  /-- The terminal's own. -/
  | reset
  /-- The terminal's black. -/
  | black
  /-- Red, green and blue. -/
  | rgb (red green blue : UInt8)
  deriving DecidableEq, Repr, Inhabited

/-- What a style sets. -/
structure Style where
  /-- The colour of the text, if it is set. -/
  foreground : Option Color := none
  /-- The colour behind the text, if it is set. -/
  background : Option Color := none
  /-- Whether the text becomes bold. -/
  bold : Bool := false
  /-- Whether the text becomes underlined. -/
  underlined : Bool := false
  deriving DecidableEq, Repr, Inhabited

/-- A piece of text in one style. -/
structure Span where
  /-- The text. -/
  text : String
  /-- Its style. -/
  style : Style := {}
  deriving DecidableEq, Repr, Inhabited

/-- The text of a row of spans. -/
def spansText (spans : List Span) : String := String.join (spans.map Span.text)

theorem spansText_cons (span : Span) (spans : List Span) :
    spansText (span :: spans) = span.text ++ spansText spans := by
  simp [spansText]

end ExprView
