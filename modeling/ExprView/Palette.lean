import ExprView.Token
import ExprView.Screen.Style

/-!
# Palette

The colours of the program, and the styles that are made of them.
-/

namespace ExprView

/-- A choice of colours. -/
structure Palette where
  /-- Plain text. -/
  text : Color
  /-- The keys that can be pressed. -/
  key : Color
  /-- Text of less weight. -/
  comment : Color
  /-- What went well. -/
  success : Color
  /-- What failed. -/
  failure : Color
  /-- Names. -/
  identifier : Color
  /-- Literals. -/
  number : Color
  /-- Operators. -/
  operator : Color
  /-- The frame of the pane that has the focus. -/
  focusedFrame : Color
  /-- The frame of any other pane. -/
  frame : Color
  /-- Behind the status bar. -/
  statusBar : Color
  deriving DecidableEq, Repr, Inhabited

/-- The colours in use. -/
def palette : Palette where
  text := .rgb 205 214 244
  key := .rgb 137 180 250
  comment := .rgb 108 112 134
  success := .rgb 166 227 161
  failure := .rgb 243 139 168
  identifier := .rgb 148 226 213
  number := .rgb 250 179 135
  operator := .rgb 249 226 175
  focusedFrame := .rgb 249 226 175
  frame := .rgb 108 112 134
  statusBar := .rgb 50 50 70

/-- The style that only sets the colour of the text. -/
def Color.style (c : Color) : Style := { foreground := some c }

/-- The style of a token. Operators stand out. -/
def TokenKind.style : TokenKind → Style
  | .identifier => palette.identifier.style
  | .number => palette.number.style
  | .operator => { palette.operator.style with bold := true }

/-- The style of a line that has no tokens. -/
def faultStyle : Style := { palette.failure.style with underlined := true }

/-- The style of a pane's frame. -/
def frameStyle (focused : Bool) : Style :=
  if focused then { palette.focusedFrame.style with bold := true } else palette.frame.style

end ExprView
