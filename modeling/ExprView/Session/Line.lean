import ExprView.Session.Key

/-!
# The line as two lists

The characters before the cursor and those after it. Each key moves or changes what is next to
the cursor, and nothing else.
-/

namespace ExprView

/-- A line with a cursor in it. -/
structure Line where
  /-- The characters before the cursor. -/
  before : List Char
  /-- The characters after the cursor. -/
  after : List Char
  deriving DecidableEq, Repr, Inhabited

namespace Line

/-- The cursor is behind the text. -/
def ofText (text : List Char) : Line := { before := text, after := [] }

/-- All characters. -/
def text (l : Line) : List Char := l.before ++ l.after

/-- Moves the last character before the cursor behind it. -/
def moveLeft (l : Line) : Line :=
  match l.before.getLast? with
  | some c => { before := l.before.dropLast, after := c :: l.after }
  | none => l

/-- Moves the first character behind the cursor before it. -/
def moveRight (l : Line) : Line :=
  match l.after with
  | c :: after => { before := l.before ++ [c], after }
  | [] => l

/-- What a key does. -/
def press (l : Line) (k : KeyPress) : Line :=
  match k.key with
  | .char c => if k.modifiers.plain then { l with before := l.before ++ [c] } else l
  | .backspace => { l with before := l.before.dropLast }
  | .delete => { l with after := l.after.tail }
  | .left => l.moveLeft
  | .right => l.moveRight
  | .home => { before := [], after := l.text }
  | .last => { before := l.text, after := [] }
  | .escape | .tab | .up | .down | .other => l

end Line

end ExprView
