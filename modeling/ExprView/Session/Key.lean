/-!
# Keys
-/

namespace ExprView

/-- The keys that are held down with another one. -/
structure Modifiers where
  /-- Makes letters large. -/
  shift : Bool := false
  /-- The control key. -/
  control : Bool := false
  /-- The alternate key. -/
  alt : Bool := false
  /-- The super key. -/
  superKey : Bool := false
  /-- The hyper key. -/
  hyper : Bool := false
  /-- The meta key. -/
  metaKey : Bool := false
  deriving DecidableEq, Repr, Inhabited

/-- Whether nothing but perhaps the shift key is held down. -/
def Modifiers.plain (m : Modifiers) : Bool :=
  !(m.control || m.alt || m.superKey || m.hyper || m.metaKey)

theorem Modifiers.control_of_plain {m : Modifiers} (h : m.plain = true) : m.control = false := by
  cases hc : m.control with
  | false => rfl
  | true => simp [plain, hc] at h

/-- A key. -/
inductive Key where
  /-- Ends the session. -/
  | escape
  /-- Removes the character before the cursor. -/
  | backspace
  /-- Removes the character after the cursor. -/
  | delete
  /-- Moves the cursor one character to the left. -/
  | left
  /-- Moves the cursor one character to the right. -/
  | right
  /-- Moves the cursor to the start of the line. -/
  | home
  /-- Moves the cursor to the end of the line. -/
  | last
  /-- Moves the focus to the other pane. -/
  | tab
  /-- Scrolls up. -/
  | up
  /-- Scrolls down. -/
  | down
  /-- A key that stands for a character. -/
  | char (c : Char)
  /-- Any other key. -/
  | other
  deriving DecidableEq, Repr, Inhabited

/-- A key that was pressed. -/
structure KeyPress where
  /-- The key. -/
  key : Key
  /-- What was held down with it. -/
  modifiers : Modifiers := {}
  deriving DecidableEq, Repr, Inhabited

end ExprView
