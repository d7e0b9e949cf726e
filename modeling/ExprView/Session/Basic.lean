import ExprView.Analysis
import ExprView.Session.Key
import ExprView.Text.Edit

/-!
# Sessions

A session edits one line. After each change of the line it is analysed anew, and a message sums
up what was found. Keys also move the focus between the two panes below the line, scroll the
pane that has it, and end the session.

The cursor counts characters, and the line is edited at the byte offset that belongs to it. An edit
at an offset where none can be made has no result.
-/

namespace ExprView

/-- The panes that can be scrolled. -/
inductive Focus where
  /-- The table of tokens. -/
  | tokens
  /-- The tree. -/
  | tree
  deriving DecidableEq, Repr, Inhabited

/-- The other pane. -/
def Focus.next : Focus → Focus
  | .tokens => .tree
  | .tree => .tokens

/-- The largest scroll offset that can be asked for. -/
def maxScroll : Nat := 0xFFFFFFFFFFFFFFFF

/-- The state of a session. -/
structure Session where
  /-- The line. -/
  input : String
  /-- The number of characters in front of the cursor. -/
  cursor : Nat
  /-- What is known of the line. -/
  analysis : Analysis
  /-- The pane that is scrolled. -/
  focus : Focus := .tokens
  /-- The scroll offset of the table of tokens. -/
  tokensScroll : Nat := 0
  /-- The scroll offset of the tree. -/
  treeScroll : Nat := 0
  /-- Whether the session is over. -/
  quit : Bool := false
  /-- The message. -/
  status : String
  /-- What analyses the line. -/
  analyser : Analyser

namespace Session

/-- A session with the cursor behind the line. -/
def start (input : String) : Session :=
  let (analysis, analyser) := Analyser.run {} input
  { input, cursor := input.length, analysis, status := analysis.status, analyser }

/-- Puts another line in the place of the line. -/
def edit (s : Session) (line : List Char) : Session :=
  let input := String.ofList line
  let (analysis, analyser) := s.analyser.run input
  { s with input, analysis, status := analysis.status, analyser }

/-- The byte offset in the line at which the `n`-th character starts. -/
def place (s : Session) (n : Nat) : Nat := byteIndex n s.input.toList

/-- Puts an edited line in the place of the line and moves the cursor, if there is such a line. -/
def change? (s : Session) (line : Option (List Char)) (cursor : Nat) : Option Session :=
  line.map fun line => { s.edit line with cursor }

/-- Puts a character in front of the cursor. -/
def insert? (s : Session) (c : Char) : Option Session :=
  s.change? (insertAt? (s.place s.cursor) c s.input.toList) (s.cursor + 1)

/-- Removes the character in front of the cursor. -/
def eraseBefore? (s : Session) : Option Session :=
  if 0 < s.cursor then
    s.change? (removeAt? (s.place (s.cursor - 1)) s.input.toList) (s.cursor - 1)
  else some s

/-- Removes the character behind the cursor. -/
def eraseAfter? (s : Session) : Option Session :=
  if s.cursor < s.input.length then
    s.change? (removeAt? (s.place s.cursor) s.input.toList) s.cursor
  else some s

/-- Changes the scroll offset of the pane that has the focus. -/
def scrollBy (s : Session) (f : Nat → Nat) : Session :=
  match s.focus with
  | .tokens => { s with tokensScroll := f s.tokensScroll }
  | .tree => { s with treeScroll := f s.treeScroll }

section
variable (s : Session) (f : Nat → Nat)

/-! Scrolling leaves all but the scroll offsets alone. -/

@[simp] theorem scrollBy_input : (s.scrollBy f).input = s.input := by
  cases h : s.focus <;> simp [scrollBy, h]

@[simp] theorem scrollBy_cursor : (s.scrollBy f).cursor = s.cursor := by
  cases h : s.focus <;> simp [scrollBy, h]

@[simp] theorem scrollBy_analysis : (s.scrollBy f).analysis = s.analysis := by
  cases h : s.focus <;> simp [scrollBy, h]

@[simp] theorem scrollBy_status : (s.scrollBy f).status = s.status := by
  cases h : s.focus <;> simp [scrollBy, h]

end

/-- What a key does, if the edit that it asks for can be made. -/
def press? (s : Session) (k : KeyPress) : Option Session :=
  match k.key with
  | .escape => some { s with quit := true }
  | .char c =>
    if c = 'c' ∧ k.modifiers.control then some { s with quit := true }
    else if k.modifiers.plain then s.insert? c
    else some s
  | .backspace => s.eraseBefore?
  | .delete => s.eraseAfter?
  | .left => some { s with cursor := s.cursor - 1 }
  | .right => some { s with cursor := min (s.cursor + 1) s.input.length }
  | .home => some { s with cursor := 0 }
  | .last => some { s with cursor := s.input.length }
  | .tab => some { s with focus := s.focus.next }
  | .up => some (s.scrollBy (· - 1))
  | .down => some (s.scrollBy fun n => min (n + 1) maxScroll)
  | .other => some s

/-- What a key does. With the cursor within the line every edit can be made. -/
def press (s : Session) (k : KeyPress) : Session := (s.press? k).getD s

end Session

end ExprView
