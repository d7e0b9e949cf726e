import ExprView.Text.Blank
import ExprView.Text.Columns
import ExprView.Screen.Row

/-!
# Wrapping

A line that is wider than the area is broken between its words. A word that is wider than the
area is broken where the area ends. Blanks at a break are dropped as far as they would still
have had room on the line before it; other blanks are kept.

## Scope

This stands for the paragraph of ratatui with wrapping that does not trim. What is documented of it is
that lines are broken between words and keep the blanks at their start; what becomes of blanks at a
break, of words that are too wide and of lines of blanks only is stated as the library does it.
Characters are taken one by one, with the columns and the blanks of `Text.Columns` and `Text.Blank`.
-/

namespace ExprView

/-- A line in the middle of being wrapped. -/
structure Wrapping where
  /-- The finished lines. -/
  done : List (List Char) := []
  /-- The line that is being filled. -/
  line : List Char := []
  /-- The blanks after it. -/
  blanks : List Char := []
  /-- The word after them. -/
  word : List Char := []
  /-- Whether the last character belongs to a word. -/
  inWord : Bool := false
  deriving DecidableEq, Repr, Inhabited

namespace Wrapping

/-- Puts the pending blanks and the pending word on the line. -/
def settle (s : Wrapping) : Wrapping :=
  { s with line := s.line ++ s.blanks ++ s.word, blanks := [], word := [] }

/-- Takes a character to the pending blanks or to the pending word. -/
def push (s : Wrapping) (c : Char) : Wrapping :=
  if isBreakable c then { s with blanks := s.blanks ++ [c], inWord := false }
  else { s with word := s.word ++ [c], inWord := true }

/-- Finishes the line. Pending blanks that would have had room on it are dropped. -/
def breakLine (n : Nat) (s : Wrapping) : Wrapping :=
  { s with
    done := s.done ++ [s.line]
    line := []
    blanks := dropColumns columns (n - width s.line) s.blanks }

/-- Whether the character ends a word, or continues one that alone is too wide. -/
def settles (n : Nat) (s : Wrapping) (c : Char) : Bool :=
  (s.inWord && isBreakable c) ||
    (s.line.isEmpty && n < width s.word + width s.blanks + columns c)

/-- Whether there is no room on the line for another character. -/
def isFull (n : Nat) (s : Wrapping) : Bool :=
  n ≤ width s.line || n ≤ width s.line + width s.blanks + width s.word

/-- Takes one character into lines of `n` columns. One that is wider is left out. -/
def step (n : Nat) (s : Wrapping) (c : Char) : Wrapping :=
  if n < columns c then s
  else
    let s := if s.settles n c then s.settle else s
    if s.isFull n then
      let s := s.breakLine n
      if isBreakable c && s.blanks.isEmpty then s else s.push c
    else s.push c

/-- The finished lines and what is left. -/
def finish (s : Wrapping) : List (List Char) :=
  let blank := if s.line.isEmpty && s.word.isEmpty && !s.blanks.isEmpty then [[]] else []
  let last := s.settle.line
  let lines := s.done ++ blank ++ if last.isEmpty then [] else [last]
  if lines.isEmpty then [[]] else lines

end Wrapping

/-- The lines of at most `n` columns into which a line is broken. -/
def wrapLine (n : Nat) (text : List Char) : List (List Char) :=
  (text.foldl (Wrapping.step n) {}).finish

end ExprView
