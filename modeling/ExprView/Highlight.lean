import ExprView.Palette
import ExprView.Text.Bytes
import ExprView.Lexer.Error

/-!
# Highlighting

A source is coloured by its tokens: each token is a span in the style of its kind, and what lies
between tokens is a plain span. A source without tokens is one span that shows the failure.

The tokens of a source can also be counted by kind.

## Main statements

* `highlight_text`: no text is lost or moved.
-/

namespace ExprView

/-- The spans of a text that starts at byte `position` of the source, by the tokens in it. -/
def highlightFrom : Nat → List Char → List Token → List Span
  | _, [], [] => []
  | _, rest, [] => [{ text := String.ofList rest }]
  | position, rest, t :: ts =>
    let (gap, rest) := splitBytes (t.start - position) rest
    let (text, rest) := splitBytes (t.last + 1 - t.start) rest
    let spans := { text := String.ofList text, style := t.kind.style } ::
      highlightFrom (t.last + 1) rest ts
    if position < t.start then { text := String.ofList gap } :: spans else spans

/-- The spans of a source. -/
def highlight (source : String) : Except LexError (List Token) → List Span
  | .ok tokens => highlightFrom 0 source.toList tokens
  | .error _ => [{ text := source, style := faultStyle }]

/-- Colouring keeps the text, whatever tokens it is coloured by. -/
theorem highlightFrom_text (position : Nat) (cs : List Char) (ts : List Token) :
    spansText (highlightFrom position cs ts) = String.ofList cs := by
  induction ts generalizing position cs with
  | nil =>
    cases cs with
    | nil => rfl
    | cons c cs => simp [highlightFrom, spansText]
  | cons t ts ih =>
    have hgap := splitBytes_append (t.start - position) cs
    have htext := splitBytes_append (t.last + 1 - t.start) (splitBytes (t.start - position) cs).2
    simp only [highlightFrom]
    split
    · simp only [spansText_cons, ih, ← String.ofList_append, htext, hgap]
    · next h =>
      have hz : t.start - position = 0 := by omega
      rw [hz, splitBytes_zero] at htext ⊢
      simp only [spansText_cons, ih, ← String.ofList_append, htext]

/-- Colouring keeps the text of the source. -/
theorem highlight_text (source : String) (tokens : Except LexError (List Token)) :
    spansText (highlight source tokens) = source := by
  cases tokens with
  | error e => simp [highlight, spansText]
  | ok ts => simp [highlight, highlightFrom_text]

/-- The number of tokens of a kind. -/
def countKind (kind : TokenKind) (tokens : List Token) : Nat :=
  tokens.countP fun t => t.kind == kind

/-- The kinds in the order in which they are counted. -/
def countedKinds : List TokenKind := [.identifier, .operator, .number]

/-- How many tokens there are of each kind that occurs. -/
def summary (tokens : List Token) : String :=
  ", ".intercalate <| countedKinds.filterMap fun kind =>
    match countKind kind tokens with
    | 0 => none
    | n => some (toString n ++ " " ++ kind.name)

end ExprView
