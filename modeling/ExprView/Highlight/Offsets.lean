import ExprView.Highlight
import ExprView.Text.Slice

/-!
# Colouring by byte offsets

The pieces of a coloured source are cut out of it at the byte offsets that its tokens have. If one
of them cannot be cut out there is no result.
-/

namespace ExprView

/-- The span of a piece of a source. -/
def pieceSpan? (source : String) (style : Style) (first stop : Nat) : Option Span :=
  (slice? first stop source.toList).map fun text => { text := String.ofList text, style }

/-- The spans of what lies between two tokens. There is none if they touch. -/
def gapSpans? (source : String) (first stop : Nat) : Option (List Span) :=
  if first < stop then (pieceSpan? source {} first stop).map fun span => [span] else some []

/-- The spans of a source from byte `position` on, by the tokens that are there. -/
def highlightFrom? (source : String) : Nat → List Token → Option (List Span)
  | position, [] => gapSpans? source position source.utf8ByteSize
  | position, t :: ts => do
    let gap ← gapSpans? source position t.start
    let span ← pieceSpan? source t.kind.style t.start (t.last + 1)
    let spans ← highlightFrom? source (t.last + 1) ts
    return gap ++ span :: spans

/-- The spans of a source. -/
def highlight? (source : String) : Except LexError (List Token) → Option (List Span)
  | .ok tokens => highlightFrom? source 0 tokens
  | .error _ => some [{ text := source, style := faultStyle }]

end ExprView
