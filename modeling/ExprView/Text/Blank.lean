/-!
# Blanks

The characters of the Unicode property White_Space, and those among them at which a line may be
broken: all but the no-break space.

## Scope

The zero-width space is left out. It is not in White_Space, but a line may be broken at it, and it
takes no column.
-/

namespace ExprView

/-- The characters of the property White_Space. -/
def isWhiteSpace (c : Char) : Bool :=
  ('\x09' ≤ c && c ≤ '\x0d') || c == ' ' || c == '\u0085' || c == '\u00a0' || c == '\u1680' ||
    ('\u2000' ≤ c && c ≤ '\u200a') || c == '\u2028' || c == '\u2029' || c == '\u202f' ||
    c == '\u205f' || c == '\u3000'

/-- The blanks at which a line may be broken. The zero-width space is none of them. -/
def isBreakable (c : Char) : Bool := isWhiteSpace c && c != '\u00a0'

end ExprView
