import ExprView.Text.Bytes
import ExprView.Lexer.Scan

/-!
# What lexemes are

The texts of each kind, said without scanning, and how a source is made of them. A lexeme ends
only where the next character could not continue it.
-/

namespace ExprView

/-- A run of decimal digits, which may be empty. -/
def IsDigits (cs : List Char) : Prop := ∀ c ∈ cs, c.isDigit = true

/-- An operator is one character. -/
def IsOperatorText (cs : List Char) : Prop := ∃ c, isOperatorChar c = true ∧ cs = [c]

/-- A name starts with a letter or an underscore, and goes on with those and with digits. -/
def IsNameText (cs : List Char) : Prop :=
  ∃ c rest, cs = c :: rest ∧ isNameStart c = true ∧ ∀ d ∈ rest, isNameChar d = true

/-- A mantissa has at least one digit, and at most one dot anywhere among its digits. -/
inductive IsMantissa : List Char → Prop where
  /-- No dot. -/
  | whole {ds : List Char} : IsDigits ds → ds ≠ [] → IsMantissa ds
  /-- A dot. -/
  | dotted {ds es : List Char} : IsDigits ds → IsDigits es → ds ++ es ≠ [] →
      IsMantissa (ds ++ '.' :: es)

/-- A number is a mantissa, perhaps with an exponent mark, a sign or a digit, and more digits. -/
inductive IsNumberText : List Char → Prop where
  /-- No exponent. -/
  | plain {m : List Char} : IsMantissa m → IsNumberText m
  /-- An exponent. -/
  | scaled {m ds : List Char} {mark c : Char} : IsMantissa m → isExponentMark mark = true →
      isExponentStart c = true → IsDigits ds → IsNumberText (m ++ mark :: c :: ds)

/-- The texts of a kind. -/
def IsText : TokenKind → List Char → Prop
  | .operator => IsOperatorText
  | .identifier => IsNameText
  | .number => IsNumberText

/-- Whether a character right after a lexeme would belong to it. -/
def Continues : TokenKind → List Char → Char → Prop
  | .operator, _, _ => False
  | .identifier, _, c => isNameChar c = true
  | .number, text, c =>
    c.isDigit = true ∨
      text.any isExponentMark = false ∧ (isExponentMark c = true ∨ c = '.' ∧ '.' ∉ text)

/-- What follows a lexeme does not continue it. -/
def EndsAt (kind : TokenKind) (text rest : List Char) : Prop :=
  ∀ c, rest.head? = some c → ¬ Continues kind text c

/-- A text that starts at byte `n` of a source is made of blanks and of the tokens. -/
inductive Decomposes : Nat → List Char → List Token → Prop where
  /-- Only blanks are left. -/
  | blank {n : Nat} {gap : List Char} : (∀ c ∈ gap, isBlank c = true) → Decomposes n gap []
  /-- Blanks, a lexeme and the rest. -/
  | token {n : Nat} {gap text rest : List Char} {kind : TokenKind} {ts : List Token} :
      (∀ c ∈ gap, isBlank c = true) → IsText kind text → EndsAt kind text rest →
      Decomposes (n + byteLength gap + byteLength text) rest ts →
      Decomposes n (gap ++ text ++ rest)
        ({ kind, text := String.ofList text, start := n + byteLength gap,
           last := n + byteLength gap + byteLength text - 1 } :: ts)

end ExprView
