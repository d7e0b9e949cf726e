import ExprView.Token
import ExprView.Lexer.Error

/-!
# Scanning one lexeme

Character classes, and the scan of one lexeme from a text that starts with no blank. A scan
reads as much as its class allows and splits the text into what it read and the rest.

## Main statements

* `scan_append`: what was read and the rest are the text.
* `scan_rest_lt`: a lexeme is not empty, so the rest is shorter.
-/

namespace ExprView

/-! ### Character classes -/

/-- The characters that may stand between tokens: tab, space and no-break space. -/
def isBlank (c : Char) : Bool := c == '\t' || c == ' ' || c == '\u00a0'

/-- The operator characters. -/
def operatorChars : List Char := ['+', '-', '*', '/', '(', ')', '^', '%', '=', ';', ',']

/-- Whether the character is an operator. -/
def isOperatorChar (c : Char) : Bool := operatorChars.contains c

/-- Whether a name may start with the character: an ASCII letter or an underscore. -/
def isNameStart (c : Char) : Bool := c == '_' || c.isAlpha

/-- Whether a name may go on with the character. -/
def isNameChar (c : Char) : Bool := isNameStart c || c.isDigit

/-- Whether the character marks an exponent. -/
def isExponentMark (c : Char) : Bool := c == 'e' || c == 'E'

/-- Whether the character may follow an exponent mark: a sign or a digit. -/
def isExponentStart (c : Char) : Bool := c == '+' || c == '-' || c.isDigit

/-! ### Scans -/

/-- The outcome of a scan. -/
inductive Scan where
  /-- A lexeme was read. -/
  | lexeme (kind : TokenKind) (text rest : List Char)
  /-- The scan failed after reading `read`. -/
  | fault (cause : LexError.Cause) (read rest : List Char)
  deriving DecidableEq, Repr

/-- What the scan read. -/
def Scan.read : Scan → List Char
  | .lexeme _ text _ => text
  | .fault _ read _ => read

/-- What the scan left. -/
def Scan.rest : Scan → List Char
  | .lexeme _ _ rest => rest
  | .fault _ _ rest => rest

/-- The longest mantissa at the start of a text: digits, and if a dot follows, the dot and
the digits after it. -/
def splitMantissa (cs : List Char) : List Char × List Char :=
  match cs.dropWhile Char.isDigit with
  | '.' :: rest =>
    (cs.takeWhile Char.isDigit ++ '.' :: rest.takeWhile Char.isDigit, rest.dropWhile Char.isDigit)
  | rest => (cs.takeWhile Char.isDigit, rest)

/-- Goes on after the mantissa of a number: an exponent mark must be followed by a sign or a
digit, and takes the digits after that. -/
def scanExponent (mantissa : List Char) : List Char → Scan
  | [] => .lexeme .number mantissa []
  | mark :: rest =>
    if isExponentMark mark then
      match rest with
      | [] => .fault .exponentAtEnd (mantissa ++ [mark]) []
      | c :: rest =>
        if isExponentStart c then
          .lexeme .number (mantissa ++ mark :: c :: rest.takeWhile Char.isDigit)
            (rest.dropWhile Char.isDigit)
        else .fault (.exponentBefore c) (mantissa ++ [mark]) (c :: rest)
    else .lexeme .number mantissa (mark :: rest)

/-- Scans a number: a mantissa with at least one digit and perhaps an exponent. -/
def scanNumber (cs : List Char) : Scan :=
  let (mantissa, rest) := splitMantissa cs
  if mantissa.any Char.isDigit then scanExponent mantissa rest
  else .fault .noDigits mantissa rest

/-- Scans the lexeme that starts with `c`. -/
def scan (c : Char) (cs : List Char) : Scan :=
  if c.isDigit || c == '.' then scanNumber (c :: cs)
  else if isOperatorChar c then .lexeme .operator [c] cs
  else if isNameStart c then
    .lexeme .identifier (c :: cs.takeWhile isNameChar) (cs.dropWhile isNameChar)
  else .fault (.unknown c) [] (c :: cs)

/-! ### A scan splits the text -/

theorem splitMantissa_append (cs : List Char) :
    (splitMantissa cs).1 ++ (splitMantissa cs).2 = cs := by
  unfold splitMantissa
  split
  · next rest h =>
    simp only [List.append_assoc, List.cons_append, List.takeWhile_append_dropWhile]
    rw [← h, List.takeWhile_append_dropWhile]
  · exact List.takeWhile_append_dropWhile

theorem scanExponent_append (mantissa cs : List Char) :
    (scanExponent mantissa cs).read ++ (scanExponent mantissa cs).rest = mantissa ++ cs := by
  unfold scanExponent
  split
  · rfl
  · split
    · split
      · simp [Scan.read, Scan.rest]
      · split <;> simp [Scan.read, Scan.rest]
    · rfl

theorem scanNumber_append (cs : List Char) :
    (scanNumber cs).read ++ (scanNumber cs).rest = cs := by
  unfold scanNumber
  have h := splitMantissa_append cs
  simp only
  split
  · rw [scanExponent_append, h]
  · exact h

/-- What a scan read and what it left are the text it was given. -/
theorem scan_append (c : Char) (cs : List Char) :
    (scan c cs).read ++ (scan c cs).rest = c :: cs := by
  unfold scan
  split
  · exact scanNumber_append (c :: cs)
  · split
    · rfl
    · split
      · simp [Scan.read, Scan.rest]
      · rfl

/-! ### A lexeme is not empty -/

theorem scanNumber_text_ne_nil {cs text rest : List Char} {kind : TokenKind}
    (h : scanNumber cs = .lexeme kind text rest) : text ≠ [] := by
  intro ht
  subst ht
  unfold scanNumber at h
  simp only at h
  split at h
  · next hd =>
    have hm : (splitMantissa cs).1 ≠ [] := by
      intro hnil
      simp [hnil] at hd
    unfold scanExponent at h
    split at h
    · injection h with _ h; exact hm h
    · split at h
      · split at h
        · cases h
        · split at h
          · injection h with _ h; simp at h
          · cases h
      · injection h with _ h; exact hm h
  · cases h

theorem scan_text_ne_nil {c : Char} {cs text rest : List Char} {kind : TokenKind}
    (h : scan c cs = .lexeme kind text rest) : text ≠ [] := by
  unfold scan at h
  split at h
  · exact scanNumber_text_ne_nil h
  · split at h
    · injection h with _ h; subst h; simp
    · split at h
      · injection h with _ h; subst h; simp
      · cases h

/-- After a lexeme the rest is shorter than the text. -/
theorem scan_rest_lt {c : Char} {cs text rest : List Char} {kind : TokenKind}
    (h : scan c cs = .lexeme kind text rest) : rest.length < (c :: cs).length := by
  have happ := scan_append c cs
  rw [h] at happ
  have hne := scan_text_ne_nil h
  rw [← happ]
  simp only [Scan.read, Scan.rest, List.length_append]
  have := List.length_pos_iff.mpr hne
  omega

end ExprView
