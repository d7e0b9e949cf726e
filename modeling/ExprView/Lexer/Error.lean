import ExprView.Diagnostic

/-!
# Lexical errors

Why a text cannot be split into tokens.
-/

namespace ExprView

/-- Why no token can be read. -/
inductive LexError.Cause where
  /-- A dot without a digit on either side. -/
  | noDigits
  /-- The source ends after an exponent mark. -/
  | exponentAtEnd
  /-- The character after an exponent mark is neither a sign nor a digit. -/
  | exponentBefore (c : Char)
  /-- No token starts with the character. -/
  | unknown (c : Char)
  deriving DecidableEq, Repr

/-- The wording of a cause. -/
def LexError.Cause.message : LexError.Cause → String
  | .noDigits => "Expecting decimal digits after the dot sign"
  | .exponentAtEnd => "Unexpected <end> after the exponent sign"
  | .exponentBefore c =>
    "Unexpected character " ++ String.singleton c ++ " after the exponent sign"
  | .unknown c => "Unknown token from character " ++ String.singleton c

/-- A failed scan. -/
structure LexError where
  /-- Why it failed. -/
  cause : LexError.Cause
  /-- The byte offset at which it started. -/
  offset : Nat
  deriving DecidableEq, Repr

/-- The error as it is reported. -/
def LexError.diagnostic (e : LexError) : Diagnostic := .lexical e.cause.message e.offset

end ExprView
