/-!
# Quoted text

A text is written between double quotes. The quote, the backslash and the control characters
below the space are escaped, and every other character stands for itself.
-/

namespace ExprView

/-- The hexadecimal digit of a number below sixteen. -/
def hexDigit (n : Nat) : Char := (Nat.toDigits 16 n).headD '0'

/-- The written form of one character of a text. -/
def escape (c : Char) : List Char :=
  if c = '"' then ['\\', '"']
  else if c = '\\' then ['\\', '\\']
  else if c = '\x08' then ['\\', 'b']
  else if c = '\t' then ['\\', 't']
  else if c = '\n' then ['\\', 'n']
  else if c = '\x0c' then ['\\', 'f']
  else if c = '\r' then ['\\', 'r']
  else if c < ' ' then ['\\', 'u', '0', '0', hexDigit (c.toNat / 16), hexDigit (c.toNat % 16)]
  else [c]

/-- The text between the quotes. -/
def escapeAll (cs : List Char) : List Char := cs.flatMap escape

/-- The quoted text. -/
def quote (text : String) : List Char := '"' :: (escapeAll text.toList ++ ['"'])

end ExprView
