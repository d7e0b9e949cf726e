import ExprView.Json.Quoted

/-!
# Quoted text can be read back

Every character is written in a form from which it can be told, and none of these forms starts with
a quote. So a quoted text ends at the first quote that is not part of such a form, whatever follows
it.

## Main statements

* `unescape_escape`: what a character is written as is read as this character.
* `quote_append_inj`: a quoted text and what follows it can be told from the text.
-/

namespace ExprView

/-! ### Characters -/

/-- The value of a hexadecimal digit. -/
def hexValue (c : Char) : Nat := if c.isDigit then c.toNat - 48 else c.toNat - 87

theorem hexValue_hexDigit : ∀ n < 16, hexValue (hexDigit n) = n := by decide

theorem hexDigit_plain : ∀ n < 16, hexDigit n ≠ '"' ∧ hexDigit n ≠ '\\' := by decide

/-- The character that is meant by a backslash and one character. -/
def shortEscape (c : Char) : Char :=
  if c = 'b' then '\x08'
  else if c = 't' then '\t'
  else if c = 'n' then '\n'
  else if c = 'f' then '\x0c'
  else if c = 'r' then '\r'
  else c

/-- Reads one character of a quoted text. -/
def unescape : List Char → Option (Char × List Char)
  | '\\' :: 'u' :: '0' :: '0' :: high :: low :: rest =>
    some (Char.ofNat (16 * hexValue high + hexValue low), rest)
  | '\\' :: c :: rest => some (shortEscape c, rest)
  | c :: rest => some (c, rest)
  | [] => none

/-- The forms in which characters are written. -/
inductive Escaped : Char → List Char → Prop where
  /-- A character that stands for itself. -/
  | plain {c : Char} : c ≠ '"' → c ≠ '\\' → Escaped c [c]
  /-- A backslash and one character. -/
  | short {c d : Char} : d ≠ 'u' → shortEscape d = c → Escaped c ['\\', d]
  /-- A backslash and the number of the character. -/
  | long {c : Char} : c.toNat < 32 →
      Escaped c ['\\', 'u', '0', '0', hexDigit (c.toNat / 16), hexDigit (c.toNat % 16)]

/-- Every character is written in one of these forms. -/
theorem escaped_escape (c : Char) : Escaped c (escape c) := by
  by_cases hquote : c = '"'
  · subst hquote
    exact .short (by decide) (by decide)
  by_cases hslash : c = '\\'
  · subst hslash
    exact .short (by decide) (by decide)
  by_cases hb : c = '\x08'
  · subst hb
    exact .short (by decide) (by decide)
  by_cases ht : c = '\t'
  · subst ht
    exact .short (by decide) (by decide)
  by_cases hn : c = '\n'
  · subst hn
    exact .short (by decide) (by decide)
  by_cases hf : c = '\x0c'
  · subst hf
    exact .short (by decide) (by decide)
  by_cases hr : c = '\r'
  · subst hr
    exact .short (by decide) (by decide)
  rw [escape, if_neg hquote, if_neg hslash, if_neg hb, if_neg ht, if_neg hn, if_neg hf, if_neg hr]
  split
  · next hlt => exact .long hlt
  · exact .plain hquote hslash

/-- A form of a character is read as this character. -/
theorem Escaped.unescape_eq {c : Char} {cs : List Char} (h : Escaped c cs) (rest : List Char) :
    unescape (cs ++ rest) = some (c, rest) := by
  cases h with
  | plain _ hslash => simp [unescape, hslash]
  | short hu hc => simp [unescape, hu, hc]
  | long hlt =>
    have hhigh := hexValue_hexDigit (c.toNat / 16) (by omega)
    have hlow := hexValue_hexDigit (c.toNat % 16) (by omega)
    have hcode : 16 * (c.toNat / 16) + c.toNat % 16 = c.toNat := Nat.div_add_mod c.toNat 16
    simp [unescape, hhigh, hlow, hcode]

/-- What a character is written as is read as this character. -/
theorem unescape_escape (c : Char) (rest : List Char) :
    unescape (escape c ++ rest) = some (c, rest) :=
  (escaped_escape c).unescape_eq rest

/-- No form of a character starts with a quote. -/
theorem Escaped.head_ne_quote {c : Char} {cs rest tail : List Char} (h : Escaped c cs) :
    '"' :: tail ≠ cs ++ rest := by
  intro heq
  cases h with
  | plain hquote _ => exact hquote (List.cons.inj heq).1.symm
  | short | long => cases heq

/-! ### Texts -/

theorem escapeAll_cons (c : Char) (cs : List Char) :
    escapeAll (c :: cs) = escape c ++ escapeAll cs := List.flatMap_cons

/-- A text up to its quote, and what follows that, can be told. -/
theorem escapeAll_quote_inj {as bs rest rest' : List Char}
    (h : escapeAll as ++ '"' :: rest = escapeAll bs ++ '"' :: rest') : as = bs ∧ rest = rest' := by
  induction as generalizing bs with
  | nil =>
    cases bs with
    | nil => exact ⟨rfl, (List.cons.inj h).2⟩
    | cons b bs =>
      rw [escapeAll_cons, List.append_assoc] at h
      exact absurd h (escaped_escape b).head_ne_quote
  | cons a as ih =>
    rw [escapeAll_cons, List.append_assoc] at h
    cases bs with
    | nil => exact absurd h.symm (escaped_escape a).head_ne_quote
    | cons b bs =>
      rw [escapeAll_cons, List.append_assoc] at h
      have hread := congrArg unescape h
      rw [unescape_escape, unescape_escape] at hread
      obtain ⟨rfl, hrest⟩ := Prod.mk.inj (Option.some.inj hread)
      obtain ⟨rfl, rfl⟩ := ih hrest
      exact ⟨rfl, rfl⟩

/-- A quoted text and what follows it can be told from the text. -/
theorem quote_append_inj {a b : String} {rest rest' : List Char}
    (h : quote a ++ rest = quote b ++ rest') : a = b ∧ rest = rest' := by
  simp only [quote, List.cons_append, List.append_assoc, List.nil_append] at h
  obtain ⟨htext, hrest⟩ := escapeAll_quote_inj (List.cons.inj h).2
  exact ⟨String.toList_inj.mp htext, hrest⟩

end ExprView
