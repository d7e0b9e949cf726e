import ExprView.Proofs.Json.Layout
import ExprView.Proofs.Text.Lines
import Mathlib.Tactic.SplitIfs

/-!
# The lines of indented values

The indented text of a value is laid out in lines, whatever texts the value holds, since the control
characters in them are escaped. Brackets with something between them start a line for each part and
one for the closing bracket, and nothing else starts a line.

## Main statements

* `printed_quote`: a quoted text has no control characters.
* `Json.laidOut_write`: what the writer makes of laid out text behind the value.
* `Json.lines_pretty`: the lines of the text of a value.
-/

namespace ExprView

/-! ### Quoted texts -/

theorem hexDigit_printed : ∀ n < 16, ' ' ≤ hexDigit n := by decide

theorem printed_short {d : Char} (hd : ' ' ≤ d) : Printed ['\\', d] := by
  simp only [Printed, List.forall_mem_cons]
  exact ⟨by decide, hd, List.forall_mem_nil _⟩

theorem printed_long {c : Char} (hlt : c < ' ') :
    Printed ['\\', 'u', '0', '0', hexDigit (c.toNat / 16), hexDigit (c.toNat % 16)] := by
  have hnat : c.toNat < 32 := hlt
  have hhigh := hexDigit_printed (c.toNat / 16) (by omega)
  have hlow := hexDigit_printed (c.toNat % 16) (by omega)
  simp [Printed, hhigh, hlow]

/-- A control character is escaped, and what it is written as has none. -/
theorem printed_escape (c : Char) : Printed (escape c) := by
  rw [escape]
  split_ifs with _ _ _ _ _ _ _ hlt
  iterate 7 exact printed_short (by decide)
  · exact printed_long hlt
  · exact List.forall_mem_singleton.mpr (Char.not_lt.mp hlt)

theorem printed_quote (text : String) : Printed (quote text) := by
  have htext : Printed (escapeAll text.toList) := by
    intro d hd
    obtain ⟨c, -, hmem⟩ := List.mem_flatMap.mp hd
    exact printed_escape c d hmem
  have hclose : Printed ['"'] := by decide
  exact List.forall_mem_cons.mpr ⟨by decide, htext.append hclose⟩

theorem printed_digits (k : Nat) : Printed (Nat.toDigits 10 k) := by
  intro c hc
  have hdigit : c.isDigit = true := isDigit_of_mem_toDigits c hc
  rw [Char.isDigit, Bool.and_eq_true, decide_eq_true_eq] at hdigit
  exact Nat.le_trans (by decide) hdigit.1

namespace Json

/-! ### Indents -/

/-- How far the lines are indented that start between brackets at nesting depth `n` and at the closing
one, given this for the lines that start inside each part. There are none if there are no parts. -/
def bracketed (n : Nat) : List (List Nat) → List Nat
  | [] => []
  | part :: parts => (part :: parts).flatMap (2 * (n + 1) :: ·) ++ [2 * n]

mutual

/-- How far the lines that start inside a value at nesting depth `n` are indented. -/
def indents (n : Nat) : Json → List Nat
  | .null => []
  | .string _ => []
  | .number _ => []
  | .array items => bracketed n (itemIndents (n + 1) items)
  | .object fields => bracketed n (fieldIndents (n + 1) fields)

/-- The same for each item. -/
def itemIndents (n : Nat) : List Json → List (List Nat)
  | [] => []
  | item :: items => item.indents n :: itemIndents n items

/-- The same for each field. -/
def fieldIndents (n : Nat) : List (String × Json) → List (List Nat)
  | [] => []
  | (_, value) :: fields => value.indents n :: fieldIndents n fields

end

/-! ### The writer -/

/-- No value starts with a space. -/
theorem head_write_ne_space (layout : Layout) (n : Nat) (j : Json) (tail : List Char) :
    (j.write layout n tail).head?.any (· ≠ ' ') = true := by
  have hform := ofFirst?_head_write layout n j tail
  cases hhead : (j.write layout n tail).head? with
  | none => simp [hhead] at hform
  | some c =>
    have hc : c ≠ ' ' := by
      rintro rfl
      rw [hhead] at hform
      cases hform
    simpa using hc

section

variable {ks : List Nat} {cs tail : List Char} {c : Char} {n : Nat}

/-- Blanks between parts start a line. -/
theorem laidOut_lineBreak (hhead : cs.head?.any (· ≠ ' ') = true) (h : LaidOut ks cs) :
    LaidOut (2 * n :: ks) (Layout.indented.lineBreak n ++ cs) :=
  h.newLine (2 * n) hhead

/-- A bracket or a comma goes on with its line, and the item behind it has a line of its own. -/
theorem laidOut_item (hc : ' ' ≤ c) {item : Json}
    (h : LaidOut ks (item.write .indented n tail)) :
    LaidOut (2 * n :: ks)
      (c :: (Layout.indented.lineBreak n ++ item.write .indented n tail)) :=
  (laidOut_lineBreak (head_write_ne_space ..) h).char hc

/-- So has the field behind it. The value goes on with the line of its key. -/
theorem laidOut_field (hc : ' ' ≤ c) (key : String) {value : Json}
    (h : LaidOut ks (value.write .indented n tail)) :
    LaidOut (2 * n :: ks)
      (c :: (Layout.indented.lineBreak n ++ writeField .indented n (key, value) tail)) := by
  have hgap : LaidOut ks (Layout.indented.gap ++ value.write .indented n tail) :=
    h.char (by decide)
  have hfield : LaidOut ks (writeField .indented n (key, value) tail) :=
    (hgap.char (by decide)).append (printed_quote key)
  exact (laidOut_lineBreak rfl hfield).char hc

end

mutual

/-- A value is laid out in front of text that is. -/
theorem laidOut_write (n : Nat) {ks : List Nat} {tail : List Char} (h : LaidOut ks tail) :
    (j : Json) → LaidOut (j.indents n ++ ks) (j.write .indented n tail)
  | .null => h.append (by decide : Printed ['n', 'u', 'l', 'l'])
  | .string text => h.append (printed_quote text)
  | .number k => h.append (printed_digits k)
  | .array [] => .char (by decide) (.char (by decide) h)
  | .array (item :: items) => by
    -- the items behind the first one are what it is written in front of
    have hitem := laidOut_write (n + 1) (laidOut_writeItems n h items) item
    simpa [indents, itemIndents, bracketed, write] using laidOut_item (c := '[') (by decide) hitem
  | .object [] => .char (by decide) (.char (by decide) h)
  | .object ((key, value) :: fields) => by
    have hvalue := laidOut_write (n + 1) (laidOut_writeFields n h fields) value
    simpa [indents, fieldIndents, bracketed, write] using
      laidOut_field (c := '{') (by decide) key hvalue

theorem laidOut_writeItems (n : Nat) {ks : List Nat} {tail : List Char} (h : LaidOut ks tail) :
    (items : List Json) →
      LaidOut ((itemIndents (n + 1) items).flatMap (2 * (n + 1) :: ·) ++ 2 * n :: ks)
        (writeItems .indented n items tail)
  | [] => laidOut_lineBreak rfl (h.char (by decide))
  | item :: items => by
    have hitem := laidOut_write (n + 1) (laidOut_writeItems n h items) item
    simpa [itemIndents, writeItems] using laidOut_item (c := ',') (by decide) hitem

theorem laidOut_writeFields (n : Nat) {ks : List Nat} {tail : List Char} (h : LaidOut ks tail) :
    (fields : List (String × Json)) →
      LaidOut ((fieldIndents (n + 1) fields).flatMap (2 * (n + 1) :: ·) ++ 2 * n :: ks)
        (writeFields .indented n fields tail)
  | [] => laidOut_lineBreak rfl (h.char (by decide))
  | (key, value) :: fields => by
    have hvalue := laidOut_write (n + 1) (laidOut_writeFields n h fields) value
    simpa [fieldIndents, writeFields] using laidOut_field (c := ',') (by decide) key hvalue

end

/-- The lines of the text of a value are the text again between line feeds. The first one is not
indented. -/
theorem lines_pretty (j : Json) :
    ['\n'].intercalate (splitLines j.pretty.toList) = j.pretty.toList ∧
      (splitLines j.pretty.toList).map indentation = 0 :: j.indents 0 := by
  have htext : j.pretty.toList = j.write .indented 0 [] := String.toList_ofList
  have hhead := head_write_ne_space .indented 0 j []
  have hlaid := laidOut_write 0 .nil j
  rw [htext]
  cases hwrite : j.write .indented 0 [] with
  | nil =>
    rw [hwrite] at hhead
    cases hhead
  | cons c cs =>
    rw [hwrite] at hhead hlaid
    obtain ⟨hjoin, hindents⟩ := hlaid.lines (List.cons_ne_nil c cs)
    have hfirst : indentation (c :: cs) = 0 :=
      indentation_spaces (by simpa using hhead) 0 cs
    rw [hfirst, List.append_nil] at hindents
    exact ⟨hjoin, hindents⟩

end Json

end ExprView
