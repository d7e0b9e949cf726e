import ExprView.Json.Write
import ExprView.Proofs.Json.Quoting
import ExprView.Proofs.Text.Runs

/-!
# Layouts carry the same value

A written value is read in one way only: its first character tells its form, and what follows is
told apart part by part. The indented text is the compact text with blanks between the parts, so
the value can be told from it too.

## Main statements

* `Json.squeeze_write`: without the blanks between its parts, a text in any layout is compact.
* `Json.compact_injective`, `Json.render_injective`: the text of a value in a layout tells the value.
-/

namespace ExprView

@[simp] theorem Layout.lineBreak_compact (n : Nat) : Layout.compact.lineBreak n = [] := rfl

@[simp] theorem Layout.gap_compact : Layout.compact.gap = [] := rfl

namespace Json

/-! ### Blanks between the parts -/

mutual

/-- The text without the spaces and line feeds that stand outside of quotes. -/
def squeeze : List Char → List Char
  | [] => []
  | '"' :: cs => '"' :: squeezeQuoted cs
  | c :: cs => if c = ' ' ∨ c = '\n' then squeeze cs else c :: squeeze cs

/-- The same from within quotes. A quote behind a backslash does not end them. -/
def squeezeQuoted : List Char → List Char
  | [] => []
  | '"' :: cs => '"' :: squeeze cs
  | '\\' :: c :: cs => '\\' :: c :: squeezeQuoted cs
  | c :: cs => c :: squeezeQuoted cs

end

variable {c : Char} {cs tail : List Char} {layout : Layout} {n m : Nat}

/-- A character that is not a blank stays. -/
theorem squeeze_cons (hquote : c ≠ '"') (hspace : c ≠ ' ') (hline : c ≠ '\n') :
    squeeze (c :: cs) = c :: squeeze cs := by
  simp [squeeze, hspace, hline]

theorem squeezeQuoted_cons (hquote : c ≠ '"') (hslash : c ≠ '\\') :
    squeezeQuoted (c :: cs) = c :: squeezeQuoted cs := by
  simp [squeezeQuoted, hslash]

/-- Spaces go. -/
theorem squeeze_spaces (k : Nat) : squeeze (List.replicate k ' ' ++ cs) = squeeze cs := by
  induction k with
  | zero => rfl
  | succ k ih => simpa [List.replicate_succ, squeeze] using ih

@[simp] theorem squeeze_lineBreak : squeeze (layout.lineBreak n ++ cs) = squeeze cs := by
  cases layout with
  | compact => rfl
  | indented => simp [Layout.lineBreak, squeeze, squeeze_spaces]

@[simp] theorem squeeze_gap : squeeze (layout.gap ++ cs) = squeeze cs := by
  cases layout <;> simp [Layout.gap, squeeze]

/-- What a character is written as stays. -/
theorem squeezeQuoted_escape (c : Char) (cs : List Char) :
    squeezeQuoted (escape c ++ cs) = escape c ++ squeezeQuoted cs := by
  have hform := escaped_escape c
  generalize escape c = form at hform
  cases hform with
  | plain hquote hslash => exact squeezeQuoted_cons hquote hslash
  | short _ _ => simp [squeezeQuoted]
  | long hlt =>
    obtain ⟨hquote, hslash⟩ := hexDigit_plain (c.toNat / 16) (by omega)
    obtain ⟨hquote', hslash'⟩ := hexDigit_plain (c.toNat % 16) (by omega)
    simp [squeezeQuoted, hslash, hslash']

theorem squeezeQuoted_escapeAll (text cs : List Char) :
    squeezeQuoted (escapeAll text ++ '"' :: cs) = escapeAll text ++ '"' :: squeeze cs := by
  induction text with
  | nil => rfl
  | cons c text ih =>
    rw [escapeAll_cons, List.append_assoc, squeezeQuoted_escape, ih, List.append_assoc]

/-- A quoted text stays. -/
@[simp] theorem squeeze_quote (text : String) (cs : List Char) :
    squeeze (quote text ++ cs) = quote text ++ squeeze cs := by
  simp [quote, squeeze, squeezeQuoted_escapeAll]

/-- A numeral stays. -/
theorem squeeze_digits {ds : List Char} (h : ∀ c ∈ ds, c.isDigit = true) :
    squeeze (ds ++ cs) = ds ++ squeeze cs := by
  induction ds with
  | nil => rfl
  | cons d ds ih =>
    obtain ⟨hd, hds⟩ := List.forall_mem_cons.mp h
    rw [List.cons_append, squeeze_cons, ih hds, List.cons_append]
    all_goals
      rintro rfl
      cases hd

mutual

/-- Without the blanks between its parts, a text in any layout is the compact one. -/
theorem squeeze_write (layout : Layout) (n m : Nat) (tail : List Char) :
    (j : Json) → squeeze (j.write layout n tail) = j.write .compact m (squeeze tail)
  | .null => by simp [write, squeeze_cons]
  | .string text => squeeze_quote text tail
  | .number k => squeeze_digits isDigit_of_mem_toDigits
  | .array [] => by simp [write, squeeze_cons]
  | .array (item :: items) => by
    simp [write, squeeze_cons, squeeze_write layout (n + 1) (m + 1) _ item,
      squeeze_writeItems layout n m tail items]
  | .object [] => by simp [write, squeeze_cons]
  | .object (field :: fields) => by
    simp [write, squeeze_cons, squeeze_writeField layout (n + 1) (m + 1) _ field,
      squeeze_writeFields layout n m tail fields]

theorem squeeze_writeItems (layout : Layout) (n m : Nat) (tail : List Char) :
    (items : List Json) → squeeze (writeItems layout n items tail) =
      writeItems .compact m items (squeeze tail)
  | [] => by simp [writeItems, squeeze_cons]
  | item :: items => by
    simp [writeItems, squeeze_cons, squeeze_write layout (n + 1) (m + 1) _ item,
      squeeze_writeItems layout n m tail items]

theorem squeeze_writeField (layout : Layout) (n m : Nat) (tail : List Char) :
    (field : String × Json) → squeeze (writeField layout n field tail) =
      writeField .compact m field (squeeze tail)
  | (key, value) => by
    simp [writeField, squeeze_cons, squeeze_write layout n m tail value]

theorem squeeze_writeFields (layout : Layout) (n m : Nat) (tail : List Char) :
    (fields : List (String × Json)) → squeeze (writeFields layout n fields tail) =
      writeFields .compact m fields (squeeze tail)
  | [] => by simp [writeFields, squeeze_cons]
  | field :: fields => by
    simp [writeFields, squeeze_cons, squeeze_writeField layout (n + 1) (m + 1) _ field,
      squeeze_writeFields layout n m tail fields]

end

/-! ### Compact texts -/

/-- The forms of values. -/
inductive Form where
  /-- The absent value. -/
  | null
  /-- A text. -/
  | string
  /-- A number. -/
  | number
  /-- A list. -/
  | array
  /-- Fields. -/
  | object
  deriving DecidableEq

/-- The form of a value. -/
def form : Json → Form
  | .null => .null
  | .string _ => .string
  | .number _ => .number
  | .array _ => .array
  | .object _ => .object

/-- The form of the values that start with a character. -/
def Form.ofFirst? (c : Char) : Option Form :=
  if c = 'n' then some .null
  else if c = '"' then some .string
  else if c.isDigit then some .number
  else if c = '[' then some .array
  else if c = '{' then some .object
  else none

/-- The first character of a value tells its form. -/
theorem ofFirst?_head_write (layout : Layout) (n : Nat) (j : Json) (tail : List Char) :
    (j.write layout n tail).head?.bind Form.ofFirst? = some j.form := by
  cases j with
  | null | string text => rfl
  | number k =>
    obtain ⟨d, ds, hds⟩ := List.exists_cons_of_ne_nil (Nat.toDigits_ne_nil (b := 10) (n := k))
    have hd : d.isDigit = true := isDigit_of_mem_toDigits d (by rw [hds]; exact List.mem_cons_self ..)
    have hn : d ≠ 'n' := by
      rintro rfl
      cases hd
    have hquote : d ≠ '"' := by
      rintro rfl
      cases hd
    simp [write, hds, Form.ofFirst?, hd, hn, hquote, form]
  | array items => cases items <;> rfl
  | object fields => cases fields <;> rfl

theorem form_eq {a b : Json} {s t : List Char}
    (h : a.write .compact n s = b.write .compact m t) : a.form = b.form := by
  have ha := ofFirst?_head_write .compact n a s
  rw [h, ofFirst?_head_write] at ha
  exact (Option.some.inj ha).symm

/-- What closes a list does not start a value. -/
theorem close_ne_write {j : Json} {c : Char} {s t : List Char} (hc : Form.ofFirst? c = none) :
    c :: s ≠ j.write layout n t := by
  intro h
  have hform := ofFirst?_head_write layout n j t
  rw [← h] at hform
  exact absurd (hc.symm.trans hform) (by simp)

theorem close_ne_writeField {field : String × Json} {s t : List Char} :
    '}' :: s ≠ writeField layout n field t := by
  obtain ⟨key, value⟩ := field
  simp [writeField, quote]

/-- What follows a value is not a digit, so that it does not go on with a number. -/
def Ends (tail : List Char) : Prop := ∀ c, tail.head? = some c → c.isDigit = false

theorem ends_cons (h : c.isDigit = false) : Ends (c :: cs) := by
  intro d hd
  obtain rfl : c = d := by simpa using hd
  exact h

theorem ends_writeItems (items : List Json) : Ends (writeItems .compact n items tail) := by
  cases items <;> exact ends_cons (by decide)

theorem ends_writeFields (fields : List (String × Json)) :
    Ends (writeFields .compact n fields tail) := by
  cases fields <;> exact ends_cons (by decide)

mutual

/-- A value and what follows it can be told from the text. -/
theorem write_append_inj {n m : Nat} {s t : List Char} (hs : Ends s) (ht : Ends t) :
    (a b : Json) → a.write .compact n s = b.write .compact m t → a = b ∧ s = t
  | .null, b, h => by
    cases b with
    | null => simpa [write] using h
    | string | number | array | object => exact absurd (form_eq h) (by simp [form])
  | .string text, b, h => by
    cases b with
    | string text' =>
      obtain ⟨rfl, rfl⟩ := quote_append_inj h
      exact ⟨rfl, rfl⟩
    | null | number | array | object => exact absurd (form_eq h) (by simp [form])
  | .number k, b, h => by
    cases b with
    | number k' =>
      obtain ⟨rfl, rfl⟩ := toDigits_append_inj hs ht h
      exact ⟨rfl, rfl⟩
    | null | string | array | object => exact absurd (form_eq h) (by simp [form])
  | .array [], b, h => by
    cases b with
    | array items =>
      cases items with
      | nil => simpa [write] using h
      | cons item items => exact absurd (List.cons.inj h).2 (close_ne_write (by decide))
    | null | string | number | object => exact absurd (form_eq h) (by simp [form])
  | .array (item :: items), b, h => by
    cases b with
    | array items' =>
      cases items' with
      | nil => exact absurd (List.cons.inj h).2.symm (close_ne_write (by decide))
      | cons item' items' =>
        obtain ⟨rfl, hrest⟩ := write_append_inj (ends_writeItems items) (ends_writeItems items')
          item item' (List.cons.inj h).2
        obtain ⟨rfl, rfl⟩ := writeItems_append_inj items items' hrest
        exact ⟨rfl, rfl⟩
    | null | string | number | object => exact absurd (form_eq h) (by simp [form])
  | .object [], b, h => by
    cases b with
    | object fields =>
      cases fields with
      | nil => simpa [write] using h
      | cons field fields => exact absurd (List.cons.inj h).2 close_ne_writeField
    | null | string | number | array => exact absurd (form_eq h) (by simp [form])
  | .object (field :: fields), b, h => by
    cases b with
    | object fields' =>
      cases fields' with
      | nil => exact absurd (List.cons.inj h).2.symm close_ne_writeField
      | cons field' fields' =>
        obtain ⟨rfl, hrest⟩ := writeField_append_inj (ends_writeFields fields)
          (ends_writeFields fields') field field' (List.cons.inj h).2
        obtain ⟨rfl, rfl⟩ := writeFields_append_inj fields fields' hrest
        exact ⟨rfl, rfl⟩
    | null | string | number | array => exact absurd (form_eq h) (by simp [form])

theorem writeItems_append_inj {n m : Nat} {s t : List Char} : (as bs : List Json) →
    writeItems .compact n as s = writeItems .compact m bs t → as = bs ∧ s = t
  | [], [], h => ⟨rfl, (List.cons.inj h).2⟩
  | [], b :: bs, h => by cases h
  | a :: as, [], h => by cases h
  | a :: as, b :: bs, h => by
    obtain ⟨rfl, hrest⟩ := write_append_inj (ends_writeItems as) (ends_writeItems bs) a b
      (List.cons.inj h).2
    obtain ⟨rfl, rfl⟩ := writeItems_append_inj as bs hrest
    exact ⟨rfl, rfl⟩

theorem writeField_append_inj {n m : Nat} {s t : List Char} (hs : Ends s) (ht : Ends t) :
    (a b : String × Json) → writeField .compact n a s = writeField .compact m b t → a = b ∧ s = t
  | (key, value), (key', value'), h => by
    obtain ⟨rfl, hrest⟩ := quote_append_inj h
    obtain ⟨rfl, rfl⟩ := write_append_inj hs ht value value' (List.cons.inj hrest).2
    exact ⟨rfl, rfl⟩

theorem writeFields_append_inj {n m : Nat} {s t : List Char} : (as bs : List (String × Json)) →
    writeFields .compact n as s = writeFields .compact m bs t → as = bs ∧ s = t
  | [], [], h => ⟨rfl, (List.cons.inj h).2⟩
  | [], b :: bs, h => by cases h
  | a :: as, [], h => by cases h
  | a :: as, b :: bs, h => by
    obtain ⟨rfl, hrest⟩ := writeField_append_inj (ends_writeFields as) (ends_writeFields bs) a b
      (List.cons.inj h).2
    obtain ⟨rfl, rfl⟩ := writeFields_append_inj as bs hrest
    exact ⟨rfl, rfl⟩

end

/-! ### Texts of values -/

mutual

/-- What follows a value is written behind it. -/
theorem write_append (layout : Layout) (n : Nat) (s t : List Char) :
    (j : Json) → j.write layout n (s ++ t) = j.write layout n s ++ t
  | .null => by simp [write]
  | .string text => by simp [write]
  | .number k => by simp [write]
  | .array [] => by simp [write]
  | .array (item :: items) => by
    simp [write, writeItems_append layout n s t items, write_append layout (n + 1) _ t item]
  | .object [] => by simp [write]
  | .object (field :: fields) => by
    simp [write, writeFields_append layout n s t fields,
      writeField_append layout (n + 1) _ t field]

theorem writeItems_append (layout : Layout) (n : Nat) (s t : List Char) :
    (items : List Json) → writeItems layout n items (s ++ t) = writeItems layout n items s ++ t
  | [] => by simp [writeItems]
  | item :: items => by
    simp [writeItems, writeItems_append layout n s t items, write_append layout (n + 1) _ t item]

theorem writeField_append (layout : Layout) (n : Nat) (s t : List Char) :
    (field : String × Json) →
      writeField layout n field (s ++ t) = writeField layout n field s ++ t
  | (key, value) => by simp [writeField, write_append layout n s t value]

theorem writeFields_append (layout : Layout) (n : Nat) (s t : List Char) :
    (fields : List (String × Json)) →
      writeFields layout n fields (s ++ t) = writeFields layout n fields s ++ t
  | [] => by simp [writeFields]
  | field :: fields => by
    simp [writeFields, writeFields_append layout n s t fields,
      writeField_append layout (n + 1) _ t field]

end

/-- At any depth a value is written in front of what follows as its compact text. -/
theorem write_compact (n : Nat) (j : Json) (tail : List Char) :
    j.write .compact n tail = j.compact.toList ++ tail := by
  have hdepth : j.write .compact n [] = j.write .compact 0 [] :=
    (squeeze_write .compact 0 n [] j).symm.trans (squeeze_write .compact 0 0 [] j)
  have happ := write_append .compact n [] tail j
  rw [List.nil_append] at happ
  rw [happ, hdepth, compact, render, String.toList_ofList]

/-- The text of a value in any layout, without the blanks between its parts, is the compact one. -/
theorem squeeze_render (layout : Layout) (j : Json) :
    String.ofList (squeeze (j.render layout).toList) = j.compact := by
  rw [render, String.toList_ofList, squeeze_write layout 0 0 [] j]
  rfl

/-- The compact text tells the value. -/
theorem compact_injective {a b : Json} (h : a.compact = b.compact) : a = b := by
  have hends : Ends [] := by simp [Ends]
  exact (write_append_inj hends hends a b (String.ofList_injective h)).1

/-- The text in any layout tells the value. -/
theorem render_injective {a b : Json} (h : a.render layout = b.render layout) : a = b := by
  apply compact_injective
  rw [← squeeze_render layout a, ← squeeze_render layout b, h]

end Json

end ExprView
