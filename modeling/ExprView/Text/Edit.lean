import ExprView.Text.Bytes

/-!
# Edits at byte offsets

A character is put into a text, or taken out of it, at a place that is given as a byte offset. Such
a place must lie between two characters or at an end of the text, and a character that is to be
taken out must start there; otherwise there is no result.

## Main statements

* `byteIndex_append`: where a character starts.
* `insertAt?_isSome_iff`, `removeAt?_isSome_iff`: where a string can be edited.
* `insertAt?_append`, `removeAt?_append`: what an edit makes of a text.
-/

namespace ExprView

/-- The byte offset at which the `n`-th character starts, or the text ends if there is none. -/
def byteIndex : Nat → List Char → Nat
  | 0, _ => 0
  | _ + 1, [] => 0
  | n + 1, c :: cs => c.utf8Size + byteIndex n cs

/-- A character starts behind the bytes of those in front of it. -/
@[simp] theorem byteIndex_append (a b : List Char) : byteIndex a.length (a ++ b) = byteLength a := by
  induction a with
  | nil => rfl
  | cons c a ih => simp [byteIndex, ih]

/-- Cuts a text at a byte offset, if that is not within a character or behind the end. -/
def cutAt? (n : Nat) (cs : List Char) : Option (List Char × List Char) :=
  if byteLength (splitBytes n cs).1 = n then some (splitBytes n cs) else none

theorem splitBytes_byteLength (a b : List Char) : splitBytes (byteLength a) (a ++ b) = (a, b) := by
  induction a with
  | nil => simp
  | cons c a ih => simp [splitBytes, ih]

/-- A text can be cut exactly where a first piece of it ends. -/
theorem cutAt?_eq_some_iff {n : Nat} {cs front back : List Char} :
    cutAt? n cs = some (front, back) ↔ cs = front ++ back ∧ byteLength front = n := by
  constructor
  · intro h
    simp only [cutAt?, Option.ite_none_right_eq_some, Option.some.injEq] at h
    obtain ⟨hlength, hpieces⟩ := h
    have happ := splitBytes_append n cs
    rw [hpieces] at happ hlength
    exact ⟨happ.symm, hlength⟩
  · rintro ⟨rfl, rfl⟩
    simp [cutAt?, splitBytes_byteLength]

/-- A string can be cut exactly where the bytes in front are whole characters. -/
theorem exists_cutAt?_iff {s : String} {n : Nat} :
    (∃ front back, cutAt? n s.toList = some (front, back)) ↔
      String.Pos.Raw.IsValid s ⟨n⟩ := by
  simp only [cutAt?_eq_some_iff, String.Pos.Raw.isValid_iff_exists_append]
  constructor
  · rintro ⟨front, back, hs, hn⟩
    refine ⟨String.ofList front, String.ofList back, ?_, ?_⟩
    · rw [← String.toList_inj, hs]
      simp
    · rw [String.Pos.Raw.ext_iff, String.byteIdx_rawEndPos, ← byteLength_toList,
        String.toList_ofList, hn]
  · rintro ⟨front, back, rfl, hn⟩
    refine ⟨front.toList, back.toList, String.toList_append, ?_⟩
    rw [byteLength_toList]
    exact (congrArg String.Pos.Raw.byteIdx hn).symm

/-- Puts a character into a text at a byte offset. -/
def insertAt? (n : Nat) (c : Char) (cs : List Char) : Option (List Char) :=
  match cutAt? n cs with
  | some (front, back) => some (front ++ c :: back)
  | none => none

/-- Takes the character out of a text that starts at a byte offset. -/
def removeAt? (n : Nat) (cs : List Char) : Option (List Char) :=
  match cutAt? n cs with
  | some (front, _ :: back) => some (front ++ back)
  | _ => none

/-- A character can be inserted between any two characters of a string, and at its ends. -/
theorem insertAt?_isSome_iff {s : String} {n : Nat} {c : Char} :
    (insertAt? n c s.toList).isSome = true ↔ String.Pos.Raw.IsValid s ⟨n⟩ := by
  rw [← exists_cutAt?_iff, insertAt?]
  rcases cutAt? n s.toList with _ | ⟨front, back⟩ <;> simp

/-- A character can be removed where one starts. -/
theorem removeAt?_isSome_iff {s : String} {n : Nat} :
    (removeAt? n s.toList).isSome = true ↔
      String.Pos.Raw.IsValid s ⟨n⟩ ∧ n < s.utf8ByteSize := by
  rw [← exists_cutAt?_iff, removeAt?]
  rcases h : cutAt? n s.toList with _ | ⟨front, back⟩
  · simp
  · obtain ⟨hs, rfl⟩ := cutAt?_eq_some_iff.mp h
    rw [← byteLength_toList, hs, byteLength_append]
    cases back with
    | nil => simp
    | cons c back =>
      have hpos : 0 < byteLength (c :: back) := Nat.add_pos_left c.utf8Size_pos _
      simpa using hpos

theorem insertAt?_append (a b : List Char) (c : Char) :
    insertAt? (byteLength a) c (a ++ b) = some (a ++ c :: b) := by
  rw [insertAt?, cutAt?_eq_some_iff.mpr ⟨rfl, rfl⟩]

theorem removeAt?_append (a b : List Char) (c : Char) :
    removeAt? (byteLength a) (a ++ c :: b) = some (a ++ b) := by
  rw [removeAt?, cutAt?_eq_some_iff.mpr ⟨rfl, rfl⟩]

end ExprView
