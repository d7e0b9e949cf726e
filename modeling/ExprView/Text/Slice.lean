import ExprView.Text.Edit

/-!
# Slices

A piece of a text, given by the byte offsets at which it starts and stops. Both must lie between two
characters or at an end of the text, and the piece must not stop in front of its start; otherwise
there is no result.

## Main statements

* `slice?_eq_some_iff`: what is cut out.
* `slice?_isSome_iff`: where a string can be cut.
-/

namespace ExprView

/-- The text from byte `first` up to byte `stop`. -/
def slice? (first stop : Nat) (cs : List Char) : Option (List Char) :=
  match cutAt? stop cs with
  | some (front, _) => (cutAt? first front).map Prod.snd
  | none => none

/-- A piece is cut out exactly at the bytes at which it starts and stops. -/
theorem slice?_eq_some_iff {first stop : Nat} {cs text : List Char} :
    slice? first stop cs = some text ↔
      ∃ front back, cs = front ++ (text ++ back) ∧ byteLength front = first ∧
        first + byteLength text = stop := by
  constructor
  · intro h
    unfold slice? at h
    split at h
    · next upTo back hstop =>
      obtain ⟨⟨front, rest⟩, hfirst, rfl⟩ := Option.map_eq_some_iff.mp h
      obtain ⟨rfl, rfl⟩ := cutAt?_eq_some_iff.mp hfirst
      obtain ⟨rfl, rfl⟩ := cutAt?_eq_some_iff.mp hstop
      exact ⟨front, back, List.append_assoc .., rfl, (byteLength_append ..).symm⟩
    · cases h
  · rintro ⟨front, back, rfl, rfl, rfl⟩
    have hstop : cutAt? (byteLength front + byteLength text) (front ++ (text ++ back)) =
        some (front ++ text, back) :=
      cutAt?_eq_some_iff.mpr ⟨(List.append_assoc ..).symm, byteLength_append ..⟩
    have hfirst : cutAt? (byteLength front) (front ++ text) = some (front, text) :=
      cutAt?_eq_some_iff.mpr ⟨rfl, rfl⟩
    simp only [slice?, hstop, hfirst, Option.map_some]

/-- A piece of a string can be cut out exactly if it starts and stops where the bytes in front are
whole characters, and does not stop in front of its start. -/
theorem slice?_isSome_iff {s : String} {first stop : Nat} :
    (slice? first stop s.toList).isSome = true ↔
      first ≤ stop ∧ String.Pos.Raw.IsValid s ⟨first⟩ ∧ String.Pos.Raw.IsValid s ⟨stop⟩ := by
  simp only [Option.isSome_iff_exists, slice?_eq_some_iff, ← exists_cutAt?_iff,
    cutAt?_eq_some_iff]
  constructor
  · rintro ⟨text, front, back, hs, rfl, rfl⟩
    refine ⟨Nat.le_add_right .., ⟨front, text ++ back, hs, rfl⟩, front ++ text, back, ?_, ?_⟩
    · rw [hs, List.append_assoc]
    · exact byteLength_append ..
  · rintro ⟨hle, ⟨front, rest, hs, rfl⟩, upTo, back, hs', rfl⟩
    rcases List.append_eq_append_iff.mp (hs.symm.trans hs') with
      ⟨text, rfl, rfl⟩ | ⟨text, rfl, rfl⟩
    · exact ⟨text, front, back, hs, rfl, (byteLength_append ..).symm⟩
    · cases text with
      | nil => exact ⟨[], upTo, rest, by simpa using hs, by simp, by simp⟩
      | cons c text =>
        have hpos := c.utf8Size_pos
        simp only [byteLength_append, byteLength_cons] at hle
        omega

end ExprView
