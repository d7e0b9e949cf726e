/-!
# Bytes of a text

A source is read character by character, and places in it are named by offsets in the bytes
of its UTF-8 form. `byteLength` measures a piece of text in bytes, and `splitBytes` cuts a
text at a byte offset.

## Main statements

* `byteLength_toList`: the measure is the size of the string.
* `splitBytes_append`: nothing is lost in cutting.
-/

namespace ExprView

/-- The number of bytes of the UTF-8 form of a text. -/
def byteLength (cs : List Char) : Nat := cs.foldr (fun c n => c.utf8Size + n) 0

@[simp] theorem byteLength_nil : byteLength [] = 0 := rfl

@[simp] theorem byteLength_cons (c : Char) (cs : List Char) :
    byteLength (c :: cs) = c.utf8Size + byteLength cs := rfl

@[simp] theorem byteLength_append (a b : List Char) :
    byteLength (a ++ b) = byteLength a + byteLength b := by
  induction a with
  | nil => simp
  | cons c a ih => simp [ih, Nat.add_assoc]

/-- The bytes of a string are those of its characters. -/
theorem byteLength_toList (s : String) : byteLength s.toList = s.utf8ByteSize := by
  have h (cs : List Char) : (String.ofList cs).utf8ByteSize = byteLength cs := by
    induction cs with
    | nil => rfl
    | cons c cs ih => simp [String.ofList_cons, String.utf8ByteSize_append, ih]
  rw [← h, String.ofList_toList]

/-- Cuts a text after its first `n` bytes. A character that would be cut through, and all
after it, go to the second piece. -/
def splitBytes : Nat → List Char → List Char × List Char
  | _, [] => ([], [])
  | n, c :: cs =>
    if c.utf8Size ≤ n then
      let (front, back) := splitBytes (n - c.utf8Size) cs
      (c :: front, back)
    else ([], c :: cs)

@[simp] theorem splitBytes_zero (cs : List Char) : splitBytes 0 cs = ([], cs) := by
  cases cs with
  | nil => rfl
  | cons c cs =>
    have := c.utf8Size_pos
    simp only [splitBytes]
    rw [if_neg (by omega)]

/-- Nothing is lost in cutting. -/
theorem splitBytes_append (n : Nat) (cs : List Char) :
    (splitBytes n cs).1 ++ (splitBytes n cs).2 = cs := by
  induction cs generalizing n with
  | nil => rfl
  | cons c cs ih =>
    simp only [splitBytes]
    split
    · simp [ih]
    · rfl

end ExprView
