/-!
# Lines

A text is a sequence of lines, each closed by a line feed; a carriage return in front of the
line feed belongs to it. Text after the last line feed is a line too, and there is none if
nothing follows it.

## Main statements

* `splitLines_append`, `splitLines_of_notMem`: the first line ends at the first line feed, and the
  last one at the end of the text.
-/

namespace ExprView

/-- A line without the carriage return at its end. -/
def dropReturn (line : List Char) : List Char :=
  if line.getLast? = some '\r' then line.dropLast else line

theorem length_dropWhile_lt {p : Char → Bool} {cs rest : List Char} {c : Char}
    (h : cs.dropWhile p = c :: rest) : rest.length < cs.length := by
  have := (List.dropWhile_sublist p (l := cs)).length_le
  rw [h] at this
  exact this

/-- The lines of a text. -/
def splitLines (cs : List Char) : List (List Char) :=
  match h : cs.dropWhile (· != '\n') with
  | [] => if cs.isEmpty then [] else [cs]
  | _ :: rest =>
    have := length_dropWhile_lt h
    dropReturn (cs.takeWhile (· != '\n')) :: splitLines rest
termination_by cs.length

theorem ne_lineFeed_of_notMem {cs : List Char} (h : '\n' ∉ cs) :
    ∀ c ∈ cs, (c != '\n') = true := by
  intro c hc
  rw [bne_iff_ne]
  rintro rfl
  exact h hc

/-- A text without a line feed is one line, if it is not empty. -/
theorem splitLines_of_notMem {cs : List Char} (h : '\n' ∉ cs) :
    splitLines cs = if cs.isEmpty then [] else [cs] := by
  have hd : (cs ++ []).dropWhile (· != '\n') = [] :=
    List.dropWhile_append_of_pos (ne_lineFeed_of_notMem h)
  rw [List.append_nil] at hd
  rw [splitLines]
  split
  · rfl
  · next hu => rw [hd] at hu; cases hu

/-- The text up to the first line feed is the first line. -/
theorem splitLines_append {line : List Char} (h : '\n' ∉ line) (cs : List Char) :
    splitLines (line ++ '\n' :: cs) = dropReturn line :: splitLines cs := by
  have hp := ne_lineFeed_of_notMem h
  have hd : (line ++ '\n' :: cs).dropWhile (· != '\n') = '\n' :: cs := by
    rw [List.dropWhile_append_of_pos hp]; simp
  have ht : (line ++ '\n' :: cs).takeWhile (· != '\n') = line := by
    rw [List.takeWhile_append_of_pos hp]; simp
  rw [splitLines]
  split
  · next hu => rw [hd] at hu; cases hu
  · next hu =>
    rw [hd] at hu
    obtain ⟨-, rfl⟩ := List.cons.inj hu
    rw [ht]

end ExprView
