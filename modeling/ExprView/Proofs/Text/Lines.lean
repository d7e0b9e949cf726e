import ExprView.Text.Lines

/-!
# Texts that are laid out in lines

A text without control characters but for its line feeds, each of which starts a line with something
other than spaces in it. Taking it apart into lines drops nothing, and what starts a line tells how far
that is indented.

## Main statements

* `LaidOut.append`, `LaidOut.newLine`: text that goes on with a line, and text on a line of its own.
* `LaidOut.lines`: the lines of such a text.
-/

namespace ExprView

/-- The number of spaces at the start of a line. -/
def indentation (line : List Char) : Nat := (line.takeWhile (· = ' ')).length

theorem indentation_spaces {c : Char} (hc : c ≠ ' ') (k : Nat) (cs : List Char) :
    indentation (List.replicate k ' ' ++ c :: cs) = k := by
  have hspaces : ∀ d ∈ List.replicate k ' ', decide (d = ' ') = true :=
    fun d hd => decide_eq_true (List.eq_of_mem_replicate hd)
  simp [indentation, List.takeWhile_append_of_pos hspaces, hc]

/-- A line is indented as far as the text that starts with it. -/
theorem indentation_append_lineFeed (line rest : List Char) :
    indentation (line ++ '\n' :: rest) = indentation line := by
  induction line with
  | nil => rfl
  | cons c line ih =>
    by_cases hc : c = ' '
    · simpa [indentation, hc] using ih
    · simp [indentation, hc]

/-! ### Lines without control characters -/

/-- A text has no control characters. -/
def Printed (cs : List Char) : Prop := ∀ c ∈ cs, ' ' ≤ c

instance (cs : List Char) : Decidable (Printed cs) := List.decidableBAll (' ' ≤ ·) cs

variable {c : Char} {k : Nat} {ks : List Nat} {line cs : List Char}

theorem Printed.append {ds : List Char} (hcs : Printed cs) (hds : Printed ds) :
    Printed (cs ++ ds) :=
  List.forall_mem_append.mpr ⟨hcs, hds⟩

theorem Printed.lineFeed_notMem (h : Printed line) : '\n' ∉ line :=
  fun hmem => absurd (h _ hmem) (by decide)

/-- There is no carriage return that a line could lose. -/
theorem Printed.dropReturn_eq (h : Printed line) : dropReturn line = line := by
  rw [dropReturn, if_neg]
  intro hlast
  exact absurd (h _ (List.mem_of_getLast? hlast)) (by decide)

theorem printed_spaces (k : Nat) : Printed (List.replicate k ' ') := by
  intro c hc
  obtain rfl : c = ' ' := List.eq_of_mem_replicate hc
  exact Char.le_refl ' '

/-! ### Laid out texts -/

/-- A text in lines. The numbers tell how far each line behind the first one is indented. -/
inductive LaidOut : List Nat → List Char → Prop where
  /-- No text. -/
  | nil : LaidOut [] []
  /-- A character goes on with its line. -/
  | char {c : Char} {ks : List Nat} {cs : List Char} :
      ' ' ≤ c → LaidOut ks cs → LaidOut ks (c :: cs)
  /-- A line feed starts a line, and something stands behind its spaces. -/
  | line {c : Char} {ks : List Nat} {cs : List Char} (k : Nat) :
      c ≠ ' ' → LaidOut ks (c :: cs) →
      LaidOut (k :: ks) ('\n' :: (List.replicate k ' ' ++ c :: cs))

theorem LaidOut.append (hline : Printed line) (h : LaidOut ks cs) : LaidOut ks (line ++ cs) := by
  induction line with
  | nil => exact h
  | cons c line ih =>
    obtain ⟨hc, hline⟩ := List.forall_mem_cons.mp hline
    exact .char hc (ih hline)

/-- A text that starts with something other than a space, on a line of its own. -/
theorem LaidOut.newLine (k : Nat) (hhead : cs.head?.any (· ≠ ' ') = true) (h : LaidOut ks cs) :
    LaidOut (k :: ks) ('\n' :: (List.replicate k ' ' ++ cs)) := by
  cases cs with
  | nil => cases hhead
  | cons c cs => exact .line k (by simpa using hhead) h

/-- The lines of a laid out text, of which the start of the first line is given apart. Between line
feeds they are the text again. -/
theorem LaidOut.lines_append (h : LaidOut ks cs) (start : List Char)
    (hstart : Printed start) (hne : start ++ cs ≠ []) :
    ['\n'].intercalate (splitLines (start ++ cs)) = start ++ cs ∧
      (splitLines (start ++ cs)).map indentation = indentation (start ++ cs) :: ks := by
  -- on the layout: the start of the first line takes up its characters one by one
  induction h generalizing start with
  | nil =>
    rw [List.append_nil] at hne ⊢
    rw [splitLines_of_notMem hstart.lineFeed_notMem, if_neg (by rwa [List.isEmpty_iff])]
    exact ⟨List.intercalate_singleton, rfl⟩
  | @char c ks cs hc _ ih =>
    have hnext : Printed [c] := List.forall_mem_singleton.mpr hc
    have hshift : start ++ c :: cs = (start ++ [c]) ++ cs := by simp
    rw [hshift]
    exact ih (start ++ [c]) (hstart.append hnext) (by simp)
  | @line c ks cs k hc _ ih =>
    -- what follows the spaces is laid out, and the spaces start its first line
    obtain ⟨hjoin, hindents⟩ := ih (List.replicate k ' ') (printed_spaces k) (by simp)
    rw [splitLines_append hstart.lineFeed_notMem, hstart.dropReturn_eq]
    rw [indentation_spaces hc] at hindents
    constructor
    · obtain ⟨next, rest, hlines⟩ : ∃ next rest,
          splitLines (List.replicate k ' ' ++ c :: cs) = next :: rest :=
        List.exists_cons_of_ne_nil (by rintro hnil; rw [hnil] at hindents; cases hindents)
      rw [hlines] at hjoin ⊢
      rw [List.intercalate_cons_cons, hjoin]
      simp
    · rw [List.map_cons, hindents, indentation_append_lineFeed]

/-- Between line feeds the lines of a laid out text are the text again, and they are indented as it
says. -/
theorem LaidOut.lines (h : LaidOut ks cs) (hne : cs ≠ []) :
    ['\n'].intercalate (splitLines cs) = cs ∧
      (splitLines cs).map indentation = indentation cs :: ks :=
  h.lines_append [] (List.forall_mem_nil _) hne

end ExprView
