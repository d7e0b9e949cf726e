/-!
# Runs of one class

A text that starts with a run of characters of one class, and goes on with a character of another,
is cut after the run in one way. The numeral of a number is such a run.

## Main statements

* `append_inj_of_stop`: a run and what follows it can be told from the text.
* `toDigits_append_inj`: so can a number and what follows its numeral.
-/

namespace ExprView

variable {p : Char → Bool} {run run' rest rest' : List Char}

theorem takeWhile_append_of_stop (hrun : ∀ c ∈ run, p c = true)
    (hrest : ∀ c, rest.head? = some c → p c = false) : (run ++ rest).takeWhile p = run := by
  rw [List.takeWhile_append_of_pos hrun]
  cases rest with
  | nil => simp
  | cons c rest => simp [hrest c rfl]

theorem dropWhile_append_of_stop (hrun : ∀ c ∈ run, p c = true)
    (hrest : ∀ c, rest.head? = some c → p c = false) : (run ++ rest).dropWhile p = rest := by
  rw [List.dropWhile_append_of_pos hrun]
  cases rest with
  | nil => rfl
  | cons c rest => simp [hrest c rfl]

/-- A run ends where its class does. -/
theorem eq_false_of_head?_dropWhile {cs : List Char} {c : Char}
    (h : (cs.dropWhile p).head? = some c) : p c = false := by
  have hnot := List.head?_dropWhile_not p cs
  rw [h] at hnot
  exact hnot

/-- A run and what follows it can be told from the text. -/
theorem append_inj_of_stop (hrun : ∀ c ∈ run, p c = true) (hrun' : ∀ c ∈ run', p c = true)
    (hrest : ∀ c, rest.head? = some c → p c = false)
    (hrest' : ∀ c, rest'.head? = some c → p c = false) (h : run ++ rest = run' ++ rest') :
    run = run' ∧ rest = rest' := by
  have htake := congrArg (List.takeWhile p) h
  have hdrop := congrArg (List.dropWhile p) h
  rw [takeWhile_append_of_stop hrun hrest, takeWhile_append_of_stop hrun' hrest'] at htake
  rw [dropWhile_append_of_stop hrun hrest, dropWhile_append_of_stop hrun' hrest'] at hdrop
  exact ⟨htake, hdrop⟩

/-! ### Numerals -/

theorem isDigit_of_mem_toDigits {n : Nat} : ∀ c ∈ Nat.toDigits 10 n, c.isDigit = true :=
  fun _ hc => Nat.isDigit_of_mem_toDigits (by decide) (by decide) hc

/-- A number and what follows its numeral can be told from the text, if that is not a digit. -/
theorem toDigits_append_inj {m n : Nat}
    (hrest : ∀ c, rest.head? = some c → c.isDigit = false)
    (hrest' : ∀ c, rest'.head? = some c → c.isDigit = false)
    (h : Nat.toDigits 10 m ++ rest = Nat.toDigits 10 n ++ rest') : m = n ∧ rest = rest' := by
  obtain ⟨hdigits, hrests⟩ :=
    append_inj_of_stop isDigit_of_mem_toDigits isDigit_of_mem_toDigits hrest hrest' h
  refine ⟨?_, hrests⟩
  rw [← @Nat.ofDigitChars_ten_toDigits m, hdigits, Nat.ofDigitChars_ten_toDigits]

end ExprView
