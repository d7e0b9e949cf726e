import ExprView.Screen.Row
import Mathlib.Data.List.Basic

/-!
# The window on a row

A row is scrolled by leaving out what stands in its first columns, and cut by keeping what fits in the
others. Both look only at the columns of a symbol, so whatever else a row carries can be left aside. Of
a row with a symbol marked in it, the marked one is drawn if it is not scrolled away and does not reach
over the edge, and it stands behind what is left of the symbols in front of it.

## Main statements

* `dropColumns_append_cons`, `takeColumns_append`: scrolling and cutting, up to a symbol and behind it.
* `exists_window_eq_iff`: when a marked symbol is drawn, and where.
* `dropColumns_of_narrow`, `takeColumns_of_narrow`: scrolling and cutting a row of symbols of one column.
* `width_le_add_width_dropColumns`: no more than the columns that were asked for are left out.
-/

namespace ExprView

section

variable {α : Type} (f : α → Char) {n s : Nat} {a : α} {front back as : List α}

/-! ### Symbols -/

theorem map_takeColumns (n : Nat) (as : List α) :
    (takeColumns (fun a => columns (f a)) n as).map f = takeColumns columns n (as.map f) := by
  induction as generalizing n with
  | nil => rfl
  | cons a as ih =>
    simp only [takeColumns, List.map_cons]
    split
    · rw [List.map_cons, ih]
    · rfl

theorem map_dropColumns (s : Nat) (as : List α) :
    (dropColumns (fun a => columns (f a)) s as).map f = dropColumns columns s (as.map f) := by
  induction as generalizing s with
  | nil => rfl
  | cons a as ih =>
    simp only [dropColumns, List.map_cons]
    split
    · exact ih _
    · rfl

theorem takeColumns_sublist (size : α → Nat) (n : Nat) (as : List α) :
    (takeColumns size n as).Sublist as := by
  induction as generalizing n with
  | nil => exact .slnil
  | cons a as ih =>
    rw [takeColumns]
    split
    · exact (ih _).cons_cons a
    · exact List.nil_sublist _

theorem dropColumns_sublist (size : α → Nat) (s : Nat) (as : List α) :
    (dropColumns size s as).Sublist as := by
  induction as generalizing s with
  | nil => exact .slnil
  | cons a as ih =>
    rw [dropColumns]
    split
    · exact (ih _).cons a
    · exact List.Sublist.refl _

/-! ### Up to a symbol and behind it -/

/-- Scrolling that does not reach behind a symbol leaves out some of those in front of it. -/
theorem dropColumns_append_cons (h : s < width (front.map f) + columns (f a)) :
    dropColumns (fun a => columns (f a)) s (front ++ a :: back) =
      dropColumns (fun a => columns (f a)) s front ++ a :: back := by
  induction front generalizing s with
  | nil =>
    rw [List.map_nil, width_nil, Nat.zero_add] at h
    simp only [List.nil_append, dropColumns]
    rw [if_neg (Nat.not_le.mpr h)]
  | cons b front ih =>
    rw [List.map_cons, width_cons] at h
    simp only [List.cons_append, dropColumns]
    split
    · exact ih (by omega)
    · rfl

/-- Scrolling that reaches behind a symbol goes on there. -/
theorem dropColumns_append_cons_of_le (h : width (front.map f) + columns (f a) ≤ s) :
    dropColumns (fun a => columns (f a)) s (front ++ a :: back) =
      dropColumns (fun a => columns (f a)) (s - (width (front.map f) + columns (f a))) back := by
  induction front generalizing s with
  | nil =>
    rw [List.map_nil, width_nil, Nat.zero_add] at h ⊢
    rw [List.nil_append, dropColumns, if_pos h]
  | cons b front ih =>
    rw [List.map_cons, width_cons] at h ⊢
    rw [List.cons_append, dropColumns, if_pos (by omega), ih (by omega)]
    congr 1
    omega

/-- What fits is kept, and so is as much of the rest as fits behind it. -/
theorem takeColumns_append (h : width (front.map f) ≤ n) :
    takeColumns (fun a => columns (f a)) n (front ++ back) =
      front ++ takeColumns (fun a => columns (f a)) (n - width (front.map f)) back := by
  induction front generalizing n with
  | nil => rfl
  | cons b front ih =>
    rw [List.map_cons, width_cons] at h ⊢
    rw [List.cons_append, takeColumns, if_pos (by omega), ih (by omega), Nat.sub_add_eq]
    rfl

/-- A symbol that reaches over the edge is cut off with all that follows. -/
theorem takeColumns_append_cons_of_lt (h : n < width (front.map f) + columns (f a)) :
    takeColumns (fun a => columns (f a)) n (front ++ a :: back) =
      takeColumns (fun a => columns (f a)) n front := by
  induction front generalizing n with
  | nil =>
    rw [List.map_nil, width_nil, Nat.zero_add] at h
    simp only [List.nil_append, takeColumns]
    rw [if_neg (Nat.not_le.mpr h)]
  | cons b front ih =>
    rw [List.map_cons, width_cons] at h
    simp only [List.cons_append, takeColumns]
    split
    · rw [ih (by omega)]
    · rfl

/-- A marked symbol is in the window exactly if it is not scrolled away and does not reach over the
edge. It stands behind what is left of the symbols in front of it. -/
theorem exists_window_eq_iff {x : Nat} (hfront : a ∉ front) (hback : a ∉ back) :
    (∃ before after, takeColumns (fun a => columns (f a)) n
        (dropColumns (fun a => columns (f a)) s (front ++ a :: back)) = before ++ a :: after ∧
        width (before.map f) = x) ↔
      s < width (front.map f) + columns (f a) ∧
        x = width (dropColumns columns s (front.map f)) ∧ x + columns (f a) ≤ n := by
  have hleft : a ∉ dropColumns (fun a => columns (f a)) s front :=
    fun h => hfront ((dropColumns_sublist _ s front).mem h)
  have hright (m : Nat) : a ∉ takeColumns (fun a => columns (f a)) m back :=
    fun h => hback ((takeColumns_sublist _ m back).mem h)
  have hwidth : width (dropColumns columns s (front.map f)) =
      width ((dropColumns (fun a => columns (f a)) s front).map f) := by rw [map_dropColumns]
  rw [hwidth]
  constructor
  · rintro ⟨before, after, hwindow, rfl⟩
    have hmem : a ∈ before ++ a :: after := List.mem_append_right _ List.mem_cons_self
    rw [← hwindow] at hmem
    have hs : s < width (front.map f) + columns (f a) := by
      refine Nat.lt_of_not_le fun hs => hback ?_
      rw [dropColumns_append_cons_of_le f hs] at hmem
      exact (dropColumns_sublist _ _ _).mem ((takeColumns_sublist _ _ _).mem hmem)
    rw [dropColumns_append_cons f hs] at hmem hwindow
    have hn : width ((dropColumns (fun a => columns (f a)) s front).map f) + columns (f a) ≤ n := by
      refine Nat.le_of_not_lt fun hn => hleft ?_
      rw [takeColumns_append_cons_of_lt f hn] at hmem
      exact (takeColumns_sublist _ _ _).mem hmem
    rw [takeColumns_append f (by omega), takeColumns, if_pos (by omega)] at hwindow
    obtain ⟨rfl, -, -⟩ := (List.append_cons_inj_of_notMem hleft (hright _)).mp hwindow
    exact ⟨hs, rfl, hn⟩
  · rintro ⟨hs, rfl, hn⟩
    rw [dropColumns_append_cons f hs, takeColumns_append f (by omega), takeColumns,
      if_pos (by omega)]
    exact ⟨_, _, rfl, rfl⟩

/-! ### Symbols of one column -/

/-- Of symbols of one column each just as many are left out as there are columns. -/
theorem dropColumns_of_narrow (h : ∀ a ∈ as, columns (f a) = 1) (s : Nat) :
    dropColumns (fun a => columns (f a)) s as = as.drop s := by
  induction as generalizing s with
  | nil => rw [List.drop_nil]; rfl
  | cons a as ih =>
    obtain ⟨ha, has⟩ := List.forall_mem_cons.mp h
    rw [dropColumns, ha]
    cases s with
    | zero => rw [if_neg (by decide), List.drop_zero]
    | succ s => rw [if_pos (by omega), Nat.add_sub_cancel, ih has, List.drop_succ_cons]

/-- Of symbols of one column each just as many are kept as there are columns. -/
theorem takeColumns_of_narrow (h : ∀ a ∈ as, columns (f a) = 1) (n : Nat) :
    takeColumns (fun a => columns (f a)) n as = as.take n := by
  induction as generalizing n with
  | nil => rw [List.take_nil]; rfl
  | cons a as ih =>
    obtain ⟨ha, has⟩ := List.forall_mem_cons.mp h
    rw [takeColumns, ha]
    cases n with
    | zero => rw [if_neg (by decide), List.take_zero]
    | succ n => rw [if_pos (by omega), Nat.add_sub_cancel, ih has, List.take_succ_cons]

end

/-! ### How much is left -/

variable {n s : Nat} {cs : List Char}

theorem takeColumns_of_width_le (h : width cs ≤ n) : takeColumns columns n cs = cs := by
  have happend := @takeColumns_append Char id n cs [] (by rwa [List.map_id])
  rwa [List.append_nil, takeColumns, List.append_nil] at happend

theorem length_le_width (cs : List Char) : cs.length ≤ width cs := by
  induction cs with
  | nil => exact Nat.le_refl 0
  | cons c cs ih =>
    have hpos := columns_pos c
    rw [List.length_cons, width_cons]
    omega

/-- No more than the columns that were asked for are left out. -/
theorem width_le_add_width_dropColumns (s : Nat) (cs : List Char) :
    width cs ≤ s + width (dropColumns columns s cs) := by
  induction cs generalizing s with
  | nil => exact Nat.zero_le _
  | cons c cs ih =>
    rw [dropColumns]
    split
    · have hle := ih (s - columns c)
      rw [width_cons]
      omega
    · exact Nat.le_add_left ..

theorem width_eq_length_iff : width cs = cs.length ↔ ∀ c ∈ cs, columns c = 1 := by
  induction cs with
  | nil => simp
  | cons c cs ih =>
    have hpos := columns_pos c
    have hle := length_le_width cs
    rw [width_cons, List.length_cons, List.forall_mem_cons, ← ih]
    omega

/-- Of symbols of one column each just as many are left out. -/
theorem width_dropColumns_of_narrow (h : ∀ c ∈ cs, columns c = 1) :
    width (dropColumns columns s cs) = cs.length - s := by
  induction cs generalizing s with
  | nil => rw [List.length_nil, Nat.zero_sub]; rfl
  | cons c cs ih =>
    obtain ⟨hc, hcs⟩ := List.forall_mem_cons.mp h
    rw [dropColumns, hc]
    split
    · rw [ih hcs, List.length_cons]
      omega
    · next hs =>
      obtain rfl : s = 0 := by omega
      exact width_eq_length_iff.mpr h

end ExprView
