import ExprView.Session.Line
import ExprView.Session.Run
import Mathlib.Data.List.Basic

/-!
# Editing is moving along two lists

A session holds the line as one text with a cursor that counts characters, and edits it at byte
offsets. Seen from the cursor the line is two lists, and each key does to the session what it does
to the two lists. So every edit that a key asks for can be made: its place is where a character
starts or the line ends.

## Main statements

* `Session.Shows.press?`: what a key does to a session is what it does to the line that it shows.
* `press_refines_line`: the same for all keys of a run.
-/

namespace ExprView

namespace Session

/-- The session shows the line: the text is in its input, with the cursor in its place. -/
structure Shows (s : Session) (l : Line) : Prop where
  /-- The input is the text. -/
  input_eq : s.input.toList = l.before ++ l.after
  /-- The cursor is behind the characters before it. -/
  cursor_eq : s.cursor = l.before.length

/-- The characters before the cursor and those after it. -/
def line (s : Session) : Line :=
  { before := s.input.toList.take s.cursor, after := s.input.toList.drop s.cursor }

variable {s s' : Session} {l : Line} {a b cs : List Char}

namespace Shows

/-- A session shows no other line than its own. -/
theorem line_eq (h : s.Shows l) : s.line = l := by
  rw [line, h.input_eq, h.cursor_eq, List.take_left, List.drop_left]

theorem length_eq (h : s.Shows l) : s.input.length = l.before.length + l.after.length := by
  rw [← String.length_toList, h.input_eq, List.length_append]

/-- The cursor is within the line. -/
theorem cursor_le (h : s.Shows l) : s.cursor ≤ s.input.length := by
  rw [h.length_eq, h.cursor_eq]
  exact Nat.le_add_right ..

end Shows

/-- With the cursor within it, the line is shown. -/
theorem shows_line (h : s.cursor ≤ s.input.length) : s.Shows s.line := by
  refine ⟨(List.take_append_drop ..).symm, ?_⟩
  rw [line, List.length_take, String.length_toList, Nat.min_eq_left h]

theorem start_shows (input : String) : (start input).Shows (Line.ofText input.toList) :=
  ⟨(List.append_nil _).symm, String.length_toList.symm⟩

/-! ### Edits -/

/-- The place of a character, when the characters in front of it are known. -/
theorem place_eq (h : s.input.toList = a ++ b) : s.place a.length = byteLength a := by
  rw [place, h, byteIndex_append]

/-- A character can go in front of the cursor, whatever there is. -/
theorem insertAt?_of_shows (c : Char) (h : s.Shows ⟨a, b⟩) :
    insertAt? (s.place s.cursor) c s.input.toList = some (a ++ [c] ++ b) := by
  have hcursor : s.cursor = a.length := h.cursor_eq
  have hinput : s.input.toList = a ++ b := h.input_eq
  rw [hcursor, place_eq hinput, hinput, insertAt?_append, List.append_cons]

/-- A character in front of the cursor can be removed. -/
theorem removeAt?_before {c : Char} (h : s.Shows ⟨a ++ [c], b⟩) :
    s.cursor - 1 = a.length ∧
      removeAt? (s.place (s.cursor - 1)) s.input.toList = some (a ++ b) := by
  have hcursor : s.cursor = a.length + 1 := by simpa using h.cursor_eq
  have hinput : s.input.toList = a ++ c :: b := by simpa using h.input_eq
  rw [hcursor, Nat.add_sub_cancel, place_eq hinput, hinput, removeAt?_append]
  exact ⟨rfl, rfl⟩

/-- A character behind the cursor can be removed. -/
theorem removeAt?_after {c : Char} (h : s.Shows ⟨a, c :: b⟩) :
    removeAt? (s.place s.cursor) s.input.toList = some (a ++ b) := by
  have hcursor : s.cursor = a.length := h.cursor_eq
  have hinput : s.input.toList = a ++ c :: b := h.input_eq
  rw [hcursor, place_eq hinput, hinput, removeAt?_append]

/-- An edited line is shown with the cursor where it was moved. -/
theorem change?_shows (s : Session) {o : Option (List Char)} {n : Nat} (h : o = some (a ++ b))
    (hn : n = a.length) : ∃ s', s.change? o n = some s' ∧ s'.Shows ⟨a, b⟩ := by
  subst h
  exact ⟨_, rfl, String.toList_ofList, hn⟩

theorem insert?_of_shows (c : Char) (h : s.Shows ⟨a, b⟩) :
    ∃ s', s.insert? c = some s' ∧ s'.Shows ⟨a ++ [c], b⟩ := by
  have hmoved : s.cursor + 1 = (a ++ [c]).length := by simp [h.cursor_eq]
  exact s.change?_shows (insertAt?_of_shows c h) hmoved

theorem eraseBefore?_of_shows {c : Char} (h : s.Shows ⟨a ++ [c], b⟩) :
    ∃ s', s.eraseBefore? = some s' ∧ s'.Shows ⟨a, b⟩ := by
  obtain ⟨hmoved, hline⟩ := removeAt?_before h
  have hpos : 0 < s.cursor := by simp [h.cursor_eq]
  rw [eraseBefore?, if_pos hpos]
  exact s.change?_shows hline hmoved

theorem eraseAfter?_of_shows {c : Char} (h : s.Shows ⟨a, c :: b⟩) :
    ∃ s', s.eraseAfter? = some s' ∧ s'.Shows ⟨a, b⟩ := by
  have hlt : s.cursor < s.input.length := by simp [h.length_eq, h.cursor_eq]
  rw [eraseAfter?, if_pos hlt]
  exact s.change?_shows (removeAt?_after h) h.cursor_eq

/-- Where a key may edit the line, a character of its UTF-8 form starts, or the line ends and there
is nothing to be removed. -/
structure EditsInPlace (s : Session) : Prop where
  /-- The place of an insertion. -/
  insert : String.Pos.Raw.IsValid s.input ⟨s.place s.cursor⟩
  /-- The place of a removal in front of the cursor. -/
  eraseBefore : 0 < s.cursor → String.Pos.Raw.IsValid s.input ⟨s.place (s.cursor - 1)⟩ ∧
    s.place (s.cursor - 1) < s.input.utf8ByteSize
  /-- The place of a removal behind the cursor. -/
  eraseAfter : s.cursor < s.input.length → String.Pos.Raw.IsValid s.input ⟨s.place s.cursor⟩ ∧
    s.place s.cursor < s.input.utf8ByteSize

/-- With the cursor within the line, it is edited in place. -/
theorem Shows.editsInPlace (h : s.Shows l) : s.EditsInPlace := by
  obtain ⟨a, b⟩ := l
  refine ⟨?_, ?_, ?_⟩
  · exact insertAt?_isSome_iff.mp (Option.isSome_of_eq_some (insertAt?_of_shows ' ' h))
  · intro hpos
    rcases List.eq_nil_or_concat' a with rfl | ⟨a, c, rfl⟩
    · simp [h.cursor_eq] at hpos
    · exact removeAt?_isSome_iff.mp (Option.isSome_of_eq_some (removeAt?_before h).2)
  · intro hlt
    cases b with
    | nil => simp [h.length_eq, h.cursor_eq] at hlt
    | cons c b => exact removeAt?_isSome_iff.mp (Option.isSome_of_eq_some (removeAt?_after h))

/-! ### Keys -/

/-- What only moves the cursor shows the same text. -/
theorem Shows.move {n : Nat} (h : s.Shows l) {l' : Line}
    (htext : l'.before ++ l'.after = l.before ++ l.after) (hn : n = l'.before.length) :
    ({ s with cursor := n } : Session).Shows l' :=
  ⟨h.input_eq.trans htext.symm, hn⟩

/-- What leaves the line and the cursor alone shows the same line. -/
theorem Shows.of_eq (h : s.Shows l) (hinput : s'.input = s.input) (hcursor : s'.cursor = s.cursor) :
    s'.Shows l :=
  ⟨hinput ▸ h.input_eq, hcursor.trans h.cursor_eq⟩

/-- A character is inserted if nothing but perhaps the shift key is held down with it. -/
theorem Shows.press?_char (h : s.Shows l) (c : Char) (m : Modifiers) :
    ∃ s', s.press? ⟨.char c, m⟩ = some s' ∧ s'.Shows (l.press ⟨.char c, m⟩) := by
  obtain ⟨a, b⟩ := l
  by_cases hplain : m.plain = true
  · -- what is plain does not end the session
    have hcontrol : m.control = false := Modifiers.control_of_plain hplain
    obtain ⟨s', hs', hshows⟩ := insert?_of_shows c h
    refine ⟨s', ?_, ?_⟩
    · simpa [press?, hcontrol, hplain] using hs'
    · simpa [Line.press, hplain] using hshows
  · have hline : Line.press ⟨a, b⟩ ⟨.char c, m⟩ = ⟨a, b⟩ := by simp [Line.press, hplain]
    rw [hline]
    by_cases hquit : c = 'c' ∧ m.control = true
    · exact ⟨{ s with quit := true }, by simp only [press?, if_pos hquit], h.of_eq rfl rfl⟩
    · exact ⟨s, by simp [press?, hquit, hplain], h⟩

/-- At the start of the line there is nothing in front of the cursor to be removed. -/
theorem Shows.press?_backspace (h : s.Shows l) (m : Modifiers) :
    ∃ s', s.press? ⟨.backspace, m⟩ = some s' ∧ s'.Shows (l.press ⟨.backspace, m⟩) := by
  obtain ⟨a, b⟩ := l
  rcases List.eq_nil_or_concat' a with rfl | ⟨a, c, rfl⟩
  · have hzero : ¬ 0 < s.cursor := by simp [h.cursor_eq]
    exact ⟨s, by simp only [press?, eraseBefore?, if_neg hzero], h⟩
  · obtain ⟨s', hs', hshows⟩ := eraseBefore?_of_shows h
    refine ⟨s', hs', ?_⟩
    simpa [Line.press] using hshows

/-- At the end of the line there is nothing behind the cursor to be removed. -/
theorem Shows.press?_delete (h : s.Shows l) (m : Modifiers) :
    ∃ s', s.press? ⟨.delete, m⟩ = some s' ∧ s'.Shows (l.press ⟨.delete, m⟩) := by
  obtain ⟨a, b⟩ := l
  cases b with
  | nil =>
    have hend : ¬ s.cursor < s.input.length := by
      rw [h.length_eq, h.cursor_eq]
      simp
    exact ⟨s, by simp only [press?, eraseAfter?, if_neg hend], h⟩
  | cons c b => exact eraseAfter?_of_shows h

/-- The cursor moves over one character, unless it is at the end to which it should move. -/
theorem Shows.press?_left (h : s.Shows l) (m : Modifiers) :
    ∃ s', s.press? ⟨.left, m⟩ = some s' ∧ s'.Shows (l.press ⟨.left, m⟩) := by
  obtain ⟨a, b⟩ := l
  refine ⟨_, rfl, ?_⟩
  rcases List.eq_nil_or_concat' a with rfl | ⟨a, c, rfl⟩
  · exact h.move rfl (by simp [h.cursor_eq, Line.press, Line.moveLeft])
  · refine h.move ?_ ?_
    · simp [Line.press, Line.moveLeft]
    · simp [h.cursor_eq, Line.press, Line.moveLeft]

theorem Shows.press?_right (h : s.Shows l) (m : Modifiers) :
    ∃ s', s.press? ⟨.right, m⟩ = some s' ∧ s'.Shows (l.press ⟨.right, m⟩) := by
  obtain ⟨a, b⟩ := l
  refine ⟨_, rfl, ?_⟩
  cases b with
  | nil =>
    refine h.move rfl ?_
    simp [h.cursor_eq, h.length_eq, Line.press, Line.moveRight]
  | cons c b =>
    refine h.move ?_ ?_
    · simp [Line.press, Line.moveRight]
    · simp [h.cursor_eq, h.length_eq, Line.press, Line.moveRight]

/-- What a key does to a session is what it does to the line that the session shows. -/
theorem Shows.press? (h : s.Shows l) (k : KeyPress) :
    ∃ s', s.press? k = some s' ∧ s'.Shows (l.press k) := by
  obtain ⟨key, m⟩ := k
  cases key with
  | char c => exact h.press?_char c m
  | backspace => exact h.press?_backspace m
  | delete => exact h.press?_delete m
  | left => exact h.press?_left m
  | right => exact h.press?_right m
  | home => exact ⟨_, rfl, h.move rfl rfl⟩
  | last => exact ⟨_, rfl, h.move (by simp [Line.press, Line.text])
      (by simp [h.length_eq, Line.press, Line.text])⟩
  | escape => exact ⟨_, rfl, h.of_eq rfl rfl⟩
  | tab => exact ⟨_, rfl, h.of_eq rfl rfl⟩
  | up => exact ⟨_, rfl, h.of_eq (s.scrollBy_input _) (s.scrollBy_cursor _)⟩
  | down => exact ⟨_, rfl, h.of_eq (s.scrollBy_input _) (s.scrollBy_cursor _)⟩
  | other => exact ⟨_, rfl, h⟩

/-- With the cursor within the line, every edit that a key asks for can be made. -/
theorem press?_eq_some (h : s.cursor ≤ s.input.length) (k : KeyPress) :
    s.press? k = some (s.press k) := by
  obtain ⟨s', hs', -⟩ := (shows_line h).press? k
  rw [press, hs', Option.getD_some]

theorem Shows.press (h : s.Shows l) (k : KeyPress) : (s.press k).Shows (l.press k) := by
  obtain ⟨s', hs', hshows⟩ := h.press? k
  rwa [Session.press, hs', Option.getD_some]

/-- What the keys of a run do. -/
theorem Shows.foldlM_press? (h : s.Shows l) (ks : List KeyPress) :
    ks.foldlM Session.press? s = some (ks.foldl Session.press s) ∧
      (ks.foldl Session.press s).Shows (ks.foldl Line.press l) := by
  induction ks generalizing s l with
  | nil => exact ⟨rfl, h⟩
  | cons k ks ih =>
    obtain ⟨hrun, hshows⟩ := ih (h.press k)
    refine ⟨?_, hshows⟩
    rw [List.foldlM_cons, press?_eq_some h.cursor_le k]
    exact hrun

end Session

/-- A session edits a line as two lists are edited. From any line on and with any keys, every edit
can be made, and the characters before and after the cursor are the two lists that the same keys
lead to. Where the next key may insert or remove a character, one starts in the UTF-8 form of the
line, or the line ends. -/
theorem press_refines_line (input : String) (ks : List KeyPress) :
    ∃ s, ks.foldlM Session.press? (Session.start input) = some s ∧
      (Session.start input).run (ks.map .press) = s ∧
      s.line = ks.foldl Line.press (Line.ofText input.toList) ∧ s.EditsInPlace := by
  obtain ⟨hrun, hshows⟩ := (Session.start_shows input).foldlM_press? ks
  refine ⟨_, hrun, ?_, hshows.line_eq, hshows.editsInPlace⟩
  rw [Session.run, List.foldl_map]
  rfl

end ExprView
