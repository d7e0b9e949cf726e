import ExprView.Proofs.Session.Freshness
import Mathlib.Algebra.Group.Nat.Even

/-!
# The parts of a session

A session is a line with its cursor, two panes of which one has the focus, and whether it is over. Each
key changes one of the three and leaves the others alone, so that each of them goes its own way through
a run, whatever else happens.

## Main statements

* `Session.press_quit_iff`, `Session.press_focus`, `Session.press_scroll`: what one key does.
* `Session.run_panes`: the panes go on by the keys that move them, and by no others.
* `Session.sameEditing_run_filter`: so does the line.
* `keys_keep_apart`: the parts after any keys.
-/

namespace ExprView

/-! ### Kinds of keys -/

/-- The key ends the session. -/
def KeyPress.Ends (k : KeyPress) : Prop :=
  k.key = .escape ∨ k.key = .char 'c' ∧ k.modifiers.control = true

/-- Whether the key changes the line or moves the cursor in it. -/
def KeyPress.edits (k : KeyPress) : Bool :=
  match k.key with
  | .char _ => k.modifiers.plain
  | .backspace | .delete | .left | .right | .home | .last => true
  | .escape | .tab | .up | .down | .other => false

theorem KeyPress.not_ends_of_edits {k : KeyPress} (h : k.edits = true) : ¬ k.Ends := by
  obtain ⟨key, m⟩ := k
  rintro (rfl | ⟨rfl, hcontrol⟩)
  · cases h
  · have hplain : m.plain = true := h
    exact Bool.false_ne_true ((Modifiers.control_of_plain hplain).symm.trans hcontrol)

namespace Key

/-- Whether the key scrolls. -/
def scrolls : Key → Bool
  | .up | .down => true
  | _ => false

/-- Whether the key moves the focus or scrolls. -/
def movesPanes (k : Key) : Bool := k == .tab || k.scrolls

/-- What a key makes of the scroll offset of the pane that has the focus. -/
def scroll : Key → Nat → Nat
  | .up, n => n - 1
  | .down, n => min (n + 1) maxScroll
  | _, n => n

theorem scroll_of_not_scrolls {k : Key} (h : k.scrolls = false) (n : Nat) : k.scroll n = n := by
  cases k with
  | up | down => cases h
  | _ => rfl

theorem movesPanes_eq_false_iff {k : Key} :
    k.movesPanes = false ↔ k ≠ .tab ∧ k.scrolls = false := by
  simp [movesPanes]

end Key

theorem KeyPress.movesPanes_of_edits {k : KeyPress} (h : k.edits = true) :
    k.key.movesPanes = false := by
  obtain ⟨key, m⟩ := k
  cases key with
  | tab | up | down => cases h
  | _ => rfl

theorem Focus.eq_next_iff {f g : Focus} : f = g.next ↔ ¬ f = g := by
  cases f <;> cases g <;> decide

/-- A key that does not edit leaves the line alone. -/
theorem Line.press_of_not_edits (l : Line) {k : KeyPress} (h : k.edits = false) :
    l.press k = l := by
  obtain ⟨key, m⟩ := k
  cases key with
  | char c =>
    have hplain : m.plain = false := h
    simp [Line.press, hplain]
  | backspace | delete | left | right | home | last => cases h
  | escape | tab | up | down | other => rfl

theorem Line.foldl_press_filter (l : Line) (ks : List KeyPress) :
    (ks.filter KeyPress.edits).foldl Line.press l = ks.foldl Line.press l := by
  rw [List.foldl_filter]
  congr 1
  funext l k
  split
  · rfl
  · next h => exact (l.press_of_not_edits (eq_false_of_ne_true h)).symm

/-- Keys that are pressed one after the other. -/
def presses (ks : List KeyPress) : List Event := ks.map .press

namespace Session

/-- The scroll offset of a pane. -/
def scroll (s : Session) : Focus → Nat
  | .tokens => s.tokensScroll
  | .tree => s.treeScroll

/-- Those of the keys that scroll a pane: it has the focus when they are pressed. -/
def scrollKeys (s : Session) (pane : Focus) : List KeyPress → List Key
  | [] => []
  | k :: ks =>
    if k.key.scrolls = true ∧ s.focus = pane then k.key :: scrollKeys (s.press k) pane ks
    else scrollKeys (s.press k) pane ks

/-- The sessions have all in common but the line, and what is known of it. -/
structure SameRest (s s' : Session) : Prop where
  /-- The session is over if it was over. -/
  quit_eq : s'.quit = s.quit
  /-- The same pane has the focus. -/
  focus_eq : s'.focus = s.focus
  /-- The panes are scrolled as far. -/
  scroll_eq : s'.scroll = s.scroll

/-- The sessions have the line in common, the place of the cursor in it, and what is known of it. -/
structure SameEditing (s s' : Session) : Prop extends SameLine s s' where
  /-- The cursor is in the same place. -/
  cursor_eq : s'.cursor = s.cursor

variable {s s' : Session} {k : KeyPress} {ks : List KeyPress}

/-! ### One key -/

theorem sameRest_change? (s : Session) (o : Option (List Char)) (n : Nat) :
    SameRest s ((s.change? o n).getD s) := by
  cases o <;> exact ⟨rfl, rfl, rfl⟩

theorem sameRest_ite {p : Prop} [Decidable p] {o : Option (List Char)} {n : Nat} :
    SameRest s ((if p then s.change? o n else some s).getD s) := by
  split
  · exact sameRest_change? s o n
  · exact ⟨rfl, rfl, rfl⟩

/-- A key that edits the line changes nothing else. -/
theorem sameRest_press (s : Session) (h : k.edits = true) : SameRest s (s.press k) := by
  obtain ⟨key, m⟩ := k
  cases key with
  | char c =>
    have hplain : m.plain = true := h
    have hcontrol : m.control = false := Modifiers.control_of_plain hplain
    have hpress : s.press ⟨.char c, m⟩ = (s.insert? c).getD s := by
      simp [press, press?, hplain, hcontrol]
    rw [hpress]
    exact sameRest_change? s _ _
  | backspace => exact sameRest_ite
  | delete => exact sameRest_ite
  | left | right | home | last => exact ⟨rfl, rfl, rfl⟩
  | escape | tab | up | down | other => cases h

/-- A character that is not inserted does no more than to end the session. -/
theorem press_char_of_not_plain (s : Session) {c : Char} {m : Modifiers} (h : m.plain = false) :
    s.press ⟨.char c, m⟩ = if c = 'c' ∧ m.control = true then { s with quit := true } else s := by
  simp only [press, press?, h]
  split <;> rfl

theorem press_of_scrolls (s : Session) (h : k.key.scrolls = true) :
    s.press k = s.scrollBy k.key.scroll := by
  obtain ⟨key, m⟩ := k
  cases key with
  | up | down => rfl
  | _ => cases h

theorem scroll_scrollBy (s : Session) (f : Nat → Nat) (pane : Focus) :
    (s.scrollBy f).scroll pane = if s.focus = pane then f (s.scroll pane) else s.scroll pane := by
  cases h : s.focus <;> cases pane <;> simp [scrollBy, scroll, h]

theorem scrollBy_focus (s : Session) (f : Nat → Nat) : (s.scrollBy f).focus = s.focus := by
  cases h : s.focus <;> simp [scrollBy, h]

theorem scrollBy_quit (s : Session) (f : Nat → Nat) : (s.scrollBy f).quit = s.quit := by
  cases h : s.focus <;> simp [scrollBy, h]

/-- A session is over from the first key on that ends it. -/
theorem press_quit_iff (s : Session) (k : KeyPress) :
    (s.press k).quit = true ↔ s.quit = true ∨ k.Ends := by
  by_cases hedits : k.edits = true
  · rw [(sameRest_press s hedits).quit_eq, or_iff_left (KeyPress.not_ends_of_edits hedits)]
  · obtain ⟨key, m⟩ := k
    cases key with
    | char c =>
      have hplain : m.plain = false := by simpa [KeyPress.edits] using hedits
      rw [press_char_of_not_plain s hplain]
      by_cases hquit : c = 'c' ∧ m.control = true <;> simp [hquit, KeyPress.Ends]
    | escape | tab | other => simp [press, press?, KeyPress.Ends]
    | up | down =>
      rw [press_of_scrolls s rfl, scrollBy_quit]
      simp [KeyPress.Ends]
    | backspace | delete | left | right | home | last => exact absurd rfl hedits

/-- The focus moves by the key for it alone. -/
theorem press_focus (s : Session) (k : KeyPress) :
    (s.press k).focus = if k.key = .tab then s.focus.next else s.focus := by
  by_cases hedits : k.edits = true
  · obtain ⟨htab, -⟩ := Key.movesPanes_eq_false_iff.mp (KeyPress.movesPanes_of_edits hedits)
    rw [(sameRest_press s hedits).focus_eq, if_neg htab]
  · obtain ⟨key, m⟩ := k
    cases key with
    | char c =>
      have hplain : m.plain = false := by simpa [KeyPress.edits] using hedits
      rw [press_char_of_not_plain s hplain]
      split <;> rfl
    | up | down => rw [press_of_scrolls s rfl, scrollBy_focus, if_neg (by simp)]
    | escape | tab | other => rfl
    | backspace | delete | left | right | home | last => exact absurd rfl hedits

/-- The pane that has the focus is scrolled, and the other one is not. -/
theorem press_scroll (s : Session) (k : KeyPress) (pane : Focus) :
    (s.press k).scroll pane =
      if s.focus = pane then k.key.scroll (s.scroll pane) else s.scroll pane := by
  by_cases hedits : k.edits = true
  · obtain ⟨-, hscrolls⟩ := Key.movesPanes_eq_false_iff.mp (KeyPress.movesPanes_of_edits hedits)
    rw [(sameRest_press s hedits).scroll_eq, Key.scroll_of_not_scrolls hscrolls, ite_self]
  · obtain ⟨key, m⟩ := k
    cases key with
    | char c =>
      have hplain : m.plain = false := by simpa [KeyPress.edits] using hedits
      rw [press_char_of_not_plain s hplain]
      split <;> exact (ite_self _).symm
    | up | down => rw [press_of_scrolls s rfl, scroll_scrollBy]
    | escape | tab | other => exact (ite_self _).symm
    | backspace | delete | left | right | home | last => exact absurd rfl hedits

/-! ### Runs -/

theorem run_presses (s : Session) (ks : List KeyPress) :
    s.run (presses ks) = ks.foldl press s := List.foldl_map

/-- A session is over as soon as one of the keys ends it, and from then on. -/
theorem run_quit_iff (s : Session) (ks : List KeyPress) :
    (s.run (presses ks)).quit = true ↔ s.quit = true ∨ ∃ k ∈ ks, k.Ends := by
  rw [run_presses]
  induction ks generalizing s with
  | nil => simp
  | cons k ks ih =>
    rw [List.foldl_cons, ih, press_quit_iff, List.exists_mem_cons_iff, or_assoc]

/-- The focus has come back after an even number of moves. -/
theorem run_focus_eq_iff (s : Session) (ks : List KeyPress) :
    (s.run (presses ks)).focus = s.focus ↔ Even (ks.countP (·.key = .tab)) := by
  rw [run_presses]
  induction ks generalizing s with
  | nil => simp
  | cons k ks ih =>
    have hfocus := s.press_focus k
    have hrun := ih (s.press k)
    rw [hfocus] at hrun
    rw [List.foldl_cons, List.countP_cons]
    by_cases htab : k.key = .tab
    · simp only [htab, if_true, decide_true] at hrun ⊢
      rw [Nat.even_add_one, ← hrun, Focus.eq_next_iff, not_not]
    · simpa [htab] using hrun

/-- A pane goes on by the keys that come while it has the focus. -/
theorem run_scroll (s : Session) (ks : List KeyPress) (pane : Focus) :
    (s.run (presses ks)).scroll pane =
      (s.scrollKeys pane ks).foldl (fun n k => k.scroll n) (s.scroll pane) := by
  rw [run_presses]
  induction ks generalizing s with
  | nil => rfl
  | cons k ks ih =>
    rw [List.foldl_cons, ih, press_scroll, scrollKeys]
    by_cases hpane : s.focus = pane
    · cases hscrolls : k.key.scrolls with
      | true => simp [hpane]
      | false => simp [hpane, Key.scroll_of_not_scrolls hscrolls]
    · simp [hpane]

/-- The focus and the scroll offsets. -/
def panes (s : Session) : Focus × (Focus → Nat) := (s.focus, s.scroll)

theorem start_scroll (input : String) (pane : Focus) : (start input).scroll pane = 0 := by
  cases pane <;> rfl

theorem start_panes (input : String) : (start input).panes = (.tokens, fun _ => 0) :=
  Prod.ext rfl (funext (start_scroll input))

/-- What a key makes of the focus and the scroll offsets. -/
def movePanes (panes : Focus × (Focus → Nat)) (k : Key) : Focus × (Focus → Nat) :=
  (if k = .tab then panes.1.next else panes.1,
    fun pane => if panes.1 = pane then k.scroll (panes.2 pane) else panes.2 pane)

theorem press_panes (s : Session) (k : KeyPress) : (s.press k).panes = movePanes s.panes k.key :=
  Prod.ext (s.press_focus k) (funext (s.press_scroll k))

theorem movePanes_of_not_movesPanes (panes : Focus × (Focus → Nat)) {k : Key}
    (h : k.movesPanes = false) : movePanes panes k = panes := by
  obtain ⟨htab, hscrolls⟩ := Key.movesPanes_eq_false_iff.mp h
  simp [movePanes, htab, Key.scroll_of_not_scrolls hscrolls]

/-- The panes go on by the keys that move them, and by no others. -/
theorem run_panes (s : Session) (ks : List KeyPress) :
    (s.run (presses ks)).panes =
      ((ks.map (·.key)).filter Key.movesPanes).foldl movePanes s.panes := by
  have hall : (s.run (presses ks)).panes = (ks.map (·.key)).foldl movePanes s.panes := by
    rw [run_presses, List.foldl_map]
    exact (List.foldl_hom panes fun s k => (s.press_panes k).symm).symm
  rw [hall, List.foldl_filter]
  congr 1
  funext panes k
  split
  · rfl
  · next h => exact movePanes_of_not_movesPanes panes (eq_false_of_ne_true h)

/-! ### The line -/

/-- Sessions in which nothing is stale and which show the same line know the same of it. -/
theorem Fresh.sameEditing {l : Line} (h : s.Fresh) (h' : s'.Fresh) (hl : s.Shows l)
    (hl' : s'.Shows l) : SameEditing s s' := by
  have hinput : s'.input = s.input :=
    String.toList_inj.mp (hl'.input_eq.trans hl.input_eq.symm)
  refine ⟨⟨hinput, ?_, ?_⟩, hl'.cursor_eq.trans hl.cursor_eq.symm⟩
  · rw [h'.analysis_eq, h.analysis_eq, hinput]
  · rw [h'.status_eq, h.status_eq, hinput]

/-- The line goes on by the keys that edit it, and by no others. -/
theorem sameEditing_run_filter (input : String) (ks : List KeyPress) :
    SameEditing ((start input).run (presses ks))
      ((start input).run (presses (ks.filter KeyPress.edits))) := by
  have hfresh (ks : List KeyPress) : ((start input).run (presses ks)).Fresh :=
    (start_fresh input).run (presses ks)
  have hshows (ks : List KeyPress) : ((start input).run (presses ks)).Shows
      (ks.foldl Line.press (Line.ofText input.toList)) := by
    rw [run_presses]
    exact ((start_shows input).foldlM_press? ks).2
  have hline := hshows (ks.filter KeyPress.edits)
  rw [Line.foldl_press_filter] at hline
  exact (hfresh ks).sameEditing (hfresh _) (hshows ks) hline

end Session

/-- Each key changes only its own part of a session. After any keys the session is over exactly if one
of them ends it, and it stays over. The table of tokens has the focus exactly if it was moved an even
number of times. A pane is scrolled by those keys for it that came while it had the focus, in their
order, and how far depends on the keys that scroll or move the focus and on nothing else, the line
included. The line, the cursor, what is known of the line and the message are what the keys that edit
lead to without the others. -/
theorem keys_keep_apart (input : String) (ks : List KeyPress) :
    let start := Session.start input
    let s := start.run (presses ks)
    (s.quit = true ↔ ∃ k ∈ ks, k.Ends) ∧
    (∀ before, before <+: ks → (start.run (presses before)).quit = true → s.quit = true) ∧
    (s.focus = .tokens ↔ Even (ks.countP (·.key = .tab))) ∧
    (∀ pane, s.scroll pane = (start.scrollKeys pane ks).foldl (fun n k => k.scroll n) 0) ∧
    (∀ input' ks', (ks'.map (·.key)).filter Key.movesPanes = (ks.map (·.key)).filter Key.movesPanes →
      ((Session.start input').run (presses ks')).scroll = s.scroll) ∧
    Session.SameEditing s (start.run (presses (ks.filter KeyPress.edits))) := by
  intro start s
  have hquit (ks : List KeyPress) :
      (start.run (presses ks)).quit = true ↔ ∃ k ∈ ks, k.Ends := by
    rw [Session.run_quit_iff]
    simp [start, Session.start]
  refine ⟨hquit ks, ?_, start.run_focus_eq_iff ks, ?_, ?_, Session.sameEditing_run_filter input ks⟩
  · intro before hbefore hover
    obtain ⟨k, hk, hends⟩ := (hquit before).mp hover
    exact (hquit ks).mpr ⟨k, hbefore.subset hk, hends⟩
  · intro pane
    rw [start.run_scroll ks pane, Session.start_scroll]
  · intro input' ks' hkeys
    have hpanes : ((Session.start input').run (presses ks')).panes = s.panes := by
      rw [Session.run_panes, Session.run_panes, hkeys, Session.start_panes, Session.start_panes]
    exact congrArg Prod.snd hpanes

/-- Both panes are scrolled, the letter c is held down with the control key, and keys for the panes come
after that. Other letters are typed on another line between the same keys for the panes. -/
theorem keys_keep_apart_mixed :
    let before : List KeyPress :=
      [⟨.down, {}⟩, ⟨.tab, {}⟩, ⟨.down, {}⟩, ⟨.char 'c', { control := true }⟩]
    let ks := before ++ [⟨.char '2', {}⟩, ⟨.down, {}⟩, ⟨.char 'x', { alt := true }⟩]
    let ks' : List KeyPress := [⟨.down, {}⟩, ⟨.char 'y', {}⟩, ⟨.tab, {}⟩, ⟨.down, {}⟩, ⟨.down, {}⟩]
    let s := (Session.start "1").run (presses ks)
    ((Session.start "1").run (presses before)).quit = true ∧ s.quit = true ∧ s.focus ≠ .tokens ∧
      s.scroll .tokens = 1 ∧ s.scroll .tree = 2 ∧
      ((Session.start "").run (presses ks')).scroll = s.scroll ∧
      s.input = ((Session.start "1").run (presses [⟨.char '2', {}⟩])).input := by
  intro before ks ks' s
  obtain ⟨hquit, -⟩ := keys_keep_apart "1" before
  obtain ⟨-, hover, hfocus, hscroll, hother, hline⟩ := keys_keep_apart "1" ks
  have hends : ((Session.start "1").run (presses before)).quit = true :=
    hquit.mpr ⟨⟨.char 'c', { control := true }⟩, by decide, .inr ⟨rfl, rfl⟩⟩
  refine ⟨hends, hover before (List.prefix_append ..) hends, ?_, ?_, ?_, hother "" ks' rfl, ?_⟩
  · rw [ne_eq, hfocus]
    decide
  · exact hscroll .tokens
  · exact hscroll .tree
  · exact hline.input_eq.symm

end ExprView
