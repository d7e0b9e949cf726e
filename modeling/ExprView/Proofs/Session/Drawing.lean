import ExprView.Session.Run
import Mathlib.Data.Nat.Basic
import Mathlib.Order.Basic

/-!
# Drawing settles

A frame brings the scroll offsets back to where there is something to show, and touches nothing else.
How far it brings them back depends on what is shown and on the size of the screen, not on the offsets,
so each size is a bound on either of them. Several frames leave the least of their bounds, in whatever
order they are drawn and however often. What a frame shows is told by the offsets that it leaves.

## Main statements

* `Session.run_frames`: what frames make of the scroll offsets.
* `Session.run_frames_congr`: the order and the number of frames of each size do not matter.
* `Session.layers_clampScrolls`: a frame looks as if the offsets had been brought back before.
* `draw_settles`: a frame changes no more than the scroll offsets, and frames can be drawn again and in
  another order.
-/

namespace ExprView

/-! ### Offsets -/

theorem clampScroll_clampScroll (scroll lines height : Nat) :
    clampScroll (clampScroll scroll lines height) lines height = clampScroll scroll lines height := by
  rw [clampScroll, clampScroll, Nat.min_assoc, Nat.min_self]

/-- What is drawn of the table is told by the offset that it keeps. -/
theorem tokensLayers_tokensScroll (area : Area) (tokens : Except LexError (List Token))
    (focused : Bool) (scroll : Nat) :
    tokensLayers area tokens focused (tokensScroll area tokens scroll) =
      tokensLayers area tokens focused scroll := by
  simp only [tokensLayers, tokensScroll, clampScroll_clampScroll]

/-- What is drawn of the tree is told by the offset that it keeps. -/
theorem treeLayers_treeScroll (area : Area) (program : Except SyntaxError Program)
    (focused : Bool) (scroll : Nat) :
    treeLayers area program focused (treeScroll area program scroll) =
      treeLayers area program focused scroll := by
  simp only [treeLayers, treeScroll, clampScroll_clampScroll]

/-- What is left of an offset when it has been lowered to the room that there is in each size. -/
def lowered (room : Nat × Nat → Nat) (scroll : Nat) (sizes : List (Nat × Nat)) : Nat :=
  sizes.foldl (fun n size => min n (room size)) scroll

variable {room : Nat × Nat → Nat} {sizes sizes' : List (Nat × Nat)}

theorem le_lowered_iff {m scroll : Nat} :
    m ≤ lowered room scroll sizes ↔ m ≤ scroll ∧ ∀ size ∈ sizes, m ≤ room size := by
  induction sizes generalizing scroll with
  | nil => simp [lowered]
  | cons size sizes ih =>
    have hstep : lowered room scroll (size :: sizes) =
        lowered room (min scroll (room size)) sizes := rfl
    rw [hstep, ih, Nat.le_min, List.forall_mem_cons, and_assoc]

/-- What is left is told by the sizes that there are. -/
theorem lowered_congr (scroll : Nat) (h : ∀ size, size ∈ sizes ↔ size ∈ sizes') :
    lowered room scroll sizes = lowered room scroll sizes' :=
  eq_of_forall_le_iff fun m => by simp only [le_lowered_iff, h]

/-! ### Frames -/

/-- Frames of several sizes, one after the other. -/
def frames (sizes : List (Nat × Nat)) : List Event := sizes.map fun size => .draw size.1 size.2

namespace Session

/-- The largest offset at which the table fills its pane on a screen of that size. -/
def tokensRoom (s : Session) (size : Nat × Nat) : Nat :=
  (tokenRows s.analysis.tokens).length - ((Places.ofSize size.1 size.2).tokens.height - 2)

/-- The largest offset at which the tree fills its pane on a screen of that size. -/
def treeRoom (s : Session) (size : Nat × Nat) : Nat :=
  (treeLines s.analysis.program).length - ((Places.ofSize size.1 size.2).tree.height - 2)

/-- The session with other scroll offsets. -/
def withScrolls (s : Session) (tokens tree : Nat) : Session :=
  { s with tokensScroll := tokens, treeScroll := tree }

/-- The sessions have all but the scroll offsets in common, and the second one is scrolled no further
than the first. -/
structure ScrollsBack (s s' : Session) : Prop where
  /-- The line is the same. -/
  input_eq : s'.input = s.input
  /-- The cursor is in the same place. -/
  cursor_eq : s'.cursor = s.cursor
  /-- What is known of the line is the same. -/
  analysis_eq : s'.analysis = s.analysis
  /-- The same pane has the focus. -/
  focus_eq : s'.focus = s.focus
  /-- The message is the same. -/
  status_eq : s'.status = s.status
  /-- The session is over if it was over. -/
  quit_eq : s'.quit = s.quit
  /-- The next line is analysed in the same way. -/
  analyser_eq : s'.analyser = s.analyser
  /-- The table is scrolled no further. -/
  tokensScroll_le : s'.tokensScroll ≤ s.tokensScroll
  /-- The tree is scrolled no further. -/
  treeScroll_le : s'.treeScroll ≤ s.treeScroll

variable (s : Session) (p : Places)

/-- Frames lower the scroll offsets to the room that there is in each of them. -/
theorem run_frames (sizes : List (Nat × Nat)) :
    s.run (frames sizes) = s.withScrolls (lowered s.tokensRoom s.tokensScroll sizes)
      (lowered s.treeRoom s.treeScroll sizes) := by
  induction sizes generalizing s with
  | nil => rfl
  | cons size sizes ih =>
    -- the room is that of the session before the frame, whose line is the same
    have hframe : s.handle (.draw size.1 size.2) =
        s.withScrolls (min s.tokensScroll (s.tokensRoom size))
          (min s.treeScroll (s.treeRoom size)) := rfl
    have hrun : s.run (frames (size :: sizes)) =
        (s.handle (.draw size.1 size.2)).run (frames sizes) := rfl
    rw [hrun, hframe, ih]
    rfl

/-- Frames of the same sizes leave the same session, in whatever order they are drawn and however
often. -/
theorem run_frames_congr (h : ∀ size, size ∈ sizes ↔ size ∈ sizes') :
    s.run (frames sizes) = s.run (frames sizes') := by
  rw [run_frames, run_frames, lowered_congr s.tokensScroll h, lowered_congr s.treeScroll h]

/-- Frames scroll back, and do nothing else. -/
theorem scrollsBack_run_frames (sizes : List (Nat × Nat)) : s.ScrollsBack (s.run (frames sizes)) := by
  rw [run_frames]
  exact ⟨rfl, rfl, rfl, rfl, rfl, rfl, rfl, (le_lowered_iff.mp (Nat.le_refl _)).1,
    (le_lowered_iff.mp (Nat.le_refl _)).1⟩

/-- What is drawn looks as if the scroll offsets had been brought back before. -/
theorem layers_clampScrolls : (s.clampScrolls p).layers p = s.layers p := by
  simp only [layers, clampScrolls, tokensLayers_tokensScroll, treeLayers_treeScroll]

/-- The same frame again shows the same and changes nothing. -/
theorem draw_draw (w h : Nat) : (s.draw w h).2.draw w h = s.draw w h := by
  have hscreen : ((s.draw w h).2.draw w h).1 = (s.draw w h).1 :=
    congrArg (Screen.draw w h · _) (s.layers_clampScrolls (Places.ofSize w h))
  have hsame : ∀ size, size ∈ [(w, h), (w, h)] ↔ size ∈ [(w, h)] := by simp
  have hsession : ((s.draw w h).2.draw w h).2 = (s.draw w h).2 := s.run_frames_congr hsame
  exact Prod.ext hscreen hsession

end Session

/-- After any keys and frames, a frame of any size changes no more than the scroll offsets and makes
neither of them larger. Drawn again at once it shows the same screen and leaves the same session, and a
frame of another size can as well be drawn before it. -/
theorem draw_settles (input : String) (events : List Event) (w h w' h' : Nat) :
    let s := (Session.start input).run events
    s.ScrollsBack (s.draw w h).2 ∧ (s.draw w h).2.draw w h = s.draw w h ∧
      ((s.draw w h).2.draw w' h').2 = ((s.draw w' h').2.draw w h).2 := by
  intro s
  refine ⟨s.scrollsBack_run_frames [(w, h)], s.draw_draw w h, ?_⟩
  have hswap : ∀ size, size ∈ [(w, h), (w', h')] ↔ size ∈ [(w', h'), (w, h)] := fun size =>
    (List.Perm.swap (w', h') (w, h) []).mem_iff
  exact s.run_frames_congr hswap

end ExprView
