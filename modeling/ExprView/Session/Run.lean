import ExprView.Session.Frame

/-!
# Runs of a session

A session goes on by keys that are pressed and frames that are drawn.
-/

namespace ExprView

/-- What happens to a session. -/
inductive Event where
  /-- A key is pressed. -/
  | press (key : KeyPress)
  /-- A frame is drawn. -/
  | draw (width height : Nat)
  deriving DecidableEq, Repr, Inhabited

namespace Session

/-- The session after an event. -/
def handle (s : Session) : Event → Session
  | .press key => s.press key
  | .draw width height => (s.draw width height).2

/-- The session after several events. -/
def run (s : Session) (events : List Event) : Session := events.foldl handle s

end Session

end ExprView
