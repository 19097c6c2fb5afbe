import FrameMachine.Frame

/-!
# Call stacks

The frames of a run: the active one, its suspended callers, and spent frames kept for reuse. There
is always an active frame; the first one cannot be popped. Live frames come and go last in, first
out, and so do the spares, apart from them.
-/

namespace FrameMachine

/-- The frames of a run. -/
structure CallStack where
  active : Frame
  /-- The callers, innermost first. -/
  suspended : List Frame := []
  /-- Spent frames, last recycled first. -/
  spare : List Frame := []
  /-- The most frames that may be live at once. -/
  maxDepth : Nat
deriving DecidableEq, Inhabited

namespace CallStack

/-- The live frames, the active one first. -/
def live (c : CallStack) : List Frame := c.active :: c.suspended

/-- The number of live frames. -/
def depth (c : CallStack) : Nat := c.suspended.length + 1

/-- Whether the first frame is the only one live. -/
def isRoot (c : CallStack) : Bool := c.suspended.isEmpty

/-- Suspends the active frame under `f`. -/
def push (c : CallStack) (f : Frame) : Except Fault CallStack :=
  if c.maxDepth ≤ c.depth then .error (.callStackOverflow c.maxDepth)
  else .ok { c with active := f, suspended := c.active :: c.suspended }

/-- Takes the active frame off and resumes its caller. -/
def pop (c : CallStack) : Except Fault (Frame × CallStack) :=
  match c.suspended with
  | [] => .error .frameStackUnderflow
  | caller :: rest => .ok (c.active, { c with active := caller, suspended := rest })

/-- Keeps a spent frame. -/
def recycle (c : CallStack) (f : Frame) : CallStack := { c with spare := f :: c.spare }

/-- The frame recycled last, with whatever it held. -/
def takeSpare (c : CallStack) : Option Frame × CallStack :=
  match c.spare with
  | [] => (none, c)
  | f :: rest => (some f, { c with spare := rest })

/-- The call stack with the active frame replaced. -/
def setActive (c : CallStack) (f : Frame) : CallStack := { c with active := f }

@[simp] theorem length_live (c : CallStack) : c.live.length = c.depth := rfl

@[simp] theorem live_setActive (c : CallStack) (f : Frame) :
    (c.setActive f).live = f :: c.suspended := rfl

@[simp] theorem live_takeSpare (c : CallStack) : c.takeSpare.2.live = c.live := by
  unfold takeSpare
  split <;> rfl

theorem live_pop {c c' : CallStack} {f : Frame} (h : c.pop = .ok (f, c')) :
    c.live = f :: c'.live := by
  unfold pop at h
  split at h
  · cases h
  · rename_i caller rest hs
    cases h
    simp [live, hs]

end CallStack

end FrameMachine
