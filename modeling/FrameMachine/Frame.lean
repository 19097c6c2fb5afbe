import FrameMachine.Locals
import FrameMachine.OperandStack

/-!
# Frames

One invocation of a piece of code: its operand stack, its locals, the arguments it was given and
the index of the instruction it executes next.
-/

namespace FrameMachine

/-- One invocation in progress, or a spent one. -/
structure Frame where
  stack : OperandStack := {}
  locals : Locals
  arguments : List Value := []
  /-- The index of the next instruction. -/
  pc : Nat := 0
deriving DecidableEq, Inhabited

namespace Frame

/-- A frame with nothing on its stack, no arguments and `capacity` blank locals. -/
def blank (capacity : Nat) : Frame where
  locals := .blank capacity

/-- A spent frame made ready for a new invocation at `pc`: the arguments are its argument view and
all that its stack holds, and every local is `undefined`. -/
def enter (f : Frame) (arguments : List Value) (pc : Nat) : Frame where
  stack := .ofList arguments
  locals := f.locals.reset
  arguments := arguments
  pc := pc

/-- The argument at `index`. -/
def argument (f : Frame) (index : Int64) : Except Fault Value :=
  match (position? index).bind (f.arguments[·]?) with
  | some v => .ok v
  | none => .error (.argumentIndexOutOfBounds index)

/-- The frame at the instruction after its own. -/
def advance (f : Frame) : Frame := { f with pc := f.pc + 1 }

/-- The frame at the instruction at `pc`. -/
def jump (f : Frame) (pc : Nat) : Frame := { f with pc }

/-- Nothing of a spent frame but the number of its locals is left after it is entered. -/
theorem enter_eq (f : Frame) (arguments : List Value) (pc : Nat) :
    f.enter arguments pc = (blank f.locals.capacity).enter arguments pc := by
  simp [enter, blank, Locals.reset]

end Frame

end FrameMachine
