import FrameMachine.Event

/-!
# Native functions

A native function sees the arguments of its call and nothing else of the machine.
-/

namespace FrameMachine

/-- What a native function gives back: a value or a fault, and the events of the runs it started
itself. -/
structure NativeReply where
  result : Except Fault Value
  events : List Event := []

/-- What the functions that programs name do with their arguments. -/
abbrev NativeTable := NativeName → List Value → NativeReply

/-- The argument at `index`, in push order. -/
def argumentAt (arguments : List Value) (index : Nat) : Except Fault Value :=
  match arguments[index]? with
  | some v => .ok v
  | none => .error (.argumentIndexOutOfBounds (.ofNat index))

end FrameMachine
