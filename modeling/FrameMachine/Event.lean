import FrameMachine.Instruction

/-!
# Events

The reports of a run as it goes. A native function may start runs of its own; a trace keeps their
events apart from the run's.
-/

namespace FrameMachine

/-- What a run reports. -/
inductive Event
  /-- A run is asked for; nothing is checked yet. -/
  | entered (instructions arguments : Nat)
  | refusedEmpty
  /-- An instruction was fetched and charged; its effect follows. -/
  | dispatched (pc depth : Nat) (instruction : Instruction)
  | pushedFrame (target arguments depth : Nat)
  | poppedFrame (resume depth : Nat)
  | nativeReturned (function : NativeName) (arguments : Nat) (result : Value)
  | finished (steps : Nat) (result : Value)
  | faulted (pc depth : Nat) (fault : Fault)
deriving DecidableEq

/-- A line of a trace. -/
def Event.text : Event → String
  | entered instructions arguments =>
    "SPAN run_in instructions=" ++ instructions.repr ++ " args=" ++ arguments.repr
  | refusedEmpty => "DEBUG refusing to run an empty program"
  | dispatched pc depth instruction =>
    "TRACE dispatch pc=" ++ pc.repr ++ " depth=" ++ depth.repr ++ " instruction="
      ++ instruction.text
  | pushedFrame target arguments depth =>
    "DEBUG pushed frame target=" ++ target.repr ++ " args=" ++ arguments.repr ++ " depth="
      ++ depth.repr
  | poppedFrame resume depth =>
    "DEBUG popped frame resume=" ++ resume.repr ++ " depth=" ++ depth.repr
  | nativeReturned function arguments result =>
    "TRACE native returned function=NativeFunction(" ++ function.text ++ ") args="
      ++ arguments.repr ++ " result=" ++ result.text
  | finished steps result =>
    "DEBUG run finished steps=" ++ steps.repr ++ " result=" ++ result.text
  | faulted pc depth fault =>
    "DEBUG run faulted pc=" ++ pc.repr ++ " depth=" ++ depth.repr ++ " error=" ++ fault.message

/-- An event in the trace of a run: its own, or one of a run that a native function started. -/
inductive TraceEntry
  | own (e : Event)
  | inner (e : Event)
deriving DecidableEq

def TraceEntry.event : TraceEntry → Event
  | own e => e
  | inner e => e

/-- The events of a run in order of time. -/
abbrev Trace := List TraceEntry

end FrameMachine
