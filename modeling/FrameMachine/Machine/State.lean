import FrameMachine.CallStack
import FrameMachine.Config.Basic
import FrameMachine.Machine.Action
import FrameMachine.Native.Basic

/-!
# The machine and one turn of its loop

A turn fetches the instruction at the active frame's index, charges a step, reports the dispatch
and carries the instruction out. `State.turn` is a function of the state, so a run is its iteration
from the first state.
-/

namespace FrameMachine

/-- What stays fixed through a run. -/
structure Machine where
  program : Program
  config : Config := {}
  natives : NativeTable

/-- What changes in a run. -/
structure State where
  calls : CallStack
  /-- The register file, where all frames share one. -/
  registers : Option Locals
  /-- Instructions charged so far. -/
  steps : Nat := 0
  /-- The most frames that were live at once so far. -/
  maxFrameDepth : Nat := 1
deriving DecidableEq

namespace Config

/-- The number of locals that each frame owns. -/
def frameLocals (c : Config) : Nat :=
  match c.localsModel with
  | .shared => 0
  | .perFrame => c.localsCapacity

/-- The register file of a new run. -/
def newRegisters (c : Config) : Option Locals :=
  match c.localsModel with
  | .shared => some (.blank c.localsCapacity)
  | .perFrame => none

end Config

namespace State

/-- The first state of a run: one frame at the first instruction, with nothing on its stack. -/
def start (c : Config) (arguments : List Value) : State where
  calls := ⟨{ Frame.blank c.frameLocals with arguments }, [], [], c.maxCallDepth⟩
  registers := c.newRegisters

def pc (s : State) : Nat := s.calls.active.pc

def depth (s : State) : Nat := s.calls.depth

/-- The active frame with the locals that its instructions reach. -/
def view (s : State) : Frame :=
  match s.registers with
  | some locals => { s.calls.active with locals }
  | none => s.calls.active

/-- The state whose view is `f`: shared locals go back to the register file. -/
def update (s : State) (f : Frame) : State :=
  match s.registers with
  | some _ =>
    { s with
      calls := s.calls.setActive { f with locals := s.calls.active.locals }
      registers := some f.locals }
  | none => { s with calls := s.calls.setActive f }

/-- Charges one instruction to the budget. -/
def charge (s : State) (budget : Option Nat) : Except Fault State :=
  match budget with
  | some max =>
    if max ≤ s.steps then .error (.stepBudgetExhausted max)
    else .ok { s with steps := s.steps + 1 }
  | none => .ok { s with steps := s.steps + 1 }

end State

/-- How a run stands. -/
inductive Progress
  | running (s : State)
  /-- The first frame left with `value`. -/
  | finished (value : Value) (s : State)
  /-- An instruction, a fetch or the step budget failed in state `s`. -/
  | faulted (fault : Fault) (s : State)
  /-- There was nothing to run, or no room to run it. -/
  | refused (fault : Fault)

/-- The last event of a run, once it has ended. -/
def Progress.closing : Progress → List Event
  | running _ => []
  | finished value s => [.finished s.steps value]
  | faulted fault s => [.faulted s.pc s.depth fault]
  | refused _ => []

namespace State

/-- Enters a frame for a call: a spent one if there is any, made ready for the arguments. The
caller has moved on to its next instruction before the depth is checked. -/
def enter (c : Config) (s : State) (target : Nat) (arguments : List Value) (caller : Frame) :
    List Event × Progress :=
  let s := s.update caller
  let (spare, calls) := s.calls.takeSpare
  let callee := (spare.getD (.blank c.frameLocals)).enter arguments target
  match calls.push callee with
  | .error e => ([], .faulted e s)
  | .ok calls =>
    ([.pushedFrame target arguments.length calls.depth],
      .running { s with calls, maxFrameDepth := max s.maxFrameDepth calls.depth })

/-- Leaves the active frame: the caller resumes with the result on its stack, and the frame is kept
for a later call. The first frame's result is the run's. -/
def leave (s : State) (result : Value) (f : Frame) : List Event × Progress :=
  let s := s.update f
  if s.calls.isRoot then ([], .finished result s)
  else
    match s.calls.pop with
    | .error e => ([], .faulted e s)
    | .ok (callee, calls) =>
      let calls := calls.recycle callee
      ([.poppedFrame calls.active.pc calls.depth],
        .running { s with calls := calls.setActive (calls.active.push result) })

/-- Asks a native function for a value and pushes it. -/
def invoke (natives : NativeTable) (s : State) (native : NativeName) (arguments : List Value)
    (f : Frame) : Trace × Progress :=
  let reply := natives native arguments
  let inner := reply.events.map TraceEntry.inner
  match reply.result with
  | .error e => (inner, .faulted e s)
  | .ok v =>
    (inner ++ [.own (.nativeReturned native arguments.length v)],
      .running (s.update (f.push v).advance))

/-- Does what an action leaves to do. -/
def perform (m : Machine) (s : State) : Action → Trace × Progress
  | .proceed f => ([], .running (s.update f))
  | .enter target arguments caller =>
    (s.enter m.config target arguments caller).map (·.map .own) id
  | .invoke native arguments f => s.invoke m.natives native arguments f
  | .leave result f => (s.leave result f).map (·.map .own) id

/-- Carries out an instruction that is charged. -/
def execute (m : Machine) (s : State) (i : Instruction) : Trace × Progress :=
  match s.view.act m.program i with
  | .error e => ([], .faulted e s)
  | .ok action => s.perform m action

/-- Fetches, charges, reports and carries out one instruction. -/
def dispatch (m : Machine) (s : State) : Trace × Progress :=
  match m.program.fetch s.pc with
  | .error e => ([], .faulted e s)
  | .ok i =>
    match s.charge m.config.maxSteps with
    | .error e => ([], .faulted e s)
    | .ok s =>
      let (effects, progress) := s.execute m i
      (.own (.dispatched s.pc s.depth i) :: effects, progress)

/-- One turn of the loop. If the run ends there, its last event says how. -/
def turn (m : Machine) (s : State) : Trace × Progress :=
  let (events, progress) := s.dispatch m
  (events ++ progress.closing.map .own, progress)

end State

end FrameMachine
