import FrameMachine.Proofs.Sizes

/-!
# A machine that keeps no spent frames

The loop of `State.turn` again, but every call builds the frame it enters and every exit drops the
frame it leaves. Forgetting the spares of a state leaves a state of this machine, and does so turn
by turn (`forget_turn`), so nobody outside can tell whether frames are used again.
-/

namespace FrameMachine

namespace Fresh

/-- What changes in a run that keeps no spent frames. -/
structure State where
  active : Frame
  /-- The callers, innermost first. -/
  suspended : List Frame := []
  registers : Option Locals
  steps : Nat := 0
  maxFrameDepth : Nat := 1

inductive Progress
  | running (s : State)
  | finished (value : Value) (s : State)
  | faulted (fault : Fault) (s : State)
  | refused (fault : Fault)

namespace Progress

def closing : Progress → List Event
  | running _ => []
  | finished value s => [.finished s.steps value]
  | faulted fault s => [.faulted s.active.pc (s.suspended.length + 1) fault]
  | refused _ => []

def result? : Progress → Option (Except Fault Report)
  | running _ => none
  | finished value s => some (.ok ⟨value, s.steps, s.maxFrameDepth⟩)
  | faulted fault _ => some (.error fault)
  | refused fault => some (.error fault)

end Progress

namespace State

def start (c : Config) (arguments : List Value) : State where
  active := { Frame.blank c.frameLocals with arguments }
  registers := c.newRegisters

def depth (s : State) : Nat := s.suspended.length + 1

def view (s : State) : Frame :=
  match s.registers with
  | some locals => { s.active with locals }
  | none => s.active

def update (s : State) (f : Frame) : State :=
  match s.registers with
  | some _ => { s with active := { f with locals := s.active.locals }, registers := some f.locals }
  | none => { s with active := f }

def charge (s : State) (budget : Option Nat) : Except Fault State :=
  match budget with
  | some max =>
    if max ≤ s.steps then .error (.stepBudgetExhausted max)
    else .ok { s with steps := s.steps + 1 }
  | none => .ok { s with steps := s.steps + 1 }

/-- A call: the callee is built here, with the arguments on its stack and every local
`undefined`. -/
def enter (c : Config) (s : State) (target : Nat) (arguments : List Value) (caller : Frame) :
    List Event × Progress :=
  let s := s.update caller
  if c.maxCallDepth ≤ s.depth then ([], .faulted (.callStackOverflow c.maxCallDepth) s)
  else
    let callee : Frame :=
      { stack := .ofList arguments, locals := .blank c.frameLocals, arguments, pc := target }
    ([.pushedFrame target arguments.length (s.depth + 1)],
      .running { s with
        active := callee
        suspended := s.active :: s.suspended
        maxFrameDepth := max s.maxFrameDepth (s.depth + 1) })

/-- An exit: nothing of the frame is left but its result. -/
def leave (s : State) (result : Value) (f : Frame) : List Event × Progress :=
  match s.suspended with
  | [] => ([], .finished result (s.update f))
  | caller :: rest =>
    ([.poppedFrame caller.pc (rest.length + 1)],
      .running { s.update f with active := caller.push result, suspended := rest })

def invoke (natives : NativeTable) (s : State) (native : NativeName) (arguments : List Value)
    (f : Frame) : Trace × Progress :=
  let reply := natives native arguments
  let inner := reply.events.map TraceEntry.inner
  match reply.result with
  | .error e => (inner, .faulted e s)
  | .ok v =>
    (inner ++ [.own (.nativeReturned native arguments.length v)],
      .running (s.update (f.push v).advance))

def perform (m : Machine) (s : State) : Action → Trace × Progress
  | .proceed f => ([], .running (s.update f))
  | .enter target arguments caller =>
    (s.enter m.config target arguments caller).map (·.map .own) id
  | .invoke native arguments f => s.invoke m.natives native arguments f
  | .leave result f => (s.leave result f).map (·.map .own) id

def execute (m : Machine) (s : State) (i : Instruction) : Trace × Progress :=
  match s.view.act m.program i with
  | .error e => ([], .faulted e s)
  | .ok action => s.perform m action

def dispatch (m : Machine) (s : State) : Trace × Progress :=
  match m.program.fetch s.active.pc with
  | .error e => ([], .faulted e s)
  | .ok i =>
    match s.charge m.config.maxSteps with
    | .error e => ([], .faulted e s)
    | .ok s =>
      let (effects, progress) := s.execute m i
      (.own (.dispatched s.active.pc s.depth i) :: effects, progress)

def turn (m : Machine) (s : State) : Trace × Progress :=
  let (events, progress) := s.dispatch m
  (events ++ progress.closing.map .own, progress)

end State

def begin (m : Machine) (arguments : List Value) : Trace × Progress :=
  let entered := .own (.entered m.program.size arguments.length)
  match m.config.validate with
  | .error e => ([entered], .refused e)
  | .ok () =>
    if m.program.isEmpty then ([entered, .own .refusedEmpty], .refused .emptyProgram)
    else ([entered], .running (.start m.config arguments))

def advance (m : Machine) : (turns : Nat) → Progress → Trace × Progress
  | turns + 1, .running s =>
    let (events, progress) := s.turn m
    let (rest, progress) := advance m turns progress
    (events ++ rest, progress)
  | _, progress => ([], progress)

def run (m : Machine) (turns : Nat) (arguments : List Value) : Trace × Progress :=
  let (opening, progress) := begin m arguments
  let (events, progress) := advance m turns progress
  (opening ++ events, progress)

end Fresh

/-- The state without its spares. -/
def State.forget (s : State) : Fresh.State :=
  ⟨s.calls.active, s.calls.suspended, s.registers, s.steps, s.maxFrameDepth⟩

def Progress.forget : Progress → Fresh.Progress
  | running s => .running s.forget
  | finished value s => .finished value s.forget
  | faulted fault s => .faulted fault s.forget
  | refused fault => .refused fault

variable {m : Machine} {s : State}

theorem forget_update (s : State) (f : Frame) : (s.update f).forget = s.forget.update f := by
  rcases hr : s.registers with _ | locals
  · simp [State.update, Fresh.State.update, State.forget, CallStack.setActive, hr]
  · simp [State.update, Fresh.State.update, State.forget, CallStack.setActive, hr]

theorem forget_charge (s : State) (budget : Option Nat) :
    s.forget.charge budget = (s.charge budget).map State.forget := by
  rcases budget with _ | max
  · rfl
  · by_cases h : max ≤ s.steps
    · simp [State.charge, Fresh.State.charge, State.forget, Except.map, h]
    · simp [State.charge, Fresh.State.charge, State.forget, Except.map, h]

theorem forget_enter {c : Config} (h : s.Sized c) (target : Nat) (arguments : List Value)
    (caller : Frame) :
    (s.enter c target arguments caller).map id Progress.forget =
      s.forget.enter c target arguments caller := by
  have hd : (s.forget.update caller).depth = s.depth := by
    rw [← forget_update]
    exact s.update_depth caller
  rw [State.enter_eq, h.maxDepth, entered_of_capacity h.spare]
  simp only [Fresh.State.enter, hd]
  rw [← forget_update]
  split_ifs
  · rfl
  · simp [Progress.forget, State.forget]

theorem forget_leave (s : State) (result : Value) (f : Frame) :
    (s.leave result f).map id Progress.forget = s.forget.leave result f := by
  have hs : s.forget.suspended = s.calls.suspended := rfl
  rw [State.leave_eq, Fresh.State.leave, hs, ← forget_update]
  rcases s.calls.suspended with _ | ⟨caller, rest⟩ <;> rfl

theorem forget_invoke (natives : NativeTable) (s : State) (native : NativeName)
    (arguments : List Value) (f : Frame) :
    (s.invoke natives native arguments f).map id Progress.forget =
      s.forget.invoke natives native arguments f := by
  unfold State.invoke Fresh.State.invoke
  rcases hr : (natives native arguments).result with e | v
  · simp [hr, Progress.forget]
  · simp [hr, Progress.forget, forget_update]

theorem forget_perform (h : s.Sized m.config) (a : Action) :
    (s.perform m a).map id Progress.forget = s.forget.perform m a := by
  cases a with
  | proceed f => simp [State.perform, Fresh.State.perform, Progress.forget, forget_update]
  | enter target arguments caller =>
    simp only [State.perform, Fresh.State.perform, ← forget_enter h]
    rfl
  | invoke native arguments f => exact forget_invoke m.natives s native arguments f
  | leave result f =>
    simp only [State.perform, Fresh.State.perform, ← forget_leave]
    rfl

theorem forget_execute (h : s.Sized m.config) (i : Instruction) :
    (s.execute m i).map id Progress.forget = s.forget.execute m i := by
  have hview : s.forget.view = s.view := rfl
  unfold State.execute Fresh.State.execute
  rw [hview]
  rcases s.view.act m.program i with e | a
  · rfl
  · exact forget_perform h a

theorem forget_dispatch (h : s.Sized m.config) :
    (s.dispatch m).map id Progress.forget = s.forget.dispatch m := by
  have hpc : s.forget.active.pc = s.pc := rfl
  unfold State.dispatch Fresh.State.dispatch
  rw [hpc, forget_charge]
  rcases m.program.fetch s.pc with e | i
  · rfl
  · rcases hc : s.charge m.config.maxSteps with e | c
    · rfl
    · obtain ⟨-, rfl⟩ := State.charge_eq_ok_iff.1 hc
      have ht : s.tick.Sized m.config := ⟨h.live, h.spare, h.registers, h.maxDepth⟩
      simp only [Except.map, ← forget_execute ht]
      rfl

theorem closing_forget (p : Progress) : p.forget.closing = p.closing := by
  cases p <;> rfl

/-- A turn with spares is a turn without them. -/
theorem forget_turn (h : s.Sized m.config) :
    (s.turn m).map id Progress.forget = s.forget.turn m := by
  simp only [State.turn, Fresh.State.turn, ← forget_dispatch h]
  simp [closing_forget]

theorem forget_advance (n : Nat) (h : s.Sized m.config) :
    (m.advance n (.running s)).map id Progress.forget =
      Fresh.advance m n (.running s.forget) := by
  induction n generalizing s with
  | zero => rfl
  | succ n ih =>
    simp only [Machine.advance, Fresh.advance, ← forget_turn h]
    rcases hp : s.turn m with ⟨events, p⟩
    cases p with
    | running t =>
      have ht : m.Goes 1 s t := by rw [Machine.Goes, Machine.advance_one, hp]
      simp only [Prod.map, Progress.forget, ← ih (h.goes ht)]
      rfl
    | _ => cases n <;> rfl

theorem begin_forget (m : Machine) (arguments : List Value) :
    (m.begin arguments).map id Progress.forget = Fresh.begin m arguments := by
  unfold Machine.begin Fresh.begin
  rcases m.config.validate with e | u
  · rfl
  · by_cases hp : m.program.isEmpty = true
    · simp [hp, Progress.forget]
    · simp [hp, Progress.forget, State.forget, State.start, Fresh.State.start]

theorem run_forget (m : Machine) (arguments : List Value) (turns : Nat) :
    (m.run turns arguments).map id Progress.forget = Fresh.run m turns arguments := by
  simp only [Machine.run, Fresh.run, ← begin_forget]
  rcases hb : m.begin arguments with ⟨opening, p⟩
  rcases m.begin_cases arguments with h | ⟨e, h⟩ <;> rw [hb] at h <;> cases h
  · have hstart := State.sized_start m.config arguments
    simp only [Prod.map, Progress.forget, ← forget_advance turns hstart]
    rfl
  · cases turns <;> rfl

theorem result?_forget (p : Progress) : p.forget.result? = p.result? := by
  cases p <;> rfl

/-- A run that uses its frames again and one that builds a frame for every call and drops it at
its exit have the same trace and the same outcome, and turn by turn the same live frames, registers
and counters. -/
theorem run_eq_fresh (m : Machine) (arguments : List Value) (turns : Nat) :
    (m.run turns arguments).1 = (Fresh.run m turns arguments).1
      ∧ (m.run turns arguments).2.result? = (Fresh.run m turns arguments).2.result?
      ∧ (m.run turns arguments).2.forget = (Fresh.run m turns arguments).2 := by
  have h := run_forget m arguments turns
  refine ⟨?_, ?_, ?_⟩
  · rw [← h]
    rfl
  · rw [← h, ← result?_forget]
    rfl
  · rw [← h]
    rfl

end FrameMachine
