import FrameMachine.Proofs.Dispatches
import FrameMachine.Proofs.Ending

/-!
# Values that the machine does not look into

Apart from `addDoubles` and native functions, the machine reads integers and, where a value of some
other kind is in the way, the kind. So any change of the values that keeps kinds and integers
commutes with a turn (`turn_relabel`), and a run of the changed program on changed arguments is the
changed run (`run_relabel`).
-/

namespace FrameMachine

/-- A change of values that keeps their kinds and all integers. -/
structure Relabelling where
  apply : Value → Value
  kind_apply : ∀ v, (apply v).kind = v.kind
  apply_integer : ∀ n, apply (.integer n) = .integer n

instance : CoeFun Relabelling fun _ => Value → Value := ⟨Relabelling.apply⟩

section Relabel

variable (φ : Relabelling)

def OperandStack.relabel (s : OperandStack) : OperandStack := ⟨s.values.map φ⟩

def Locals.relabel (l : Locals) : Locals := ⟨l.slots.map φ⟩

def Frame.relabel (f : Frame) : Frame where
  stack := f.stack.relabel φ
  locals := f.locals.relabel φ
  arguments := f.arguments.map φ
  pc := f.pc

def CallStack.relabel (c : CallStack) : CallStack where
  active := c.active.relabel φ
  suspended := c.suspended.map (·.relabel φ)
  spare := c.spare.map (·.relabel φ)
  maxDepth := c.maxDepth

def State.relabel (s : State) : State :=
  { s with calls := s.calls.relabel φ, registers := s.registers.map (·.relabel φ) }

def Action.relabel : Action → Action
  | proceed f => .proceed (f.relabel φ)
  | enter target arguments caller => .enter target (arguments.map φ) (caller.relabel φ)
  | invoke native arguments f => .invoke native (arguments.map φ) (f.relabel φ)
  | leave v f => .leave (φ v) (f.relabel φ)

def Progress.relabel : Progress → Progress
  | running s => .running (s.relabel φ)
  | finished v s => .finished (φ v) (s.relabel φ)
  | faulted e s => .faulted e (s.relabel φ)
  | refused e => .refused e

def Report.relabel (r : Report) : Report := { r with value := φ r.value }

def Instruction.relabel (i : Instruction) : Instruction := { i with operand := φ i.operand }

def Program.relabel (p : Program) : Program := ⟨p.code.map (·.relabel φ)⟩

def Machine.relabel (m : Machine) : Machine := { m with program := m.program.relabel φ }

def Event.relabel : Event → Event
  | dispatched pc depth i => .dispatched pc depth (i.relabel φ)
  | nativeReturned function arguments v => .nativeReturned function arguments (φ v)
  | finished steps v => .finished steps (φ v)
  | e => e

/-- The events of runs that native functions start are theirs. -/
def TraceEntry.relabel : TraceEntry → TraceEntry
  | own e => .own (e.relabel φ)
  | inner e => .inner e

end Relabel

variable {φ : Relabelling}

namespace Relabelling

@[simp] theorem apply_undefined : φ .undefined = .undefined := by
  have h := φ.kind_apply .undefined
  rcases hv : φ .undefined <;> rw [hv] at h <;> first | rfl | cases h

theorem asInteger_apply (v : Value) : (φ v).asInteger = v.asInteger := by
  rcases h : v.asInteger with e | n
  · obtain ⟨hk, rfl⟩ := Value.asInteger_eq_error_iff.1 h
    rw [Value.asInteger_eq_error_iff, φ.kind_apply]
    exact ⟨hk, rfl⟩
  · rw [Value.asInteger_eq_ok_iff.1 h, φ.apply_integer]
    rfl

end Relabelling

namespace OperandStack

@[simp] theorem relabel_push (s : OperandStack) (v : Value) :
    (s.push v).relabel φ = (s.relabel φ).push (φ v) := rfl

@[simp] theorem relabel_ofList (vs : List Value) : (ofList vs).relabel φ = ofList (vs.map φ) := by
  simp [relabel, ofList]

@[simp] theorem depth_relabel (s : OperandStack) : (s.relabel φ).depth = s.depth := by
  simp [relabel, depth]

theorem relabel_pop (s : OperandStack) :
    (s.relabel φ).pop = (φ <$> s.pop.1, s.pop.2.relabel φ) := by
  rcases s with ⟨_ | ⟨v, rest⟩⟩ <;> rfl

theorem relabel_popInteger (s : OperandStack) :
    (s.relabel φ).popInteger = (s.popInteger.1, s.popInteger.2.relabel φ) := by
  rcases s with ⟨_ | ⟨v, rest⟩⟩
  · rfl
  · exact Prod.ext (Relabelling.asInteger_apply v) rfl

theorem relabel_top (s : OperandStack) (n : Nat) :
    (s.relabel φ).top n = List.map φ <$> s.top n := by
  unfold top require
  rw [depth_relabel]
  split_ifs
  · rfl
  · simp [relabel, Except.map]

theorem relabel_discard (s : OperandStack) (n : Nat) :
    (s.relabel φ).discard n = relabel φ <$> s.discard n := by
  unfold discard require
  rw [depth_relabel]
  split_ifs
  · rfl
  · simp [relabel, Except.map]

theorem relabel_popCount (reserved : Nat) (s : OperandStack) :
    (s.relabel φ).popCount reserved = Prod.map id (relabel φ) <$> s.popCount reserved := by
  unfold popCount
  rw [relabel_popInteger]
  simp only [map_bind, depth_relabel]
  refine bind_congr fun raw => ?_
  split
  · rfl
  · split_ifs <;> rfl

theorem relabel_popArguments (reserved : Nat) (s : OperandStack) :
    (s.relabel φ).popArguments reserved =
      Prod.map (List.map φ) (relabel φ) <$> s.popArguments reserved := by
  unfold popArguments
  rw [relabel_popCount]
  simp only [map_bind, bind_map_left, relabel_top, relabel_discard, Prod.map]
  rfl

end OperandStack

namespace Locals

@[simp] theorem relabel_blank (n : Nat) : (blank n).relabel φ = blank n := by
  simp [relabel, blank]

@[simp] theorem capacity_relabel (l : Locals) : (l.relabel φ).capacity = l.capacity := by
  simp [relabel, capacity]

theorem relabel_load (l : Locals) (slot : Int64) :
    (l.relabel φ).load slot = φ <$> l.load slot := by
  unfold load
  rcases position? slot with _ | n
  · rfl
  · simp only [relabel, Option.bind_some, Array.getElem?_map]
    rcases l.slots[n]? with _ | v <;> rfl

theorem relabel_store (l : Locals) (slot : Int64) (v : Value) :
    (l.relabel φ).store slot (φ v) = relabel φ <$> l.store slot v := by
  unfold store
  rw [capacity_relabel]
  rcases positionBelow? l.capacity slot with _ | n
  · rfl
  · simp [relabel]

end Locals

namespace Program

@[simp] theorem size_relabel (p : Program) : (p.relabel φ).size = p.size := by
  simp [relabel, size]

theorem relabel_fetch (p : Program) (pc : Nat) :
    (p.relabel φ).fetch pc = Instruction.relabel φ <$> p.fetch pc := by
  unfold fetch get?
  simp only [relabel, Array.getElem?_map]
  rcases p.code[pc]? with _ | i <;> rfl

theorem relabel_branchTarget (p : Program) (i : Instruction) :
    (p.relabel φ).branchTarget (i.relabel φ) = p.branchTarget i := by
  unfold branchTarget target? Instruction.integerOperand
  simp only [Instruction.relabel, Relabelling.asInteger_apply, size_relabel]

end Program

namespace Frame

variable {p : Program} {f : Frame} {i : Instruction}

theorem relabel_argument (f : Frame) (index : Int64) :
    (f.relabel φ).argument index = φ <$> f.argument index := by
  unfold argument
  rcases position? index with _ | n
  · rfl
  · simp only [relabel, Option.bind_some, List.getElem?_map]
    rcases f.arguments[n]? with _ | v <;> rfl

theorem relabel_enter (f : Frame) (arguments : List Value) (pc : Nat) :
    (f.enter arguments pc).relabel φ = (f.relabel φ).enter (arguments.map φ) pc := by
  simp [enter, relabel, Locals.reset]

theorem relabel_act (hadd : i.opcode ≠ .addDoubles) (hexecute : i.opcode ≠ .execute) :
    (f.relabel φ).act (p.relabel φ) (i.relabel φ) = Action.relabel φ <$> f.act p i := by
  have hop : (i.relabel φ).opcode = i.opcode := rfl
  have hoperand : (i.relabel φ).integerOperand = i.integerOperand :=
    Relabelling.asInteger_apply i.operand
  have hstack : (f.relabel φ).stack = f.stack.relabel φ := rfl
  have hlocals : (f.relabel φ).locals = f.locals.relabel φ := rfl
  unfold act
  rw [hop, hoperand, hstack, hlocals]
  cases op : i.opcode with
  | addDoubles => exact absurd op hadd
  | execute => exact absurd op hexecute
  | push => rfl
  | gosub =>
    simp only [Program.relabel_branchTarget, map_bind]
    refine bind_congr fun target => ?_
    simp [Action.relabel, relabel, push, jump, φ.apply_integer]
  | ret =>
    simp only [OperandStack.relabel_popInteger, map_bind, Program.target?, Program.size_relabel]
    refine bind_congr fun address => ?_
    split <;> rfl
  | _ =>
    simp only [relabel_argument, OperandStack.relabel_pop, OperandStack.relabel_popArguments,
      Locals.relabel_load, Locals.relabel_store, Program.relabel_branchTarget, map_bind,
      bind_map_left]
    rfl

end Frame

namespace State

variable {m : Machine} {s : State} {i : Instruction}

theorem relabel_start (c : Config) (arguments : List Value) :
    (start c arguments).relabel φ = start c (arguments.map φ) := by
  have hregisters : c.newRegisters.map (Locals.relabel φ) = c.newRegisters := by
    unfold Config.newRegisters
    split <;> simp
  simp [start, relabel, CallStack.relabel, Frame.relabel, Frame.blank, OperandStack.relabel,
    hregisters]

theorem relabel_view (s : State) : (s.relabel φ).view = s.view.relabel φ := by
  rcases hr : s.registers with _ | l
  · rw [view_own hr, view_own (by simp [relabel, hr])]
    rfl
  · have hr' : (s.relabel φ).registers = some (l.relabel φ) := by simp [relabel, hr]
    rw [view_shared hr, view_shared hr']
    rfl

theorem relabel_update (s : State) (f : Frame) :
    (s.relabel φ).update (f.relabel φ) = (s.update f).relabel φ := by
  rcases hr : s.registers with _ | l
  · rw [update_own hr, update_own (by simp [relabel, hr])]
    rfl
  · have hr' : (s.relabel φ).registers = some (l.relabel φ) := by simp [relabel, hr]
    rw [update_shared hr, update_shared hr']
    rfl

@[simp] theorem relabel_pc (s : State) : (s.relabel φ).pc = s.pc := rfl

@[simp] theorem relabel_depth (s : State) : (s.relabel φ).depth = s.depth := by
  simp [relabel, CallStack.relabel, depth, CallStack.depth]

theorem relabel_closing (p : Progress) :
    (p.relabel φ).closing = p.closing.map (Event.relabel φ) := by
  cases p with
  | faulted e s => simp [Progress.relabel, Progress.closing, Event.relabel]
  | _ => rfl

theorem relabel_entered (c : Config) (spare : List Frame) (arguments : List Value) (target : Nat) :
    ((spare.head?.getD (.blank c.frameLocals)).enter arguments target).relabel φ =
      ((spare.map (Frame.relabel φ)).head?.getD (.blank c.frameLocals)).enter (arguments.map φ)
        target := by
  rw [Frame.relabel_enter]
  rcases spare with _ | ⟨f, rest⟩
  · simp [Frame.relabel, Frame.blank, Frame.enter]
  · rfl

theorem relabel_enter (c : Config) (s : State) (target : Nat) (arguments : List Value)
    (caller : Frame) :
    (s.relabel φ).enter c target (arguments.map φ) (caller.relabel φ) =
      (s.enter c target arguments caller).map (List.map (Event.relabel φ))
        (Progress.relabel φ) := by
  have hmax : (s.relabel φ).calls.maxDepth = s.calls.maxDepth := rfl
  have hspare : (s.relabel φ).calls.spare = s.calls.spare.map (Frame.relabel φ) := rfl
  rw [enter_eq, enter_eq, relabel_update, relabel_depth, hmax, hspare, ← relabel_entered]
  split_ifs
  · rfl
  · simp [Event.relabel, Progress.relabel, relabel, CallStack.relabel]

theorem relabel_leave (s : State) (v : Value) (f : Frame) :
    (s.relabel φ).leave (φ v) (f.relabel φ) =
      (s.leave v f).map (List.map (Event.relabel φ)) (Progress.relabel φ) := by
  have hs : (s.relabel φ).calls.suspended = s.calls.suspended.map (Frame.relabel φ) := rfl
  rw [leave_eq, leave_eq, hs, relabel_update]
  rcases s.calls.suspended with _ | ⟨caller, rest⟩
  · rfl
  · simp [Event.relabel, Progress.relabel, relabel, CallStack.relabel, Frame.relabel, Frame.push]

/-- What is left to do is the same for all values, unless a native function is asked. -/
theorem relabel_perform {a : Action} (ha : ∀ native arguments f, a ≠ .invoke native arguments f) :
    (s.relabel φ).perform (m.relabel φ) (a.relabel φ) =
      (s.perform m a).map (List.map (TraceEntry.relabel φ)) (Progress.relabel φ) := by
  cases a with
  | proceed f =>
    simp only [perform, Action.relabel, relabel_update]
    rfl
  | enter target arguments caller =>
    have hc : (m.relabel φ).config = m.config := rfl
    simp only [perform, Action.relabel, hc, relabel_enter]
    simp [Prod.map, Function.comp_def, TraceEntry.relabel]
  | invoke native arguments f => exact absurd rfl (ha native arguments f)
  | leave v f =>
    simp only [perform, Action.relabel, relabel_leave]
    simp [Prod.map, Function.comp_def, TraceEntry.relabel]

theorem relabel_execute (hadd : i.opcode ≠ .addDoubles) (hexecute : i.opcode ≠ .execute) :
    (s.relabel φ).execute (m.relabel φ) (i.relabel φ) =
      (s.execute m i).map (List.map (TraceEntry.relabel φ)) (Progress.relabel φ) := by
  have hp : (m.relabel φ).program = m.program.relabel φ := rfl
  unfold execute
  rw [relabel_view, hp, Frame.relabel_act hadd hexecute]
  rcases hact : s.view.act m.program i with e | a
  · rfl
  · refine relabel_perform ?_
    rintro native arguments f rfl
    cases Frame.effect_of_act hact
    contradiction

theorem relabel_turn (h : ∀ i, m.program.fetch s.pc = .ok i →
      i.opcode ≠ .addDoubles ∧ i.opcode ≠ .execute) :
    (s.relabel φ).turn (m.relabel φ) =
      (s.turn m).map (List.map (TraceEntry.relabel φ)) (Progress.relabel φ) := by
  have hfetch : (m.relabel φ).program.fetch (s.relabel φ).pc =
      Instruction.relabel φ <$> m.program.fetch s.pc := Program.relabel_fetch m.program s.pc
  rcases turn_cases m s with ⟨e, he⟩ | ⟨i, max, hi, hm, hle⟩ | ⟨i, hd⟩
  · rw [he] at hfetch
    rw [turn_of_fetch_error he, turn_of_fetch_error hfetch, relabel_depth]
    rfl
  · rw [hi] at hfetch
    rw [turn_of_spent hi hm hle, turn_of_spent hfetch hm hle, relabel_depth]
    rfl
  · rw [hd.1] at hfetch
    have hd' : (s.relabel φ).Dispatches (m.relabel φ) (i.relabel φ) := ⟨hfetch, hd.2⟩
    obtain ⟨hadd, hexecute⟩ := h i hd.1
    have htick : (s.relabel φ).tick = s.tick.relabel φ := rfl
    rw [turn_eq_of_dispatches hd, turn_eq_of_dispatches hd', htick,
      relabel_execute hadd hexecute, relabel_depth]
    simp only [Prod.map, relabel_closing]
    simp [TraceEntry.relabel, Event.relabel, Function.comp_def]

end State

namespace Machine

variable {m : Machine}

/-- The machine runs programs without `addDoubles` and `execute`. -/
def OnlyMoves (m : Machine) : Prop :=
  ∀ i ∈ m.program.code, i.opcode ≠ .addDoubles ∧ i.opcode ≠ .execute

theorem OnlyMoves.fetch {pc : Nat} {i : Instruction} (h : m.OnlyMoves)
    (hi : m.program.fetch pc = .ok i) : i.opcode ≠ .addDoubles ∧ i.opcode ≠ .execute := by
  unfold Program.fetch at hi
  split at hi
  · rename_i j hj
    cases hi
    exact h _ (Array.mem_of_getElem? hj)
  · cases hi

theorem relabel_advance (h : m.OnlyMoves) (n : Nat) (p : Progress) :
    (m.relabel φ).advance n (p.relabel φ) =
      (m.advance n p).map (List.map (TraceEntry.relabel φ)) (Progress.relabel φ) := by
  induction n with
  | zero => rw [advance_zero, advance_zero]; rfl
  | succ n ih =>
    rw [advance_succ, ih, m.advance_succ n p]
    rcases m.advance n p with ⟨events, s | _ | _ | _⟩
    · have hturn : (s.relabel φ).turn (m.relabel φ) = _ := State.relabel_turn fun i => h.fetch
      simp only [Prod.map, Progress.relabel, advance_one, hturn, List.map_append]
    all_goals simp [Progress.relabel, advance]

theorem relabel_begin (m : Machine) (arguments : List Value) :
    (m.relabel φ).begin (arguments.map φ) =
      (m.begin arguments).map (List.map (TraceEntry.relabel φ)) (Progress.relabel φ) := by
  have hsize : (m.relabel φ).program.size = m.program.size := Program.size_relabel m.program
  have hempty : (m.relabel φ).program.isEmpty = m.program.isEmpty := by
    rw [Bool.eq_iff_iff]
    simp [relabel, Program.relabel, Program.isEmpty]
  have hconfig : (m.relabel φ).config = m.config := rfl
  unfold begin
  rw [hsize, hempty, hconfig, List.length_map, ← State.relabel_start]
  rcases m.config.validate with e | u
  · rfl
  · split_ifs <;> rfl

/-- The run on changed values is the run with its values changed. -/
theorem run_relabel (h : m.OnlyMoves) (n : Nat) (arguments : List Value) :
    (m.relabel φ).run n (arguments.map φ) =
      (m.run n arguments).map (List.map (TraceEntry.relabel φ)) (Progress.relabel φ) := by
  simp only [run, relabel_begin]
  rcases m.begin arguments with ⟨opening, p⟩
  simp [Prod.map, relabel_advance h]

theorem result?_relabel (p : Progress) :
    (p.relabel φ).result? = p.result?.map (Except.map (Report.relabel φ)) := by
  cases p <;> rfl

theorem counters_relabel (p : Progress) :
    (p.relabel φ).steps = p.steps ∧ (p.relabel φ).maxFrameDepth = p.maxFrameDepth := by
  cases p <;> exact ⟨rfl, rfl⟩

/-- The machine does not look into values that it does not compute with. Change the values in a
program without `addDoubles` and `execute`, and in its arguments, so that kinds and integers stay.
After every turn the run on the changed values is the run with its values changed: on every stack,
in every argument view, in locals and registers and in the events, with the same indices, depths
and counters. So it ends when the run does, with the changed result or the same fault. -/
theorem values_pass_through (φ : Relabelling) {m : Machine} (h : m.OnlyMoves)
    (arguments : List Value) (n : Nat) :
    ((m.relabel φ).run n (arguments.map φ)).2 = (m.run n arguments).2.relabel φ
      ∧ ((m.relabel φ).run n (arguments.map φ)).1 =
        (m.run n arguments).1.map (TraceEntry.relabel φ)
      ∧ ((m.relabel φ).run n (arguments.map φ)).2.result? =
        (m.run n arguments).2.result?.map (Except.map (Report.relabel φ))
      ∧ ((m.relabel φ).run n (arguments.map φ)).2.steps = (m.run n arguments).2.steps
      ∧ ((m.relabel φ).run n (arguments.map φ)).2.maxFrameDepth =
        (m.run n arguments).2.maxFrameDepth := by
  rw [run_relabel h]
  exact ⟨rfl, rfl, result?_relabel _, counters_relabel _⟩

/-- Calls a piece of code on its argument that stores it, loads it and returns it. -/
def courier : Machine where
  program := .ofList [⟨.push, .null⟩, ⟨.arg, .integer 0⟩, ⟨.push, .integer 1⟩, ⟨.call, .integer 5⟩,
    ⟨.exit, .null⟩, ⟨.arg, .integer 0⟩, ⟨.store, .integer 0⟩, ⟨.load, .integer 0⟩, ⟨.exit, .null⟩]
  config := { localsCapacity := 1, localsModel := .perFrame }
  natives _ arguments := ⟨argumentAt arguments 0, []⟩

/-- All doubles become one. -/
def blurred : Relabelling where
  apply
    | .double _ => .double 0
    | v => v
  kind_apply v := by cases v <;> rfl
  apply_integer _ := rfl

theorem courier_carries_blurred :
    (courier.run 9 [.double ⟨0x7ff8000000000001⟩]).2.result? =
        some (.ok ⟨.double ⟨0x7ff8000000000001⟩, 9, 2⟩)
      ∧ ((courier.relabel blurred).run 9 [.double 0]).2.result? = some (.ok ⟨.double 0, 9, 2⟩) := by
  have hmoves : courier.OnlyMoves := by simp [OnlyMoves, courier, Program.ofList]
  have h : (courier.run 9 [.double ⟨0x7ff8000000000001⟩]).2.result? =
      some (.ok ⟨.double ⟨0x7ff8000000000001⟩, 9, 2⟩) := rfl
  obtain ⟨-, -, hresult, -⟩ := values_pass_through blurred hmoves [.double ⟨0x7ff8000000000001⟩] 9
  rw [h] at hresult
  exact ⟨h, hresult⟩

end Machine

end FrameMachine
