import FrameMachine.Machine.Run
import FrameMachine.Proofs.Effect

/-!
# What a turn does

A turn that the run goes on after dispatches an instruction and is one of four steps
(`turn_eq_running_iff`): the active frame goes on by itself, or with a native function's value, or
a frame is entered, or the active frame is left. Invariants of a run are shown step by step on
`State.Step`, and no proof after this module opens the loop for a turn that goes on.
-/

namespace FrameMachine

theorem CallStack.takeSpare_eq (c : CallStack) :
    c.takeSpare = (c.spare.head?, { c with spare := c.spare.tail }) := by
  rcases c with ⟨active, suspended, _ | ⟨f, rest⟩, maxDepth⟩ <;> rfl

namespace State

/-- The state with one more instruction charged. -/
def tick (s : State) : State := { s with steps := s.steps + 1 }

@[simp] theorem tick_calls (s : State) : s.tick.calls = s.calls := rfl

@[simp] theorem tick_registers (s : State) : s.tick.registers = s.registers := rfl

@[simp] theorem tick_view (s : State) : s.tick.view = s.view := rfl

@[simp] theorem tick_pc (s : State) : s.tick.pc = s.pc := rfl

@[simp] theorem tick_depth (s : State) : s.tick.depth = s.depth := rfl

@[simp] theorem tick_steps (s : State) : s.tick.steps = s.steps + 1 := rfl

@[simp] theorem tick_maxFrameDepth (s : State) : s.tick.maxFrameDepth = s.maxFrameDepth := rfl

theorem charge_eq_ok_iff {s c : State} {budget : Option Nat} :
    s.charge budget = .ok c ↔ (∀ max, budget = some max → s.steps < max) ∧ c = s.tick := by
  unfold charge
  split
  · split
    · simp only [reduceCtorEq, false_iff, not_and]
      intro h
      have := h _ rfl
      omega
    · simp [tick, eq_comm]
      omega
  · simp [tick, eq_comm]

/-- In state `s` the loop fetches `i` and there is budget for it. -/
def Dispatches (m : Machine) (s : State) (i : Instruction) : Prop :=
  m.program.fetch s.pc = .ok i ∧ ∀ max, m.config.maxSteps = some max → s.steps < max

@[simp] theorem view_stack (s : State) : s.view.stack = s.calls.active.stack := by
  unfold view
  split <;> rfl

@[simp] theorem view_arguments (s : State) : s.view.arguments = s.calls.active.arguments := by
  unfold view
  split <;> rfl

@[simp] theorem view_pc (s : State) : s.view.pc = s.calls.active.pc := by
  unfold view
  split <;> rfl

theorem view_shared {s : State} {locals : Locals} (h : s.registers = some locals) :
    s.view = { s.calls.active with locals } := by
  simp only [view, h]

theorem view_own {s : State} (h : s.registers = none) : s.view = s.calls.active := by
  simp only [view, h]

theorem update_shared {s : State} {locals : Locals} (h : s.registers = some locals) (f : Frame) :
    s.update f =
      { s with
        calls := s.calls.setActive { f with locals := s.calls.active.locals }
        registers := some f.locals } := by
  simp only [update, h]

theorem update_own {s : State} (h : s.registers = none) (f : Frame) :
    s.update f = { s with calls := s.calls.setActive f } := by
  simp only [update, h]

theorem update_calls (s : State) (f : Frame) :
    ∃ locals, (s.update f).calls = s.calls.setActive { f with locals } := by
  unfold update
  split
  · exact ⟨_, rfl⟩
  · exact ⟨f.locals, rfl⟩

@[simp] theorem update_suspended (s : State) (f : Frame) :
    (s.update f).calls.suspended = s.calls.suspended := by
  unfold update
  split <;> rfl

@[simp] theorem update_spare (s : State) (f : Frame) :
    (s.update f).calls.spare = s.calls.spare := by
  unfold update
  split <;> rfl

@[simp] theorem update_maxDepth (s : State) (f : Frame) :
    (s.update f).calls.maxDepth = s.calls.maxDepth := by
  unfold update
  split <;> rfl

@[simp] theorem update_stack (s : State) (f : Frame) :
    (s.update f).calls.active.stack = f.stack := by
  unfold update
  split <;> rfl

@[simp] theorem update_pc (s : State) (f : Frame) : (s.update f).pc = f.pc := by
  unfold update pc
  split <;> rfl

@[simp] theorem update_steps (s : State) (f : Frame) : (s.update f).steps = s.steps := by
  unfold update
  split <;> rfl

@[simp] theorem update_depth (s : State) (f : Frame) : (s.update f).depth = s.depth := by
  simp [depth, CallStack.depth]

/-- Where an instruction leaves the locals alone, they stay where they are. -/
theorem update_of_locals {s : State} {f : Frame} (h : f.locals = s.view.locals) :
    s.update f =
      { s with calls := s.calls.setActive { f with locals := s.calls.active.locals } } := by
  rcases hr : s.registers with _ | locals
  · rw [view_own hr] at h
    rw [update_own hr, ← h, hr]
  · rw [view_shared hr] at h
    rw [update_shared hr, h]

/-- What one instruction makes of a state, if the run goes on. -/
inductive Step (m : Machine) (s : State) (i : Instruction) : State → Prop
  | proceed {f : Frame} (effect : s.view.Effect m.program i (.proceed f)) :
      Step m s i (s.tick.update f)
  | invoke {name : NativeName} {above stack : OperandStack} {arguments : List Value} {v : Value}
      (op : i.opcode = .execute) (handle : s.calls.active.stack = above.push (.native name))
      (top : above.popArguments 0 = .ok (arguments, stack))
      (reply : (m.natives name arguments).result = .ok v) :
      Step m s i
        { s with
          calls := s.calls.setActive
            { s.calls.active with stack := stack.push v, pc := s.pc + 1 }
          steps := s.steps + 1 }
  | enter {target : Nat} {arguments : List Value} {stack : OperandStack} (op : i.opcode = .call)
      (goal : m.program.branchTarget i = .ok target)
      (top : s.calls.active.stack.popArguments 1 = .ok (arguments, stack))
      (room : s.depth < s.calls.maxDepth) :
      Step m s i
        { s with
          calls :=
            { s.calls with
              active := (s.calls.spare.head?.getD (.blank m.config.frameLocals)).enter arguments
                target
              suspended := { s.calls.active with stack, pc := s.pc + 1 } :: s.calls.suspended
              spare := s.calls.spare.tail }
          steps := s.steps + 1
          maxFrameDepth := max s.maxFrameDepth (s.depth + 1) }
  | leave {v : Value} {stack : OperandStack} {caller : Frame} {rest : List Frame}
      (op : i.opcode = .exit) (top : s.calls.active.stack = stack.push v)
      (callers : s.calls.suspended = caller :: rest) :
      Step m s i
        { s with
          calls :=
            { s.calls with
              active := caller.push v
              suspended := rest
              spare := { s.calls.active with stack } :: s.calls.spare }
          steps := s.steps + 1 }

variable {m : Machine} {s s' : State} {i : Instruction}

theorem Dispatches.eq_of_fetch {j : Instruction} (h : s.Dispatches m j)
    (hf : m.program.fetch s.pc = .ok i) : i = j := by
  rw [h.1] at hf
  cases hf
  rfl

theorem turn_eq_of_dispatches (h : s.Dispatches m i) :
    s.turn m =
      (.own (.dispatched s.pc s.depth i) :: (s.tick.execute m i).1
        ++ (s.tick.execute m i).2.closing.map .own, (s.tick.execute m i).2) := by
  have hc : s.charge m.config.maxSteps = .ok s.tick := charge_eq_ok_iff.2 ⟨h.2, rfl⟩
  simp only [turn, dispatch, h.1, hc, tick_pc, tick_depth]

theorem turn_of_dispatches (h : s.Dispatches m i) : (s.turn m).2 = (s.tick.execute m i).2 := by
  rw [turn_eq_of_dispatches h]

theorem turn_of_fetch_error {e : Fault} (h : m.program.fetch s.pc = .error e) :
    s.turn m = ([.own (.faulted s.pc s.depth e)], .faulted e s) := by
  simp [turn, dispatch, h, Progress.closing]

theorem turn_of_spent {max : Nat} (hi : m.program.fetch s.pc = .ok i)
    (hm : m.config.maxSteps = some max) (h : max ≤ s.steps) :
    s.turn m =
      ([.own (.faulted s.pc s.depth (.stepBudgetExhausted max))],
        .faulted (.stepBudgetExhausted max) s) := by
  simp [turn, dispatch, hi, hm, charge, h, Progress.closing]

/-- A turn fails to fetch, or finds the budget spent, or dispatches an instruction. -/
theorem turn_cases (m : Machine) (s : State) :
    (∃ e, m.program.fetch s.pc = .error e)
      ∨ (∃ i max, m.program.fetch s.pc = .ok i ∧ m.config.maxSteps = some max ∧ max ≤ s.steps)
      ∨ ∃ i, s.Dispatches m i := by
  rcases hf : m.program.fetch s.pc with e | i
  · exact .inl ⟨e, rfl⟩
  · by_cases hb : ∀ max, m.config.maxSteps = some max → s.steps < max
    · exact .inr (.inr ⟨i, hf, hb⟩)
    · simp only [not_forall, Nat.not_lt] at hb
      obtain ⟨max, hm, hle⟩ := hb
      exact .inr (.inl ⟨i, max, rfl, hm, hle⟩)

theorem turn_of_act_error {e : Fault} (h : s.Dispatches m i)
    (ha : s.view.act m.program i = .error e) : (s.turn m).2 = .faulted e s.tick := by
  rw [turn_of_dispatches h]
  unfold execute
  rw [tick_view, ha]

theorem dispatches_of_turn (h : (s.turn m).2 = .running s') : ∃ i, s.Dispatches m i := by
  simp only [turn, dispatch] at h
  split at h
  · cases h
  · rename_i i hi
    split at h
    · cases h
    · rename_i c hc
      exact ⟨i, hi, (charge_eq_ok_iff.1 hc).1⟩

@[simp] theorem update_maxFrameDepth (s : State) (f : Frame) :
    (s.update f).maxFrameDepth = s.maxFrameDepth := by
  unfold update
  split <;> rfl

theorem enter_eq (c : Config) (s : State) (target : Nat) (arguments : List Value)
    (caller : Frame) :
    s.enter c target arguments caller =
      if s.calls.maxDepth ≤ s.depth then
        ([], .faulted (.callStackOverflow s.calls.maxDepth) (s.update caller))
      else
        ([.pushedFrame target arguments.length (s.depth + 1)],
          .running { s.update caller with
            calls :=
              { (s.update caller).calls with
                active := (s.calls.spare.head?.getD (.blank c.frameLocals)).enter arguments target
                suspended := (s.update caller).calls.active :: s.calls.suspended
                spare := s.calls.spare.tail }
            maxFrameDepth := max s.maxFrameDepth (s.depth + 1) }) := by
  rw [← s.update_depth caller, ← s.update_maxDepth caller, ← s.update_spare caller,
    ← s.update_suspended caller, ← s.update_maxFrameDepth caller]
  simp only [enter, CallStack.takeSpare_eq]
  generalize s.update caller = u
  by_cases hroom : u.calls.maxDepth ≤ u.depth
  · rw [if_pos hroom, CallStack.push, if_pos (by exact hroom)]
  · rw [if_neg hroom, CallStack.push, if_neg (by exact hroom)]
    rfl

theorem leave_eq (s : State) (v : Value) (f : Frame) :
    s.leave v f =
      match s.calls.suspended with
      | [] => ([], .finished v (s.update f))
      | caller :: rest =>
        ([.poppedFrame caller.pc (rest.length + 1)],
          .running { s.update f with
            calls :=
              { (s.update f).calls with
                active := caller.push v
                suspended := rest
                spare := (s.update f).calls.active :: s.calls.spare } }) := by
  rw [← s.update_spare f, ← s.update_suspended f]
  simp only [leave]
  generalize s.update f = u
  rcases hu : u.calls.suspended with _ | ⟨caller, rest⟩
  · simp [CallStack.isRoot, hu]
  · simp [CallStack.isRoot, CallStack.pop, CallStack.recycle, CallStack.setActive,
      CallStack.depth, hu]

theorem step_of_execute (h : (s.tick.execute m i).2 = .running s') : s.Step m i s' := by
  unfold execute at h
  rw [tick_view] at h
  split at h
  · cases h
  · rename_i action hact
    have he := Frame.effect_of_act hact
    cases he with
    | @execute name above stack arguments op handle top =>
      rw [view_stack] at handle
      simp only [perform, invoke] at h
      split at h
      · cases h
      · rename_i v hv
        cases h
        have hl : ({ s.view with stack }.push v).advance.locals = s.tick.view.locals := rfl
        rw [update_of_locals hl]
        simp only [Frame.push, Frame.advance, view_arguments, view_pc]
        exact .invoke op handle top hv
    | @call target arguments stack op goal top =>
      rw [view_stack] at top
      have hl : { s.view with stack }.advance.locals = s.tick.view.locals := rfl
      simp only [perform, Prod.map, enter_eq, update_of_locals hl] at h
      split_ifs at h with hroom
      · cases h
      · cases h
        simp only [Frame.advance, view_arguments, view_pc]
        exact .enter op goal top (Nat.not_le.1 hroom)
    | @exit v stack op top =>
      rw [view_stack] at top
      have hl : { s.view with stack }.locals = s.tick.view.locals := rfl
      simp only [perform, Prod.map, leave_eq, update_of_locals hl] at h
      split at h
      · cases h
      · rename_i caller rest hs
        cases h
        simp only [view_arguments, view_pc]
        exact .leave op top hs
    | _ =>
      cases h
      exact .proceed (Frame.effect_of_act hact)

theorem execute_of_step (h : s.Step m i s') : (s.tick.execute m i).2 = .running s' := by
  unfold execute
  rw [tick_view]
  cases h with
  | proceed effect => rw [Frame.act_of_effect effect]; rfl
  | @invoke name above stack arguments v op handle top reply =>
    rw [← view_stack] at handle
    have hl : ({ s.view with stack }.push v).advance.locals = s.tick.view.locals := rfl
    simp only [Frame.act_of_effect (.execute op handle top), perform, invoke, reply,
      update_of_locals hl]
    simp only [Frame.push, Frame.advance, view_arguments, view_pc]
    rfl
  | @enter target arguments stack op goal top room =>
    rw [← view_stack] at top
    have hl : { s.view with stack }.advance.locals = s.tick.view.locals := rfl
    have hroom : ¬ s.tick.calls.maxDepth ≤ s.tick.depth := Nat.not_le.2 room
    simp only [Frame.act_of_effect (.call op goal top), perform, Prod.map, enter_eq,
      update_of_locals hl, if_neg hroom]
    simp only [Frame.advance, view_arguments, view_pc]
    rfl
  | @leave v stack caller rest op top callers =>
    rw [← view_stack] at top
    have hl : { s.view with stack }.locals = s.tick.view.locals := rfl
    simp only [Frame.act_of_effect (.exit op top), perform, Prod.map, leave_eq,
      update_of_locals hl, tick_calls, callers]
    simp only [view_arguments, view_pc]
    rfl

/-- A run goes on after a turn exactly when the turn dispatches an instruction and the instruction
does one of the four steps. -/
theorem turn_eq_running_iff :
    (s.turn m).2 = .running s' ↔ ∃ i, s.Dispatches m i ∧ s.Step m i s' := by
  constructor
  · intro h
    obtain ⟨i, hi⟩ := dispatches_of_turn h
    exact ⟨i, hi, step_of_execute (turn_of_dispatches hi ▸ h)⟩
  · rintro ⟨i, hi, h⟩
    rw [turn_of_dispatches hi, execute_of_step h]

end State

end FrameMachine
