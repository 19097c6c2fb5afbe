import FrameMachine.Proofs.Brackets
import FrameMachine.Proofs.Budget
import FrameMachine.Proofs.Ending
import Mathlib.Algebra.Ring.Nat

/-!
# Operands in memory

Every operand on a live stack has cost an instruction: a call only moves its arguments to another
frame, a native function takes its arguments off before its value goes on, and an exit drops what
its frame has left. So a turn adds no more to all stacks together than to the counter
(`turn_operands_le`), and the step budget bounds the memory that operands take.
-/

namespace FrameMachine

/-- The number of operands on the stacks of all live frames. -/
def State.operands (s : State) : Nat := (s.calls.live.map (·.stack.depth)).sum

/-- Operands on live stacks, where the run stands or ended; a run that is refused has none. -/
def Progress.operands : Progress → Nat
  | running s | finished _ s | faulted _ s => s.operands
  | refused _ => 0

theorem OperandStack.depth_of_popArguments {s rest : OperandStack} {reserved : Nat}
    {arguments : List Value} (h : s.popArguments reserved = .ok (arguments, rest)) :
    s.depth = rest.depth + arguments.length + 1 := by
  obtain ⟨n, hs, -, -⟩ := popArguments_eq_ok_iff.1 h
  rw [← length_toList, hs]
  simp only [List.length_append, List.length_singleton, length_toList]

theorem Frame.Effect.depth_le {p : Program} {f g : Frame} {i : Instruction}
    (h : f.Effect p i (.proceed g)) : g.stack.depth ≤ f.stack.depth + 1 := by
  cases h with
  | @store slot v stack locals _ _ top =>
    change stack.depth ≤ f.stack.depth + 1
    rw [top, OperandStack.depth_push]
    omega
  | @ret address stack target _ top =>
    change stack.depth ≤ f.stack.depth + 1
    rw [top, OperandStack.depth_push]
    omega
  | @addDoubles lhs rhs stack _ top =>
    change stack.depth + 1 ≤ f.stack.depth + 1
    rw [top, OperandStack.depth_push, OperandStack.depth_push]
    omega
  | jump => exact Nat.le_succ _
  | push | load | arg | gosub => exact Nat.le_refl _

namespace State

variable {m : Machine} {s s' u : State} {i : Instruction} {e : Fault} {v : Value}

theorem operands_eq (s : State) :
    s.operands = s.calls.active.stack.depth + (s.calls.suspended.map (·.stack.depth)).sum := rfl

theorem operands_update (s : State) (f : Frame) :
    (s.update f).operands = f.stack.depth + (s.calls.suspended.map (·.stack.depth)).sum := by
  rw [operands_eq, update_stack, update_suspended]

/-- An instruction adds at most one operand to all stacks together. -/
theorem Step.operands_le (h : s.Step m i s') : s'.operands ≤ s.operands + 1 := by
  cases h with
  | @proceed f effect =>
    have hdepth := effect.depth_le
    rw [view_stack] at hdepth
    rw [operands_update, operands_eq, tick_calls]
    omega
  | invoke op handle top reply =>
    have hcount := OperandStack.depth_of_popArguments top
    simp only [operands_eq, CallStack.setActive, handle, OperandStack.depth_push]
    omega
  | @enter target arguments stack op goal top room =>
    have hcount := OperandStack.depth_of_popArguments top
    have hcallee : (OperandStack.ofList arguments).depth = arguments.length := by
      rw [← OperandStack.length_toList, OperandStack.toList_ofList]
    simp only [operands_eq, Frame.enter, List.map_cons, List.sum_cons, hcallee]
    omega
  | leave op top callers =>
    simp only [operands_eq, callers, Frame.push, List.map_cons, List.sum_cons,
      OperandStack.depth_push]
    omega

/-- A turn that fails leaves no more operands than it found. -/
theorem Fails.operands_le (h : s.Fails m e u) : u.operands ≤ s.operands ∧ s.steps ≤ u.steps := by
  cases h with
  | fetch | budget => exact ⟨Nat.le_refl _, Nat.le_refl _⟩
  | mishap | refusal => exact ⟨Nat.le_refl _, Nat.le_succ _⟩
  | @overflow i target arguments stack hd op goal top full =>
    have hcount := OperandStack.depth_of_popArguments top
    refine ⟨?_, Nat.le_succ _⟩
    simp only [operands_eq, CallStack.setActive]
    omega

/-- The last exit takes the result off a stack. -/
theorem operands_of_finished (h : (s.turn m).2 = .finished v u) :
    u.operands + 1 = s.operands ∧ u.steps = s.steps + 1 := by
  obtain ⟨i, stack, -, -, top, -, rfl⟩ := turn_eq_finished_iff.1 h
  constructor
  · rw [operands_update, operands_eq, top, OperandStack.depth_push, tick_calls]
    exact Nat.add_right_comm _ _ _
  · rw [update_steps, tick_steps]

/-- What a turn adds to the operands it adds to the counter. -/
theorem turn_operands_le (m : Machine) (s : State) :
    (s.turn m).2.operands + s.steps ≤ s.operands + (s.turn m).2.steps := by
  rcases hp : (s.turn m).2 with t | ⟨v, u⟩ | ⟨e, u⟩ | e
  · obtain ⟨i, -, hs⟩ := turn_eq_running_iff.1 hp
    have := hs.operands_le
    have := hs.steps_eq
    simp only [Progress.operands, Progress.steps]
    omega
  · obtain ⟨hoperands, hsteps⟩ := operands_of_finished hp
    simp only [Progress.operands, Progress.steps]
    omega
  · obtain ⟨hoperands, hsteps⟩ := (fails_of_turn hp).operands_le
    simp only [Progress.operands, Progress.steps]
    omega
  · exact absurd hp (turn_ne_refused m s e)

end State

namespace Machine

variable {m : Machine} {arguments : List Value} {n : Nat}

theorem begin_operands (m : Machine) (arguments : List Value) :
    (m.begin arguments).2.operands = 0 := by
  rcases m.begin_cases arguments with h | ⟨e, h⟩ <;> rw [h] <;> rfl

theorem operands_le_steps (m : Machine) (arguments : List Value) (n : Nat) :
    (m.run n arguments).2.operands ≤ (m.run n arguments).2.steps := by
  induction n with
  | zero => rw [run_zero, begin_operands]; exact Nat.zero_le _
  | succ n ih =>
    rw [run_succ]
    rcases hp : (m.run n arguments).2 with s | _ | _ | _ <;> rw [hp] at ih
    · rw [advance_one]
      have hturn := State.turn_operands_le m s
      have hle : s.operands ≤ s.steps := ih
      change (s.turn m).2.operands ≤ (s.turn m).2.steps
      omega
    all_goals exact ih

theorem two_le_steps {v : Value} {u : State} (h : (m.run n arguments).2 = .finished v u) :
    2 ≤ u.steps := by
  induction n with
  | zero =>
    rw [run_zero] at h
    rcases m.begin_cases arguments with h' | ⟨e, h'⟩ <;> rw [h'] at h <;> cases h
  | succ n ih =>
    rw [run_succ] at h
    rcases hp : (m.run n arguments).2 with s | _ | _ | _ <;> rw [hp] at h
    · rw [advance_one] at h
      obtain ⟨hoperands, hsteps⟩ := State.operands_of_finished h
      have hle := m.operands_le_steps arguments n
      rw [hp] at hle
      have hle : s.operands ≤ s.steps := hle
      omega
    · exact ih (hp.trans h)
    all_goals cases h

/-- The steps charged bound the operands that live frames hold, wherever a run stands or ends: so
under a budget of `max` steps no run ever holds more than `max`, however it nests calls and whatever
counts it uses. A run that returns a value has charged two steps at least, for it needs a value and
an exit. -/
theorem operands_within_budget (m : Machine) (arguments : List Value) (n : Nat) :
    (∀ s, m.At arguments n s → (s.calls.live.map (·.stack.depth)).sum ≤ s.steps)
    ∧ (m.run n arguments).2.operands ≤ (m.run n arguments).2.steps
    ∧ (∀ max, m.config.maxSteps = some max → (m.run n arguments).2.operands ≤ max)
    ∧ ∀ r, (m.run n arguments).2.result? = some (.ok r) → 2 ≤ r.steps := by
  have hle := m.operands_le_steps arguments n
  refine ⟨?_, hle, ?_, ?_⟩
  · intro s hs
    rw [hs] at hle
    exact hle
  · intro max hmax
    have hbudget : m.withBudget (some max) = m := by rw [withBudget, ← hmax]
    exact Nat.le_trans hle (hbudget ▸ steps_le_budget m max n arguments)
  · intro r hr
    obtain ⟨u, hu, hsteps, -⟩ := Progress.result?_eq_ok_iff.1 hr
    rw [hsteps]
    exact two_le_steps hu

/-- With its budget spent on three pushes `echo` holds three operands. -/
theorem echo_holds_three :
    ((echo.withBudget (some 3)).run 3 []).2.operands = 3
      ∧ ((echo.withBudget (some 3)).run 3 []).2.operands ≤ 3
      ∧ (echo.run 7 []).2.result? = some (.ok ⟨.integer 5, 7, 2⟩) ∧ 2 ≤ 7 := by
  have hresult : (echo.run 7 []).2.result? = some (.ok ⟨.integer 5, 7, 2⟩) := rfl
  exact ⟨rfl, (operands_within_budget (echo.withBudget (some 3)) [] 3).2.2.1 3 rfl, hresult,
    (operands_within_budget echo [] 7).2.2.2 _ hresult⟩

end Machine

end FrameMachine
