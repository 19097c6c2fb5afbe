import FrameMachine.Proofs.Course
import FrameMachine.Proofs.Mishap

/-!
# How a run ends

A turn that the run does not go on after finds no instruction or no budget for it, or the
instruction fails: in its own frame, by a native function's refusal, or by a call at the depth limit
(`turn_eq_faulted_iff`). Otherwise it is the exit of the first frame (`turn_eq_finished_iff`). A run
that has ended did so in one turn of a state of the run, the last (`exists_last_turn`).
-/

namespace FrameMachine

namespace Progress

variable {p : Progress}

theorem result?_eq_ok_iff {r : Report} : p.result? = some (.ok r) ↔
    ∃ s, p = .finished r.value s ∧ r.steps = s.steps ∧ r.maxFrameDepth = s.maxFrameDepth := by
  rcases r with ⟨v, steps, depth⟩
  cases p <;> simp [result?, and_assoc, eq_comm]

theorem result?_eq_error_iff {e : Fault} :
    p.result? = some (.error e) ↔ (∃ s, p = .faulted e s) ∨ p = .refused e := by
  cases p <;> simp [result?]

theorem result?_eq_none_iff : p.result? = none ↔ ∃ s, p = .running s := by
  cases p <;> simp [result?]

end Progress

namespace State

/-- The turn in `s` asks a native function, which refuses with `e`. -/
def Refuses (m : Machine) (e : Fault) (s : State) : Prop :=
  ∃ (i : Instruction) (name : NativeName) (above stack : OperandStack) (arguments : List Value),
    s.Dispatches m i ∧ i.opcode = .execute ∧ s.calls.active.stack = above.push (.native name)
      ∧ above.popArguments 0 = .ok (arguments, stack)
      ∧ (m.natives name arguments).result = .error e

/-- Instruction `i`, charged in `s`, fails and leaves the run in the state given. -/
inductive Breaks (m : Machine) (s : State) (i : Instruction) : Fault → State → Prop
  | mishap {e : Fault} (h : s.view.Mishap m.program i e) : Breaks m s i e s.tick
  | refusal {e : Fault} {name : NativeName} {above stack : OperandStack} {arguments : List Value}
      (op : i.opcode = .execute) (handle : s.calls.active.stack = above.push (.native name))
      (top : above.popArguments 0 = .ok (arguments, stack))
      (reply : (m.natives name arguments).result = .error e) : Breaks m s i e s.tick
  | overflow {target : Nat} {arguments : List Value} {stack : OperandStack}
      (op : i.opcode = .call) (goal : m.program.branchTarget i = .ok target)
      (top : s.calls.active.stack.popArguments 1 = .ok (arguments, stack))
      (full : s.calls.maxDepth ≤ s.depth) :
      Breaks m s i (.callStackOverflow s.calls.maxDepth)
        { s with
          calls := s.calls.setActive { s.calls.active with stack, pc := s.pc + 1 }
          steps := s.steps + 1 }

/-- The turn in `s` ends the run with a fault, in the state given. -/
inductive Fails (m : Machine) (s : State) : Fault → State → Prop
  | fetch {e : Fault} (h : m.program.fetch s.pc = .error e) : Fails m s e s
  | budget {i : Instruction} {max : Nat} (fetched : m.program.fetch s.pc = .ok i)
      (limit : m.config.maxSteps = some max) (spent : max ≤ s.steps) :
      Fails m s (.stepBudgetExhausted max) s
  | mishap {i : Instruction} {e : Fault} (hd : s.Dispatches m i)
      (h : s.view.Mishap m.program i e) : Fails m s e s.tick
  | refusal {e : Fault} (h : s.Refuses m e) : Fails m s e s.tick
  | overflow {i : Instruction} {target : Nat} {arguments : List Value} {stack : OperandStack}
      (hd : s.Dispatches m i) (op : i.opcode = .call) (goal : m.program.branchTarget i = .ok target)
      (top : s.calls.active.stack.popArguments 1 = .ok (arguments, stack))
      (full : s.calls.maxDepth ≤ s.depth) :
      Fails m s (.callStackOverflow s.calls.maxDepth)
        { s with
          calls := s.calls.setActive { s.calls.active with stack, pc := s.pc + 1 }
          steps := s.steps + 1 }

variable {m : Machine} {s u : State} {e : Fault} {v : Value}

theorem breaks_of_execute {i : Instruction} (h : (s.tick.execute m i).2 = .faulted e u) :
    s.Breaks m i e u := by
  unfold execute at h
  rw [tick_view] at h
  split at h
  · rename_i hact
    cases h
    exact .mishap (Frame.mishap_of_act hact)
  · rename_i action hact
    have he := Frame.effect_of_act hact
    cases he with
    | @execute name above stack arguments op handle top =>
      rw [view_stack] at handle
      simp only [perform, invoke] at h
      split at h
      · rename_i hreply
        cases h
        exact .refusal op handle top hreply
      · cases h
    | @call target arguments stack op goal top =>
      rw [view_stack] at top
      have hl : { s.view with stack }.advance.locals = s.tick.view.locals := rfl
      simp only [perform, Prod.map, enter_eq, update_of_locals hl] at h
      split_ifs at h with hroom
      · cases h
        simp only [Frame.advance, view_arguments, view_pc]
        exact .overflow op goal top hroom
      · cases h
    | exit =>
      simp only [perform, Prod.map, leave_eq] at h
      split at h <;> cases h
    | _ => cases h

theorem execute_of_breaks {i : Instruction} (h : s.Breaks m i e u) :
    (s.tick.execute m i).2 = .faulted e u := by
  unfold execute
  rw [tick_view]
  cases h with
  | mishap h => rw [Frame.act_of_mishap h]
  | refusal op handle top hreply =>
    rw [← view_stack] at handle
    simp only [Frame.act_of_effect (.execute op handle top), perform, invoke, hreply]
  | @overflow target arguments stack op goal top full =>
    rw [← view_stack] at top
    have hl : { s.view with stack }.advance.locals = s.tick.view.locals := rfl
    have hfull : s.tick.calls.maxDepth ≤ s.tick.depth := full
    simp only [Frame.act_of_effect (.call op goal top), perform, Prod.map, enter_eq,
      update_of_locals hl, if_pos hfull]
    simp only [Frame.advance, view_arguments, view_pc]
    rfl

theorem fails_of_turn (h : (s.turn m).2 = .faulted e u) : s.Fails m e u := by
  rcases turn_cases m s with ⟨e', he⟩ | ⟨i, max, hi, hm, hle⟩ | ⟨i, hd⟩
  · rw [turn_of_fetch_error he] at h
    cases h
    exact .fetch he
  · rw [turn_of_spent hi hm hle] at h
    cases h
    exact .budget hi hm hle
  rw [turn_of_dispatches hd] at h
  cases breaks_of_execute h with
  | mishap hmishap => exact .mishap hd hmishap
  | refusal op handle top hreply =>
    exact .refusal ⟨i, _, _, _, _, hd, op, handle, top, hreply⟩
  | overflow op goal top full => exact .overflow hd op goal top full

theorem turn_of_fails (h : s.Fails m e u) : (s.turn m).2 = .faulted e u := by
  cases h with
  | fetch h => rw [turn_of_fetch_error h]
  | budget fetched limit spent => rw [turn_of_spent fetched limit spent]
  | mishap hd h => rw [turn_of_dispatches hd, execute_of_breaks (.mishap h)]
  | refusal h =>
    obtain ⟨i, name, above, stack, arguments, hd, op, handle, top, hreply⟩ := h
    rw [turn_of_dispatches hd, execute_of_breaks (.refusal op handle top hreply)]
  | overflow hd op goal top full =>
    rw [turn_of_dispatches hd, execute_of_breaks (.overflow op goal top full)]

theorem turn_eq_faulted_iff : (s.turn m).2 = .faulted e u ↔ s.Fails m e u :=
  ⟨fails_of_turn, turn_of_fails⟩

/-- What becomes of an exit. -/
theorem turn_of_exit {i : Instruction} {stack : OperandStack} (hd : s.Dispatches m i)
    (op : i.opcode = .exit) (top : s.calls.active.stack = stack.push v) :
    (s.turn m).2 = (s.tick.leave v { s.view with stack }).2 := by
  rw [← view_stack] at top
  rw [turn_of_dispatches hd]
  simp only [execute, tick_view, Frame.act_of_effect (.exit op top), perform, Prod.map, id]

/-- A run finishes with the exit of the first frame. -/
theorem turn_eq_finished_iff :
    (s.turn m).2 = .finished v u ↔ ∃ i stack, s.Dispatches m i ∧ i.opcode = .exit
      ∧ s.calls.active.stack = stack.push v ∧ s.calls.suspended = []
      ∧ u = s.tick.update { s.view with stack } := by
  constructor
  · intro h
    rcases turn_cases m s with ⟨e', he⟩ | ⟨i, max, hi, hm, hle⟩ | ⟨i, hd⟩
    · rw [turn_of_fetch_error he] at h
      cases h
    · rw [turn_of_spent hi hm hle] at h
      cases h
    have hturn := h
    rw [turn_of_dispatches hd] at h
    unfold execute at h
    rw [tick_view] at h
    split at h
    · cases h
    · rename_i action hact
      have he := Frame.effect_of_act hact
      cases he with
      | execute =>
        simp only [perform, invoke] at h
        split at h <;> cases h
      | call =>
        simp only [perform, Prod.map, enter_eq] at h
        split_ifs at h <;> cases h
      | @exit w stack op top =>
        rw [view_stack] at top
        rw [turn_of_exit hd op top, leave_eq] at hturn
        split at hturn
        · rename_i hs
          cases hturn
          exact ⟨i, stack, hd, op, top, hs, rfl⟩
        · cases hturn
      | _ => cases h
  · rintro ⟨i, stack, hd, op, top, hs, rfl⟩
    rw [turn_of_exit hd op top, leave_eq, tick_calls, hs]

/-- Only the start of a run is refused. -/
theorem turn_ne_refused (m : Machine) (s : State) (e : Fault) : (s.turn m).2 ≠ .refused e := by
  intro h
  rcases turn_cases m s with ⟨e', he⟩ | ⟨i, max, hi, hm, hle⟩ | ⟨i, hd⟩
  · rw [turn_of_fetch_error he] at h
    cases h
  · rw [turn_of_spent hi hm hle] at h
    cases h
  rw [turn_of_dispatches hd] at h
  unfold execute at h
  split at h
  · cases h
  · rename_i action hact
    cases action with
    | proceed => cases h
    | enter =>
      simp only [perform, Prod.map, enter_eq] at h
      split_ifs at h <;> cases h
    | invoke =>
      simp only [perform, invoke] at h
      split at h <;> cases h
    | leave =>
      simp only [perform, Prod.map, leave_eq] at h
      split at h <;> cases h

end State

namespace Machine

variable {m : Machine} {arguments : List Value} {n : Nat}

/-- A run that began and has ended did so in one of its turns, the last. -/
theorem exists_last_turn (hbegin : m.At arguments 0 (.start m.config arguments))
    (hend : ∀ s, ¬ m.At arguments n s) :
    ∃ k < n, ∃ s, m.At arguments k s
      ∧ m.run n arguments = ((m.run k arguments).1 ++ (s.turn m).1, (s.turn m).2) := by
  induction n with
  | zero => exact absurd hbegin (hend _)
  | succ n ih =>
    by_cases hn : ∃ s, m.At arguments n s
    · obtain ⟨s, hs⟩ := hn
      exact ⟨n, Nat.lt_succ_self n, s, hs, run_succ_of_at hs⟩
    · rw [not_exists] at hn
      obtain ⟨k, hk, s, hs, hrun⟩ := ih hn
      exact ⟨k, Nat.lt_succ_of_lt hk, s, hs, by rw [run_stays hn (Nat.le_succ n), hrun]⟩

end Machine

end FrameMachine
