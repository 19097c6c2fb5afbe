import FrameMachine.Proofs.Ending
import FrameMachine.Proofs.Shape

/-!
# Faults that a run does not raise

Leaving aside what native functions complain of, a run ends only with faults of its own frames, the
depth limit, the budget or the fetch. The fetch fails in one place, right after the last
instruction: branches are checked, so an index that has no instruction is reached by falling
through the last one, or by returning to a caller whose call was the last one (`turn_runsOff`).
-/

namespace FrameMachine

/-- Faults that no instruction, fetch, budget or depth limit raises. -/
def Fault.Foreign : Fault → Prop
  | .frameStackUnderflow | .reservedTag _ | .nativeFault _ | .invalidConfig _ | .emptyProgram =>
    True
  | _ => False

/-- The instructions that go on at the next index if they go on. -/
def Opcode.fallsThrough : Opcode → Bool
  | .push | .load | .store | .arg | .addDoubles | .execute => true
  | .jump | .gosub | .ret | .call | .exit => false

/-- From `s` to `t` the instruction `i` leaves the program: it is the last one and falls through, or
it is an exit back to a call that is the last one. -/
def State.RunsOff (m : Machine) (s : State) (i : Instruction) (t : State) : Prop :=
  t.pc = m.program.size
    ∧ (i.opcode.fallsThrough = true ∧ t.pc = s.pc + 1 ∧ t.depth = s.depth
      ∨ i.opcode = .exit ∧ t.depth + 1 = s.depth
        ∧ ∃ j, m.program.fetch (m.program.size - 1) = .ok j ∧ j.opcode = .call)

theorem OperandStack.pops_of_require {s : OperandStack} (h : s.require 2 = .ok ()) :
    s.popDouble.1 ≠ .error .stackUnderflow
      ∧ s.popDouble.2.popDouble.1 ≠ .error .stackUnderflow := by
  obtain ⟨lhs, rhs, rest, rfl⟩ := push_push_of_require h
  constructor
  · intro he
    cases (Value.asDouble_eq_error_iff.1 he).2
  · intro he
    cases (Value.asDouble_eq_error_iff.1 he).2

/-- Above the first frame a frame can always be taken off. -/
theorem CallStack.pop_of_not_isRoot {c : CallStack} (h : c.isRoot = false) :
    ∃ c', c.pop = .ok (c.active, c') := by
  unfold pop
  split
  · rename_i hs
    simp [isRoot, hs] at h
  · exact ⟨_, rfl⟩

namespace Frame

variable {p : Program} {f : Frame} {i : Instruction} {e : Fault}

/-- An instruction that fails in its frame raises a fault of its own, and none of a fetch. -/
theorem Mishap.not_foreign (h : f.Mishap p i e) :
    ¬ e.Foreign ∧ ∀ pc, e ≠ .programCounterOutOfBounds pc := by
  cases h with
  | target _ h => cases h <;> exact ⟨id, nofun⟩
  | retPop _ h => cases h <;> exact ⟨id, nofun⟩
  | executePop _ h => cases h <;> exact ⟨id, nofun⟩
  | call _ _ h =>
    rcases h with h | _ | _
    · cases h <;> exact ⟨id, nofun⟩
    all_goals exact ⟨id, nofun⟩
  | execute _ _ h =>
    rcases h with h | _ | _
    · cases h <;> exact ⟨id, nofun⟩
    all_goals exact ⟨id, nofun⟩
  | _ => exact ⟨id, nofun⟩

/-- An instruction goes on at the next index, or at one that it has checked. -/
theorem Effect.pc_cases {g : Frame} (h : f.Effect p i (.proceed g)) :
    i.opcode.fallsThrough = true ∧ g.pc = f.pc + 1 ∨ g.pc < p.size := by
  cases h with
  | jump _ goal => exact .inr (Program.lt_size_of_branchTarget goal)
  | gosub _ goal => exact .inr (Program.lt_size_of_branchTarget goal)
  | ret _ _ goal => exact .inr (Program.target?_eq_some_iff.1 goal).2
  | push op | load op | store op | arg op | addDoubles op =>
    exact .inl ⟨by rw [op]; rfl, rfl⟩

end Frame

namespace State

variable {m : Machine} {s t u : State} {i : Instruction} {e : Fault}

theorem Step.runsOff (h : s.Step m i t) (hd : s.Dispatches m i) (hs : s.Shaped m.program)
    (ht : m.program.size ≤ t.pc) : s.RunsOff m i t := by
  have hpc : s.pc < m.program.size := Program.lt_size_of_fetch hd.1
  cases h with
  | @proceed f effect =>
    rw [update_pc] at ht
    rcases effect.pc_cases with ⟨op, hnext⟩ | hlt
    · rw [view_pc] at hnext
      have hnext : f.pc = s.pc + 1 := hnext
      refine ⟨?_, .inl ⟨op, ?_, by simp⟩⟩
      · rw [update_pc]
        omega
      · rw [update_pc, hnext]
    · exact absurd ht (Nat.not_le.2 hlt)
  | invoke op =>
    have ht : m.program.size ≤ s.pc + 1 := ht
    have hend : s.pc + 1 = m.program.size := by omega
    exact ⟨hend, .inl ⟨by rw [op]; rfl, rfl, rfl⟩⟩
  | enter op goal => exact absurd ht (Nat.not_le.2 (Program.lt_size_of_branchTarget goal))
  | @leave v stack caller rest op top callers =>
    obtain ⟨⟨q, j, hq, hj, hcall⟩, -⟩ := hs.waits caller (by simp [callers])
    have ht : m.program.size ≤ caller.pc := ht
    have hlt := Program.lt_size_of_fetch hj
    obtain rfl : q = m.program.size - 1 := by omega
    refine ⟨?_, .inr ⟨op, ?_, j, hj, hcall⟩⟩
    · have : caller.pc = m.program.size := by omega
      exact this
    · simp [depth, CallStack.depth, callers]

/-- A turn that fails does so by a refusal, or by a fetch right where there is no instruction, or
with a fault that is the machine's own. -/
theorem Fails.cases (h : s.Fails m e u) :
    s.Refuses m e ∨ m.program.size ≤ s.pc ∧ e = .programCounterOutOfBounds s.pc
      ∨ ¬ e.Foreign ∧ ∀ pc, e ≠ .programCounterOutOfBounds pc := by
  cases h with
  | fetch h => exact .inr (.inl (Program.fetch_eq_error_iff.1 h))
  | refusal h => exact .inl h
  | mishap _ h => exact .inr (.inr h.not_foreign)
  | budget | overflow => exact .inr (.inr ⟨id, nofun⟩)

end State

namespace Machine

variable {m : Machine} {arguments : List Value} {n : Nat} {s t : State} {i : Instruction}
  {e : Fault}

theorem turn_runsOff (h : m.At arguments n s) (hd : s.Dispatches m i)
    (ht : (s.turn m).2 = .running t) (hpc : m.program.size ≤ t.pc) : s.RunsOff m i t := by
  obtain ⟨j, hd', hs⟩ := State.turn_eq_running_iff.1 ht
  obtain rfl := hd'.eq_of_fetch hd.1
  exact hs.runsOff hd (shaped_at h) hpc

/-- A run with valid limits faults in one of its turns, or for want of a program. -/
theorem exists_fails (hm : 0 < m.config.maxCallDepth)
    (h : (m.run n arguments).2.result? = some (.error e)) :
    m.program.isEmpty = true ∧ e = .emptyProgram
      ∨ ∃ k < n, ∃ s u, m.At arguments k s ∧ s.Fails m e u := by
  rcases hp : m.program.isEmpty with _ | _
  · have hbegin : m.At arguments 0 (.start m.config arguments) := at_zero_iff.2 ⟨hm, hp, rfl⟩
    have hend : ∀ s, ¬ m.At arguments n s := by
      intro s hs
      rw [hs] at h
      cases h
    obtain ⟨k, hk, s, hs, hrun⟩ := exists_last_turn hbegin hend
    refine .inr ⟨k, hk, s, ?_⟩
    rw [hrun] at h
    rcases Progress.result?_eq_error_iff.1 h with ⟨u, hu⟩ | hu
    · exact ⟨u, hs, State.fails_of_turn hu⟩
    · exact absurd hu (State.turn_ne_refused m s e)
  · refine .inl ⟨rfl, ?_⟩
    have hbegin : (m.begin arguments).2 = .refused .emptyProgram := by
      simp [begin, Config.validate_eq_ok.2 hm, hp]
    have hnever : ∀ s, ¬ m.At arguments 0 s := by simp [at_zero_iff, hp]
    rw [run_stays hnever (Nat.zero_le n), run_zero, hbegin] at h
    cases h
    rfl

/-- What a run can fault with. With valid limits, and leaving aside what a native function refuses
with, no run ends with a fault that is none of the machine's; only a run of no instructions ends
with `emptyProgram`; and a fetch fails only right after the last instruction, where the turn before
it fell through that instruction or returned to a call that is the last one. No other turn of a run
leaves the program. Once a count is accepted its values can be taken, above the first frame an exit
finds a caller, and with two values there the pops of `addDoubles` find them. -/
theorem unraised_faults (m : Machine) (arguments : List Value)
    (hm : m.config.validate = .ok ()) :
    (∀ {n : Nat} {e : Fault}, (m.run n arguments).2.result? = some (.error e) →
      (∃ k < n, ∃ s, m.At arguments k s ∧ s.Refuses m e)
        ∨ (e.Foreign → e = .emptyProgram ∧ m.program.isEmpty = true)
          ∧ ∀ pc, e = .programCounterOutOfBounds pc → pc = m.program.size
            ∧ ∃ k s i t, m.At arguments k s ∧ s.Dispatches m i ∧ (s.turn m).2 = .running t
              ∧ s.RunsOff m i t ∧ k + 1 < n)
    ∧ (∀ {n : Nat} {s t : State} {i : Instruction}, m.At arguments n s → s.Dispatches m i →
      (s.turn m).2 = .running t → m.program.size ≤ t.pc → s.RunsOff m i t)
    ∧ (∀ {s rest : OperandStack} {reserved count : Nat},
      s.popCount reserved = .ok (count, rest) →
      ∃ arguments kept, rest.top count = .ok arguments ∧ rest.discard count = .ok kept)
    ∧ (∀ {c : CallStack}, c.isRoot = false → ∃ c', c.pop = .ok (c.active, c'))
    ∧ ∀ {s : OperandStack}, s.require 2 = .ok () → s.popDouble.1 ≠ .error .stackUnderflow
      ∧ s.popDouble.2.popDouble.1 ≠ .error .stackUnderflow := by
  refine ⟨?_, turn_runsOff, OperandStack.top_discard_of_popCount, CallStack.pop_of_not_isRoot,
    OperandStack.pops_of_require⟩
  intro n e h
  rcases exists_fails (Config.validate_eq_ok.1 hm) h with ⟨hp, rfl⟩ | ⟨k, hk, s, u, hs, hfails⟩
  · exact .inr ⟨fun _ => ⟨rfl, hp⟩, nofun⟩
  rcases hfails.cases with hrefuses | ⟨hpc, rfl⟩ | ⟨hforeign, hfetch⟩
  · exact .inl ⟨k, hk, s, hs, hrefuses⟩
  · refine .inr ⟨False.elim, ?_⟩
    rintro pc ⟨⟩
    refine ⟨Nat.le_antisymm (shaped_at hs).pc_le hpc, ?_⟩
    rcases k with _ | k
    · obtain ⟨-, hp, rfl⟩ := at_zero_iff.1 hs
      have hpos : 0 < m.program.size := Array.size_pos_iff.2 (by simpa [Program.isEmpty] using hp)
      exact absurd hpc (Nat.not_le.2 hpos)
    · obtain ⟨t, ht, hturn⟩ := at_succ.1 hs
      obtain ⟨i, hd, -⟩ := State.turn_eq_running_iff.1 hturn
      exact ⟨k, t, i, s, ht, hd, hturn, turn_runsOff ht hd hturn hpc, hk⟩
  · exact .inr ⟨fun hf => absurd hf hforeign, fun pc hpc => absurd hpc (hfetch pc)⟩

/-- Calls, as its last instruction, a piece of code that returns. -/
def trailing : Machine where
  program := .ofList [⟨.push, .null⟩, ⟨.push, .integer 0⟩, ⟨.jump, .integer 5⟩, ⟨.push, .null⟩,
    ⟨.exit, .null⟩, ⟨.call, .integer 3⟩]
  natives _ _ := ⟨.ok .null, []⟩

theorem trailing_runs_off :
    (trailing.run 7 []).2.result? = some (.error (.programCounterOutOfBounds 6))
      ∧ trailing.program.size = 6
      ∧ ∃ k s i t, trailing.At [] k s ∧ (s.turn trailing).2 = .running t
        ∧ s.RunsOff trailing i t := by
  have h : (trailing.run 7 []).2.result? = some (.error (.programCounterOutOfBounds 6)) := rfl
  rcases (unraised_faults trailing [] rfl).1 h with
    ⟨k, -, s, -, i, name, above, stack, arguments, -, -, -, -, hreply⟩ | ⟨-, hfetch⟩
  · cases hreply
  · obtain ⟨hsize, k, s, i, t, hs, -, ht, hoff, -⟩ := hfetch 6 rfl
    exact ⟨h, hsize.symm, k, s, i, t, hs, ht, hoff⟩

end Machine

end FrameMachine
