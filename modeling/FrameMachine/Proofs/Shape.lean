import FrameMachine.Proofs.Brackets
import FrameMachine.Proofs.Sizes
import Mathlib.Order.Bounds.Basic

/-!
# The shape of a run's states

Every frame that a run has built is live or spent, and they are as many as were ever live at once:
a call builds a frame only when none is spent, and then the run is deeper than ever before
(`Shaped.step`). The deepest state so far is what the counter says (`isGreatest_depthsTo`). A
suspended frame waits behind a call, with a value of its own on its stack, since a call leaves the
caller one.
-/

namespace FrameMachine

theorem Program.lt_size_of_fetch {p : Program} {n : Nat} {i : Instruction}
    (h : p.fetch n = .ok i) : n < p.size := by
  unfold fetch at h
  split at h
  · rename_i j hj
    exact (Array.getElem?_eq_some_iff.1 hj).1
  · cases h

theorem Program.lt_size_of_branchTarget {p : Program} {n : Nat} {i : Instruction}
    (h : p.branchTarget i = .ok n) : n < p.size := by
  obtain ⟨t, -, ht⟩ := branchTarget_eq_ok_iff.1 h
  exact (target?_eq_some_iff.1 ht).2

/-- What a frame is while it waits for a call of program `p` to return. -/
structure Frame.Waits (p : Program) (f : Frame) : Prop where
  call : ∃ n i, f.pc = n + 1 ∧ p.fetch n = .ok i ∧ i.opcode = .call
  stack_ne : f.stack ≠ {}

theorem Frame.Waits.pc_le {p : Program} {f : Frame} (h : f.Waits p) : f.pc ≤ p.size := by
  obtain ⟨n, i, hpc, hi, -⟩ := h.call
  have := Program.lt_size_of_fetch hi
  omega

theorem Frame.Effect.pc_le {p : Program} {f : Frame} {i : Instruction} {a : Action}
    (h : f.Effect p i a) (hf : f.pc < p.size) : a.frame.pc ≤ p.size := by
  cases h with
  | jump _ goal => exact Nat.le_of_lt (Program.lt_size_of_branchTarget goal)
  | gosub _ goal => exact Nat.le_of_lt (Program.lt_size_of_branchTarget goal)
  | ret _ _ goal => exact Nat.le_of_lt (Program.target?_eq_some_iff.1 goal).2
  | execute | exit => exact Nat.le_of_lt hf
  | _ => exact hf

/-- Where the frames of `s` stand in program `p`, and how many there are. -/
structure State.Shaped (p : Program) (s : State) : Prop where
  pc_le : s.pc ≤ p.size
  waits : ∀ f ∈ s.calls.suspended, f.Waits p
  frames : s.depth + s.calls.spare.length = s.maxFrameDepth
  le_limit : s.maxFrameDepth ≤ s.calls.maxDepth

namespace State

variable {m : Machine} {s s' : State} {i : Instruction}

theorem depth_pos (s : State) : 0 < s.depth := Nat.succ_pos _

theorem Shaped.depth_le {p : Program} (h : s.Shaped p) : s.depth ≤ s.maxFrameDepth := by
  have := h.frames
  omega

theorem shaped_start {c : Config} (p : Program) (arguments : List Value)
    (hc : 0 < c.maxCallDepth) : (start c arguments).Shaped p where
  pc_le := Nat.zero_le _
  waits := nofun
  frames := rfl
  le_limit := hc

theorem Shaped.step (h : s.Shaped m.program) (hd : s.Dispatches m i) (hs : s.Step m i s') :
    s'.Shaped m.program := by
  have hpc : s.pc < m.program.size := Program.lt_size_of_fetch hd.1
  have hframes := h.frames
  have hlimit := h.le_limit
  cases hs with
  | @proceed f effect =>
    have hf : f.pc ≤ m.program.size := effect.pc_le (by rw [view_pc]; exact hpc)
    refine ⟨?_, ?_, ?_, ?_⟩
    · rwa [update_pc]
    · rw [update_suspended]
      exact h.waits
    · rw [update_depth, update_spare, update_maxFrameDepth]
      exact hframes
    · rw [update_maxFrameDepth, update_maxDepth]
      exact hlimit
  | invoke => exact ⟨hpc, h.waits, hframes, hlimit⟩
  | @enter target arguments stack op goal top room =>
    refine ⟨Nat.le_of_lt (Program.lt_size_of_branchTarget goal), ?_, ?_, ?_⟩
    · rintro f (_ | ⟨_, hf⟩)
      · refine ⟨⟨s.pc, i, rfl, hd.1, op⟩, ?_⟩
        obtain ⟨n, -, -, hkept⟩ := OperandStack.popArguments_eq_ok_iff.1 top
        rintro rfl
        simp [OperandStack.depth] at hkept
      · exact h.waits f hf
    -- with no spent frame all that were built are live, and the new one is one more than ever
    · rcases hspare : s.calls.spare with _ | ⟨f, spare⟩
      · rw [hspare, List.length_nil] at hframes
        simp only [depth, CallStack.depth, List.length_cons, List.tail_nil, List.length_nil] at *
        omega
      · rw [hspare, List.length_cons] at hframes
        simp only [depth, CallStack.depth, List.length_cons, List.tail_cons] at *
        omega
    · simp only [Nat.max_le]
      exact ⟨hlimit, room⟩
  | @leave v stack caller rest op top callers =>
    have hcaller : caller.Waits m.program := h.waits caller (by simp [callers])
    refine ⟨hcaller.pc_le, fun f hf => h.waits f (by simp [callers, hf]), ?_, hlimit⟩
    simp only [depth, CallStack.depth, callers, List.length_cons] at *
    omega

/-- A turn that goes deeper than ever moves the counter along. -/
theorem Shaped.maxFrameDepth_eq (h : s.Shaped m.program) (hs : s.Step m i s') :
    s'.maxFrameDepth = max s.maxFrameDepth s'.depth := by
  have hle := h.depth_le
  cases hs with
  | proceed =>
    simp only [update_maxFrameDepth, update_depth, tick_maxFrameDepth, tick_depth]
    omega
  | invoke => exact (Nat.max_eq_left hle).symm
  | enter => rfl
  | leave op top callers =>
    simp only [depth, CallStack.depth, callers, List.length_cons] at *
    omega

end State

namespace Machine

variable {m : Machine} {arguments : List Value} {n : Nat} {s : State}

theorem shaped_at (h : m.At arguments n s) : s.Shaped m.program := by
  refine invariant_at (P := fun _ s => s.Shaped m.program) ?_ ?_ h
  · exact fun h0 => State.shaped_start m.program arguments h0.maxCallDepth_pos
  · exact fun _ hd hs ht => ht.step hd hs

/-- The depths that a run reaches in its first `n` turns. -/
def depthsTo (m : Machine) (arguments : List Value) (n : Nat) : Set Nat :=
  {d | ∃ k ≤ n, ∃ s, m.At arguments k s ∧ s.depth = d}

theorem depthsTo_zero (h : m.At arguments 0 s) : m.depthsTo arguments 0 = {s.depth} := by
  ext d
  constructor
  · rintro ⟨k, hk, t, ht, rfl⟩
    obtain rfl : k = 0 := by omega
    rw [ht.unique h]
    rfl
  · rintro rfl
    exact ⟨0, le_rfl, s, h, rfl⟩

theorem depthsTo_succ (h : m.At arguments (n + 1) s) :
    m.depthsTo arguments (n + 1) = insert s.depth (m.depthsTo arguments n) := by
  ext d
  constructor
  · rintro ⟨k, hk, t, ht, rfl⟩
    rcases Nat.lt_or_ge n k with hlt | hge
    · obtain rfl : k = n + 1 := by omega
      exact .inl (congrArg State.depth (ht.unique h))
    · exact .inr ⟨k, hge, t, ht, rfl⟩
  · rintro (rfl | ⟨k, hk, t, ht, rfl⟩)
    · exact ⟨n + 1, le_rfl, s, h, rfl⟩
    · exact ⟨k, by omega, t, ht, rfl⟩

theorem isGreatest_depthsTo (h : m.At arguments n s) :
    IsGreatest (m.depthsTo arguments n) s.maxFrameDepth := by
  induction n generalizing s with
  | zero =>
    rw [depthsTo_zero h, at_zero h]
    exact isGreatest_singleton
  | succ n ih =>
    obtain ⟨t, ht, hs⟩ := at_succ.1 h
    obtain ⟨i, -, hi⟩ := State.turn_eq_running_iff.1 hs
    rw [depthsTo_succ h, (shaped_at ht).maxFrameDepth_eq hi, max_comm]
    exact (ih ht).insert s.depth

/-- Wherever a run is: the active frame is at an instruction or right after the last one, and every
suspended frame is right after a call and keeps a value; the run has never been deeper than the
counter says, nor than the limit, and has been that deep; it has built as many frames, live and
spent ones together; and each of them has the locals that the model gives a frame, while the
register file is there where it is to be shared. -/
theorem state_shape (h : m.At arguments n s) :
    (s.pc ≤ m.program.size
      ∧ ∀ f ∈ s.calls.suspended, ∃ q i, f.pc = q + 1 ∧ m.program.fetch q = .ok i
        ∧ i.opcode = .call)
    ∧ (1 ≤ s.depth ∧ s.depth ≤ s.maxFrameDepth ∧ s.maxFrameDepth ≤ m.config.maxCallDepth
      ∧ IsGreatest (m.depthsTo arguments n) s.maxFrameDepth)
    ∧ s.calls.live.length + s.calls.spare.length = s.maxFrameDepth
    ∧ (m.config.localsModel = .perFrame → s.registers = none
      ∧ ∀ f ∈ s.calls.live ++ s.calls.spare, f.locals.capacity = m.config.localsCapacity)
    ∧ (m.config.localsModel = .shared →
      (∃ l, s.registers = some l ∧ l.capacity = m.config.localsCapacity)
      ∧ ∀ f ∈ s.calls.live ++ s.calls.spare, f.locals.capacity = 0)
    ∧ ∀ f ∈ s.calls.suspended, f.stack ≠ {} := by
  have hshape := shaped_at h
  have hsized := State.sized_at h
  have hframes : ∀ f ∈ s.calls.live ++ s.calls.spare, f.locals.capacity = m.config.frameLocals :=
    fun f hf => (List.mem_append.1 hf).elim (hsized.live f) (hsized.spare f)
  have hregisters := hsized.registers
  refine ⟨⟨hshape.pc_le, fun f hf => (hshape.waits f hf).call⟩,
    ⟨s.depth_pos, hshape.depth_le, hsized.maxDepth ▸ hshape.le_limit, isGreatest_depthsTo h⟩,
    hshape.frames, ?_, ?_, fun f hf => (hshape.waits f hf).stack_ne⟩
  · intro hown
    simp only [Config.newRegisters, hown, Option.map_none, Option.map_eq_none_iff] at hregisters
    simp only [Config.frameLocals, hown] at hframes
    exact ⟨hregisters, hframes⟩
  · intro hshared
    simp only [Config.newRegisters, hshared, Option.map_some, Option.map_eq_some_iff,
      Locals.capacity_blank] at hregisters
    simp only [Config.frameLocals, hshared] at hframes
    exact ⟨hregisters, hframes⟩

/-- `echo` after its call: the callee's frame is spent. -/
def echoReturned : State where
  calls :=
    { active := echoCaller.suspend [.integer 7, .integer 5]
      spare := [{ echoCallee with pc := 6 }]
      maxDepth := 1024 }
  registers := none
  steps := 6
  maxFrameDepth := 2

theorem echo_keeps_two_frames :
    echo.At [] 6 echoReturned ∧ IsGreatest (echo.depthsTo [] 6) 2
      ∧ echoReturned.calls.live.length + echoReturned.calls.spare.length = 2 := by
  have h : echo.At [] 6 echoReturned := rfl
  obtain ⟨-, ⟨-, -, -, hgreatest⟩, hframes, -⟩ := state_shape h
  exact ⟨h, hgreatest, hframes⟩

end Machine

end FrameMachine
