import FrameMachine.Proofs.Dispatches
import FrameMachine.Proofs.Ending
import FrameMachine.Proofs.Shape
import Mathlib.Data.List.Perm.Subperm
import Mathlib.Tactic.IntervalCases

/-!
# Code that only goes forward

Without `ret`, and with every branch and call ahead of itself, a frame only moves forward; the
machine goes back at exits alone, to where a caller waits. Code from an index on then takes at most
twice what the code after it takes, and one instruction more, since a call makes two frames of one
and both go on further ahead. So the frames that are live pay for all that is still to come
(`Step.weight_lt`), and a run of such a program needs no budget. Callers wait one behind the other,
each after a call of its own (`Staggered.step`), so there are no more of them than calls.
-/

namespace FrameMachine

namespace Program

/-- The number of calls in a program. -/
def calls (p : Program) : Nat := p.code.toList.countP (·.opcode = .call)

/-- No instruction goes back: none returns from a subroutine, and what branches or calls has its
target ahead, if it has one. -/
structure Forward (p : Program) : Prop where
  no_ret : ∀ {n : Nat} {i : Instruction}, p.fetch n = .ok i → i.opcode ≠ .ret
  ahead : ∀ {n : Nat} {i : Instruction} {t : Int64}, p.fetch n = .ok i →
    i.opcode = .jump ∨ i.opcode = .gosub ∨ i.opcode = .call → i.operand = .integer t → n < t.toInt

/-- The most instructions that a frame at `pc` and the frames it enters take, in a program of `size`
instructions that only goes forward. -/
def weight (size pc : Nat) : Nat := 2 ^ (size - pc) - 1

theorem weight_anti {a b : Nat} (size : Nat) (h : a ≤ b) : weight size b ≤ weight size a :=
  Nat.sub_le_sub_right (Nat.pow_le_pow_right (by omega) (Nat.sub_le_sub_left h size)) 1

theorem weight_eq {size pc : Nat} (h : pc < size) :
    weight size pc = 2 * weight size (pc + 1) + 1 := by
  have hpow : 2 ^ (size - pc) = 2 * 2 ^ (size - (pc + 1)) := by
    rw [← Nat.pow_succ']
    congr 1
    omega
  have := Nat.one_le_two_pow (n := size - (pc + 1))
  unfold weight
  omega

/-- Different indices right after calls are no more than there are calls. -/
theorem length_le_calls {p : Program} {pcs : List Nat} (hnodup : pcs.Nodup)
    (h : ∀ pc ∈ pcs, ∃ n i, pc = n + 1 ∧ p.fetch n = .ok i ∧ i.opcode = .call) :
    pcs.length ≤ p.calls := by
  have hsub : pcs ⊆ p.code.toList.findIdxs (·.opcode = .call) 1 := by
    intro pc hpc
    obtain ⟨n, i, rfl, hi, op⟩ := h pc hpc
    have hget : p.code.toList[n]? = some i := by
      rw [Array.getElem?_toList]
      exact fetch_eq_ok_iff.1 hi
    obtain ⟨hlt, rfl⟩ := List.getElem?_eq_some_iff.1 hget
    exact List.mem_findIdxs_iff_getElem_sub_pos.2 ⟨by omega, by simpa using hlt, by simpa using op⟩
  have hle := (List.subperm_of_subset hnodup hsub).length_le
  rwa [List.length_findIdxs] at hle

theorem Forward.ahead_of_branchTarget {p : Program} {n target : Nat} {i : Instruction}
    (hp : p.Forward) (hi : p.fetch n = .ok i)
    (op : i.opcode = .jump ∨ i.opcode = .gosub ∨ i.opcode = .call)
    (goal : p.branchTarget i = .ok target) : n < target := by
  obtain ⟨t, operand, ht⟩ := branchTarget_eq_ok_iff.1 goal
  have := hp.ahead hi op operand
  have := (target?_eq_some_iff.1 ht).1
  omega

end Program

/-- In a program that only goes forward a frame goes on ahead. -/
theorem Frame.Effect.ahead {p : Program} {f g : Frame} {i : Instruction}
    (h : f.Effect p i (.proceed g)) (hp : p.Forward) (hi : p.fetch f.pc = .ok i) :
    f.pc + 1 ≤ g.pc := by
  cases h with
  | jump op goal => exact hp.ahead_of_branchTarget hi (.inl op) goal
  | gosub op goal => exact hp.ahead_of_branchTarget hi (.inr (.inl op)) goal
  | ret op => exact absurd op (hp.no_ret hi)
  | push | load | store | arg | addDoubles => exact Nat.le_refl _

namespace State

/-- What the live frames may still take, all together. -/
def weight (size : Nat) (s : State) : Nat := (s.calls.live.map (Program.weight size ·.pc)).sum

/-- Callers wait at indices that go down from caller to caller, none of them ahead of the active
frame. -/
def Staggered (s : State) : Prop :=
  ((s.pc + 1) :: s.calls.suspended.map (·.pc)).Pairwise (· > ·)

variable {m : Machine} {s s' : State} {i : Instruction}

theorem weight_eq (size : Nat) (s : State) :
    s.weight size =
      Program.weight size s.pc + (s.calls.suspended.map (Program.weight size ·.pc)).sum := rfl

/-- Every instruction is paid for by the frames it leaves behind. -/
theorem Step.weight_lt (h : s.Step m i s') (hd : s.Dispatches m i) (hp : m.program.Forward) :
    s'.weight m.program.size < s.weight m.program.size := by
  have hnow := Program.weight_eq (Program.lt_size_of_fetch hd.1)
  rw [weight_eq, weight_eq]
  cases h with
  | @proceed f effect =>
    have hahead := effect.ahead hp (by rw [view_pc]; exact hd.1)
    rw [view_pc] at hahead
    have := Program.weight_anti m.program.size hahead
    rw [update_pc, update_suspended, tick_calls]
    simp only [State.pc] at *
    omega
  | invoke =>
    simp only [State.pc, CallStack.setActive] at *
    omega
  | @enter target arguments stack op goal top room =>
    have hahead := hp.ahead_of_branchTarget hd.1 (.inr (.inr op)) goal
    have := Program.weight_anti m.program.size hahead
    simp only [State.pc, Frame.enter, List.map_cons, List.sum_cons, Nat.succ_eq_add_one] at *
    omega
  | leave op top callers =>
    simp only [State.pc, callers, Frame.push, List.map_cons, List.sum_cons] at *
    omega

theorem staggered_start (c : Config) (arguments : List Value) : (start c arguments).Staggered :=
  List.pairwise_singleton _ _

theorem Staggered.step (h : s.Staggered) (hs : s.Step m i s') (hd : s.Dispatches m i)
    (hp : m.program.Forward) : s'.Staggered := by
  obtain ⟨hactive, hcallers⟩ := List.pairwise_cons.1 h
  cases hs with
  | @proceed f effect =>
    have hahead := effect.ahead hp (by rw [view_pc]; exact hd.1)
    rw [view_pc] at hahead
    refine List.pairwise_cons.2 ⟨?_, ?_⟩
    · rw [update_pc, update_suspended]
      intro pc hpc
      have := hactive pc hpc
      simp only [State.pc] at *
      omega
    · rwa [update_suspended]
  | invoke =>
    exact List.pairwise_cons.2 ⟨fun pc hpc => Nat.lt_succ_of_lt (hactive pc hpc), hcallers⟩
  | @enter target arguments stack op goal top room =>
    have hahead : s.pc < target := hp.ahead_of_branchTarget hd.1 (.inr (.inr op)) goal
    refine List.pairwise_cons.2 ⟨?_, h⟩
    rintro pc (_ | ⟨_, hpc⟩)
    · exact Nat.succ_lt_succ hahead
    · exact Nat.lt_trans (hactive pc hpc) (Nat.succ_lt_succ hahead)
  | leave op top callers =>
    rw [callers] at hcallers
    obtain ⟨hcaller, hrest⟩ := List.pairwise_cons.1 hcallers
    exact List.pairwise_cons.2 ⟨fun pc hpc => Nat.lt_succ_of_lt (hcaller pc hpc), hrest⟩

/-- There are no more callers than calls. -/
theorem Staggered.depth_le {p : Program} (h : s.Staggered) (hs : s.Shaped p) :
    s.depth ≤ p.calls + 1 := by
  obtain ⟨-, hcallers⟩ := List.pairwise_cons.1 h
  have hnodup : (s.calls.suspended.map (·.pc)).Nodup := hcallers.imp fun h => Nat.ne_of_gt h
  have hle : (s.calls.suspended.map (·.pc)).length ≤ p.calls := by
    refine Program.length_le_calls hnodup fun pc hpc => ?_
    obtain ⟨f, hf, rfl⟩ := List.mem_map.1 hpc
    exact (hs.waits f hf).call
  rw [List.length_map] at hle
  exact Nat.succ_le_succ hle

/-- Only calls that succeed count as deeper, and a run goes on after those. -/
theorem maxFrameDepth_of_ended (h : ∀ t, (s.turn m).2 ≠ .running t) :
    (s.turn m).2.maxFrameDepth = s.maxFrameDepth := by
  rcases hp : (s.turn m).2 with t | ⟨v, u⟩ | ⟨e, u⟩ | e
  · exact absurd hp (h t)
  · obtain ⟨i, stack, -, -, -, -, rfl⟩ := turn_eq_finished_iff.1 hp
    simp [Progress.maxFrameDepth]
  · cases fails_of_turn hp <;> rfl
  · exact absurd hp (turn_ne_refused m s e)

end State

namespace Machine

variable {m : Machine} {arguments : List Value} {n : Nat} {s : State}

/-- What a run has taken and what it may still take are together no more than at its start. -/
theorem steps_add_weight_le (hp : m.program.Forward) (h : m.At arguments n s) :
    s.steps + s.weight m.program.size ≤ 2 ^ m.program.size - 1 := by
  refine invariant_at (P := fun _ s => s.steps + s.weight m.program.size ≤ 2 ^ m.program.size - 1)
    ?_ ?_ h
  · intro _
    exact Nat.le_of_eq (Nat.zero_add _)
  · intro _ s s' i _ hd hs hle
    have := hs.weight_lt hd hp
    have := hs.steps_eq
    omega

theorem staggered_at (hp : m.program.Forward) (h : m.At arguments n s) : s.Staggered := by
  refine invariant_at (P := fun _ s => s.Staggered) ?_ ?_ h
  · exact fun _ => State.staggered_start m.config arguments
  · exact fun _ hd hs ht => ht.step hs hd hp

theorem depth_le_calls (hp : m.program.Forward) (h : m.At arguments n s) :
    s.depth ≤ m.program.calls + 1 :=
  (staggered_at hp h).depth_le (shaped_at h)

theorem steps_le_of_forward (hp : m.program.Forward) (arguments : List Value) (n : Nat) :
    (m.run n arguments).2.steps ≤ 2 ^ m.program.size - 1 := by
  by_contra h
  obtain ⟨s, i, hs, hd⟩ := dispatches_of_lt_steps (Nat.not_le.1 h)
  have hweight := steps_add_weight_le hp hs
  have hnow := Program.weight_eq (Program.lt_size_of_fetch hd.1)
  rw [State.weight_eq, hs.steps_eq] at hweight
  omega

theorem maxFrameDepth_le_calls_of_at (hp : m.program.Forward) (h : m.At arguments n s) :
    s.maxFrameDepth ≤ m.program.calls + 1 := by
  obtain ⟨⟨k, -, t, ht, hdepth⟩, -⟩ := isGreatest_depthsTo h
  exact hdepth ▸ depth_le_calls hp ht

theorem maxFrameDepth_le_calls (hp : m.program.Forward) (arguments : List Value) (n : Nat) :
    (m.run n arguments).2.maxFrameDepth ≤ m.program.calls + 1 := by
  by_cases hn : ∃ s, m.At arguments n s
  · obtain ⟨s, hs⟩ := hn
    rw [hs]
    exact maxFrameDepth_le_calls_of_at hp hs
  rw [not_exists] at hn
  rcases m.begin_cases arguments with hbegin | ⟨e, hbegin⟩
  · have h0 : m.At arguments 0 (.start m.config arguments) := by rw [At, run_zero, hbegin]
    obtain ⟨k, -, s, hs, hrun⟩ := exists_last_turn h0 hn
    have hend : ∀ t, (s.turn m).2 ≠ .running t := by
      intro t ht
      exact hn t (by rw [At, hrun, ht])
    rw [hrun, State.maxFrameDepth_of_ended hend]
    exact maxFrameDepth_le_calls_of_at hp hs
  · have hnever : ∀ s, ¬ m.At arguments 0 s := by simp [At, run_zero, hbegin]
    rw [run_stays hnever (Nat.zero_le n), run_zero, hbegin]
    exact Nat.zero_le _

/-- A program that only goes forward needs no budget: whatever its arguments, limits and native
functions are, a run of it ends. It takes fewer than `2 ^ size` instructions, and never has more
frames live at once than the first one and one for each call in the program. -/
theorem forward_run_ends (hp : m.program.Forward) (arguments : List Value) :
    (m.run (2 ^ m.program.size) arguments).2.result?.isSome
    ∧ ∀ n, (m.run n arguments).2.steps ≤ 2 ^ m.program.size - 1
      ∧ (m.run n arguments).2.maxFrameDepth ≤ m.program.calls + 1
      ∧ ∀ s, m.At arguments n s → s.depth ≤ m.program.calls + 1 := by
  have hsteps := steps_le_of_forward hp arguments
  have hdepth := maxFrameDepth_le_calls hp arguments
  refine ⟨?_, fun n => ⟨hsteps n, hdepth n, fun s hs => depth_le_calls hp hs⟩⟩
  rcases hend : (m.run (2 ^ m.program.size) arguments).2 with s | _ | _ | _
  · have hs : s.steps = 2 ^ m.program.size := At.steps_eq hend
    have hle := hsteps (2 ^ m.program.size)
    rw [hend] at hle
    have hle : s.steps ≤ 2 ^ m.program.size - 1 := hle
    have := Nat.two_pow_pos m.program.size
    omega
  all_goals rfl

/-- Calls the code right after the call, which it then runs itself. -/
def cascade : Machine where
  program := .ofList [⟨.push, .integer 7⟩, ⟨.push, .integer 0⟩, ⟨.call, .integer 3⟩,
    ⟨.push, .integer 5⟩, ⟨.exit, .null⟩]
  natives _ _ := ⟨.ok .null, []⟩

theorem cascade_forward : cascade.program.Forward := by
  constructor
  · intro n i hi
    have hn : n < 5 := Program.lt_size_of_fetch hi
    interval_cases n <;> cases hi <;> decide
  · intro n i t hi op operand
    have hn : n < 5 := Program.lt_size_of_fetch hi
    interval_cases n <;> cases hi <;> cases operand <;> revert op <;> decide

theorem cascade_ends :
    (cascade.run 7 []).2.result? = some (.ok ⟨.integer 5, 7, 2⟩)
      ∧ (cascade.run 32 []).2.result?.isSome ∧ 7 ≤ 2 ^ 5 - 1 ∧ 2 ≤ cascade.program.calls + 1
      ∧ cascade.program.calls = 1 := by
  obtain ⟨hend, hbounds⟩ := forward_run_ends cascade_forward []
  have hreport : (cascade.run 7 []).2.result? = some (.ok ⟨.integer 5, 7, 2⟩) := rfl
  obtain ⟨hsteps, hdepth, -⟩ := hbounds 7
  exact ⟨hreport, hend, hsteps, hdepth, rfl⟩

end Machine

end FrameMachine
