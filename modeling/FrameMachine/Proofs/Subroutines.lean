import FrameMachine.Proofs.Brackets
import FrameMachine.Proofs.Ending
import Mathlib.Tactic.IntervalCases

/-!
# Subroutines and their return addresses

A `gosub` leaves its return address on the stack it shares with the code it goes to. What an
instruction does to the stack of its frame is to take a number of values off the top and to put
others there (`Effect.stack_eq`), and a callee never touches it. So the address and all beneath it
stay till an instruction of the frame itself takes the address off, whatever runs in between, and a
`ret` that finds it on top goes back to where the `gosub` was (`gosub_ret_match`).
-/

namespace FrameMachine

/-- The number of values that the count at `place`, from the top, asks for. -/
def OperandStack.countAt (s : OperandStack) (place : Nat) : Nat :=
  match s.values[place]? with
  | some (.integer n) => n.toInt.toNat
  | _ => 0

/-- The number of values that an instruction takes off the stack, if it does not fail. -/
def Instruction.takes (i : Instruction) (s : OperandStack) : Nat :=
  match i.opcode with
  | .push | .load | .arg | .jump | .gosub => 0
  | .store | .ret | .exit => 1
  | .addDoubles => 2
  | .call => 1 + s.countAt 0
  | .execute => 2 + s.countAt 1

/-- The turn in `s` takes off the stack of the active frame what is at `height`, counted from the
bottom. -/
def State.TakesAt (m : Machine) (height : Nat) (s : State) : Prop :=
  ∃ i, m.program.fetch s.pc = .ok i
    ∧ s.calls.active.stack.depth ≤ height + i.takes s.calls.active.stack

namespace Frame

variable {p : Program} {f : Frame} {i : Instruction} {a : Action}

/-- An instruction puts values in place of those it takes, and leaves the others where they are. -/
theorem Effect.stack_eq (h : f.Effect p i a) :
    ∃ pushed, a.frame.stack.values = pushed ++ f.stack.values.drop (i.takes f.stack) := by
  cases h with
  | push op => exact ⟨[i.operand], by simp [Instruction.takes, op]; rfl⟩
  | load op operand value => exact ⟨[_], by simp [Instruction.takes, op]; rfl⟩
  | store op operand top stored => exact ⟨[], by simp [Instruction.takes, op, top]; rfl⟩
  | arg op operand value => exact ⟨[_], by simp [Instruction.takes, op]; rfl⟩
  | jump op goal => exact ⟨[], by simp [Instruction.takes, op]; rfl⟩
  | gosub op goal => exact ⟨[_], by simp [Instruction.takes, op]; rfl⟩
  | ret op top goal => exact ⟨[], by simp [Instruction.takes, op, top]; rfl⟩
  | addDoubles op top => exact ⟨[_], by simp [Instruction.takes, op, top]; rfl⟩
  | call op goal top =>
    obtain ⟨n, hv, hn, -⟩ := OperandStack.values_of_popArguments top
    refine ⟨[], ?_⟩
    simp [Instruction.takes, op, OperandStack.countAt, hv, hn, Action.frame, advance,
      Nat.add_comm 1]
  | execute op handle top =>
    obtain ⟨n, hv, hn, -⟩ := OperandStack.values_of_popArguments top
    refine ⟨[], ?_⟩
    simp [Instruction.takes, op, OperandStack.countAt, handle, hv, hn, Action.frame,
      Nat.add_comm 2]
  | exit op top => exact ⟨[], by simp [Instruction.takes, op, top]; rfl⟩

end Frame

namespace State

variable {m : Machine} {s s' : State} {i : Instruction} {base : List Value} {height : Nat}

/-- A turn that does not take what is at `height` leaves the stack as it is up to there. -/
theorem preserves_base (hd : s.Dispatches m i) (hbase : base.length = height + 1)
    (hnot : ¬ s.TakesAt m height) : s.Preserves m i (base <:+ ·.stack.values) := by
  rintro hs a g effect - ⟨results, hg⟩
  obtain ⟨pushed, ha⟩ := effect.stack_eq
  rw [view_stack] at ha
  have hleft : height + i.takes s.calls.active.stack < s.calls.active.stack.values.length := by
    by_contra hle
    exact hnot ⟨i, hd.1, Nat.not_lt.1 hle⟩
  have hdrop : base <:+ s.calls.active.stack.values.drop (i.takes s.calls.active.stack) := by
    refine List.suffix_of_suffix_length_le hs (List.drop_suffix _ _) ?_
    rw [hbase, List.length_drop]
    omega
  show base <:+ g.stack.values
  rw [hg, ha]
  exact (hdrop.trans (List.suffix_append _ _)).trans (List.suffix_append _ _)

/-- A `gosub` that succeeds puts the index after its own on the stack. -/
theorem turn_gosub (hd : s.Dispatches m i) (op : i.opcode = .gosub)
    (h : (s.turn m).2 = .running s') :
    s'.calls.suspended = s.calls.suspended
      ∧ s'.calls.active.stack = s.calls.active.stack.push (.integer (.ofNat (s.pc + 1))) := by
  obtain ⟨j, hj, hs⟩ := turn_eq_running_iff.1 h
  obtain rfl := hj.eq_of_fetch hd.1
  cases hs with
  | proceed effect =>
    cases effect with
    | gosub => simp [Frame.push, Frame.jump, State.pc]
    | _ op' => simp [op] at op'
  | _ op' => simp [op] at op'

/-- What becomes of a `ret`. -/
theorem turn_ret {address : Int64} {stack : OperandStack} (hd : s.Dispatches m i)
    (op : i.opcode = .ret) (top : s.calls.active.stack = stack.push (.integer address)) :
    (∀ target, m.program.target? address = some target →
      (s.turn m).2 = .running
        { s with
          calls := s.calls.setActive { s.calls.active with stack, pc := target }
          steps := s.steps + 1 })
    ∧ (m.program.target? address = none →
      (s.turn m).2 = .faulted (.invalidReturnAddress address) s.tick) := by
  rw [← view_stack] at top
  constructor
  · intro target ht
    have hl : ({ s.view with stack }.jump target).locals = s.tick.view.locals := rfl
    rw [turn_eq_running_iff.2 ⟨i, hd, .proceed (.ret op top ht)⟩, update_of_locals hl]
    simp only [Frame.jump, view_arguments]
    rfl
  · intro hnone
    exact turn_of_fails (.mishap hd (.ret op top (positionBelow?_eq_none.1 hnone)))

end State

namespace Machine

variable {m : Machine} {s s₁ t : State} {i j : Instruction} {k : Nat}

/-- A `gosub` and the `ret` that finds its return address. Let a frame execute `gosub`, and let the
frame be about to execute `ret` later on, still live and with one value more on its stack. If none
of its instructions in between took what the `gosub` put there, then the stack is that of the
`gosub` with the index after it on top, and the `ret` goes to that index with the stack that the
`gosub` found, or has that index as its fault where it is not in the program. -/
theorem gosub_ret_match (hsize : m.program.size < 2 ^ 63)
    (hgosub : s.Dispatches m i) (opgosub : i.opcode = .gosub) (hturn : (s.turn m).2 = .running s₁)
    (hgoes : m.Goes k s₁ t) (hlive : m.Retains s.depth k s₁) (hactive : t.depth = s.depth)
    (huntaken : ∀ n < k, ∀ u, m.Goes n s₁ u → u.depth = s.depth →
      ¬ u.TakesAt m s.calls.active.stack.depth)
    (hret : t.Dispatches m j) (opret : j.opcode = .ret)
    (hheight : t.calls.active.stack.depth = s.calls.active.stack.depth + 1) :
    ∃ address : Int64, address.toInt = s.pc + 1
      ∧ t.calls.active.stack.toList = s.calls.active.stack.toList ++ [.integer address]
      ∧ (s.pc + 1 < m.program.size →
        (t.turn m).2 = .running
          { t with
            calls := t.calls.setActive
              { t.calls.active with stack := s.calls.active.stack, pc := s.pc + 1 }
            steps := t.steps + 1 })
      ∧ (m.program.size ≤ s.pc + 1 →
        (t.turn m).2 = .faulted (.invalidReturnAddress address) t.tick) := by
  obtain ⟨hcallers, hstack⟩ := State.turn_gosub hgosub opgosub hturn
  let base := s.calls.active.stack.push (.integer (.ofNat (s.pc + 1)))
  have hlength : base.values.length = s.calls.active.stack.depth + 1 := rfl
  have hdepth : s.depth = s.calls.suspended.length + 1 := rfl
  have hstart : s₁.calls.live = [] ++ s₁.calls.active :: s.calls.suspended := by
    rw [← hcallers]
    rfl
  have hbase : base.values <:+ s₁.calls.active.stack.values := hstack ▸ List.suffix_rfl
  rw [hdepth] at hlive
  -- What the `gosub` left stays at the bottom of the frame's stack.
  obtain ⟨above, f, hl, hf⟩ := live_of_goes_of (P := (base.values <:+ ·.stack.values)) hgoes hlive
    hstart hbase
    (fun n hn u i' hu hd hown =>
      State.preserves_base hd hlength (huntaken n hn u hu (hown.trans hdepth.symm)))
    (fun g v hg => hg.trans (List.suffix_cons _ _))
  obtain ⟨rfl, -⟩ := State.active_of_live hl (hactive.trans hdepth)
  have htop : base = t.calls.active.stack :=
    congrArg OperandStack.mk (hf.eq_of_length (hlength.trans hheight.symm))
  have hpc : s.pc < m.program.size := by
    by_contra hout
    have herror := Program.fetch_eq_error_iff.2 ⟨Nat.not_lt.1 hout, rfl⟩
    rw [hgosub.1] at herror
    cases herror
  have haddress : (Int64.ofNat (s.pc + 1)).toInt = ↑(s.pc + 1) :=
    Int64.toInt_ofNat_of_lt (by omega)
  obtain ⟨hback, hfault⟩ := State.turn_ret hret opret htop.symm
  refine ⟨.ofNat (s.pc + 1), haddress, by rw [← htop, OperandStack.toList_push], fun hin => ?_,
    fun hout => ?_⟩
  · exact hback _ (Program.target?_eq_some_iff.2 ⟨haddress, hin⟩)
  · exact hfault (positionBelow?_eq_none.2 (.inr (by omega)))

/-- Keeps 9 and goes to a subroutine at 3, which makes a call of its own before it returns. -/
def detour : Machine where
  program := .ofList [⟨.push, .integer 9⟩, ⟨.gosub, .integer 3⟩, ⟨.exit, .null⟩,
    ⟨.push, .integer 0⟩, ⟨.call, .integer 7⟩, ⟨.store, .integer 0⟩, ⟨.ret, .null⟩,
    ⟨.push, .integer 4⟩, ⟨.exit, .null⟩]
  config := { localsCapacity := 1, localsModel := .perFrame }
  natives _ _ := ⟨.ok .null, []⟩

/-- A state of `detour` before its call. -/
def detourState (values : List Value) (pc steps : Nat) : State where
  calls := { active := { stack := .ofList values, locals := .blank 1, pc }, maxDepth := 1024 }
  registers := none
  steps := steps

/-- About to go to the subroutine. -/
def detourLeaving : State := detourState [.integer 9] 1 1

def detourInside : State := detourState [.integer 9, .integer 2] 3 2

/-- About to return. -/
def detourReturning : State where
  calls :=
    { active := { stack := .ofList [.integer 9, .integer 2], locals := ⟨#[.integer 4]⟩, pc := 6 }
      spare := [{ locals := .blank 1, pc := 8 }]
      maxDepth := 1024 }
  registers := none
  steps := 7
  maxFrameDepth := 2

theorem detour_retains : detour.Retains 1 5 detourInside := by
  rintro k hk u hu ⟨hdepth, i, hi, op⟩
  interval_cases k <;> cases hu <;> cases hi <;> revert hdepth op <;> decide

theorem detour_untaken :
    ∀ n < 5, ∀ u, detour.Goes n detourInside u → u.depth = 1 → ¬ u.TakesAt detour 1 := by
  rintro n hn u hu hdepth ⟨i, hi, htakes⟩
  interval_cases n <;> cases hu <;> cases hi <;> revert hdepth htakes <;> decide

theorem detour_returns :
    ∃ u, (detourReturning.turn detour).2 = .running u ∧ u.pc = 2
      ∧ u.calls.active.stack.toList = [.integer 9] := by
  have hgosub : detourLeaving.Dispatches detour ⟨.gosub, .integer 3⟩ := ⟨rfl, nofun⟩
  have hret : detourReturning.Dispatches detour ⟨.ret, .null⟩ := ⟨rfl, nofun⟩
  have hgoes : detour.Goes 5 detourInside detourReturning := rfl
  obtain ⟨-, -, -, hback, -⟩ := gosub_ret_match (by decide) hgosub rfl rfl hgoes detour_retains rfl
    detour_untaken hret rfl rfl
  exact ⟨_, hback (by decide), rfl, rfl⟩

end Machine

end FrameMachine
