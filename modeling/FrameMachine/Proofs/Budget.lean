import FrameMachine.Native.Stock
import FrameMachine.Proofs.Dispatches

/-!
# The step budget

A budget is read in one place, after the fetch and before the instruction. So a turn within it is
the turn that a run without a budget makes (`turn_withBudget`), and a run under a budget follows the
run without one till that has charged more than the budget allows; there it ends, with the
instruction fetched and not charged (`cutOff_of_lt_steps`).
-/

namespace FrameMachine

namespace Machine

/-- The machine under another step budget. -/
def withBudget (m : Machine) (budget : Option Nat) : Machine :=
  { m with config := { m.config with maxSteps := budget } }

/-- With a budget of `max` the run does what it does without one for `max` turns, and then ends,
about to charge for one instruction more. -/
def CutOff (m : Machine) (arguments : List Value) (max : Nat) : Prop :=
  ∃ s, (m.withBudget none).At arguments max s
    ∧ (m.withBudget (some max)).run (max + 1) arguments =
      (((m.withBudget none).run max arguments).1
          ++ [.own (.faulted s.pc s.depth (.stepBudgetExhausted max))],
        .faulted (.stepBudgetExhausted max) s)
    ∧ ∀ n, max ≤ n →
      Trace.dispatches ((m.withBudget (some max)).run (max + 1) arguments).1 =
        (Trace.dispatches ((m.withBudget none).run n arguments).1).take max

variable {m : Machine} {arguments : List Value} {max n : Nat} {s : State} {i : Instruction}

theorem dispatches_withBudget_none :
    s.Dispatches (m.withBudget none) i ↔ m.program.fetch s.pc = .ok i :=
  and_iff_left nofun

theorem dispatches_withBudget_some :
    s.Dispatches (m.withBudget (some max)) i ↔ m.program.fetch s.pc = .ok i ∧ s.steps < max := by
  simp [State.Dispatches, withBudget]

/-- What an instruction does does not depend on the budget it was charged to. -/
theorem turn_withBudget (h : s.Dispatches (m.withBudget (some max)) i) :
    s.turn (m.withBudget (some max)) = s.turn (m.withBudget none) := by
  have h' : s.Dispatches (m.withBudget none) i :=
    dispatches_withBudget_none.2 (dispatches_withBudget_some.1 h).1
  rw [State.turn_eq_of_dispatches h, State.turn_eq_of_dispatches h']
  rfl

theorem steps_mono {a b : Nat} (m : Machine) (arguments : List Value) (h : a ≤ b) :
    (m.run a arguments).2.steps ≤ (m.run b arguments).2.steps := by
  rw [steps_run, steps_run, dispatches_take m arguments h, List.length_take]
  exact Nat.min_le_right _ _

/-- A run that charges no more than the budget is the run without one. -/
theorem run_withBudget (h : ((m.withBudget none).run n arguments).2.steps ≤ max) :
    (m.withBudget (some max)).run n arguments = (m.withBudget none).run n arguments := by
  have hstep : InStep Eq (m.withBudget none) (m.withBudget (some max)) arguments n := by
    refine inStep_of_turns (inStep_zero rfl rfl rfl) ?_
    rintro k hk s s' hs - rfl
    have hturn : s.turn (m.withBudget (some max)) = s.turn (m.withBudget none) := by
      rcases State.turn_cases (m.withBudget none) s with ⟨e, he⟩ | ⟨i, b, -, hb, -⟩ | ⟨i, hd⟩
      · rw [State.turn_of_fetch_error he]
        exact State.turn_of_fetch_error he
      · cases hb
      · have hcharged : (s.turn (m.withBudget none)).2.steps ≤ max := by
          have hmono := (m.withBudget none).steps_mono arguments (Nat.succ_le_of_lt hk)
          rw [Nat.succ_eq_add_one, run_succ_of_at hs] at hmono
          exact Nat.le_trans hmono h
        rw [hd.accounts.2] at hcharged
        exact turn_withBudget
          (dispatches_withBudget_some.2 ⟨dispatches_withBudget_none.1 hd, hcharged⟩)
    rw [hturn]
    exact ⟨rfl, Progress.rel_eq_iff.2 rfl⟩
  exact (Prod.ext hstep.trace (Progress.rel_eq_iff.1 hstep.progress)).symm

theorem cutOff_of_lt_steps (h : max < ((m.withBudget none).run n arguments).2.steps) :
    m.CutOff arguments max := by
  obtain ⟨s, i, hs, hd⟩ := dispatches_of_lt_steps h
  have hsteps : s.steps = max := hs.steps_eq
  have hcharged : ((m.withBudget none).run max arguments).2.steps = max := by
    rw [hs]
    exact hsteps
  have hrun := run_withBudget (Nat.le_of_eq hcharged)
  have hs' : (m.withBudget (some max)).At arguments max s := by
    rw [At, hrun]
    exact hs
  have hturn := State.turn_of_spent (m := m.withBudget (some max)) hd.1 rfl
    (Nat.le_of_eq hsteps.symm)
  have hcut := run_succ_of_at hs'
  rw [hturn, hrun] at hcut
  refine ⟨s, hs, hcut, ?_⟩
  intro k hk
  have htake := dispatches_take (m.withBudget none) arguments hk
  rw [hcharged] at htake
  rw [hcut, Trace.dispatches_append, htake]
  exact List.append_nil _

theorem cutOff_of_endless
    (h : ∀ n, ((m.withBudget none).run n arguments).2.result? = none) :
    m.CutOff arguments max := by
  have hend := h (max + 1)
  rcases hp : ((m.withBudget none).run (max + 1) arguments).2 with s | _ | _ | _ <;>
    rw [hp] at hend
  · have hs : s.steps = max + 1 := At.steps_eq hp
    have hlt : max < ((m.withBudget none).run (max + 1) arguments).2.steps := by
      rw [hp]
      exact Nat.lt_of_lt_of_eq (Nat.lt_succ_self max) hs.symm
    exact cutOff_of_lt_steps hlt
  all_goals cases hend

/-- A run that is still going has not spent its budget. -/
theorem steps_le_budget (m : Machine) (max n : Nat) (arguments : List Value) :
    ((m.withBudget (some max)).run n arguments).2.steps ≤ max := by
  by_contra h
  obtain ⟨s, i, hs, hd⟩ := dispatches_of_lt_steps (Nat.not_le.1 h)
  have := (dispatches_withBudget_some.1 hd).2
  have := hs.steps_eq
  omega

theorem ends_withBudget (m : Machine) (max : Nat) (arguments : List Value) :
    ((m.withBudget (some max)).run (max + 1) arguments).2.result?.isSome := by
  have hle := steps_le_budget m max (max + 1) arguments
  rcases hp : ((m.withBudget (some max)).run (max + 1) arguments).2 with s | _ | _ | _
  · rw [hp] at hle
    have hs : s.steps = max + 1 := At.steps_eq hp
    have : s.steps ≤ max := hle
    omega
  all_goals rfl

/-- The budget is an exact cut-off. A run that without a budget has charged at most `max`
instructions is the same run under a budget of `max`, its end included; a run that charges more, or
never ends, is cut off after exactly `max` instructions. Under a budget every run ends and charges
and dispatches no more than that; and an instruction within the budget does, with the runs that a
native function starts, what it does without one. -/
theorem budget_exact (m : Machine) (arguments : List Value) (max : Nat) :
    (∀ n, ((m.withBudget none).run n arguments).2.steps ≤ max →
      (m.withBudget (some max)).run n arguments = (m.withBudget none).run n arguments)
    ∧ (∀ n, max < ((m.withBudget none).run n arguments).2.steps → m.CutOff arguments max)
    ∧ ((∀ n, ((m.withBudget none).run n arguments).2.result? = none) → m.CutOff arguments max)
    ∧ ((m.withBudget (some max)).run (max + 1) arguments).2.result?.isSome
    ∧ (∀ n, ((m.withBudget (some max)).run n arguments).2.steps ≤ max
      ∧ (Trace.dispatches ((m.withBudget (some max)).run n arguments).1).length ≤ max)
    ∧ ∀ (s : State) (i : Instruction), s.Dispatches (m.withBudget (some max)) i →
      s.turn (m.withBudget (some max)) = s.turn (m.withBudget none) := by
  refine ⟨fun n => run_withBudget, fun n => cutOff_of_lt_steps, cutOff_of_endless,
    ends_withBudget m max arguments, fun n => ?_, fun s i => turn_withBudget⟩
  have hle := steps_le_budget m max n arguments
  exact ⟨hle, steps_run (m.withBudget (some max)) n arguments ▸ hle⟩

/-- Asks a native function that starts a run of its own for 5. -/
def delegate : Machine where
  program := .ofList [⟨.push, .integer 5⟩, ⟨.push, .integer 1⟩,
    ⟨.push, .native Stock.nested.name⟩, ⟨.execute, .null⟩, ⟨.exit, .null⟩]
  natives := Stock.table

theorem delegate_cut_off :
    delegate.CutOff [] 4
      ∧ (delegate.withBudget (some 5)).run 5 [] = (delegate.withBudget none).run 5 [] := by
  have hsteps : ((delegate.withBudget none).run 5 []).2.steps = 5 := by decide +kernel
  exact ⟨(budget_exact delegate [] 4).2.1 5 (by omega),
    (budget_exact delegate [] 5).1 5 (by omega)⟩

end Machine

end FrameMachine
