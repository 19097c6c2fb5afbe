import FrameMachine.Proofs.Lockstep

/-!
# What a run dispatches

The counter of instructions is the number of the run's own dispatch events (`steps_run`): a turn
reports at most one, and charges for it, while the events of runs that a native function starts
charge nothing. A run that has come to its `n`th turn has charged `n` instructions.
-/

namespace FrameMachine

/-- The instructions that the run itself dispatched, each with its index and depth. -/
def Trace.dispatches (t : Trace) : List (Nat × Nat × Instruction) :=
  t.filterMap fun
    | .own (.dispatched pc depth i) => some (pc, depth, i)
    | _ => none

namespace Trace

@[simp] theorem dispatches_append (t u : Trace) :
    Trace.dispatches (t ++ u) = t.dispatches ++ u.dispatches := List.filterMap_append

@[simp] theorem dispatches_inner (events : List Event) :
    Trace.dispatches (events.map .inner) = [] := by
  simp [dispatches]

@[simp] theorem dispatches_closing (p : Progress) :
    Trace.dispatches (p.closing.map .own) = [] := by
  cases p <;> rfl

end Trace

variable {m : Machine} {s : State} {i : Instruction} {arguments : List Value} {n : Nat}

namespace State

theorem perform_accounts (m : Machine) (s : State) (a : Action) :
    Trace.dispatches (s.perform m a).1 = [] ∧ (s.perform m a).2.steps = s.steps := by
  cases a with
  | proceed f => exact ⟨rfl, s.update_steps f⟩
  | enter target arguments caller =>
    simp only [perform, enter_eq]
    split_ifs
    · exact ⟨rfl, s.update_steps caller⟩
    · exact ⟨rfl, s.update_steps caller⟩
  | invoke native arguments f =>
    simp only [perform, invoke]
    split
    · exact ⟨Trace.dispatches_inner _, rfl⟩
    · refine ⟨?_, s.update_steps _⟩
      rw [Trace.dispatches_append, Trace.dispatches_inner]
      rfl
  | leave v f =>
    simp only [perform, leave_eq]
    split
    · exact ⟨rfl, s.update_steps f⟩
    · exact ⟨rfl, s.update_steps f⟩

theorem execute_accounts (m : Machine) (s : State) (i : Instruction) :
    Trace.dispatches (s.execute m i).1 = [] ∧ (s.execute m i).2.steps = s.steps := by
  unfold execute
  split
  · exact ⟨rfl, rfl⟩
  · exact perform_accounts m s _

theorem Dispatches.accounts (h : s.Dispatches m i) :
    Trace.dispatches (s.turn m).1 = [(s.pc, s.depth, i)] ∧ (s.turn m).2.steps = s.steps + 1 := by
  obtain ⟨htrace, hsteps⟩ := execute_accounts m s.tick i
  rw [turn_eq_of_dispatches h]
  refine ⟨?_, hsteps⟩
  rw [Trace.dispatches_append, Trace.dispatches_closing, List.append_nil]
  exact congrArg (List.cons _) htrace

theorem mem_dispatches_turn {pc d : Nat} :
    (pc, d, i) ∈ Trace.dispatches (s.turn m).1 ↔ s.Dispatches m i ∧ s.pc = pc ∧ s.depth = d := by
  rcases turn_cases m s with ⟨e, he⟩ | ⟨j, max, hj, hm, hle⟩ | ⟨j, hj⟩
  · rw [turn_of_fetch_error he]
    refine iff_of_false nofun fun ⟨hd, _⟩ => ?_
    rw [hd.1] at he
    cases he
  · rw [turn_of_spent hj hm hle]
    refine iff_of_false nofun fun ⟨hd, _⟩ => ?_
    exact absurd (hd.2 max hm) (Nat.not_lt.2 hle)
  · rw [hj.accounts.1, List.mem_singleton]
    constructor
    · intro h
      cases h
      exact ⟨hj, rfl, rfl⟩
    · rintro ⟨hd, rfl, rfl⟩
      rw [hj.eq_of_fetch hd.1]

/-- A turn charges for what it dispatches. -/
theorem turn_accounts (m : Machine) (s : State) :
    (s.turn m).2.steps = s.steps + (Trace.dispatches (s.turn m).1).length := by
  rcases turn_cases m s with ⟨e, he⟩ | ⟨i, max, hi, hm, hle⟩ | ⟨i, hd⟩
  · rw [turn_of_fetch_error he]
    rfl
  · rw [turn_of_spent hi hm hle]
    rfl
  · rw [hd.accounts.1, hd.accounts.2]
    rfl

theorem Step.steps_eq {s' : State} (h : s.Step m i s') : s'.steps = s.steps + 1 := by
  cases h with
  | proceed => rw [update_steps, tick_steps]
  | _ => rfl

end State

namespace Machine

theorem begin_accounts (m : Machine) (arguments : List Value) :
    Trace.dispatches (m.begin arguments).1 = [] ∧ (m.begin arguments).2.steps = 0 := by
  unfold begin
  split
  · exact ⟨rfl, rfl⟩
  · split_ifs
    · exact ⟨rfl, rfl⟩
    · exact ⟨rfl, rfl⟩

/-- Turns are reported once and for all. -/
theorem run_prefix {a b : Nat} (m : Machine) (arguments : List Value) (h : a ≤ b) :
    (m.run a arguments).1 <+: (m.run b arguments).1 := by
  induction h with
  | refl => exact List.prefix_rfl
  | step _ ih =>
    rw [run_succ]
    exact ih.trans (List.prefix_append _ _)

theorem mem_dispatches_run {pc d : Nat} :
    (pc, d, i) ∈ Trace.dispatches (m.run n arguments).1 ↔
      ∃ k < n, ∃ s, m.At arguments k s ∧ s.Dispatches m i ∧ s.pc = pc ∧ s.depth = d := by
  induction n with
  | zero => simp [run_zero, (m.begin_accounts arguments).1]
  | succ n ih =>
    rw [run_succ, Trace.dispatches_append, List.mem_append, ih]
    constructor
    · rintro (⟨k, hk, h⟩ | h)
      · exact ⟨k, Nat.lt_succ_of_lt hk, h⟩
      · rcases hp : (m.run n arguments).2 with s | _ | _ | _ <;> rw [hp] at h
        · rw [advance_one] at h
          exact ⟨n, Nat.lt_succ_self n, s, hp, State.mem_dispatches_turn.1 h⟩
        all_goals cases h
    · rintro ⟨k, hk, s, hs, h⟩
      rcases Nat.lt_succ_iff_lt_or_eq.1 hk with hk | rfl
      · exact .inl ⟨k, hk, s, hs, h⟩
      · rw [hs, advance_one]
        exact .inr (State.mem_dispatches_turn.2 h)

/-- A run has charged for what it has dispatched itself. -/
theorem steps_run (m : Machine) (n : Nat) (arguments : List Value) :
    (m.run n arguments).2.steps = (Trace.dispatches (m.run n arguments).1).length := by
  induction n with
  | zero =>
    rw [run_zero, (m.begin_accounts arguments).1, (m.begin_accounts arguments).2]
    rfl
  | succ n ih =>
    rw [run_succ]
    rcases hp : (m.run n arguments).2 with s | _ | _ | _ <;> rw [hp] at ih
    · rw [advance_one, Trace.dispatches_append, List.length_append, ← ih]
      exact State.turn_accounts m s
    all_goals
      rw [Trace.dispatches_append, List.length_append, ← ih]
      rfl

theorem At.steps_eq (h : m.At arguments n s) : s.steps = n := by
  refine invariant_at (P := fun n s => s.steps = n) (fun _ => rfl) ?_ h
  intro n s s' i _ _ hs hn
  rw [hs.steps_eq, hn]

/-- What is charged beyond `k` instructions was dispatched after turn `k`, in a state of the run. -/
theorem dispatches_of_lt_steps {k : Nat} (h : k < (m.run n arguments).2.steps) :
    ∃ s i, m.At arguments k s ∧ s.Dispatches m i := by
  induction n with
  | zero =>
    rw [run_zero, (m.begin_accounts arguments).2] at h
    omega
  | succ n ih =>
    by_cases hk : k < (m.run n arguments).2.steps
    · exact ih hk
    rw [run_succ] at h
    rcases hp : (m.run n arguments).2 with s | _ | _ | _ <;> rw [hp] at h hk
    · have hs : s.steps = n := At.steps_eq hp
      have hle : s.steps ≤ k := Nat.not_lt.1 hk
      rw [advance_one] at h
      rcases State.turn_cases m s with ⟨e, he⟩ | ⟨i, max, hi, hm, hmax⟩ | ⟨i, hd⟩
      · rw [State.turn_of_fetch_error he] at h
        exact absurd h hk
      · rw [State.turn_of_spent hi hm hmax] at h
        exact absurd h hk
      · rw [hd.accounts.2] at h
        obtain rfl : k = n := by omega
        exact ⟨s, i, hp, hd⟩
    all_goals exact absurd h hk

theorem dispatches_take {a b : Nat} (m : Machine) (arguments : List Value) (h : a ≤ b) :
    Trace.dispatches (m.run a arguments).1 =
      (Trace.dispatches (m.run b arguments).1).take (m.run a arguments).2.steps := by
  obtain ⟨rest, hrest⟩ := m.run_prefix arguments h
  rw [← hrest, Trace.dispatches_append, steps_run, List.take_left]

end Machine

end FrameMachine
