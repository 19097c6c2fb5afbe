import FrameMachine.Proofs.Step

/-!
# The course of a run

The states that a run passes, turn by turn, and how long a frame is live. A frame is known by its
depth while none of the turns since is its own exit (`Machine.Retains`).
-/

namespace FrameMachine

namespace Machine

/-- From `s` the machine is in `t` after `n` turns. -/
def Goes (m : Machine) (n : Nat) (s t : State) : Prop := (m.advance n (.running s)).2 = .running t

/-- A run on `arguments` is in `s` after `n` turns. -/
def At (m : Machine) (arguments : List Value) (n : Nat) (s : State) : Prop :=
  (m.run n arguments).2 = .running s

end Machine

/-- In state `s` the frame at depth `d` is active and about to exit. -/
def State.Leaves (m : Machine) (d : Nat) (s : State) : Prop :=
  s.depth = d ∧ ∃ i, m.program.fetch s.pc = .ok i ∧ i.opcode = .exit

/-- None of the first `n` turns from `s` is the exit of the frame at depth `d`. -/
def Machine.Retains (m : Machine) (d n : Nat) (s : State) : Prop :=
  ∀ k < n, ∀ t, m.Goes k s t → ¬ t.Leaves m d

variable {m : Machine} {s t u : State} {arguments : List Value}

namespace Machine

@[simp] theorem advance_zero (m : Machine) (p : Progress) : m.advance 0 p = ([], p) := by
  cases p <;> rfl

theorem advance_one (m : Machine) (s : State) : m.advance 1 (.running s) = s.turn m := by
  simp [advance]

theorem advance_succ (m : Machine) (n : Nat) (p : Progress) :
    m.advance (n + 1) p =
      ((m.advance n p).1 ++ (m.advance 1 (m.advance n p).2).1,
        (m.advance 1 (m.advance n p).2).2) :=
  m.advance_add n 1 p

theorem advance_of_turn (n : Nat) (h : (s.turn m).2 = .running t) :
    m.advance (n + 1) (.running s) =
      ((s.turn m).1 ++ (m.advance n (.running t)).1, (m.advance n (.running t)).2) := by
  simp only [advance, h]

theorem advance_of_ended (n : Nat) (h : ∀ t, (s.turn m).2 ≠ .running t) :
    m.advance (n + 1) (.running s) = s.turn m := by
  rcases hp : s.turn m with ⟨events, t | _ | _ | _⟩
  · exact absurd (congrArg Prod.snd hp) (h t)
  all_goals simp [advance, hp]

theorem run_zero (m : Machine) (arguments : List Value) :
    m.run 0 arguments = m.begin arguments := by
  simp [run]

theorem run_succ (m : Machine) (n : Nat) (arguments : List Value) :
    m.run (n + 1) arguments =
      ((m.run n arguments).1 ++ (m.advance 1 (m.run n arguments).2).1,
        (m.advance 1 (m.run n arguments).2).2) := by
  simp only [run]
  rw [advance_succ, List.append_assoc]

@[simp] theorem goes_zero : m.Goes 0 s t ↔ s = t := by simp [Goes]

theorem goes_succ {n : Nat} :
    m.Goes (n + 1) s u ↔ ∃ t, m.Goes n s t ∧ (t.turn m).2 = .running u := by
  unfold Goes
  rw [advance_succ]
  rcases m.advance n (.running s) with ⟨events, t | _ | _ | _⟩
  · simp [advance_one]
  all_goals simp [advance]

theorem goes_add {a b : Nat} : m.Goes (a + b) s u ↔ ∃ t, m.Goes a s t ∧ m.Goes b t u := by
  induction b generalizing u with
  | zero => simp
  | succ b ih =>
    rw [← Nat.add_assoc, goes_succ]
    constructor
    · rintro ⟨v, hv, hu⟩
      obtain ⟨t, ht, hv⟩ := ih.1 hv
      exact ⟨t, ht, goes_succ.2 ⟨v, hv, hu⟩⟩
    · rintro ⟨t, ht, hu⟩
      obtain ⟨v, hv, hu⟩ := goes_succ.1 hu
      exact ⟨v, ih.2 ⟨t, ht, hv⟩, hu⟩

theorem Goes.unique {n : Nat} (ht : m.Goes n s t) (hu : m.Goes n s u) : t = u := by
  unfold Goes at ht hu
  rw [ht] at hu
  cases hu
  rfl

theorem begin_cases (m : Machine) (arguments : List Value) :
    (m.begin arguments).2 = .running (.start m.config arguments)
      ∨ ∃ e, (m.begin arguments).2 = .refused e := by
  unfold begin
  split
  · exact .inr ⟨_, rfl⟩
  · split
    · exact .inr ⟨_, rfl⟩
    · exact .inl rfl

theorem at_iff {n : Nat} :
    m.At arguments n s ↔ m.At arguments 0 (.start m.config arguments)
      ∧ m.Goes n (.start m.config arguments) s := by
  unfold At Goes run
  rcases m.begin_cases arguments with h | ⟨e, h⟩
  · simp [h]
  · cases n <;> simp [h, advance]

theorem at_zero (h : m.At arguments 0 s) : s = .start m.config arguments :=
  (goes_zero.1 (at_iff.1 h).2).symm

theorem run_succ_of_at {n : Nat} (h : m.At arguments n s) :
    m.run (n + 1) arguments = ((m.run n arguments).1 ++ (s.turn m).1, (s.turn m).2) := by
  rw [run_succ, h, advance_one]

theorem at_zero_iff : m.At arguments 0 s ↔
    0 < m.config.maxCallDepth ∧ m.program.isEmpty = false ∧ s = .start m.config arguments := by
  unfold At run begin
  rcases hv : m.config.validate with e | u
  · have hc : ¬ 0 < m.config.maxCallDepth := by
      rw [← Config.validate_eq_ok, hv]
      simp
    simp [advance, hc]
  · have hc : 0 < m.config.maxCallDepth := Config.validate_eq_ok.1 hv
    rcases hp : m.program.isEmpty with _ | _
    · simp [advance, hc, eq_comm]
    · simp [advance]

theorem at_succ {n : Nat} :
    m.At arguments (n + 1) u ↔ ∃ t, m.At arguments n t ∧ (t.turn m).2 = .running u := by
  rw [at_iff, goes_succ]
  constructor
  · rintro ⟨h0, t, ht, hu⟩
    exact ⟨t, at_iff.2 ⟨h0, ht⟩, hu⟩
  · rintro ⟨t, ht, hu⟩
    exact ⟨(at_iff.1 ht).1, t, (at_iff.1 ht).2, hu⟩

theorem at_add {a b : Nat} :
    m.At arguments (a + b) u ↔ ∃ t, m.At arguments a t ∧ m.Goes b t u := by
  rw [at_iff, goes_add]
  constructor
  · rintro ⟨h0, t, ht, hu⟩
    exact ⟨t, at_iff.2 ⟨h0, ht⟩, hu⟩
  · rintro ⟨t, ht, hu⟩
    exact ⟨(at_iff.1 ht).1, t, (at_iff.1 ht).2, hu⟩

theorem At.unique {n : Nat} (ht : m.At arguments n t) (hu : m.At arguments n u) : t = u :=
  (at_iff.1 ht).2.unique (at_iff.1 hu).2

theorem At.maxCallDepth_pos {n : Nat} (h : m.At arguments n s) : 0 < m.config.maxCallDepth :=
  (at_zero_iff.1 (at_iff.1 h).1).1

/-- What holds at the start and is kept by every turn holds all along a run. -/
theorem invariant_at {P : Nat → State → Prop} {n : Nat}
    (hstart : m.At arguments 0 (.start m.config arguments) → P 0 (.start m.config arguments))
    (hstep : ∀ {n s s' i}, m.At arguments n s → s.Dispatches m i → s.Step m i s' → P n s →
      P (n + 1) s')
    (h : m.At arguments n s) : P n s := by
  induction n generalizing s with
  | zero => exact at_zero h ▸ hstart (at_zero h ▸ h)
  | succ n ih =>
    obtain ⟨t, ht, hs⟩ := at_succ.1 h
    obtain ⟨i, hd, hi⟩ := State.turn_eq_running_iff.1 hs
    exact hstep ht hd hi (ih ht)

/-- A run that has ended stays as it is. -/
theorem run_stays {a b : Nat} (h : ∀ s, ¬ m.At arguments a s) (hab : a ≤ b) :
    m.run b arguments = m.run a arguments := by
  induction hab with
  | refl => rfl
  | step _ ih =>
    rw [run_succ, ih]
    rcases hp : m.run a arguments with ⟨events, s | _ | _ | _⟩
    · exact absurd (congrArg Prod.snd hp) (h s)
    all_goals simp [advance]

theorem At.lt_of_ended {n b : Nat} (h : m.At arguments n s)
    (hb : ∀ s, ¬ m.At arguments b s) : n < b := by
  by_contra hle
  rw [At, run_stays hb (Nat.not_lt.1 hle)] at h
  exact hb s h

theorem Retains.mono {d a b : Nat} (h : m.Retains d b s) (hab : a ≤ b) : m.Retains d a s :=
  fun k hk => h k (Nat.lt_of_lt_of_le hk hab)

theorem Retains.turn {d n : Nat} (h : m.Retains d (n + 1) s) (ht : (s.turn m).2 = .running t) :
    m.Retains d n t :=
  fun k hk u hu => h (k + 1) (Nat.succ_lt_succ hk) u (by rwa [Goes, advance_of_turn k ht])

end Machine

end FrameMachine
