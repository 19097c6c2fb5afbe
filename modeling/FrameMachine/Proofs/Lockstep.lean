import FrameMachine.Proofs.Course

/-!
# Two machines in step

Where two machines begin alike and each turn of the one is a turn of the other, their runs report
the same and stand alike after every turn (`inStep_of_turns`). The relation between the states is
left open: it says what the machines may differ in.
-/

namespace FrameMachine

/-- The states that `R` relates look the same from outside. -/
structure Faithful (R : State → State → Prop) : Prop where
  pc : ∀ {s s'}, R s s' → s.pc = s'.pc
  depth : ∀ {s s'}, R s s' → s.depth = s'.depth
  steps : ∀ {s s'}, R s s' → s.steps = s'.steps
  maxFrameDepth : ∀ {s s'}, R s s' → s.maxFrameDepth = s'.maxFrameDepth

namespace Progress

/-- Instructions charged. -/
def steps : Progress → Nat
  | running s | finished _ s | faulted _ s => s.steps
  | refused _ => 0

/-- The most frames that were live at once; a run that is refused has none. -/
def maxFrameDepth : Progress → Nat
  | running s | finished _ s | faulted _ s => s.maxFrameDepth
  | refused _ => 0

/-- Both go on, or ended alike, in states that `R` relates. -/
inductive Rel (R : State → State → Prop) : Progress → Progress → Prop
  | running {s s' : State} (h : R s s') : Rel R (.running s) (.running s')
  | finished {s s' : State} (v : Value) (h : R s s') : Rel R (.finished v s) (.finished v s')
  | faulted {s s' : State} (e : Fault) (h : R s s') : Rel R (.faulted e s) (.faulted e s')
  | refused (e : Fault) : Rel R (.refused e) (.refused e)

/-- The same standing in another state. -/
def map (f : State → State) : Progress → Progress
  | running s => .running (f s)
  | finished v s => .finished v (f s)
  | faulted e s => .faulted e (f s)
  | refused e => .refused e

variable {R : State → State → Prop} {p p' : Progress} {f : State → State}

theorem rel_map (h : ∀ s, R s (f s)) (p : Progress) : Rel R p (p.map f) := by
  cases p with
  | running s => exact .running (h s)
  | finished v s => exact .finished v (h s)
  | faulted e s => exact .faulted e (h s)
  | refused e => exact .refused e

theorem Rel.eq_map (h : Rel (fun s s' => s' = f s) p p') : p' = p.map f := by
  cases h with
  | running h | finished _ h | faulted _ h => rw [h, map]
  | refused => rfl

@[simp] theorem rel_eq_iff : Rel Eq p p' ↔ p = p' := by
  constructor
  · intro h
    cases h with
    | running h | finished _ h | faulted _ h => rw [h]
    | refused => rfl
  · rintro rfl
    cases p with
    | running => exact .running rfl
    | finished v => exact .finished v rfl
    | faulted e => exact .faulted e rfl
    | refused e => exact .refused e

theorem Rel.closing_eq (h : Rel R p p') (hR : Faithful R) : p.closing = p'.closing := by
  cases h with
  | running => rfl
  | finished v h => simp only [closing, hR.steps h]
  | faulted e h => simp only [closing, hR.pc h, hR.depth h]
  | refused => rfl

theorem Rel.result?_eq (h : Rel R p p') (hR : Faithful R) : p.result? = p'.result? := by
  cases h with
  | finished v h => simp only [result?, hR.steps h, hR.maxFrameDepth h]
  | _ => rfl

theorem Rel.counters_eq (h : Rel R p p') (hR : Faithful R) :
    p.steps = p'.steps ∧ p.maxFrameDepth = p'.maxFrameDepth := by
  cases h with
  | refused => exact ⟨rfl, rfl⟩
  | running h | finished _ h | faulted _ h => exact ⟨hR.steps h, hR.maxFrameDepth h⟩

end Progress

section Turn

variable {R : State → State → Prop} {m m' : Machine} {s s' : State}

/-- Turns that dispatch the same instruction are alike where it does alike. -/
theorem State.turn_rel_of_dispatches {i : Instruction} (hR : Faithful R) (h : R s s')
    (hd : s.Dispatches m i) (hd' : s'.Dispatches m' i)
    (hexecute : (s.tick.execute m i).1 = (s'.tick.execute m' i).1
      ∧ Progress.Rel R (s.tick.execute m i).2 (s'.tick.execute m' i).2) :
    (s.turn m).1 = (s'.turn m').1 ∧ Progress.Rel R (s.turn m).2 (s'.turn m').2 := by
  obtain ⟨htrace, hrel⟩ := hexecute
  rw [turn_eq_of_dispatches hd, turn_eq_of_dispatches hd']
  refine ⟨?_, hrel⟩
  simp only [hR.pc h, hR.depth h, htrace, hrel.closing_eq hR]

/-- Turns are alike where their instructions are: fetch and budget see what everybody sees. -/
theorem State.turn_rel (hR : Faithful R) (hp : m'.program = m.program)
    (hb : m'.config.maxSteps = m.config.maxSteps) (h : R s s')
    (hexecute : ∀ i, s.Dispatches m i → (s.tick.execute m i).1 = (s'.tick.execute m' i).1
      ∧ Progress.Rel R (s.tick.execute m i).2 (s'.tick.execute m' i).2) :
    (s.turn m).1 = (s'.turn m').1 ∧ Progress.Rel R (s.turn m).2 (s'.turn m').2 := by
  have hpc := hR.pc h
  have hdepth := hR.depth h
  have hsteps := hR.steps h
  rcases turn_cases m s with ⟨e, he⟩ | ⟨i, max, hi, hm, hle⟩ | ⟨i, hd⟩
  · have he' : m'.program.fetch s'.pc = .error e := by rw [hp, ← hpc, he]
    rw [turn_of_fetch_error he, turn_of_fetch_error he', hpc, hdepth]
    exact ⟨rfl, .faulted e h⟩
  · have hi' : m'.program.fetch s'.pc = .ok i := by rw [hp, ← hpc, hi]
    rw [turn_of_spent hi hm hle, turn_of_spent hi' (hb.trans hm) (hsteps ▸ hle), hpc, hdepth]
    exact ⟨rfl, .faulted _ h⟩
  · have hd' : s'.Dispatches m' i := by
      refine ⟨by rw [hp, ← hpc, hd.1], ?_⟩
      rw [hb, ← hsteps]
      exact hd.2
    exact turn_rel_of_dispatches hR h hd hd' (hexecute i hd)

end Turn

namespace Machine

/-- After `n` turns the runs of `m` and `m'` have reported the same and stand alike. -/
structure InStep (R : State → State → Prop) (m m' : Machine) (arguments : List Value) (n : Nat) :
    Prop where
  trace : (m.run n arguments).1 = (m'.run n arguments).1
  progress : Progress.Rel R (m.run n arguments).2 (m'.run n arguments).2

/-- After `n` turns nobody outside can tell the runs of `m` and `m'` apart: neither by their events
nor by their outcomes and counters. -/
structure SameRun (m m' : Machine) (arguments : List Value) (n : Nat) : Prop where
  trace : (m.run n arguments).1 = (m'.run n arguments).1
  outcome : (m.run n arguments).2.result? = (m'.run n arguments).2.result?
  steps : (m.run n arguments).2.steps = (m'.run n arguments).2.steps
  maxFrameDepth :
    (m.run n arguments).2.maxFrameDepth = (m'.run n arguments).2.maxFrameDepth

variable {R : State → State → Prop} {m m' : Machine} {arguments : List Value} {n : Nat}
  {s s' : State}

theorem inStep_zero (hp : m'.program = m.program)
    (hv : m'.config.validate = m.config.validate)
    (hR : R (.start m.config arguments) (.start m'.config arguments)) :
    InStep R m m' arguments 0 := by
  have hbegin : (m.begin arguments).1 = (m'.begin arguments).1
      ∧ Progress.Rel R (m.begin arguments).2 (m'.begin arguments).2 := by
    simp only [begin, hp, hv]
    split
    · exact ⟨rfl, .refused _⟩
    · split
      · exact ⟨rfl, .refused _⟩
      · exact ⟨rfl, .running hR⟩
  constructor
  · rw [run_zero, run_zero, hbegin.1]
  · rw [run_zero, run_zero]
    exact hbegin.2

/-- One more turn, if there is one. -/
theorem advance_rel {p p' : Progress} (h : Progress.Rel R p p')
    (hturn : ∀ s s', p = .running s → p' = .running s' → R s s' →
      (s.turn m).1 = (s'.turn m').1 ∧ Progress.Rel R (s.turn m).2 (s'.turn m').2) :
    (m.advance 1 p).1 = (m'.advance 1 p').1
      ∧ Progress.Rel R (m.advance 1 p).2 (m'.advance 1 p').2 := by
  cases h with
  | running hR =>
    rw [advance_one, advance_one]
    exact hturn _ _ rfl rfl hR
  | finished v hR => exact ⟨rfl, .finished v hR⟩
  | faulted e hR => exact ⟨rfl, .faulted e hR⟩
  | refused e => exact ⟨rfl, .refused e⟩

theorem InStep.succ (h : InStep R m m' arguments n)
    (hturn : ∀ s s', m.At arguments n s → m'.At arguments n s' → R s s' →
      (s.turn m).1 = (s'.turn m').1 ∧ Progress.Rel R (s.turn m).2 (s'.turn m').2) :
    InStep R m m' arguments (n + 1) := by
  obtain ⟨htrace, hrel⟩ := advance_rel h.progress hturn
  constructor
  · rw [run_succ, run_succ, h.trace, htrace]
  · rwa [run_succ, run_succ]

theorem inStep_of_turns (h0 : InStep R m m' arguments 0)
    (hturn : ∀ k < n, ∀ s s', m.At arguments k s → m'.At arguments k s' → R s s' →
      (s.turn m).1 = (s'.turn m').1 ∧ Progress.Rel R (s.turn m).2 (s'.turn m').2) :
    InStep R m m' arguments n := by
  induction n with
  | zero => exact h0
  | succ n ih =>
    have hn := ih fun k hk => hturn k (Nat.lt_succ_of_lt hk)
    exact hn.succ (hturn n (Nat.lt_succ_self n))

theorem InStep.at_right (h : InStep R m m' arguments n) (hs : m.At arguments n s) :
    ∃ s', m'.At arguments n s' ∧ R s s' := by
  have hp := h.progress
  rw [hs] at hp
  generalize hs' : (m'.run n arguments).2 = p' at hp
  cases hp with
  | running hR => exact ⟨_, hs', hR⟩

theorem InStep.at_left (h : InStep R m m' arguments n) (hs' : m'.At arguments n s') :
    ∃ s, m.At arguments n s ∧ R s s' := by
  have hp := h.progress
  rw [hs'] at hp
  generalize hs : (m.run n arguments).2 = p at hp
  cases hp with
  | running hR => exact ⟨_, hs, hR⟩

theorem InStep.sameRun (h : InStep R m m' arguments n) (hR : Faithful R) :
    SameRun m m' arguments n where
  trace := h.trace
  outcome := h.progress.result?_eq hR
  steps := (h.progress.counters_eq hR).1
  maxFrameDepth := (h.progress.counters_eq hR).2

end Machine

end FrameMachine
