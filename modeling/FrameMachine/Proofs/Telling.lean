import FrameMachine.Proofs.Dispatches
import FrameMachine.Proofs.Ending
import FrameMachine.Proofs.Shape
import FrameMachine.Proofs.Tale

/-!
# A run tells its tale

Turn by turn the events of a run stay a tale, and the calls pending in them are the suspended frames
(`ToldBy.turn`). A run ends with one more event, and it is the only one of its kind
(`exists_ended`). Events of runs that native functions start stay out of it.
-/

namespace FrameMachine

/-- The events of the run itself. -/
def Trace.own (t : Trace) : List Event :=
  t.filterMap fun
    | .own e => some e
    | .inner _ => none

namespace Trace

@[simp] theorem own_append (t u : Trace) : Trace.own (t ++ u) = t.own ++ u.own :=
  List.filterMap_append

@[simp] theorem own_map_own (events : List Event) : Trace.own (events.map .own) = events := by
  simp [own, List.filterMap_map]

@[simp] theorem own_map_inner (events : List Event) : Trace.own (events.map .inner) = [] := by
  simp [own]

@[simp] theorem own_cons (e : Event) (t : Trace) : Trace.own (.own e :: t) = e :: t.own := rfl

end Trace

namespace State

/-- Where the suspended frames go on, the innermost first. -/
def resumes (s : State) : List Nat := s.calls.suspended.map Frame.pc

@[simp] theorem length_resumes (s : State) : s.resumes.length + 1 = s.depth := by
  simp [resumes, depth, CallStack.depth]

/-- What an instruction reports after its dispatch when the run goes on in `s'`. -/
inductive Recounts (s : State) (i : Instruction) (s' : State) : List Event → Prop
  | silent (h : s'.resumes = s.resumes) : Recounts s i s' []
  | answered (name : NativeName) (arguments : Nat) (v : Value) (h : s'.resumes = s.resumes) :
      Recounts s i s' [.nativeReturned name arguments v]
  | entered (arguments : Nat) (op : i.opcode = .call)
      (h : s'.resumes = (s.pc + 1) :: s.resumes) :
      Recounts s i s' [.pushedFrame s'.pc arguments (s.depth + 1)]
  | left (h : s.resumes = s'.pc :: s'.resumes) : Recounts s i s' [.poppedFrame s'.pc s'.depth]

variable {m : Machine} {s s' : State} {i : Instruction}

theorem recounts_of_step (h : s.Step m i s') :
    s.Recounts i s' (Trace.own (s.tick.execute m i).1) := by
  unfold execute
  rw [tick_view]
  cases h with
  | @proceed f effect =>
    rw [Frame.act_of_effect effect]
    exact .silent (by simp [resumes])
  | @invoke name above stack arguments v op handle top reply =>
    rw [← view_stack] at handle
    simp only [Frame.act_of_effect (.execute op handle top), perform, invoke, reply]
    rw [Trace.own_append, Trace.own_map_inner]
    exact .answered name arguments.length v rfl
  | @enter target arguments stack op goal top room =>
    rw [← view_stack] at top
    have hroom : ¬ s.tick.calls.maxDepth ≤ s.tick.depth := Nat.not_le.2 room
    simp only [Frame.act_of_effect (.call op goal top), perform, enter_eq, if_neg hroom, Prod.map,
      Trace.own_map_own]
    exact .entered arguments.length op rfl
  | @leave v stack caller rest op top callers =>
    rw [← view_stack] at top
    simp only [Frame.act_of_effect (.exit op top), perform, leave_eq, tick_calls, callers, Prod.map,
      Trace.own_map_own]
    exact .left (by simp [resumes, callers]; rfl)

theorem own_execute_of_ended (h : ∀ s', (s.execute m i).2 ≠ .running s') :
    Trace.own (s.execute m i).1 = [] := by
  unfold execute at *
  split at h
  · rfl
  · rename_i action _
    cases action with
    | proceed f => exact absurd rfl (h _)
    | enter target arguments caller =>
      simp only [perform, enter_eq, Prod.map, Trace.own_map_own] at h ⊢
      split_ifs at h ⊢ with hroom
      · rfl
      · exact absurd rfl (h _)
    | invoke name arguments f =>
      simp only [perform, invoke] at h ⊢
      split at h
      · exact Trace.own_map_inner _
      · exact absurd rfl (h _)
    | leave v f =>
      simp only [perform, leave_eq, Prod.map, Trace.own_map_own] at h ⊢
      split at h
      · rfl
      · exact absurd rfl (h _)

theorem own_turn_of_step (hd : s.Dispatches m i) (hs : s.Step m i s') :
    ∃ effects, Trace.own (s.turn m).1 = .dispatched s.pc s.depth i :: effects
      ∧ s.Recounts i s' effects := by
  refine ⟨_, ?_, recounts_of_step hs⟩
  rw [turn_eq_of_dispatches hd, execute_of_step hs]
  simp [Progress.closing]

theorem own_dispatch_of_ended (hd : s.Dispatches m i) (h : ∀ s', (s.turn m).2 ≠ .running s') :
    Trace.own (s.dispatch m).1 = [.dispatched s.pc s.depth i] := by
  have hend : ∀ s', (s.tick.execute m i).2 ≠ .running s' := turn_of_dispatches hd ▸ h
  have hc : s.charge m.config.maxSteps = .ok s.tick := charge_eq_ok_iff.2 ⟨hd.2, rfl⟩
  simp only [dispatch, hd.1, hc, Trace.own_cons, own_execute_of_ended hend, tick_pc, tick_depth]

theorem exists_closing (h : ∀ s', (s.turn m).2 ≠ .running s') :
    ∃ e, (s.turn m).2.closing = [e] ∧ e.Closes := by
  rcases hp : (s.turn m).2 with s' | ⟨v, u⟩ | ⟨fault, u⟩ | fault
  · exact absurd hp (h s')
  · exact ⟨_, rfl, trivial⟩
  · exact ⟨_, rfl, trivial⟩
  · exact absurd hp (turn_ne_refused m s fault)

/-- The events tell how the run came to the state: the calls pending in them are its suspended
frames, and where they lead last it is now. -/
structure ToldBy (t : List Event) (s : State) : Prop where
  tale : Tale t
  pending : Pending t s.resumes
  lands : ∀ l ∈ t.getLast?, ∀ pc, l.landing? = some pc → s.pc = pc
  unclosed : ∀ e ∈ t, ¬ e.Closes

namespace ToldBy

variable {t : List Event}

theorem of_concat {e : Event} (tale : Tale (t ++ [e])) (pending : Pending (t ++ [e]) s.resumes)
    (lands : ∀ pc, e.landing? = some pc → s.pc = pc) (unclosed : ∀ x ∈ t, ¬ x.Closes)
    (he : ¬ e.Closes) : ToldBy (t ++ [e]) s where
  tale := tale
  pending := pending
  lands l hl := by
    rw [List.getLast?_concat, Option.mem_some_iff] at hl
    exact hl ▸ lands
  unclosed x hx := (List.mem_append.1 hx).elim (unclosed x)
    fun hx => List.mem_singleton.1 hx ▸ he

theorem fetch (h : ToldBy t s) {e : Event} (he : e.TrueTo t) (hf : e.Fetches s.pc) :
    Tale (t ++ [e]) :=
  h.tale.concat he fun l hl pc hpc => h.lands l hl pc hpc ▸ hf

theorem dispatch (h : ToldBy t s) (i : Instruction) : Tale (t ++ [.dispatched s.pc s.depth i]) := by
  refine h.fetch ?_ rfl
  have hcount := h.pending.count_eq
  have hdepth := s.length_resumes
  simp only [Event.TrueTo]
  omega

theorem dispatch_concat (h : ToldBy t s) {e : Event}
    (he : e.TrueTo (t ++ [.dispatched s.pc s.depth i])) :
    Tale (t ++ [.dispatched s.pc s.depth i] ++ [e]) := by
  refine (h.dispatch i).concat he ?_
  intro l hl pc hpc
  rw [List.getLast?_concat, Option.mem_some_iff] at hl
  subst hl
  cases hpc

theorem turn (h : ToldBy t s) (hd : s.Dispatches m i) (hs : s.Step m i s') :
    ToldBy (t ++ Trace.own (s.turn m).1) s' := by
  obtain ⟨effects, hown, hrecounts⟩ := own_turn_of_step hd hs
  rw [hown, List.append_cons]
  have hpending := h.pending.append (.singleton rfl rfl : Balanced [.dispatched s.pc s.depth i])
  have hunclosed : ∀ e ∈ t ++ [.dispatched s.pc s.depth i], ¬ e.Closes := by
    intro e he
    rcases List.mem_append.1 he with he | he
    · exact h.unclosed e he
    · exact List.mem_singleton.1 he ▸ id
  cases hrecounts with
  | silent hresumes =>
    rw [List.append_nil]
    exact of_concat (h.dispatch i) (hresumes ▸ hpending) nofun h.unclosed id
  | answered name arguments v hresumes =>
    exact of_concat (h.dispatch_concat trivial)
      (hresumes ▸ hpending.append (.singleton rfl rfl)) nofun hunclosed id
  | entered arguments op hresumes =>
    refine of_concat (h.dispatch_concat ⟨t, s.pc, s.depth, i, rfl, op, rfl⟩) ?_ ?_ hunclosed id
    · rw [hresumes, List.append_assoc, ← s.length_resumes]
      exact h.pending.enter op s.pc s'.pc arguments
    · exact fun pc hpc => Option.some.inj hpc
  | left hresumes =>
    rw [hresumes] at hpending
    obtain ⟨before, mid, p, j, target, arguments, heq, op, hmid, hp, -⟩ := hpending.exists_call
    refine of_concat (h.dispatch_concat ?_) (hpending.leave s'.depth) ?_ hunclosed id
    · rw [← s'.length_resumes]
      exact ⟨before, mid, p, j, target, arguments, heq, op, hmid, hp⟩
    · exact fun pc hpc => Option.some.inj hpc

theorem start (k n : Nat) (c : Config) (arguments : List Value) :
    ToldBy [.entered k n] (.start c arguments) := by
  have htale : Tale ([] ++ [.entered k n]) := Tale.nil.concat trivial (by simp)
  exact of_concat htale (.none (.singleton rfl rfl)) nofun (by simp) id

/-- When the run ends, its end is the last event, after the dispatch if there was one. -/
theorem ending (h : ToldBy t s) (hend : ∀ s', (s.turn m).2 ≠ .running s') :
    ∃ e, (s.turn m).2.closing = [e] ∧ e.Closes ∧ Tale (t ++ Trace.own (s.dispatch m).1 ++ [e])
      ∧ Balanced (Trace.own (s.dispatch m).1) ∧ ∀ x ∈ Trace.own (s.dispatch m).1, ¬ x.Closes := by
  rcases turn_cases m s with ⟨fault, he⟩ | ⟨i, max, hi, hm, hle⟩ | ⟨i, hd⟩
  · have hdispatch : Trace.own (s.dispatch m).1 = [] := by
      simp only [State.dispatch, he]
      rfl
    obtain ⟨-, rfl⟩ := Program.fetch_eq_error_iff.1 he
    rw [turn_of_fetch_error he, hdispatch, List.append_nil]
    exact ⟨_, rfl, trivial, h.fetch trivial ⟨rfl, .inl rfl⟩, .nil, by simp⟩
  · have hdispatch : Trace.own (s.dispatch m).1 = [] := by
      simp only [State.dispatch, hi, charge, hm, if_pos hle]
      rfl
    rw [turn_of_spent hi hm hle, hdispatch, List.append_nil]
    exact ⟨_, rfl, trivial, h.fetch trivial ⟨rfl, .inr ⟨max, rfl⟩⟩, .nil, by simp⟩
  · obtain ⟨e, hclosing, he⟩ := exists_closing hend
    rw [own_dispatch_of_ended hd hend]
    refine ⟨e, hclosing, he, h.dispatch_concat (he.trueTo _), .singleton rfl rfl, ?_⟩
    exact fun x hx => List.mem_singleton.1 hx ▸ id

end ToldBy

end State

namespace Machine

variable {m : Machine} {arguments : List Value} {n k : Nat} {s : State}

theorem told_at (h : m.At arguments n s) : s.ToldBy (Trace.own (m.run n arguments).1) := by
  refine invariant_at (P := fun n s => s.ToldBy (Trace.own (m.run n arguments).1)) ?_ ?_ h
  · intro h0
    obtain ⟨hm, hp, -⟩ := at_zero_iff.1 h0
    simp only [run_zero, begin, Config.validate_eq_ok.2 hm, hp, Bool.false_eq_true, ↓reduceIte]
    exact .start _ _ _ _
  · intro n s s' i hs hd hstep ht
    rw [run_succ_of_at hs, Trace.own_append]
    exact ht.turn hd hstep

theorem isGreatest_dispatched {i : Instruction} (h : m.At arguments k s) (hd : s.Dispatches m i) :
    IsGreatest {d | ∃ pc i, (pc, d, i) ∈ Trace.dispatches (m.run (k + 1) arguments).1}
      s.maxFrameDepth := by
  have hdepths : {d | ∃ pc i, (pc, d, i) ∈ Trace.dispatches (m.run (k + 1) arguments).1} =
      m.depthsTo arguments k := by
    ext d
    rw [Set.mem_ofPred_eq]
    simp only [mem_dispatches_run]
    constructor
    · rintro ⟨pc, i, j, hj, t, ht, -, -, rfl⟩
      exact ⟨j, Nat.le_of_lt_succ hj, t, ht, rfl⟩
    · rintro ⟨j, hj, t, ht, rfl⟩
      have hsteps : j < (m.run (k + 1) arguments).2.steps := by
        rw [run_succ_of_at h, hd.accounts.2, h.steps_eq]
        exact Nat.lt_succ_of_le hj
      obtain ⟨t', i', ht', hd'⟩ := dispatches_of_lt_steps hsteps
      obtain rfl := ht'.unique ht
      exact ⟨t'.pc, i', j, Nat.lt_succ_of_le hj, t', ht', hd', rfl, rfl⟩
  rw [hdepths]
  exact isGreatest_depthsTo h

/-- The run is over by turn `n`: in the turn of `s`, its last, it reported its end `e` after all
that was `told`. -/
structure Ended (m : Machine) (arguments : List Value) (n k : Nat) (s : State) (told : Trace)
    (e : Event) : Prop where
  last : m.At arguments k s
  run : m.run n arguments = m.run (k + 1) arguments
  turn : (m.run n arguments).2 = (s.turn m).2
  trace : (m.run n arguments).1 = told ++ [.own e]
  closing : (m.run n arguments).2.closing = [e]
  closes : e.Closes
  unclosed : ∀ x ∈ Trace.own told, ¬ x.Closes
  tale : Tale (Trace.own told ++ [e])
  pending : Pending (Trace.own told) s.resumes

theorem exists_ended (h0 : m.At arguments 0 (.start m.config arguments))
    (hend : ∀ s, ¬ m.At arguments n s) : ∃ k s told e, m.Ended arguments n k s told e := by
  obtain ⟨k, -, s, hs, hrun⟩ := exists_last_turn h0 hend
  have hturn : ∀ s', (s.turn m).2 ≠ .running s' := by
    intro s' hs'
    exact hend s' (by rw [At, hrun, hs'])
  have htold := told_at hs
  obtain ⟨e, hclosing, he, htale, hbalanced, hunclosed⟩ := htold.ending hturn
  refine ⟨k, s, (m.run k arguments).1 ++ (s.dispatch m).1, e, hs, ?_, ?_, ?_, ?_, he, ?_, ?_, ?_⟩
  · rw [hrun, run_succ_of_at hs]
  · rw [hrun]
  · have hsplit : (s.turn m).1 = (s.dispatch m).1 ++ (s.turn m).2.closing.map .own := rfl
    rw [hrun, hsplit, hclosing, List.append_assoc]
    rfl
  · rw [hrun, hclosing]
  · intro x hx
    rw [Trace.own_append] at hx
    exact (List.mem_append.1 hx).elim (htold.unclosed x) (hunclosed x)
  · rwa [Trace.own_append]
  · rw [Trace.own_append]
    exact htold.pending.append hbalanced

namespace Ended

variable {told : Trace} {e : Event}

theorem own_eq (h : m.Ended arguments n k s told e) :
    Trace.own (m.run n arguments).1 = Trace.own told ++ [e] := by
  rw [h.trace, Trace.own_append]
  rfl

theorem pending_own (h : m.Ended arguments n k s told e) :
    Pending (Trace.own (m.run n arguments).1) s.resumes := by
  rw [h.own_eq]
  exact h.pending.append (.singleton h.closes.isPush_eq h.closes.isPop_eq)

theorem lands (h : m.Ended arguments n k s told e) {l : Event}
    (hl : l ∈ (Trace.own (m.run n arguments).1).getLast?) : l.landing? = none := by
  rw [h.own_eq, List.getLast?_concat, Option.mem_some_iff] at hl
  exact hl ▸ h.closes.landing?_eq

theorem returned (h : m.Ended arguments n k s told e) {r : Report}
    (hr : (m.run n arguments).2.result? = some (.ok r)) :
    e = .finished r.steps r.value ∧ Balanced (Trace.own (m.run n arguments).1)
      ∧ r.steps = (Trace.dispatches (m.run n arguments).1).length
      ∧ IsGreatest {d | ∃ pc i, (pc, d, i) ∈ Trace.dispatches (m.run n arguments).1}
        r.maxFrameDepth := by
  obtain ⟨u, hu, hsteps, hmax⟩ := Progress.result?_eq_ok_iff.1 hr
  have hclosing := h.closing
  rw [hu] at hclosing
  have hturn := h.turn
  rw [hu] at hturn
  -- it is the first frame that left, so no call is pending
  obtain ⟨i, stack, hd, -, -, hroot, rfl⟩ := State.turn_eq_finished_iff.1 hturn.symm
  have hpending := h.pending_own
  rw [State.resumes, hroot] at hpending
  refine ⟨?_, hpending.balanced, ?_, ?_⟩
  · rw [hsteps]
    exact (List.singleton_inj.1 hclosing).symm
  · rw [hsteps, ← steps_run, hu]
    rfl
  · rw [hmax, State.update_maxFrameDepth, State.tick_maxFrameDepth, h.run]
    exact isGreatest_dispatched h.last hd

theorem failed (h : m.Ended arguments n k s told e) {fault : Fault}
    (hf : (m.run n arguments).2.result? = some (.error fault)) :
    ∃ pc depth, e = .faulted pc depth fault := by
  rcases Progress.result?_eq_error_iff.1 hf with ⟨u, hu⟩ | hu
  · have hclosing := h.closing
    rw [hu] at hclosing
    exact ⟨_, _, (List.singleton_inj.1 hclosing).symm⟩
  · exact absurd (h.turn.symm.trans hu) (State.turn_ne_refused m s fault)

end Ended

/-- A run tells what it does. Of its events each dispatch has the depth that pushes and pops make,
each pushed frame comes right after the dispatch of its call and is fetched from at its target next,
and each popped frame answers the call that pushed it, at its depth, and is fetched from right after
that call next. A run that returns ends with that event, which carries its answer; then every frame
pushed was popped, and the steps and the depth in its report are those of its dispatches. A run that
fails ends with the fault. Nothing else ends a trace, and nothing follows. -/
theorem trace_tells (hv : m.config.validate = .ok ()) (hp : m.program.isEmpty = false)
    (arguments : List Value) (n : Nat) :
    Tale (Trace.own (m.run n arguments).1)
    ∧ (∃ resumes, Pending (Trace.own (m.run n arguments).1) resumes)
    ∧ (∀ l ∈ (Trace.own (m.run n arguments).1).getLast?, ∀ pc, l.landing? = some pc →
      ∃ s, m.At arguments n s ∧ s.pc = pc)
    ∧ (∀ r, (m.run n arguments).2.result? = some (.ok r) →
      (∃ told, (m.run n arguments).1 = told ++ [.own (.finished r.steps r.value)]
        ∧ ∀ e ∈ Trace.own told, ¬ e.Closes)
      ∧ Balanced (Trace.own (m.run n arguments).1)
      ∧ r.steps = (Trace.dispatches (m.run n arguments).1).length
      ∧ IsGreatest {d | ∃ pc i, (pc, d, i) ∈ Trace.dispatches (m.run n arguments).1}
        r.maxFrameDepth)
    ∧ (∀ fault, (m.run n arguments).2.result? = some (.error fault) →
      ∃ told pc depth, (m.run n arguments).1 = told ++ [.own (.faulted pc depth fault)]
        ∧ ∀ e ∈ Trace.own told, ¬ e.Closes)
    ∧ ((m.run n arguments).2.result? = none → ∀ e ∈ Trace.own (m.run n arguments).1, ¬ e.Closes)
    ∧ ((m.run n arguments).2.result? ≠ none → ∀ k ≥ n, m.run k arguments = m.run n arguments) := by
  have h0 : m.At arguments 0 (.start m.config arguments) :=
    at_zero_iff.2 ⟨Config.validate_eq_ok.1 hv, hp, rfl⟩
  by_cases hrunning : ∃ s, m.At arguments n s
  · obtain ⟨s, hs⟩ := hrunning
    have htold := told_at hs
    have hresult : (m.run n arguments).2.result? = none := by rw [hs]; rfl
    refine ⟨htold.tale, ⟨_, htold.pending⟩, fun l hl pc hpc => ⟨s, hs, htold.lands l hl pc hpc⟩,
      ?_, ?_, fun _ => htold.unclosed, ?_⟩
    all_goals simp [hresult]
  · rw [not_exists] at hrunning
    obtain ⟨k, s, told, e, hended⟩ := exists_ended h0 hrunning
    refine ⟨hended.own_eq ▸ hended.tale, ⟨_, hended.pending_own⟩, ?_, ?_, ?_, ?_, ?_⟩
    · intro l hl pc hpc
      rw [hended.lands hl] at hpc
      cases hpc
    · intro r hr
      obtain ⟨rfl, hreport⟩ := hended.returned hr
      exact ⟨⟨told, hended.trace, hended.unclosed⟩, hreport⟩
    · intro fault hfault
      obtain ⟨pc, depth, rfl⟩ := hended.failed hfault
      exact ⟨told, pc, depth, hended.trace, hended.unclosed⟩
    · intro hnone
      obtain ⟨u, hu⟩ := Progress.result?_eq_none_iff.1 hnone
      exact absurd hu (hrunning u)
    · exact fun _ k hk => run_stays hrunning hk

theorem echo_tells :
    (∃ told, (echo.run 7 []).1 = told ++ [.own (.finished 7 (.integer 5))]
      ∧ ∀ e ∈ Trace.own told, ¬ e.Closes)
    ∧ Balanced (Trace.own (echo.run 7 []).1)
    ∧ IsGreatest {d | ∃ pc i, (pc, d, i) ∈ Trace.dispatches (echo.run 7 []).1} 2 := by
  obtain ⟨-, -, -, hreturns, -⟩ := trace_tells (m := echo) rfl rfl [] 7
  have hreport : (echo.run 7 []).2.result? = some (.ok ⟨.integer 5, 7, 2⟩) := rfl
  obtain ⟨hlast, hbalanced, -, hdeepest⟩ := hreturns _ hreport
  exact ⟨hlast, hbalanced, hdeepest⟩

end Machine

end FrameMachine
