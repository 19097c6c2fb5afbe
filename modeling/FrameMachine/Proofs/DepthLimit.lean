import FrameMachine.Proofs.Lockstep
import FrameMachine.Proofs.Shape
import Mathlib.Data.Nat.SuccPred

/-!
# The call depth limit

The limit is read in one place, when a call is about to enter its frame and all else about the call
has been checked. So a turn that does not go deeper than the limit is the same turn under any other
such limit (`turn_withDepthLimit`), and under a limit that the run exceeds the two runs part at the
first call that goes deeper: the depth grows by one at a time, so that call is made at the limit.
-/

namespace FrameMachine

/-- The state under another depth limit. -/
def State.withDepthLimit (limit : Nat) (s : State) : State :=
  { s with calls := { s.calls with maxDepth := limit } }

/-- The machine under another depth limit. -/
def Machine.withDepthLimit (limit : Nat) (m : Machine) : Machine :=
  { m with config := { m.config with maxCallDepth := limit } }

/-- The turn in `s` is a call that finds the frames at their limit. -/
def State.Overflows (m : Machine) (s : State) : Prop :=
  ∃ i limit u, s.Dispatches m i ∧ i.opcode = .call
    ∧ (s.turn m).2 = .faulted (.callStackOverflow limit) u

namespace State

variable {m : Machine} {s t : State} {i : Instruction} {limit : Nat}

theorem withDepthLimit_update (s : State) (f : Frame) :
    (s.withDepthLimit limit).update f = (s.update f).withDepthLimit limit := by
  rcases hr : s.registers with _ | locals
  · rw [update_own hr, update_own (s := s.withDepthLimit limit) hr]
    rfl
  · rw [update_shared hr, update_shared (s := s.withDepthLimit limit) hr]
    rfl

theorem withDepthLimit_enter (c : Config) (target : Nat) (arguments : List Value) (caller : Frame)
    (hroom : s.depth < s.calls.maxDepth) (hlimit : s.depth < limit) :
    (s.withDepthLimit limit).enter c target arguments caller =
      (s.enter c target arguments caller).map id (Progress.map (.withDepthLimit limit)) := by
  have hlimit' : ¬ (s.withDepthLimit limit).calls.maxDepth ≤ (s.withDepthLimit limit).depth :=
    Nat.not_le.2 hlimit
  rw [enter_eq, enter_eq, if_neg (Nat.not_le.2 hroom), if_neg hlimit', withDepthLimit_update]
  rfl

theorem withDepthLimit_leave (s : State) (v : Value) (f : Frame) :
    (s.withDepthLimit limit).leave v f =
      (s.leave v f).map id (Progress.map (.withDepthLimit limit)) := by
  have hs : (s.withDepthLimit limit).calls.suspended = s.calls.suspended := rfl
  rw [leave_eq, leave_eq, hs, withDepthLimit_update]
  rcases s.calls.suspended with _ | ⟨caller, rest⟩ <;> rfl

theorem withDepthLimit_invoke (natives : NativeTable) (s : State) (native : NativeName)
    (arguments : List Value) (f : Frame) :
    (s.withDepthLimit limit).invoke natives native arguments f =
      (s.invoke natives native arguments f).map id (Progress.map (.withDepthLimit limit)) := by
  unfold invoke
  rcases hr : (natives native arguments).result with e | v
  · simp only [hr]
    rfl
  · simp only [hr, withDepthLimit_update]
    rfl

/-- Only the entry of a frame reads the limit. -/
theorem withDepthLimit_perform (a : Action)
    (hroom : ∀ target arguments caller, a = .enter target arguments caller →
      s.depth < s.calls.maxDepth ∧ s.depth < limit) :
    (s.withDepthLimit limit).perform m a =
      (s.perform m a).map id (Progress.map (.withDepthLimit limit)) := by
  cases a with
  | proceed f =>
    simp only [perform, withDepthLimit_update]
    rfl
  | enter target arguments caller =>
    obtain ⟨hs, hlimit⟩ := hroom target arguments caller rfl
    simp only [perform, withDepthLimit_enter _ _ _ _ hs hlimit]
    rfl
  | invoke native arguments f => exact withDepthLimit_invoke m.natives s native arguments f
  | leave v f =>
    simp only [perform, withDepthLimit_leave]
    rfl

theorem withDepthLimit_execute (i : Instruction)
    (hroom : ∀ target arguments caller,
      s.view.act m.program i = .ok (.enter target arguments caller) →
      s.depth < s.calls.maxDepth ∧ s.depth < limit) :
    (s.withDepthLimit limit).execute (m.withDepthLimit limit) i =
      (s.execute m i).map id (Progress.map (.withDepthLimit limit)) := by
  have hview : (s.withDepthLimit limit).view = s.view := rfl
  have hprogram : (m.withDepthLimit limit).program = m.program := rfl
  unfold execute
  rw [hview, hprogram]
  rcases ha : s.view.act m.program i with e | a
  · rfl
  · exact withDepthLimit_perform a fun target arguments caller h =>
      hroom target arguments caller (h ▸ ha)

/-- What becomes of a call after its other checks. -/
theorem turn_of_enter {target : Nat} {arguments : List Value} {caller : Frame}
    (hd : s.Dispatches m i) (ha : s.view.act m.program i = .ok (.enter target arguments caller)) :
    i.opcode = .call ∧ (s.turn m).2 = (s.tick.enter m.config target arguments caller).2 := by
  constructor
  · cases Frame.effect_of_act ha
    assumption
  · rw [turn_of_dispatches hd]
    simp only [execute, tick_view, ha, perform, Prod.map, id]

theorem room_of_turn {target : Nat} {arguments : List Value} {caller : Frame}
    (hd : s.Dispatches m i) (ha : s.view.act m.program i = .ok (.enter target arguments caller))
    (hover : ¬ s.Overflows m) (hdepth : ∀ t, (s.turn m).2 = .running t → t.depth ≤ limit) :
    s.depth < s.calls.maxDepth ∧ s.depth < limit := by
  obtain ⟨op, hturn⟩ := turn_of_enter hd ha
  rw [enter_eq] at hturn
  split_ifs at hturn with hroom
  · exact absurd ⟨i, _, _, hd, op, hturn⟩ hover
  · exact ⟨Nat.not_le.1 hroom, hdepth _ hturn⟩

theorem faithful_withDepthLimit (limit : Nat) :
    Faithful fun s s' => s' = s.withDepthLimit limit where
  pc := by rintro s _ rfl; rfl
  depth := by rintro s _ rfl; rfl
  steps := by rintro s _ rfl; rfl
  maxFrameDepth := by rintro s _ rfl; rfl

/-- A turn that neither overflows nor goes deeper than the limit is the same under it. -/
theorem turn_withDepthLimit (hover : ¬ s.Overflows m)
    (hdepth : ∀ t, (s.turn m).2 = .running t → t.depth ≤ limit) :
    (s.turn m).1 = ((s.withDepthLimit limit).turn (m.withDepthLimit limit)).1
      ∧ Progress.Rel (fun s s' => s' = s.withDepthLimit limit) (s.turn m).2
        ((s.withDepthLimit limit).turn (m.withDepthLimit limit)).2 := by
  refine turn_rel (faithful_withDepthLimit limit) rfl rfl rfl fun i hd => ?_
  have hroom : ∀ target arguments caller,
      s.tick.view.act m.program i = .ok (.enter target arguments caller) →
      s.tick.depth < s.tick.calls.maxDepth ∧ s.tick.depth < limit :=
    fun _ _ _ ha => room_of_turn (s := s) hd ha hover hdepth
  have htick : (s.withDepthLimit limit).tick = s.tick.withDepthLimit limit := rfl
  rw [htick, withDepthLimit_execute i hroom]
  exact ⟨rfl, Progress.rel_map (R := fun s s' => s' = s.withDepthLimit limit) (fun _ => rfl) _⟩

/-- Only a call goes deeper, and by one frame. -/
theorem Step.deeper (h : s.Step m i t) (hdeep : s.depth < t.depth) :
    i.opcode = .call ∧ t.depth = s.depth + 1 ∧ ∃ target arguments caller,
      s.view.act m.program i = .ok (.enter target arguments caller)
        ∧ caller.pc = s.pc + 1 := by
  cases h with
  | proceed =>
    rw [update_depth, tick_depth] at hdeep
    omega
  | invoke => exact absurd hdeep (Nat.lt_irrefl _)
  | @enter target arguments stack op goal top room =>
    rw [← view_stack] at top
    refine ⟨op, rfl, target, arguments, _, Frame.act_of_effect (.call op goal top), ?_⟩
    simp only [Frame.advance, view_pc]
    rfl
  | leave op top callers =>
    simp only [depth, CallStack.depth, callers, List.length_cons] at hdeep
    omega

/-- A call that is made at the limit overflows. Its caller is at the next instruction by then. -/
theorem turn_overflow (hd : s.Dispatches m i) (hs : s.Step m i t) (hdeep : s.depth < t.depth)
    (hlimit : s.depth = limit) :
    ∃ u, (s.withDepthLimit limit).turn (m.withDepthLimit limit) =
      ([.own (.dispatched s.pc limit i),
          .own (.faulted (s.pc + 1) limit (.callStackOverflow limit))],
        .faulted (.callStackOverflow limit) u) := by
  obtain ⟨-, -, target, arguments, caller, ha, hpc⟩ := hs.deeper hdeep
  have hd' : (s.withDepthLimit limit).Dispatches (m.withDepthLimit limit) i := hd
  have ha' : (s.withDepthLimit limit).tick.view.act (m.withDepthLimit limit).program i =
      .ok (.enter target arguments caller) := ha
  have hfull : (s.withDepthLimit limit).tick.calls.maxDepth
      ≤ (s.withDepthLimit limit).tick.depth := Nat.le_of_eq hlimit.symm
  have hexecute : (s.withDepthLimit limit).tick.execute (m.withDepthLimit limit) i =
      ([], .faulted (.callStackOverflow limit)
        ((s.withDepthLimit limit).tick.update caller)) := by
    simp only [execute, ha', perform, enter_eq, if_pos hfull]
    rfl
  refine ⟨(s.withDepthLimit limit).tick.update caller, ?_⟩
  rw [turn_eq_of_dispatches hd', hexecute]
  simp only [Progress.closing, update_pc, update_depth, hpc]
  subst hlimit
  rfl

end State

namespace Machine

variable {m : Machine} {arguments : List Value} {limit n : Nat} {s : State}

/-- The depths that a run reaches. -/
def depths (m : Machine) (arguments : List Value) : Set Nat :=
  {d | ∃ n s, m.At arguments n s ∧ s.depth = d}

/-- Under a limit of `limit` frames the run does what it does for its first `k` turns, in which it
is nowhere deeper, and ends at the next instruction: the call that would take it deeper. -/
def DepthCutOff (m : Machine) (arguments : List Value) (limit : Nat) : Prop :=
  ∃ k s t u i, m.At arguments k s ∧ s.depth = limit ∧ s.Dispatches m i ∧ i.opcode = .call
    ∧ (s.turn m).2 = .running t ∧ t.depth = limit + 1
    ∧ (∀ j ≤ k, ∀ v, m.At arguments j v → v.depth ≤ limit)
    ∧ (m.withDepthLimit limit).run (k + 1) arguments =
      ((m.run k arguments).1
          ++ [.own (.dispatched s.pc limit i),
            .own (.faulted (s.pc + 1) limit (.callStackOverflow limit))],
        .faulted (.callStackOverflow limit) u)

theorem inStep_withDepthLimit (hm : 0 < m.config.maxCallDepth) (hlimit : 0 < limit)
    (hover : ∀ k < n, ∀ s, m.At arguments k s → ¬ s.Overflows m)
    (hdepth : ∀ k ≤ n, ∀ s, m.At arguments k s → s.depth ≤ limit) :
    InStep (fun s s' => s' = s.withDepthLimit limit) m (m.withDepthLimit limit) arguments n := by
  have hvalid : (m.withDepthLimit limit).config.validate = m.config.validate := by
    rw [Config.validate_eq_ok.2 hm]
    exact Config.validate_eq_ok.2 hlimit
  refine inStep_of_turns (inStep_zero rfl hvalid rfl) ?_
  rintro k hk s s' hs - rfl
  refine State.turn_withDepthLimit (hover k hk s hs) ?_
  intro t ht
  exact hdepth (k + 1) hk t (at_succ.2 ⟨s, hs, ht⟩)

/-- A limit that the run does not exceed is as good as its own. -/
theorem sameRun_withDepthLimit (hm : 0 < m.config.maxCallDepth) (hlimit : 0 < limit)
    (hover : ∀ k < n, ∀ s, m.At arguments k s → ¬ s.Overflows m)
    (hdepth : ∀ k ≤ n, ∀ s, m.At arguments k s → s.depth ≤ limit) :
    SameRun m (m.withDepthLimit limit) arguments n :=
  (inStep_withDepthLimit hm hlimit hover hdepth).sameRun (State.faithful_withDepthLimit limit)

theorem depthCutOff_of_deeper (hover : ∀ k s, m.At arguments k s → ¬ s.Overflows m)
    (hlimit : 0 < limit) (hs : m.At arguments n s) (hdeep : limit < s.depth) :
    m.DepthCutOff arguments limit := by
  classical
  have hex : ∃ j v, m.At arguments j v ∧ limit < v.depth := ⟨n, s, hs, hdeep⟩
  obtain ⟨t, ht, hlt⟩ := Nat.find_spec hex
  have hbefore : ∀ j < Nat.find hex, ∀ v, m.At arguments j v → v.depth ≤ limit :=
    fun j hj v hv => Nat.not_lt.1 fun h => Nat.find_min hex hj ⟨v, hv, h⟩
  rcases hfind : Nat.find hex with _ | k
  · rw [hfind] at ht
    rw [at_zero ht] at hlt
    exact absurd hlt (Nat.not_lt.2 hlimit)
  rw [hfind] at ht hbefore
  obtain ⟨u, hu, hturn⟩ := at_succ.1 ht
  obtain ⟨i, hd, hi⟩ := State.turn_eq_running_iff.1 hturn
  have hle : u.depth ≤ limit := hbefore k (Nat.lt_succ_self k) u hu
  have hdeeper : u.depth < t.depth := Nat.lt_of_le_of_lt hle hlt
  obtain ⟨op, hsucc, -⟩ := hi.deeper hdeeper
  -- one frame at a time: right before the run is first too deep it is at the limit
  have hdepth : u.depth = limit := by omega
  have hfirst : ∀ j ≤ k, ∀ v, m.At arguments j v → v.depth ≤ limit :=
    fun j hj => hbefore j (Nat.lt_succ_of_le hj)
  have hstep := inStep_withDepthLimit hu.maxCallDepth_pos hlimit (fun j _ => hover j) hfirst
  obtain ⟨u', hu', rfl⟩ := hstep.at_right hu
  obtain ⟨w, hw⟩ := State.turn_overflow hd hi hdeeper hdepth
  refine ⟨k, u, t, w, i, hu, hdepth, hd, op, hturn, hdepth ▸ hsucc, hfirst, ?_⟩
  rw [run_succ_of_at hu', hw, hstep.trace]

theorem exists_isGreatest_depths (hm : 0 < m.config.maxCallDepth)
    (hp : m.program.isEmpty = false) : ∃ d, IsGreatest (m.depths arguments) d := by
  have hstart : m.At arguments 0 (.start m.config arguments) := at_zero_iff.2 ⟨hm, hp, rfl⟩
  refine BddAbove.exists_isGreatest_of_nonempty ⟨m.config.maxCallDepth, ?_⟩ ⟨1, 0, _, hstart, rfl⟩
  rintro d ⟨n, s, hs, rfl⟩
  have hshape := shaped_at hs
  have hlimit := (State.sized_at hs).maxDepth
  have := hshape.depth_le
  have := hshape.le_limit
  omega

theorem not_overflows_of_finished {v : Value} {u : State} {b : Nat}
    (hb : (m.run b arguments).2 = .finished v u) (hs : m.At arguments n s) : ¬ s.Overflows m := by
  rintro ⟨i, limit, w, -, -, hturn⟩
  have hend : ∀ s, ¬ m.At arguments b s := by simp [At, hb]
  have hover : (m.run (n + 1) arguments).2 = .faulted (.callStackOverflow limit) w := by
    rw [run_succ_of_at hs, hturn]
  have hstays : m.run b arguments = m.run (n + 1) arguments :=
    run_stays (by simp [At, hover]) (hs.lt_of_ended hend)
  rw [hstays, hover] at hb
  cases hb

theorem echo_depths : IsGreatest (echo.depths []) 2 := by
  have h : echo.At [] 6 echoReturned := rfl
  have hend : ∀ s, ¬ echo.At [] 7 s := nofun
  obtain ⟨⟨k, -, s, hs, hd⟩, hbound⟩ := isGreatest_depthsTo h
  refine ⟨⟨k, s, hs, hd⟩, ?_⟩
  rintro d ⟨n, t, ht, rfl⟩
  exact hbound ⟨n, Nat.le_of_lt_succ (ht.lt_of_ended hend), t, ht, rfl⟩

/-- The depth limit is an exact cut-off. Of a run that no call overflows, let `d` be the greatest
depth. Under a limit of `d` or more nobody can tell the run apart; under a smaller one it ends with
an overflow, at the very call that first takes it deeper, and is the same till then. A program
without instructions is refused under every limit. -/
theorem depth_limit_exact (m : Machine) (arguments : List Value)
    (hm : 0 < m.config.maxCallDepth) (hover : ∀ n s, m.At arguments n s → ¬ s.Overflows m) :
    (m.program.isEmpty = false → ∃ d, IsGreatest (m.depths arguments) d
      ∧ (∀ limit, d ≤ limit → ∀ n, SameRun m (m.withDepthLimit limit) arguments n)
      ∧ ∀ limit, 1 ≤ limit → limit < d → m.DepthCutOff arguments limit)
    ∧ (m.program.isEmpty = true → ∀ limit, 1 ≤ limit →
      ∀ n, SameRun m (m.withDepthLimit limit) arguments n) := by
  constructor
  · intro hp
    obtain ⟨d, hd⟩ : ∃ d, IsGreatest (m.depths arguments) d := exists_isGreatest_depths hm hp
    refine ⟨d, hd, ?_, ?_⟩
    · intro limit hle n
      have hdepth : ∀ k ≤ n, ∀ s, m.At arguments k s → s.depth ≤ limit :=
        fun k _ s hs => (hd.2 ⟨k, s, hs, rfl⟩).trans hle
      have hstart := hdepth 0 (Nat.zero_le n) _ (at_zero_iff.2 ⟨hm, hp, rfl⟩)
      exact sameRun_withDepthLimit hm hstart (fun k _ => hover k) hdepth
    · intro limit hlimit hlt
      obtain ⟨n, s, hs, rfl⟩ := hd.1
      exact depthCutOff_of_deeper hover hlimit hs hlt
  · intro hp limit hlimit n
    refine sameRun_withDepthLimit hm hlimit (fun k _ => hover k) ?_
    intro k _ s hs
    have := (at_zero_iff.1 (at_iff.1 hs).1).2.1
    simp [hp] at this

theorem echo_needs_two_frames :
    (∀ n, SameRun echo (echo.withDepthLimit 2) [] n) ∧ echo.DepthCutOff [] 1 := by
  obtain ⟨u, hu⟩ : ∃ u, (echo.run 7 []).2 = .finished (.integer 5) u := ⟨_, rfl⟩
  have hexact := depth_limit_exact echo [] (by decide) fun n s => not_overflows_of_finished hu
  obtain ⟨d, hd, hsame, hcut⟩ := hexact.1 rfl
  obtain rfl : d = 2 := hd.unique echo_depths
  exact ⟨hsame 2 le_rfl, hcut 1 le_rfl (by decide)⟩

end Machine

end FrameMachine
