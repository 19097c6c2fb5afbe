import FrameMachine.Proofs.Brackets
import FrameMachine.Proofs.Sizes

/-!
# What a frame cannot see

Two states may differ in the suspended frames and in the spent ones. Till the active frame's own
exit their runs do the same and report the same (`Agree.advance`): a turn reads the active frame,
the registers and the counters, an exit above the frame uncovers a caller that both runs have
suspended since, and a spent frame is reset before it is used. So a frame cannot tell who called
it.
-/

namespace FrameMachine

/-- What was recycled since is the same; the older spent frames may differ in all but their
size. -/
def SparesAgree (c : Config) (l l' : List Frame) : Prop :=
  ∃ recent old old', l = recent ++ old ∧ l' = recent ++ old'
    ∧ (∀ f ∈ old, f.locals.capacity = c.frameLocals)
    ∧ ∀ f ∈ old', f.locals.capacity = c.frameLocals

/-- The states agree above the suspended frames `below` and `below'`. -/
structure State.Agree (c : Config) (below below' : List Frame) (s s' : State) : Prop where
  active : s.calls.active = s'.calls.active
  suspended : ∃ above, s.calls.suspended = above ++ below ∧ s'.calls.suspended = above ++ below'
  spare : SparesAgree c s.calls.spare s'.calls.spare
  depth : s.depth = s'.depth
  maxDepth : s.calls.maxDepth = s'.calls.maxDepth
  registers : s.registers = s'.registers
  steps : s.steps = s'.steps

/-- Both runs go on, or both faulted for the same reason, in states that agree. -/
def Progress.Agree (c : Config) (below below' : List Frame) : Progress → Progress → Prop
  | running s, running s' => s.Agree c below below' s'
  | faulted e s, faulted e' s' => e = e' ∧ s.Agree c below below' s'
  | _, _ => False

/-- The turn in `t` is an exit with `v`: the caller gets it, or it ends the run. -/
def State.Yields (m : Machine) (v : Value) (t : State) : Prop :=
  match t.calls.suspended with
  | [] => ∃ u, (t.turn m).2 = .finished v u
  | caller :: rest => ∃ u, (t.turn m).2 = .running u ∧ u.calls.live = caller.push v :: rest

section Spares

variable {c : Config} {l l' : List Frame}

theorem SparesAgree.cons (h : SparesAgree c l l') (f : Frame) :
    SparesAgree c (f :: l) (f :: l') := by
  obtain ⟨recent, old, old', rfl, rfl, ho, ho'⟩ := h
  exact ⟨f :: recent, old, old', rfl, rfl, ho, ho'⟩

theorem SparesAgree.tail (h : SparesAgree c l l') : SparesAgree c l.tail l'.tail := by
  obtain ⟨recent, old, old', rfl, rfl, ho, ho'⟩ := h
  rcases recent with _ | ⟨f, recent⟩
  · exact ⟨[], old.tail, old'.tail, rfl, rfl, fun f hf => ho f (List.mem_of_mem_tail hf),
      fun f hf => ho' f (List.mem_of_mem_tail hf)⟩
  · exact ⟨recent, old, old', rfl, rfl, ho, ho'⟩

theorem SparesAgree.entered (h : SparesAgree c l l') (arguments : List Value) (target : Nat) :
    (l.head?.getD (.blank c.frameLocals)).enter arguments target =
      (l'.head?.getD (.blank c.frameLocals)).enter arguments target := by
  obtain ⟨recent, old, old', rfl, rfl, ho, ho'⟩ := h
  rcases recent with _ | ⟨f, recent⟩
  · rw [List.nil_append, List.nil_append, entered_of_capacity ho, entered_of_capacity ho']
  · rfl

end Spares

theorem Progress.Agree.closing_eq {c : Config} {below below' : List Frame} {p p' : Progress}
    (h : p.Agree c below below' p') : p.closing = p'.closing := by
  rcases p with s | _ | ⟨e, s⟩ | _ <;> rcases p' with s' | _ | ⟨e', s'⟩ | _ <;> try exact h.elim
  · rfl
  · obtain ⟨rfl, h⟩ := h
    have hpc : s.pc = s'.pc := congrArg Frame.pc h.active
    simp only [Progress.closing, hpc, h.depth]

namespace State

variable {m : Machine} {s s' t t' : State} {below below' : List Frame}

theorem Agree.view_eq {c : Config} (h : s.Agree c below below' s') : s.view = s'.view := by
  unfold view
  rw [h.registers, h.active]

theorem Agree.update {c : Config} (h : s.Agree c below below' s') (f : Frame) :
    (s.update f).Agree c below below' (s'.update f) := by
  rcases hr : s'.registers with _ | locals
  · rw [update_own hr, update_own (h.registers.trans hr)]
    exact ⟨rfl, h.suspended, h.spare, h.depth, h.maxDepth, h.registers, h.steps⟩
  · rw [update_shared hr, update_shared (h.registers.trans hr), h.active]
    exact ⟨rfl, h.suspended, h.spare, h.depth, h.maxDepth, rfl, h.steps⟩

theorem Agree.tick {c : Config} (h : s.Agree c below below' s') :
    s.tick.Agree c below below' s'.tick :=
  ⟨h.active, h.suspended, h.spare, h.depth, h.maxDepth, h.registers,
    congrArg (· + 1) h.steps⟩

theorem Agree.enter {c : Config} (h : s.Agree c below below' s') (target : Nat)
    (arguments : List Value) (caller : Frame) :
    (s.enter c target arguments caller).1 = (s'.enter c target arguments caller).1
      ∧ Progress.Agree c below below' (s.enter c target arguments caller).2
        (s'.enter c target arguments caller).2 := by
  have hu := h.update caller
  rw [enter_eq, enter_eq, h.maxDepth, h.depth, h.spare.entered, hu.active]
  split_ifs
  · exact ⟨rfl, rfl, hu⟩
  · obtain ⟨above, ha, ha'⟩ := h.suspended
    refine ⟨rfl, rfl, ⟨(s'.update caller).calls.active :: above, ?_, ?_⟩, h.spare.tail, ?_,
      hu.maxDepth, hu.registers, hu.steps⟩
    · rw [ha]
      rfl
    · rw [ha']
      rfl
    · exact congrArg (· + 1) h.depth

/-- An exit above the frames `below` uncovers a frame that both runs have suspended since. -/
theorem Agree.leave {c : Config} (h : s.Agree c below below' s') (v : Value) (f : Frame)
    (hx : s.depth ≠ below.length + 1) :
    (s.leave v f).1 = (s'.leave v f).1
      ∧ Progress.Agree c below below' (s.leave v f).2 (s'.leave v f).2 := by
  have hu := h.update f
  obtain ⟨above, ha, ha'⟩ := h.suspended
  rcases above with _ | ⟨caller, above⟩
  · exact absurd (by rw [State.depth, CallStack.depth, ha]; rfl) hx
  · have hlen : (above ++ below).length = (above ++ below').length := by
      have hd : s.calls.suspended.length + 1 = s'.calls.suspended.length + 1 := h.depth
      rw [ha, ha'] at hd
      simpa using hd
    rw [leave_eq, leave_eq, ha, ha', hu.active]
    simp only [List.cons_append, hlen]
    refine ⟨trivial, rfl, ⟨above, rfl, rfl⟩, h.spare.cons _, ?_, hu.maxDepth, hu.registers,
      hu.steps⟩
    exact congrArg (· + 1) hlen

theorem Agree.invoke {c : Config} (h : s.Agree c below below' s') (natives : NativeTable)
    (native : NativeName) (arguments : List Value) (f : Frame) :
    (s.invoke natives native arguments f).1 = (s'.invoke natives native arguments f).1
      ∧ Progress.Agree c below below' (s.invoke natives native arguments f).2
        (s'.invoke natives native arguments f).2 := by
  unfold State.invoke
  rcases hr : (natives native arguments).result with e | v
  · simp only [hr]
    exact ⟨trivial, rfl, h⟩
  · simp only [hr]
    exact ⟨trivial, h.update _⟩

theorem Agree.perform (h : s.Agree m.config below below' s') (a : Action)
    (hx : ∀ v f, a = .leave v f → s.depth ≠ below.length + 1) :
    (s.perform m a).1 = (s'.perform m a).1
      ∧ Progress.Agree m.config below below' (s.perform m a).2 (s'.perform m a).2 := by
  cases a with
  | proceed f => exact ⟨rfl, h.update f⟩
  | enter target arguments caller =>
    obtain ⟨he, hp⟩ := h.enter target arguments caller
    exact ⟨congrArg (List.map TraceEntry.own) he, hp⟩
  | invoke native arguments f => exact h.invoke m.natives native arguments f
  | leave v f =>
    obtain ⟨he, hp⟩ := h.leave v f (hx v f rfl)
    exact ⟨congrArg (List.map TraceEntry.own) he, hp⟩

theorem Agree.execute (h : s.Agree m.config below below' s') (i : Instruction)
    (hx : ∀ v f, s.view.act m.program i = .ok (.leave v f) → s.depth ≠ below.length + 1) :
    (s.execute m i).1 = (s'.execute m i).1
      ∧ Progress.Agree m.config below below' (s.execute m i).2 (s'.execute m i).2 := by
  unfold State.execute
  rw [← h.view_eq]
  rcases ha : s.view.act m.program i with e | a
  · exact ⟨rfl, rfl, h⟩
  · exact h.perform a fun v f hv => hx v f (hv ▸ ha)

theorem Agree.charge {c : Config} (h : s.Agree c below below' s') (budget : Option Nat) :
    (∃ e, s.charge budget = .error e ∧ s'.charge budget = .error e)
      ∨ s.charge budget = .ok s.tick ∧ s'.charge budget = .ok s'.tick := by
  rcases budget with _ | max
  · exact .inr ⟨rfl, rfl⟩
  · by_cases hs : max ≤ s.steps
    · exact .inl ⟨_, if_pos hs, if_pos (h.steps ▸ hs)⟩
    · exact .inr ⟨if_neg hs, if_neg (h.steps ▸ hs)⟩

theorem Agree.dispatch (h : s.Agree m.config below below' s')
    (hx : ∀ i v f, s.Dispatches m i → s.view.act m.program i = .ok (.leave v f) →
      s.depth ≠ below.length + 1) :
    (s.dispatch m).1 = (s'.dispatch m).1
      ∧ Progress.Agree m.config below below' (s.dispatch m).2 (s'.dispatch m).2 := by
  have hpc : s.pc = s'.pc := congrArg Frame.pc h.active
  unfold State.dispatch
  rw [← hpc]
  rcases hf : m.program.fetch s.pc with e | i
  · exact ⟨rfl, rfl, h⟩
  · rcases h.charge m.config.maxSteps with ⟨e, hc, hc'⟩ | ⟨hc, hc'⟩
    · rw [hc, hc']
      exact ⟨rfl, rfl, h⟩
    · have hd : s.Dispatches m i := ⟨hf, (charge_eq_ok_iff.1 hc).1⟩
      obtain ⟨he, hp⟩ := h.tick.execute i fun v f => hx i v f hd
      have hpc' : s.tick.pc = s'.tick.pc := hpc
      have hdepth : s.tick.depth = s'.tick.depth := h.depth
      rw [hc, hc']
      simp only [he, hpc', hdepth]
      exact ⟨trivial, hp⟩

/-- Below the same exit two turns that agree before agree after. -/
theorem Agree.turn (h : s.Agree m.config below below' s')
    (hx : ∀ i v f, s.Dispatches m i → s.view.act m.program i = .ok (.leave v f) →
      s.depth ≠ below.length + 1) :
    (s.turn m).1 = (s'.turn m).1
      ∧ Progress.Agree m.config below below' (s.turn m).2 (s'.turn m).2 := by
  obtain ⟨he, hp⟩ := h.dispatch hx
  refine ⟨?_, hp⟩
  simp only [State.turn, he, hp.closing_eq]

theorem yields_of_act {i : Instruction} {v : Value} {f : Frame} (hd : t.Dispatches m i)
    (ha : t.view.act m.program i = .ok (.leave v f)) : t.Yields m v := by
  have hturn : (t.turn m).2 = (t.tick.leave v f).2 := by
    rw [turn_of_dispatches hd]
    simp only [State.execute, tick_view, ha, State.perform, Prod.map, id]
  rw [leave_eq, tick_calls] at hturn
  unfold Yields
  split
  · rename_i hs
    exact ⟨_, by rw [hturn, hs]⟩
  · rename_i caller rest hs
    exact ⟨_, by rw [hturn, hs], rfl⟩

theorem act_of_exit {i : Instruction} {u : State} (hf : m.program.fetch t.pc = .ok i)
    (op : i.opcode = .exit) (hu : (t.turn m).2 = .running u) :
    ∃ v f, t.view.act m.program i = .ok (.leave v f) := by
  obtain ⟨j, hd, hs⟩ := turn_eq_running_iff.1 hu
  obtain rfl := hd.eq_of_fetch hf
  cases hs with
  | proceed effect => exact absurd op effect.opcode_of_proceed.2.2
  | invoke op' => simp [op] at op'
  | enter op' => simp [op] at op'
  | leave op' top =>
    rw [← view_stack] at top
    exact ⟨_, _, Frame.act_of_effect (.exit op top)⟩

/-- An exit of the frame right above `below` gives the same value in both runs, or fails alike. -/
theorem Agree.exit (h : t.Agree m.config below below' t') (hl : t.Leaves m (below.length + 1)) :
    (∃ v, t.Yields m v ∧ t'.Yields m v)
      ∨ ∃ e u u', (t.turn m).2 = .faulted e u ∧ (t'.turn m).2 = .faulted e u'
        ∧ (t.turn m).1 = (t'.turn m).1 := by
  obtain ⟨-, i, hf, op⟩ := hl
  by_cases hy : ∃ v f, t.Dispatches m i ∧ t.view.act m.program i = .ok (.leave v f)
  · obtain ⟨v, f, hd, ha⟩ := hy
    have hpc : t'.pc = t.pc := congrArg Frame.pc h.active.symm
    have hd' : t'.Dispatches m i := ⟨hpc ▸ hd.1, h.steps ▸ hd.2⟩
    exact .inl ⟨v, yields_of_act hd ha, yields_of_act hd' (h.view_eq ▸ ha)⟩
  · have hnot : ∀ j v f, t.Dispatches m j → t.view.act m.program j = .ok (.leave v f) →
        t.depth ≠ below.length + 1 := by
      intro j v f hd ha
      obtain rfl := hd.eq_of_fetch hf
      exact absurd ⟨v, f, hd, ha⟩ hy
    obtain ⟨he, hp⟩ := h.turn hnot
    rcases hu : (t.turn m).2 with u | _ | ⟨e, u⟩ | _ <;> rw [hu] at hp
    · obtain ⟨j, hd, -⟩ := turn_eq_running_iff.1 hu
      obtain rfl := hd.eq_of_fetch hf
      obtain ⟨v, f, ha⟩ := act_of_exit hf op hu
      exact absurd ⟨v, f, hd, ha⟩ hy
    · exact hp.elim
    · rcases hu' : (t'.turn m).2 with u' | _ | ⟨e', u'⟩ | _ <;> rw [hu'] at hp
      · exact hp.elim
      · exact hp.elim
      · obtain ⟨rfl, -⟩ := hp
        exact .inr ⟨e, u, u', rfl, rfl, he⟩
      · exact hp.elim
    · exact hp.elim

/-- Till the exit of the frame right above `below` the two runs do the same. -/
theorem Agree.advance (h : s.Agree m.config below below' s') {n : Nat}
    (hr : m.Retains (below.length + 1) n s) :
    (m.advance n (.running s)).1 = (m.advance n (.running s')).1
      ∧ Progress.Agree m.config below below' (m.advance n (.running s)).2
        (m.advance n (.running s')).2 := by
  induction n with
  | zero => exact ⟨rfl, h⟩
  | succ n ih =>
    obtain ⟨he, hp⟩ := ih (hr.mono (Nat.le_succ n))
    rw [m.advance_succ n (.running s), m.advance_succ n (.running s'), he]
    rcases hu : (m.advance n (.running s)).2 with u | _ | ⟨e, u⟩ | _ <;> rw [hu] at hp <;>
      rcases hu' : (m.advance n (.running s')).2 with u' | _ | ⟨e', u'⟩ | _ <;> rw [hu'] at hp <;>
      try exact hp.elim
    · have hx : ∀ i v f, u.Dispatches m i → u.view.act m.program i = .ok (.leave v f) →
          u.depth ≠ below.length + 1 := by
        intro i v f hd ha hdepth
        refine hr n (Nat.lt_succ_self n) u hu ⟨hdepth, i, hd.1, ?_⟩
        cases Frame.effect_of_act ha
        assumption
      obtain ⟨het, hpt⟩ := hp.turn hx
      simp only [Machine.advance_one]
      exact ⟨by rw [het], hpt⟩
    · exact ⟨rfl, hp⟩

/-- While neither run has faulted, both go on. -/
theorem Agree.goes (h : s.Agree m.config below below' s') {n : Nat}
    (hr : m.Retains (below.length + 1) n s) (ht : m.Goes n s' t') :
    ∃ t, m.Goes n s t ∧ t.Agree m.config below below' t' := by
  have hp := (h.advance hr).2
  rw [ht] at hp
  rcases hu : (m.advance n (.running s)).2 with t | _ | _ | _ <;> rw [hu] at hp
  · exact ⟨t, hu, hp⟩
  all_goals exact hp.elim

theorem Agree.leaves {c : Config} (h : s.Agree c below below' s') {d : Nat} :
    s.Leaves m d ↔ s'.Leaves m d := by
  have hpc : s.pc = s'.pc := congrArg Frame.pc h.active
  unfold Leaves
  rw [h.depth, hpc]

theorem Agree.retains (h : s.Agree m.config below below' s') {n : Nat}
    (hr : m.Retains (below.length + 1) n s) : m.Retains (below.length + 1) n s' := by
  intro k hk t' ht' hl'
  obtain ⟨t, ht, ha⟩ := h.goes (hr.mono (Nat.le_of_lt hk)) ht'
  exact hr k hk t ht (ha.leaves.2 hl')

end State

/-- A callee cannot observe its callers. From two states that agree on the active frame, the
registers, the steps charged and the depth, with any suspended frames and any spent frames of the
configuration's size, the runs do the same till that frame's own exit: they report the same events,
agree on all frames entered since, on registers and counters, and fault alike; and that exit, if
it comes, comes in the same turn and gives the same value. -/
theorem callers_unseen {m : Machine} {s s' : State} {n : Nat}
    (hactive : s.calls.active = s'.calls.active) (hregisters : s.registers = s'.registers)
    (hsteps : s.steps = s'.steps) (hdepth : s.depth = s'.depth)
    (hmax : s.calls.maxDepth = s'.calls.maxDepth)
    (hspare : ∀ f ∈ s.calls.spare, f.locals.capacity = m.config.frameLocals)
    (hspare' : ∀ f ∈ s'.calls.spare, f.locals.capacity = m.config.frameLocals)
    (hr : m.Retains s.depth n s) :
    m.Retains s'.depth n s'
      ∧ (m.advance n (.running s)).1 = (m.advance n (.running s')).1
      ∧ Progress.Agree m.config s.calls.suspended s'.calls.suspended
        (m.advance n (.running s)).2 (m.advance n (.running s')).2
      ∧ ∀ {t t' : State}, m.Goes n s t → m.Goes n s' t' → t.Leaves m s.depth →
        t'.Leaves m s'.depth
          ∧ ((∃ v, t.Yields m v ∧ t'.Yields m v)
            ∨ ∃ e u u', (t.turn m).2 = .faulted e u ∧ (t'.turn m).2 = .faulted e u'
              ∧ (t.turn m).1 = (t'.turn m).1) := by
  have h : s.Agree m.config s.calls.suspended s'.calls.suspended s' :=
    ⟨hactive, ⟨[], rfl, rfl⟩, ⟨[], _, _, rfl, rfl, hspare, hspare'⟩, hdepth, hmax, hregisters,
      hsteps⟩
  refine ⟨hdepth ▸ h.retains hr, (h.advance hr).1, (h.advance hr).2, ?_⟩
  intro t t' ht ht' hl
  have ha : t.Agree m.config s.calls.suspended s'.calls.suspended t' := by
    obtain ⟨u, hu, ha⟩ := h.goes hr ht'
    exact hu.unique ht ▸ ha
  exact ⟨hdepth ▸ ha.leaves.1 hl, ha.exit hl⟩

namespace Machine

def stranger : Frame where
  stack := .ofList [.null]
  locals := ⟨#[.integer 9]⟩
  pc := 2

/-- The callee of `echo` under another caller, with a spent frame about. -/
def echoElsewhere (active : Frame) (steps : Nat) : State where
  calls := ⟨active, [stranger], [stranger], 1024⟩
  registers := none
  steps := steps

theorem echo_unseen :
    (echo.advance 1 (.running echoEntered)).1 =
        (echo.advance 1 (.running (echoElsewhere echoCallee 4))).1
      ∧ ∃ v, echoLeaving.Yields echo v
        ∧ (echoElsewhere (echoCallee.push (.integer 5)).advance 5).Yields echo v := by
  have hspare : ∀ f ∈ (echoElsewhere echoCallee 4).calls.spare,
      f.locals.capacity = echo.config.frameLocals := by
    intro f hf
    obtain rfl := List.mem_singleton.1 hf
    rfl
  have hactive : echoEntered.calls.active = (echoElsewhere echoCallee 4).calls.active := rfl
  obtain ⟨-, hevents, -, hexit⟩ :=
    callers_unseen hactive rfl rfl rfl rfl nofun hspare echo_retains
  refine ⟨hevents, ?_⟩
  have hg : echo.Goes 1 echoEntered echoLeaving := rfl
  have hg' : echo.Goes 1 (echoElsewhere echoCallee 4)
      (echoElsewhere (echoCallee.push (.integer 5)).advance 5) := rfl
  rcases (hexit hg hg' ⟨rfl, ⟨.exit, .null⟩, rfl, rfl⟩).2 with h | ⟨e, u, u', h, -⟩
  · exact h
  · cases h

end Machine

end FrameMachine
