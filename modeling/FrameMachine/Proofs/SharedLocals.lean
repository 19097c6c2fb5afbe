import FrameMachine.Proofs.Lockstep
import FrameMachine.Proofs.Slots

/-!
# Locals moved out

With its locals moved out into one register file, a state in which every frame has its own is a
state in which they share one. A turn makes the same of both, as long as a load finds the same in
the register file and in the active frame (`turn_share`).
-/

namespace FrameMachine

/-- The frame without its locals. -/
def Frame.bare (f : Frame) : Frame := { f with locals := .blank 0 }

def Action.withLocals (l : Locals) : Action → Action
  | proceed f => .proceed { f with locals := l }
  | enter target arguments caller => .enter target arguments { caller with locals := l }
  | invoke native arguments f => .invoke native arguments { f with locals := l }
  | leave v f => .leave v { f with locals := l }

/-- The state with `l` in the place of every frame's own locals. -/
def State.share (l : Locals) (s : State) : State :=
  { s with
    calls :=
      { active := s.calls.active.bare
        suspended := s.calls.suspended.map .bare
        spare := s.calls.spare.map .bare
        maxDepth := s.calls.maxDepth }
    registers := some l }

/-- The states are the same but for where they keep the locals, and what these hold. -/
def State.Shares (s s' : State) : Prop := ∃ l, s' = s.share l

/-- The machine under another model of locals. -/
def Machine.withModel (model : LocalsModel) (m : Machine) : Machine :=
  { m with config := { m.config with localsModel := model } }

namespace Frame

variable {p : Program} {f : Frame} {i : Instruction} {l : Locals}

theorem bare_enter (f : Frame) (arguments : List Value) (pc : Nat) :
    (f.enter arguments pc).bare = f.bare.enter arguments pc := by
  simp [enter, bare, Locals.reset]

theorem act_withLocals (hload : i.opcode ≠ .load) (hstore : i.opcode ≠ .store) :
    { f with locals := l }.act p i = Action.withLocals l <$> f.act p i := by
  unfold act
  cases hop : i.opcode with
  | load => exact absurd hop hload
  | store => exact absurd hop hstore
  | ret =>
    simp only [map_bind]
    refine bind_congr fun address => ?_
    split <;> rfl
  | _ => simp [Action.withLocals, push, advance, argument, jump, map_bind]

theorem act_withLocals_load (op : i.opcode = .load)
    (hload : ∀ slot, i.operand = .integer slot → f.locals.load slot = l.load slot) :
    { f with locals := l }.act p i = Action.withLocals l <$> f.act p i := by
  rcases ho : i.operand.asInteger with e | slot
  · simp only [act, op, Instruction.integerOperand, ho]
    rfl
  · have operand := Value.asInteger_eq_ok_iff.1 ho
    rw [act_load op operand, act_load op operand, hload slot operand]
    simp [Action.withLocals, push, advance]

theorem act_withLocals_store (op : i.opcode = .store)
    (hcapacity : f.locals.capacity = l.capacity) :
    ∃ l', { f with locals := l }.act p i = Action.withLocals l' <$> f.act p i := by
  rcases ho : i.operand.asInteger with e | slot
  · refine ⟨l, ?_⟩
    simp only [act, op, Instruction.integerOperand, ho]
    rfl
  have operand := Value.asInteger_eq_ok_iff.1 ho
  rw [act_store op operand, act_store op operand]
  rcases f.stack.pop.1 with e | v
  · exact ⟨l, rfl⟩
  rcases Locals.store_cases hcapacity slot v with ⟨e, he, he'⟩ | ⟨k, k', hk, hk'⟩
  · refine ⟨l, ?_⟩
    simp [bind, Except.bind, he, he']
  · refine ⟨k', ?_⟩
    simp [bind, Except.bind, hk, hk', Action.withLocals, advance, pure, Except.pure]

/-- With other locals of the same size an instruction does the same where a load finds the same. -/
theorem exists_act_withLocals (hcapacity : f.locals.capacity = l.capacity)
    (hload : i.opcode = .load → ∀ slot, i.operand = .integer slot →
      f.locals.load slot = l.load slot) :
    ∃ l', { f with locals := l }.act p i = Action.withLocals l' <$> f.act p i := by
  by_cases op : i.opcode = .load
  · exact ⟨l, act_withLocals_load op (hload op)⟩
  by_cases op' : i.opcode = .store
  · exact act_withLocals_store op' hcapacity
  · exact ⟨l, act_withLocals op op'⟩

end Frame

namespace State

variable {m : Machine} {s : State} {l l' : Locals}

theorem faithful_shares : Faithful Shares where
  pc := by rintro s _ ⟨l, rfl⟩; rfl
  depth := by
    rintro s _ ⟨l, rfl⟩
    simp [depth, CallStack.depth, share]
  steps := by rintro s _ ⟨l, rfl⟩; rfl
  maxFrameDepth := by rintro s _ ⟨l, rfl⟩; rfl

theorem share_view (hr : s.registers = none) :
    (s.share l).view = { s.view with locals := l } := by
  rw [view_own hr]
  rfl

theorem share_update (hr : s.registers = none) (f : Frame) :
    (s.share l).update { f with locals := l' } = (s.update f).share l' := by
  rw [update_own hr]
  rfl

theorem share_entered (c c' : Config) (spare : List Frame) (arguments : List Value) (target : Nat)
    (hc : c'.frameLocals = 0) :
    ((spare.map Frame.bare).head?.getD (.blank c'.frameLocals)).enter arguments target =
      ((spare.head?.getD (.blank c.frameLocals)).enter arguments target).bare := by
  rw [Frame.bare_enter, hc]
  rcases spare with _ | ⟨f, rest⟩ <;> rfl

theorem share_enter (hr : s.registers = none) (c c' : Config) (hc : c'.frameLocals = 0)
    (target : Nat) (arguments : List Value) (caller : Frame) :
    (s.share l).enter c' target arguments { caller with locals := l' } =
      (s.enter c target arguments caller).map id (Progress.map (.share l')) := by
  have hdepth : s.depth = (s.share l).depth := faithful_shares.depth ⟨l, rfl⟩
  have hmax : (s.share l).calls.maxDepth = s.calls.maxDepth := rfl
  rw [enter_eq, enter_eq, share_update hr, ← hdepth, hmax]
  split_ifs
  · rfl
  · have hentered := share_entered c c' s.calls.spare arguments target hc
    simp only [Prod.map, id, Progress.map, share, hentered, List.map_tail, List.map_cons]

theorem share_leave (hr : s.registers = none) (v : Value) (f : Frame) :
    (s.share l).leave v { f with locals := l' } =
      (s.leave v f).map id (Progress.map (.share l')) := by
  have hs : (s.share l).calls.suspended = s.calls.suspended.map .bare := rfl
  rw [leave_eq, leave_eq, hs, share_update hr]
  rcases s.calls.suspended with _ | ⟨caller, rest⟩
  · rfl
  · simp [Progress.map, share, Frame.push, Frame.bare]

theorem share_invoke (hr : s.registers = none) (natives : NativeTable) (native : NativeName)
    (arguments : List Value) (f : Frame) :
    (s.invoke natives native arguments f).1 =
        ((s.share l).invoke natives native arguments { f with locals := l' }).1
      ∧ Progress.Rel Shares (s.invoke natives native arguments f).2
        ((s.share l).invoke natives native arguments { f with locals := l' }).2 := by
  unfold invoke
  rcases hv : (natives native arguments).result with e | v
  · simp only [hv]
    exact ⟨trivial, .faulted e ⟨l, rfl⟩⟩
  · simp only [hv]
    exact ⟨trivial, .running ⟨l', share_update hr (f.push v).advance⟩⟩

/-- Wherever the locals are, what is left to do is the same. -/
theorem perform_share (hr : s.registers = none) (a : Action) :
    (s.perform (m.withModel .perFrame) a).1 =
        ((s.share l).perform (m.withModel .shared) (a.withLocals l')).1
      ∧ Progress.Rel Shares (s.perform (m.withModel .perFrame) a).2
        ((s.share l).perform (m.withModel .shared) (a.withLocals l')).2 := by
  have hmap := Progress.rel_map (R := Shares) (f := .share l') fun s => ⟨l', rfl⟩
  cases a with
  | proceed f => exact ⟨rfl, .running ⟨l', share_update hr f⟩⟩
  | enter target arguments caller =>
    simp only [perform, Action.withLocals, share_enter hr (m.withModel .perFrame).config
      (m.withModel .shared).config rfl]
    exact ⟨rfl, hmap _⟩
  | invoke native arguments f => exact share_invoke hr m.natives native arguments f
  | leave v f =>
    simp only [perform, Action.withLocals, share_leave hr]
    exact ⟨rfl, hmap _⟩

theorem turn_share (hr : s.registers = none) (hcapacity : s.view.locals.capacity = l.capacity)
    (hload : ∀ i slot, s.Dispatches (m.withModel .perFrame) i → i.opcode = .load →
      i.operand = .integer slot → s.view.locals.load slot = l.load slot) :
    (s.turn (m.withModel .perFrame)).1 = ((s.share l).turn (m.withModel .shared)).1
      ∧ Progress.Rel Shares (s.turn (m.withModel .perFrame)).2
        ((s.share l).turn (m.withModel .shared)).2 := by
  refine turn_rel faithful_shares rfl rfl ⟨l, rfl⟩ fun i hd => ?_
  obtain ⟨l', hact⟩ := Frame.exists_act_withLocals (p := m.program) (i := i) hcapacity
    fun op slot operand => hload i slot hd op operand
  have hview : (s.share l).tick.view = { s.view with locals := l } := share_view hr
  have hprogram : (m.withModel .shared).program = m.program := rfl
  have hprogram' : (m.withModel .perFrame).program = m.program := rfl
  unfold execute
  rw [tick_view, hview, hprogram, hprogram', hact]
  rcases s.view.act m.program i with e | a
  · exact ⟨rfl, .faulted e ⟨l, rfl⟩⟩
  · exact perform_share (s := s.tick) hr a

end State

end FrameMachine
