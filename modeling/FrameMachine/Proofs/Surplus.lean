import FrameMachine.Proofs.Brackets
import FrameMachine.Proofs.Ending
import FrameMachine.Proofs.Lockstep
import Mathlib.Data.List.Forall2

/-!
# More code, arguments and locals

Code, arguments and locals are reached by index, and every index is checked against their number
before anything is read. So a run that no such check stops is the same run with more of them after
what is there (`advance_within`): a state with more room does in its turn what the state itself
does, as long as that does not fault for an index outside.
-/

namespace FrameMachine

/-- The faults of an index that points outside the code, the arguments or the locals. -/
def Fault.OutOfBounds : Fault → Prop
  | localIndexOutOfBounds _ | argumentIndexOutOfBounds _ | invalidJumpTarget _
  | invalidReturnAddress _ | programCounterOutOfBounds _ => True
  | _ => False

/-- The program with more code after its own. -/
def Program.append (p : Program) (code : List Instruction) : Program := ⟨p.code ++ code.toArray⟩

/-- The machine with more code after its program and `capacity` local slots. -/
def Machine.withSurplus (code : List Instruction) (capacity : Nat) (m : Machine) : Machine :=
  { m with
    program := m.program.append code
    config := { m.config with localsCapacity := capacity } }

namespace Program

variable {p : Program} {code : List Instruction} {i : Instruction} {n : Nat}

@[simp] theorem size_append (p : Program) (code : List Instruction) :
    (p.append code).size = p.size + code.length := by
  simp [append, size]

theorem fetch_append (h : p.fetch n = .ok i) : (p.append code).fetch n = .ok i := by
  unfold fetch at h ⊢
  split at h
  · rename_i j hj
    have hj' : (p.append code).get? n = some j := by
      obtain ⟨hlt, -⟩ := Array.getElem?_eq_some_iff.1 hj
      rw [get?, append, Array.getElem?_append_left hlt]
      exact hj
    rw [hj']
    exact h
  · cases h

theorem target?_append {t : Int64} (h : p.target? t = some n) :
    (p.append code).target? t = some n := by
  obtain ⟨ht, hlt⟩ := target?_eq_some_iff.1 h
  exact target?_eq_some_iff.2 ⟨ht, by rw [size_append]; omega⟩

theorem branchTarget_append (h : p.branchTarget i = .ok n) :
    (p.append code).branchTarget i = .ok n := by
  obtain ⟨t, ht, hn⟩ := branchTarget_eq_ok_iff.1 h
  exact branchTarget_eq_ok_iff.2 ⟨t, ht, target?_append hn⟩

theorem BranchFails.append {e : Fault} (h : p.BranchFails i e) (he : ¬ e.OutOfBounds) :
    (p.append code).BranchFails i e := by
  cases h with
  | operand h => exact .operand h
  | outside => exact absurd trivial he

end Program

/-- Whatever is in `l` is in `l'` too. -/
structure Locals.Within (l l' : Locals) : Prop where
  capacity : l.capacity ≤ l'.capacity
  load : ∀ {slot v}, l.load slot = .ok v → l'.load slot = .ok v

namespace Locals

variable {l l' k : Locals} {slot : Int64} {v : Value}

theorem blank_within {a b : Nat} (h : a ≤ b) : (blank a).Within (blank b) where
  capacity := by simpa using h
  load := by
    intro slot v hv
    obtain ⟨n, hn, -⟩ := load_eq_ok_iff.1 hv
    obtain ⟨w, hw⟩ : ∃ w, (blank b).load slot = .ok w := by
      refine load_of_lt (by omega) ?_
      have hlt : ¬ (((blank a).capacity : Int) ≤ slot.toInt) := fun hle => by
        rw [load_of_out (.inr hle)] at hv
        cases hv
      simp only [capacity_blank] at hlt ⊢
      omega
    rw [hw, load_blank hw, load_blank hv]

theorem Within.store (h : l.Within l') (hk : l.store slot v = .ok k) :
    ∃ k', l'.store slot v = .ok k' ∧ k.Within k' := by
  have hlt : 0 ≤ slot.toInt ∧ slot.toInt < l.capacity := by
    by_contra hout
    rw [store_of_out (by omega)] at hk
    cases hk
  have hcapacity := h.capacity
  obtain ⟨k', hk'⟩ := store_of_lt (l := l') hlt.1 (by omega) v
  refine ⟨k', hk', ?_, ?_⟩
  · rw [capacity_store hk, capacity_store hk']
    exact hcapacity
  · intro other w hw
    by_cases hslot : other = slot
    · subst hslot
      rw [load_store hk] at hw
      rw [load_store hk', hw]
    · rw [load_store_ne hk hslot] at hw
      rw [load_store_ne hk' hslot]
      exact h.load hw

end Locals

/-- The frames are the same but for more arguments and locals in `f'`. -/
structure Frame.Within (f f' : Frame) : Prop where
  stack : f.stack = f'.stack
  locals : f.locals.Within f'.locals
  arguments : f.arguments <+: f'.arguments
  pc : f.pc = f'.pc

/-- The same action of a frame with more arguments and locals. -/
inductive Action.Within : Action → Action → Prop
  | proceed {f f' : Frame} (h : f.Within f') : Within (.proceed f) (.proceed f')
  | enter {caller caller' : Frame} (target : Nat) (arguments : List Value)
      (h : caller.Within caller') :
      Within (.enter target arguments caller) (.enter target arguments caller')
  | invoke {f f' : Frame} (native : NativeName) (arguments : List Value) (h : f.Within f') :
      Within (.invoke native arguments f) (.invoke native arguments f')
  | leave {f f' : Frame} (v : Value) (h : f.Within f') : Within (.leave v f) (.leave v f')

namespace Frame

variable {p : Program} {code : List Instruction} {f f' : Frame} {i : Instruction} {a : Action}
  {e : Fault}

theorem Within.argument {index : Int64} {v : Value} (h : f.Within f')
    (hv : f.argument index = .ok v) : f'.argument index = .ok v := by
  obtain ⟨more, hmore⟩ := h.arguments
  unfold Frame.argument at hv ⊢
  rcases hp : position? index with _ | n
  · simp [hp] at hv
  simp only [hp, Option.bind_some] at hv ⊢
  rcases hn : f.arguments[n]? with _ | w
  · simp [hn] at hv
  · obtain ⟨hlt, -⟩ := List.getElem?_eq_some_iff.1 hn
    rw [hn] at hv
    rw [← hmore, List.getElem?_append_left hlt, hn]
    exact hv

theorem enter_within (h : f.locals.capacity ≤ f'.locals.capacity) (arguments : List Value)
    (target : Nat) : (f.enter arguments target).Within (f'.enter arguments target) :=
  ⟨rfl, Locals.blank_within h, List.prefix_rfl, rfl⟩

theorem Effect.within (code : List Instruction) (h : f.Effect p i a) (hf : f.Within f') :
    ∃ a', f'.Effect (p.append code) i a' ∧ a.Within a' := by
  rcases f' with ⟨stack', locals', arguments', pc'⟩
  obtain ⟨rfl, hlocals, harguments, rfl⟩ := hf
  cases h with
  | push op => exact ⟨_, .push op, .proceed ⟨rfl, hlocals, harguments, rfl⟩⟩
  | load op operand value =>
    exact ⟨_, .load op operand (hlocals.load value), .proceed ⟨rfl, hlocals, harguments, rfl⟩⟩
  | store op operand top stored =>
    obtain ⟨k', hk', hk⟩ := hlocals.store stored
    exact ⟨_, .store op operand top hk', .proceed ⟨rfl, hk, harguments, rfl⟩⟩
  | arg op operand value =>
    have hf : f.Within ⟨f.stack, locals', arguments', f.pc⟩ := ⟨rfl, hlocals, harguments, rfl⟩
    exact ⟨_, .arg op operand (hf.argument value), .proceed ⟨rfl, hlocals, harguments, rfl⟩⟩
  | jump op goal =>
    exact ⟨_, .jump op (Program.branchTarget_append goal),
      .proceed ⟨rfl, hlocals, harguments, rfl⟩⟩
  | gosub op goal =>
    exact ⟨_, .gosub op (Program.branchTarget_append goal),
      .proceed ⟨rfl, hlocals, harguments, rfl⟩⟩
  | ret op top goal =>
    exact ⟨_, .ret op top (Program.target?_append goal),
      .proceed ⟨rfl, hlocals, harguments, rfl⟩⟩
  | addDoubles op top =>
    exact ⟨_, .addDoubles op top, .proceed ⟨rfl, hlocals, harguments, rfl⟩⟩
  | call op goal top =>
    exact ⟨_, .call op (Program.branchTarget_append goal) top,
      .enter _ _ ⟨rfl, hlocals, harguments, rfl⟩⟩
  | execute op handle top =>
    exact ⟨_, .execute op handle top, .invoke _ _ ⟨rfl, hlocals, harguments, rfl⟩⟩
  | exit op top => exact ⟨_, .exit op top, .leave _ ⟨rfl, hlocals, harguments, rfl⟩⟩

/-- What fails for no index outside fails with more room too. -/
theorem Mishap.within (h : f.Mishap p i e) (he : ¬ e.OutOfBounds) (hf : f.Within f') :
    f'.Mishap (p.append code) i e := by
  rcases f' with ⟨stack', locals', arguments', pc'⟩
  obtain ⟨rfl, -, -, rfl⟩ := hf
  cases h with
  | operand op h => exact .operand op h
  | storeEmpty op operand h => exact .storeEmpty op operand h
  | target op h => exact .target op (h.append he)
  | retPop op h => exact .retPop op h
  | addShort op h => exact .addShort op h
  | addRight op top h => exact .addRight op top h
  | addLeft op top h => exact .addLeft op top h
  | call op goal h => exact .call op (Program.branchTarget_append goal) h
  | executePop op h => exact .executePop op h
  | execute op handle h => exact .execute op handle h
  | exit op h => exact .exit op h
  | load | store | arg | ret => exact absurd trivial he

end Frame

/-- The states are the same but for more arguments and locals in the frames and the register file
of `s'`. -/
structure State.Within (s s' : State) : Prop where
  active : s.calls.active.Within s'.calls.active
  suspended : List.Forall₂ Frame.Within s.calls.suspended s'.calls.suspended
  spare : List.Forall₂ Frame.Within s.calls.spare s'.calls.spare
  maxDepth : s.calls.maxDepth = s'.calls.maxDepth
  registers : Option.Rel Locals.Within s.registers s'.registers
  steps : s.steps = s'.steps
  maxFrameDepth : s.maxFrameDepth = s'.maxFrameDepth

namespace State

variable {m : Machine} {s s' : State} {f f' : Frame} {code : List Instruction} {capacity : Nat}

theorem Within.depth (h : s.Within s') : s.depth = s'.depth :=
  congrArg (· + 1) h.suspended.length_eq

theorem faithful_within : Faithful Within where
  pc h := h.active.pc
  depth h := h.depth
  steps h := h.steps
  maxFrameDepth h := h.maxFrameDepth

theorem Within.tick (h : s.Within s') : s.tick.Within s'.tick :=
  { h with steps := congrArg (· + 1) h.steps }

theorem Within.view (h : s.Within s') : s.view.Within s'.view := by
  have hregisters := h.registers
  rcases hr : s.registers with _ | l <;> rcases hr' : s'.registers with _ | l' <;>
    rw [hr, hr'] at hregisters <;> cases hregisters
  · rw [view_own hr, view_own hr']
    exact h.active
  · rename_i hl
    rw [view_shared hr, view_shared hr']
    exact { h.active with locals := hl }

theorem Within.update (h : s.Within s') (hf : f.Within f') :
    (s.update f).Within (s'.update f') := by
  have hregisters := h.registers
  rcases hr : s.registers with _ | l <;> rcases hr' : s'.registers with _ | l' <;>
    rw [hr, hr'] at hregisters <;> cases hregisters
  · rw [update_own hr, update_own hr']
    exact { h with active := hf }
  · rw [update_shared hr, update_shared hr']
    exact { h with
      active := { hf with locals := h.active.locals }
      registers := .some hf.locals }

theorem entered_within {c c' : Config} {spare spare' : List Frame}
    (hc : c.frameLocals ≤ c'.frameLocals) (h : List.Forall₂ Frame.Within spare spare')
    (arguments : List Value) (target : Nat) :
    ((spare.head?.getD (.blank c.frameLocals)).enter arguments target).Within
      ((spare'.head?.getD (.blank c'.frameLocals)).enter arguments target) := by
  refine Frame.enter_within ?_ arguments target
  cases h with
  | nil => simpa [Frame.blank] using hc
  | cons hf => exact hf.locals.capacity

theorem tail_within {spare spare' : List Frame} (h : List.Forall₂ Frame.Within spare spare') :
    List.Forall₂ Frame.Within spare.tail spare'.tail := by
  cases h with
  | nil => exact .nil
  | cons _ hrest => exact hrest

theorem Within.enter {c c' : Config} (h : s.Within s') (hc : c.frameLocals ≤ c'.frameLocals)
    (target : Nat) (arguments : List Value) (hf : f.Within f') :
    (s.enter c target arguments f).1 = (s'.enter c' target arguments f').1
      ∧ Progress.Rel Within (s.enter c target arguments f).2
        (s'.enter c' target arguments f').2 := by
  have hupdate := h.update hf
  rw [enter_eq, enter_eq, ← h.depth, ← h.maxDepth, ← h.maxFrameDepth]
  split_ifs
  · exact ⟨rfl, .faulted _ hupdate⟩
  · refine ⟨rfl, .running ?_⟩
    exact {
      active := entered_within hc h.spare arguments target
      suspended := .cons hupdate.active h.suspended
      spare := tail_within h.spare
      maxDepth := hupdate.maxDepth
      registers := hupdate.registers
      steps := hupdate.steps
      maxFrameDepth := rfl }

theorem Within.leave (h : s.Within s') (v : Value) (hf : f.Within f') :
    (s.leave v f).1 = (s'.leave v f').1
      ∧ Progress.Rel Within (s.leave v f).2 (s'.leave v f').2 := by
  have hupdate := h.update hf
  have hsuspended := h.suspended
  rw [leave_eq, leave_eq]
  rcases hs : s.calls.suspended with _ | ⟨caller, rest⟩ <;>
    rcases hs' : s'.calls.suspended with _ | ⟨caller', rest'⟩ <;>
    rw [hs, hs'] at hsuspended <;> cases hsuspended
  · exact ⟨rfl, .finished v hupdate⟩
  · rename_i hcaller hrest
    refine ⟨?_, .running ?_⟩
    · simp only [hcaller.pc, hrest.length_eq]
    · exact {
        active := { hcaller with stack := congrArg (·.push v) hcaller.stack }
        suspended := hrest
        spare := .cons hupdate.active h.spare
        maxDepth := hupdate.maxDepth
        registers := hupdate.registers
        steps := hupdate.steps
        maxFrameDepth := hupdate.maxFrameDepth }

theorem Within.invoke (h : s.Within s') (natives : NativeTable) (native : NativeName)
    (arguments : List Value) (hf : f.Within f') :
    (s.invoke natives native arguments f).1 = (s'.invoke natives native arguments f').1
      ∧ Progress.Rel Within (s.invoke natives native arguments f).2
        (s'.invoke natives native arguments f').2 := by
  unfold State.invoke
  rcases hr : (natives native arguments).result with e | v
  · simp only [hr]
    exact ⟨trivial, .faulted e h⟩
  · simp only [hr]
    refine ⟨trivial, .running (h.update ?_)⟩
    exact { hf with
      stack := congrArg (·.push v) hf.stack
      pc := congrArg (· + 1) hf.pc }

theorem frameLocals_withSurplus (code : List Instruction) (h : m.config.localsCapacity ≤ capacity) :
    m.config.frameLocals ≤ (m.withSurplus code capacity).config.frameLocals := by
  rcases hm : m.config.localsModel with _ | _
  · simp [Config.frameLocals, Machine.withSurplus, hm]
  · simpa [Config.frameLocals, Machine.withSurplus, hm] using h

theorem Within.perform {a a' : Action} (h : s.Within s')
    (hcapacity : m.config.localsCapacity ≤ capacity) (ha : a.Within a') :
    (s.perform m a).1 = (s'.perform (m.withSurplus code capacity) a').1
      ∧ Progress.Rel Within (s.perform m a).2
        (s'.perform (m.withSurplus code capacity) a').2 := by
  cases ha with
  | proceed hf => exact ⟨rfl, .running (h.update hf)⟩
  | enter target arguments hf =>
    obtain ⟨hevents, hrel⟩ :=
      h.enter (frameLocals_withSurplus code hcapacity) target arguments hf
    exact ⟨congrArg (List.map TraceEntry.own) hevents, hrel⟩
  | invoke native arguments hf => exact h.invoke m.natives native arguments hf
  | leave v hf =>
    obtain ⟨hevents, hrel⟩ := h.leave v hf
    exact ⟨congrArg (List.map TraceEntry.own) hevents, hrel⟩

theorem Within.execute {i : Instruction} (h : s.Within s')
    (hcapacity : m.config.localsCapacity ≤ capacity)
    (he : ∀ e, s.view.act m.program i = .error e → ¬ e.OutOfBounds) :
    (s.execute m i).1 = (s'.execute (m.withSurplus code capacity) i).1
      ∧ Progress.Rel Within (s.execute m i).2
        (s'.execute (m.withSurplus code capacity) i).2 := by
  unfold State.execute
  rcases hact : s.view.act m.program i with e | a
  · have hact' : s'.view.act (m.withSurplus code capacity).program i = .error e :=
      Frame.act_of_mishap ((Frame.mishap_of_act hact).within (he e hact) h.view)
    rw [hact']
    exact ⟨rfl, .faulted e h⟩
  · obtain ⟨a', heffect, ha⟩ := (Frame.effect_of_act hact).within code h.view
    have hact' : s'.view.act (m.withSurplus code capacity).program i = .ok a' :=
      Frame.act_of_effect heffect
    rw [hact']
    exact h.perform hcapacity ha

/-- A turn that does not fault for an index outside is the same turn with more room. -/
theorem Within.turn (h : s.Within s') (code : List Instruction)
    (hcapacity : m.config.localsCapacity ≤ capacity)
    (he : ∀ e u, (s.turn m).2 = .faulted e u → ¬ e.OutOfBounds) :
    (s.turn m).1 = (s'.turn (m.withSurplus code capacity)).1
      ∧ Progress.Rel Within (s.turn m).2 (s'.turn (m.withSurplus code capacity)).2 := by
  have hpc : s.pc = s'.pc := h.active.pc
  rcases turn_cases m s with ⟨e, hf⟩ | ⟨i, max, hi, hm, hle⟩ | ⟨i, hd⟩
  · obtain ⟨-, rfl⟩ := Program.fetch_eq_error_iff.1 hf
    exact absurd trivial (he _ s (congrArg Prod.snd (turn_of_fetch_error hf)))
  · have hi' : (m.withSurplus code capacity).program.fetch s'.pc = .ok i :=
      Program.fetch_append (hpc ▸ hi)
    rw [turn_of_spent hi hm hle, turn_of_spent hi' hm (h.steps ▸ hle), hpc, h.depth]
    exact ⟨rfl, .faulted _ h⟩
  · have hd' : s'.Dispatches (m.withSurplus code capacity) i :=
      ⟨Program.fetch_append (hpc ▸ hd.1), h.steps ▸ hd.2⟩
    exact turn_rel_of_dispatches faithful_within h hd hd'
      (h.tick.execute hcapacity fun e ha => he e _ (turn_of_act_error hd ha))

end State

namespace Machine

variable {m : Machine} {s s' : State} {arguments : List Value} {n : Nat}
  {code : List Instruction} {capacity : Nat}

theorem advance_within (code : List Instruction) (n : Nat) {p p' : Progress}
    (h : Progress.Rel State.Within p p')
    (hcapacity : m.config.localsCapacity ≤ capacity)
    (he : ∀ e u, (m.advance n p).2 = .faulted e u → ¬ e.OutOfBounds) :
    (m.advance n p).1 = ((m.withSurplus code capacity).advance n p').1
      ∧ Progress.Rel State.Within (m.advance n p).2
        ((m.withSurplus code capacity).advance n p').2 := by
  induction n generalizing p p' with
  | zero => simpa using h
  | succ n ih =>
    cases h with
    | @running s s' hs =>
      simp only [advance] at he ⊢
      have hturn := hs.turn code hcapacity fun e u hf =>
        he e u (by rw [hf]; cases n <;> rfl)
      obtain ⟨hrest, hrel⟩ := ih hturn.2 he
      exact ⟨by rw [hturn.1, hrest], hrel⟩
    | finished v hs => exact ⟨rfl, .finished v hs⟩
    | faulted e hs => exact ⟨rfl, .faulted e hs⟩
    | refused e => exact ⟨rfl, .refused e⟩

theorem start_within (code : List Instruction) (hcapacity : m.config.localsCapacity ≤ capacity)
    (arguments more : List Value) :
    (State.start m.config arguments).Within
      (.start (m.withSurplus code capacity).config (arguments ++ more)) where
  active := ⟨rfl, Locals.blank_within (State.frameLocals_withSurplus code hcapacity),
    List.prefix_append arguments more, rfl⟩
  suspended := .nil
  spare := .nil
  maxDepth := rfl
  registers := by
    rcases hm : m.config.localsModel with _ | _ <;>
      simp only [State.start, Config.newRegisters, withSurplus, hm]
    · exact .some (Locals.blank_within hcapacity)
    · exact .none
  steps := rfl
  maxFrameDepth := rfl

/-- Both runs begin alike: there is something to run, or nothing in either. -/
theorem begin_within (code : List Instruction) (hcapacity : m.config.localsCapacity ≤ capacity)
    (hempty : (m.begin arguments).2 = .refused .emptyProgram → code = []) (more : List Value) :
    ∃ events,
      (m.begin arguments).1 = .own (.entered m.program.size arguments.length) :: events
      ∧ ((m.withSurplus code capacity).begin (arguments ++ more)).1 =
        .own (.entered (m.program.size + code.length) (arguments.length + more.length)) :: events
      ∧ Progress.Rel State.Within (m.begin arguments).2
        ((m.withSurplus code capacity).begin (arguments ++ more)).2 := by
  have hsize : (m.withSurplus code capacity).program.size = m.program.size + code.length :=
    Program.size_append ..
  have hvalid : (m.withSurplus code capacity).config.validate = m.config.validate := rfl
  unfold begin at hempty ⊢
  rw [hvalid, hsize, List.length_append]
  rcases hv : m.config.validate with e | _ <;> simp only [hv] at hempty ⊢
  · exact ⟨[], rfl, rfl, .refused e⟩
  by_cases hnone : m.program.isEmpty
  · obtain rfl := hempty (by simp only [if_pos hnone])
    have hnone' : (m.withSurplus [] capacity).program.isEmpty := by
      simpa [withSurplus, Program.append] using hnone
    simp only [if_pos hnone, if_pos hnone']
    exact ⟨_, rfl, rfl, .refused _⟩
  · have hsome : ¬ (m.withSurplus code capacity).program.isEmpty := by
      simp only [Program.isEmpty, Array.isEmpty_iff_size_eq_zero] at hnone ⊢
      change ¬ (m.withSurplus code capacity).program.size = 0
      change ¬ m.program.size = 0 at hnone
      omega
    simp only [if_neg hnone, if_neg hsome]
    exact ⟨[], rfl, rfl, .running (start_within code hcapacity arguments more)⟩

/-- Surplus code, arguments and locals are invisible. Append instructions to the program and values
to the arguments, and give the run more local slots: if it does not fault for an index outside, it
ends the same, with the same counters, and reports the same but for the two numbers in its first
event. Only a run that is refused for want of any code needs that no code is appended. -/
theorem surplus_unseen (code : List Instruction) (more : List Value)
    (hcapacity : m.config.localsCapacity ≤ capacity)
    (hempty : (m.run n arguments).2 = .refused .emptyProgram → code = [])
    (hbounds : ∀ e, (m.run n arguments).2.result? = some (.error e) → ¬ e.OutOfBounds) :
    ((m.withSurplus code capacity).run n (arguments ++ more)).2.result? =
        (m.run n arguments).2.result?
    ∧ ((m.withSurplus code capacity).run n (arguments ++ more)).2.steps =
        (m.run n arguments).2.steps
    ∧ ((m.withSurplus code capacity).run n (arguments ++ more)).2.maxFrameDepth =
        (m.run n arguments).2.maxFrameDepth
    ∧ ∃ events,
      (m.run n arguments).1 = .own (.entered m.program.size arguments.length) :: events
      ∧ ((m.withSurplus code capacity).run n (arguments ++ more)).1 =
        .own (.entered (m.program.size + code.length) (arguments.length + more.length)) ::
          events := by
  have hfirst : (m.begin arguments).2 = .refused .emptyProgram → code = [] := by
    intro hr
    refine hempty ?_
    simp only [run, hr]
    cases n <;> rfl
  obtain ⟨opening, hopening, hopening', hbegin⟩ := begin_within code hcapacity hfirst more
  obtain ⟨hrest, hrel⟩ := advance_within code n hbegin hcapacity fun e u hf =>
    hbounds e (by simp only [run, hf, Progress.result?])
  refine ⟨(hrel.result?_eq State.faithful_within).symm,
    (hrel.counters_eq State.faithful_within).1.symm,
    (hrel.counters_eq State.faithful_within).2.symm,
    opening ++ (m.advance n (m.begin arguments).2).1, ?_, ?_⟩
  · simp only [run, hopening, List.cons_append]
  · simp only [run, hopening', hrest, List.cons_append]

/-- Its call and its exit do not see the code after `echo`, a spare argument or more slots. -/
theorem echo_with_surplus :
    ((echo.withSurplus [⟨.jump, .integer 9⟩] 300).run 7 [.null]).2.result? =
        some (.ok ⟨.integer 5, 7, 2⟩)
      ∧ ((echo.withSurplus [⟨.jump, .integer 9⟩] 300).run 7 [.null]).2.maxFrameDepth = 2 := by
  have hruns : (echo.run 7 []).2.result? = some (.ok ⟨.integer 5, 7, 2⟩) := rfl
  have hcapacity : echo.config.localsCapacity ≤ 300 := by decide
  have hstarts : (echo.run 7 []).2 ≠ .refused .emptyProgram := by
    intro h
    rw [h] at hruns
    cases hruns
  have hbounds : ∀ e, (echo.run 7 []).2.result? = some (.error e) → ¬ e.OutOfBounds := by
    rw [hruns]
    nofun
  obtain ⟨hresult, -, hdepth, -⟩ :=
    surplus_unseen [⟨.jump, .integer 9⟩] [.null] hcapacity (fun h => absurd h hstarts)
      hbounds
  exact ⟨hresult, hdepth⟩

/-- Code appended to none at all is seen: there was nothing to run, and now there is. -/
theorem surplus_seen_by_empty_program :
    ¬ ∀ (m : Machine) (arguments more : List Value) (code : List Instruction)
      (capacity n : Nat) (r : Except Fault Report),
      m.config.localsCapacity ≤ capacity → (m.run n arguments).2.result? = some r →
      (∀ e, r = .error e → ¬ e.OutOfBounds) →
      ((m.withSurplus code capacity).run n (arguments ++ more)).2.result? = some r := by
  intro h
  let empty : Machine := { program := {}, natives := echo.natives }
  let code : List Instruction := [⟨.push, .integer 1⟩, ⟨.exit, .null⟩]
  have hempty : (empty.run 2 []).2.result? = some (.error .emptyProgram) := rfl
  have hruns : ((empty.withSurplus code 256).run 2 ([] ++ [])).2.result? =
      some (.ok ⟨.integer 1, 2, 1⟩) := rfl
  have hsame := h empty [] [] code 256 2 _ (Nat.le_refl _) hempty (by rintro e ⟨⟩; exact id)
  rw [hruns] at hsame
  cases hsame

end Machine

end FrameMachine
