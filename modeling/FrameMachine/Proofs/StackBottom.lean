import FrameMachine.Proofs.Ending
import FrameMachine.Proofs.FreshFrames
import FrameMachine.Proofs.Lockstep
import FrameMachine.Proofs.Shape

/-!
# Values beneath a stack

Instructions reach their stacks from the top, and the checks on counts ask only that enough be
there. So values put beneath all that a frame has do not matter till the frame is short of some: a
turn is the same turn with them still there (`turn_onto`), and the exit of the frame takes them
along, to a spent frame that nobody sees (`turn_onto_of_leaves`). Over a run the two cases follow
each other once (`apart_advance`).
-/

namespace FrameMachine

/-- A fault that more values on a stack might have averted. -/
def Fault.Shortage : Fault → Prop
  | stackUnderflow | argumentCountMismatch .. => True
  | _ => False

namespace OperandStack

/-- The stack with `bottom` beneath its values. -/
def onto (bottom : List Value) (s : OperandStack) : OperandStack := ⟨s.values ++ bottom.reverse⟩

variable {bottom arguments : List Value} {s rest : OperandStack} {e : Fault} {reserved : Nat}

@[simp] theorem toList_onto (bottom : List Value) (s : OperandStack) :
    (s.onto bottom).toList = bottom ++ s.toList := by
  simp [onto, toList]

@[simp] theorem depth_onto (bottom : List Value) (s : OperandStack) :
    (s.onto bottom).depth = s.depth + bottom.length := by
  simp [onto, depth]

@[simp] theorem onto_nil (s : OperandStack) : s.onto [] = s := by
  simp [onto]

theorem onto_push (bottom : List Value) (s : OperandStack) (v : Value) :
    (s.push v).onto bottom = (s.onto bottom).push v := rfl

theorem popArguments_onto (h : s.popArguments reserved = .ok (arguments, rest)) :
    (s.onto bottom).popArguments reserved = .ok (arguments, rest.onto bottom) := by
  obtain ⟨n, hs, hn, hle⟩ := popArguments_eq_ok_iff.1 h
  refine popArguments_eq_ok_iff.2 ⟨n, by simp [hs], hn, ?_⟩
  rw [depth_onto]
  omega

theorem PopFails.onto {expected : Kind} (h : s.PopFails expected e) (he : ¬ e.Shortage) :
    (s.onto bottom).PopFails expected e := by
  cases h with
  | empty => exact absurd trivial he
  | mismatch top h => exact .mismatch (top ▸ onto_push _ _ _) h

theorem CountFails.onto (h : s.CountFails reserved e) (he : ¬ e.Shortage) :
    (s.onto bottom).CountFails reserved e := by
  cases h with
  | pop h => exact .pop (h.onto he)
  | negative top h => exact .negative (top ▸ onto_push _ _ _) h
  | short => exact absurd trivial he

end OperandStack

namespace Frame

/-- The frame with `bottom` beneath the values on its stack. -/
def onto (bottom : List Value) (f : Frame) : Frame := { f with stack := f.stack.onto bottom }

@[simp] theorem onto_nil (f : Frame) : f.onto [] = f := by
  simp [onto]

@[simp] theorem onto_pc (bottom : List Value) (f : Frame) : (f.onto bottom).pc = f.pc := rfl

@[simp] theorem push_onto (bottom : List Value) (f : Frame) (v : Value) :
    (f.onto bottom).push v = (f.push v).onto bottom := rfl

end Frame

/-- The same action of a frame with `bottom` beneath its values. -/
def Action.onto (bottom : List Value) : Action → Action
  | proceed f => .proceed (f.onto bottom)
  | enter target arguments caller => .enter target arguments (caller.onto bottom)
  | invoke native arguments f => .invoke native arguments (f.onto bottom)
  | leave v f => .leave v (f.onto bottom)

namespace Frame

variable {p : Program} {f : Frame} {i : Instruction} {a : Action} {e : Fault}
  {bottom : List Value}

theorem Effect.onto (h : f.Effect p i a) : (f.onto bottom).Effect p i (a.onto bottom) := by
  cases h with
  | push op => exact .push op
  | load op operand value => exact .load op operand value
  | store op operand top stored =>
    exact .store op operand (congrArg (OperandStack.onto bottom) top) stored
  | arg op operand value => exact .arg op operand value
  | jump op goal => exact .jump op goal
  | gosub op goal => exact .gosub op goal
  | ret op top goal => exact .ret op (congrArg (OperandStack.onto bottom) top) goal
  | addDoubles op top => exact .addDoubles op (congrArg (OperandStack.onto bottom) top)
  | call op goal top => exact .call op goal (OperandStack.popArguments_onto top)
  | execute op handle top =>
    exact .execute op (congrArg (OperandStack.onto bottom) handle)
      (OperandStack.popArguments_onto top)
  | exit op top => exact .exit op (congrArg (OperandStack.onto bottom) top)

/-- What fails by the top of a stack fails whatever is beneath. -/
theorem Mishap.onto (h : f.Mishap p i e) (he : ¬ e.Shortage) : (f.onto bottom).Mishap p i e := by
  cases h with
  | operand op h => exact .operand op h
  | load op operand h => exact .load op operand h
  | store op operand top h => exact .store op operand (congrArg (OperandStack.onto bottom) top) h
  | arg op operand h => exact .arg op operand h
  | target op h => exact .target op h
  | retPop op h => exact .retPop op (h.onto he)
  | ret op top h => exact .ret op (congrArg (OperandStack.onto bottom) top) h
  | addRight op top h => exact .addRight op (congrArg (OperandStack.onto bottom) top) h
  | addLeft op top h => exact .addLeft op (congrArg (OperandStack.onto bottom) top) h
  | call op goal h => exact .call op goal (h.onto he)
  | executePop op h => exact .executePop op (h.onto he)
  | execute op handle h =>
    exact .execute op (congrArg (OperandStack.onto bottom) handle) (h.onto he)
  | storeEmpty | addShort | exit => exact absurd trivial he

theorem act_onto (h : ∀ e, f.act p i = .error e → ¬ e.Shortage) :
    (f.onto bottom).act p i = (f.act p i).map (Action.onto bottom) := by
  rcases ha : f.act p i with e | a
  · exact act_of_mishap ((mishap_of_act ha).onto (h e ha))
  · exact act_of_effect (effect_of_act ha).onto

end Frame

/-- What goes beneath a frame at depth `depth` when `bottom` goes beneath the one at depth `d`. -/
def beneath (d : Nat) (bottom : List Value) (depth : Nat) : List Value :=
  if depth = d then bottom else []

/-- The frames, the topmost first, with `bottom` beneath the values of the one at depth `d`. -/
def raise (d : Nat) (bottom : List Value) : List Frame → List Frame
  | [] => []
  | f :: below => f.onto (beneath d bottom (below.length + 1)) :: raise d bottom below

/-- The state with `bottom` beneath the values of the live frame at depth `d`. -/
def State.onto (d : Nat) (bottom : List Value) (s : State) : State :=
  { s with
    calls :=
      { s.calls with
        active := s.calls.active.onto (beneath d bottom s.depth)
        suspended := raise d bottom s.calls.suspended } }

section Raise

variable {d depth : Nat} {bottom : List Value} {frames above below : List Frame} {f : Frame}

@[simp] theorem beneath_self : beneath d bottom d = bottom := if_pos rfl

theorem beneath_of_ne (h : depth ≠ d) : beneath d bottom depth = [] := if_neg h

@[simp] theorem length_raise : (raise d bottom frames).length = frames.length := by
  induction frames with
  | nil => rfl
  | cons f below ih => simp [raise, ih]

theorem raise_of_length_lt (h : frames.length < d) : raise d bottom frames = frames := by
  induction frames with
  | nil => rfl
  | cons f below ih =>
    rw [List.length_cons] at h
    rw [raise, ih (by omega), beneath_of_ne (by omega), Frame.onto_nil]

/-- One frame gets values beneath its own, and no other. -/
theorem raise_append : raise (below.length + 1) bottom (above ++ f :: below) =
    above ++ f.onto bottom :: below := by
  induction above with
  | nil =>
    rw [List.nil_append, List.nil_append, raise, raise_of_length_lt (Nat.lt_succ_self _),
      beneath_self]
  | cons g above ih =>
    rw [List.cons_append, raise, ih, beneath_of_ne ?_, Frame.onto_nil, List.cons_append]
    simp only [List.length_append, List.length_cons]
    omega

end Raise

theorem faithful_forget : Faithful fun s s' => s'.forget = s.forget where
  pc h := congrArg (·.active.pc) h.symm
  depth h := congrArg Fresh.State.depth h.symm
  steps h := congrArg Fresh.State.steps h.symm
  maxFrameDepth h := congrArg Fresh.State.maxFrameDepth h.symm

theorem Progress.rel_of_forget {p p' : Progress} (h : p'.forget = p.forget) :
    Rel (fun s s' => s'.forget = s.forget) p p' := by
  cases p <;> cases p' <;> simp only [forget, Fresh.Progress.running.injEq,
    Fresh.Progress.finished.injEq, Fresh.Progress.faulted.injEq, Fresh.Progress.refused.injEq,
    reduceCtorEq] at h
  · exact .running h
  · obtain ⟨rfl, h⟩ := h
    exact .finished _ h
  · obtain ⟨rfl, h⟩ := h
    exact .faulted _ h
  · exact h ▸ .refused _

namespace State

variable {m : Machine} {s t : State} {i : Instruction} {d : Nat} {bottom : List Value}

theorem live_onto (d : Nat) (bottom : List Value) (s : State) :
    (s.onto d bottom).calls.live = raise d bottom s.calls.live := rfl

@[simp] theorem onto_depth (d : Nat) (bottom : List Value) (s : State) :
    (s.onto d bottom).depth = s.depth := by
  simp [onto, depth, CallStack.depth]

theorem onto_view (d : Nat) (bottom : List Value) (s : State) :
    (s.onto d bottom).view = s.view.onto (beneath d bottom s.depth) := by
  rcases hr : s.registers with _ | locals
  · rw [view_own hr, view_own (s := s.onto d bottom) hr]
    rfl
  · rw [view_shared hr, view_shared (s := s.onto d bottom) hr]
    rfl

theorem onto_update (d : Nat) (bottom : List Value) (s : State) (f : Frame) :
    (s.onto d bottom).update (f.onto (beneath d bottom s.depth)) =
      (s.update f).onto d bottom := by
  rcases hr : s.registers with _ | locals
  · rw [update_own hr, update_own (s := s.onto d bottom) hr]
    rfl
  · rw [update_shared hr, update_shared (s := s.onto d bottom) hr]
    rfl

theorem faithful_onto (d : Nat) (bottom : List Value) :
    Faithful fun s s' => s' = s.onto d bottom where
  pc := by rintro s _ rfl; rfl
  depth := by rintro s _ rfl; exact (s.onto_depth d bottom).symm
  steps := by rintro s _ rfl; rfl
  maxFrameDepth := by rintro s _ rfl; rfl

theorem sized_onto {c : Config} (d : Nat) (bottom : List Value) (h : s.Sized c) :
    (s.onto d bottom).Sized c where
  live := by
    rw [live_onto]
    have hlive := h.live
    generalize s.calls.live = frames at hlive
    induction frames with
    | nil => nofun
    | cons f below ih =>
      rw [List.forall_mem_cons] at hlive
      exact List.forall_mem_cons.2 ⟨hlive.1, ih hlive.2⟩
  spare := h.spare
  registers := h.registers
  maxDepth := h.maxDepth

theorem enter_onto (hd : d ≤ s.depth) (c : Config) (target : Nat) (arguments : List Value)
    (caller : Frame) :
    (s.onto d bottom).enter c target arguments (caller.onto (beneath d bottom s.depth)) =
      (s.enter c target arguments caller).map id (Progress.map (.onto d bottom)) := by
  have hmax : (s.onto d bottom).calls.maxDepth = s.calls.maxDepth := rfl
  have hne : s.depth + 1 ≠ d := by omega
  rw [enter_eq, enter_eq, onto_update, onto_depth, hmax]
  split_ifs
  · rfl
  -- the callee is above all frames that were live, so nothing goes beneath it
  · have hcallee (g : Frame) : g.onto (beneath d bottom (s.calls.suspended.length + 2)) = g := by
      rw [beneath_of_ne (by exact hne), Frame.onto_nil]
    simp [Progress.map, onto, depth, CallStack.depth, raise, hcallee]

theorem leave_onto (hd : s.depth ≠ d ∨ s.calls.suspended = []) (v : Value) (f : Frame) :
    (s.onto d bottom).leave v (f.onto (beneath d bottom s.depth)) =
      (s.leave v f).map id (Progress.map (.onto d bottom)) := by
  have hsuspended : (s.onto d bottom).calls.suspended = raise d bottom s.calls.suspended := rfl
  rw [leave_eq, leave_eq, onto_update, hsuspended]
  rcases hs : s.calls.suspended with _ | ⟨caller, rest⟩
  · rfl
  · have hne : s.depth ≠ d := hd.resolve_right (by simp [hs])
    have hspent (g : Frame) : g.onto (beneath d bottom (rest.length + 2)) = g := by
      have hlen : s.depth = rest.length + 2 := by simp [depth, CallStack.depth, hs]
      rw [beneath_of_ne (hlen ▸ hne), Frame.onto_nil]
    simp [Progress.map, onto, depth, CallStack.depth, raise, hs, hspent]

/-- The exit of the frame itself takes what is beneath along. -/
theorem leave_onto_own {caller : Frame} {rest : List Frame} (hd : s.depth = d)
    (hs : s.calls.suspended = caller :: rest) (v : Value) (f : Frame) :
    ((s.onto d bottom).leave v (f.onto bottom)).map id Progress.forget =
      (s.leave v f).map id Progress.forget := by
  have hsuspended : (s.onto d bottom).calls.suspended = caller :: rest := by
    rw [← hs]
    exact raise_of_length_lt (hd ▸ Nat.lt_succ_self _)
  have hupdate : (s.onto d bottom).update (f.onto bottom) = (s.update f).onto d bottom := by
    rw [← onto_update, hd, beneath_self]
  simp only [leave_eq, hsuspended, hs, hupdate]
  rfl

theorem invoke_onto (natives : NativeTable) (native : NativeName) (arguments : List Value)
    (f : Frame) :
    (s.onto d bottom).invoke natives native arguments (f.onto (beneath d bottom s.depth)) =
      (s.invoke natives native arguments f).map id (Progress.map (.onto d bottom)) := by
  unfold invoke
  rcases hr : (natives native arguments).result with e | v
  · simp only [hr]
    rfl
  · have hupdate := onto_update d bottom s (f.push v).advance
    simp only [hr, Prod.map, Progress.map, ← hupdate]
    rfl

theorem perform_onto (hd : d ≤ s.depth) (a : Action)
    (hleave : ∀ v f, a = .leave v f → s.depth ≠ d ∨ s.calls.suspended = []) :
    (s.onto d bottom).perform m (a.onto (beneath d bottom s.depth)) =
      (s.perform m a).map id (Progress.map (.onto d bottom)) := by
  cases a with
  | proceed f =>
    simp only [Action.onto, perform, onto_update]
    rfl
  | enter target arguments caller =>
    simp only [Action.onto, perform, enter_onto hd]
    rfl
  | invoke native arguments f => exact invoke_onto m.natives native arguments f
  | leave v f =>
    simp only [Action.onto, perform, leave_onto (hleave v f rfl)]
    rfl

theorem execute_onto (hd : d ≤ s.depth) (i : Instruction)
    (herror : ∀ e, s.view.act m.program i = .error e → ¬ e.Shortage)
    (hleave : ∀ v f, s.view.act m.program i = .ok (.leave v f) →
      s.depth ≠ d ∨ s.calls.suspended = []) :
    (s.onto d bottom).execute m i =
      (s.execute m i).map id (Progress.map (.onto d bottom)) := by
  unfold execute
  rw [onto_view, Frame.act_onto herror]
  rcases ha : s.view.act m.program i with e | a
  · rfl
  · exact perform_onto hd a fun v f h => hleave v f (h ▸ ha)

theorem execute_onto_own {caller : Frame} {rest : List Frame} {v : Value} {f : Frame}
    (hd : s.depth = d) (hs : s.calls.suspended = caller :: rest)
    (ha : s.view.act m.program i = .ok (.leave v f)) :
    ((s.onto d bottom).execute m i).map id Progress.forget =
      (s.execute m i).map id Progress.forget := by
  have herror : ∀ e, s.view.act m.program i = .error e → ¬ e.Shortage := by simp [ha]
  obtain ⟨htrace, hforget⟩ := Prod.ext_iff.1 (leave_onto_own hd hs v f)
  unfold execute
  rw [onto_view, hd, beneath_self, Frame.act_onto herror, ha]
  exact Prod.ext (congrArg (List.map TraceEntry.own) htrace) hforget

theorem running_of_leave {v : Value} {f : Frame} (hi : s.Dispatches m i)
    (ha : s.view.act m.program i = .ok (.leave v f)) (hs : s.calls.suspended ≠ []) :
    s.Leaves m s.depth ∧ ∃ t, (s.turn m).2 = .running t := by
  cases Frame.effect_of_act ha with
  | exit op top =>
    rw [view_stack] at top
    refine ⟨⟨rfl, i, hi.1, op⟩, ?_⟩
    obtain ⟨caller, rest, hs⟩ := List.exists_cons_of_ne_nil hs
    exact ⟨_, turn_eq_running_iff.2 ⟨i, hi, .leave op top hs⟩⟩

/-- While the frame stays, what is beneath its values stays and nothing else tells. -/
theorem turn_onto (bottom : List Value) (hd : d ≤ s.depth)
    (hshort : ∀ e u, (s.turn m).2 = .faulted e u → ¬ e.Shortage)
    (hstays : ∀ t, (s.turn m).2 = .running t → ¬ s.Leaves m d) :
    (s.onto d bottom).turn m = (s.turn m).map id (Progress.map (.onto d bottom)) := by
  have hexecute : ∀ i, s.Dispatches m i → (s.onto d bottom).tick.execute m i =
      (s.tick.execute m i).map id (Progress.map (.onto d bottom)) := by
    intro i hi
    refine execute_onto (s := s.tick) hd i (fun e he => hshort e _ (turn_of_act_error hi he)) ?_
    intro v f ha
    by_contra! hleave
    obtain ⟨hl, t, ht⟩ := running_of_leave hi ha hleave.2
    exact hstays t ht (hleave.1 ▸ hl)
  obtain ⟨htrace, hrel⟩ := turn_rel (m := m) (s := s) (faithful_onto d bottom) rfl rfl rfl
    fun i hi => by
      rw [hexecute i hi]
      exact ⟨rfl, Progress.rel_map (R := fun s s' => s' = s.onto d bottom) (fun _ => rfl) _⟩
  exact Prod.ext htrace.symm hrel.eq_map

/-- When the frame leaves, nothing of the difference is left but in the spent frame. -/
theorem turn_onto_of_leaves (hx : s.Leaves m d) (ht : (s.turn m).2 = .running t) :
    ((s.onto d bottom).turn m).map id Progress.forget = (s.turn m).map id Progress.forget := by
  obtain ⟨hdepth, i, hf, op⟩ := hx
  obtain ⟨j, hi, hs⟩ := turn_eq_running_iff.1 ht
  obtain rfl : i = j := hi.eq_of_fetch hf
  have hi' : (s.onto d bottom).Dispatches m i := hi
  cases hs with
  | proceed effect => exact absurd op effect.opcode_of_proceed.2.2
  | invoke op' => simp [op] at op'
  | enter op' => simp [op] at op'
  | @leave v stack caller rest _ top callers =>
    rw [← view_stack] at top
    have hexecute : ((s.onto d bottom).tick.execute m i).map id Progress.forget =
        (s.tick.execute m i).map id Progress.forget :=
      execute_onto_own (s := s.tick) hdepth callers (Frame.act_of_effect (.exit op top))
    have htrace : ((s.onto d bottom).tick.execute m i).1 = (s.tick.execute m i).1 :=
      (Prod.ext_iff.1 hexecute).1
    have hforget : ((s.onto d bottom).tick.execute m i).2.forget = (s.tick.execute m i).2.forget :=
      (Prod.ext_iff.1 hexecute).2
    have hclosing : ((s.onto d bottom).tick.execute m i).2.closing =
        (s.tick.execute m i).2.closing := by
      rw [← closing_forget, hforget, closing_forget]
    rw [turn_eq_of_dispatches hi, turn_eq_of_dispatches hi', onto_depth]
    refine Prod.ext ?_ hforget
    simp only [Prod.map, htrace, hclosing]
    rfl

end State

namespace Machine

variable {m : Machine} {s : State} {arguments : List Value} {d k n : Nat} {bottom : List Value}

/-- What `n` turns make of a state with `bottom` beneath the values of its frame at depth `d`,
against what they make of the state itself: the frame is there and has `bottom` beneath its values
still, or it has left and only the spent frames tell. -/
structure Apart (m : Machine) (d : Nat) (bottom : List Value) (n : Nat) (s : State) : Prop where
  trace : (m.advance n (.running (s.onto d bottom))).1 = (m.advance n (.running s)).1
  progress :
    (m.advance n (.running (s.onto d bottom))).2 =
      (m.advance n (.running s)).2.map (.onto d bottom)
    ∨ (m.advance n (.running (s.onto d bottom))).2.forget = (m.advance n (.running s)).2.forget
      ∧ ¬ m.Retains d n s

theorem forget_advance_of_turn {t : State} (n : Nat) (hs : s.Sized m.config)
    (ht : t.Sized m.config)
    (h : (t.turn m).map id Progress.forget = (s.turn m).map id Progress.forget) :
    (m.advance (n + 1) (.running t)).map id Progress.forget =
      (m.advance (n + 1) (.running s)).map id Progress.forget := by
  rw [forget_advance _ hs, forget_advance _ ht]
  simp only [Fresh.advance]
  rw [← forget_turn hs, ← forget_turn ht, h]

theorem Apart.of_turn {t : State} (h : m.Apart d bottom n t) (ht : (s.turn m).2 = .running t)
    (hturn : (s.onto d bottom).turn m = (s.turn m).map id (Progress.map (.onto d bottom))) :
    m.Apart d bottom (n + 1) s := by
  have ht' : ((s.onto d bottom).turn m).2 = .running (t.onto d bottom) := by
    rw [hturn, Prod.map, ht]
    rfl
  have htrace : ((s.onto d bottom).turn m).1 = (s.turn m).1 := by rw [hturn]; rfl
  constructor
  · rw [advance_of_turn n ht, advance_of_turn n ht', htrace, h.trace]
  · rw [advance_of_turn n ht, advance_of_turn n ht']
    exact h.progress.imp_right fun ⟨hforget, hleft⟩ => ⟨hforget, fun hr => hleft (hr.turn ht)⟩

theorem apart_of_ended (hend : ∀ t, (s.turn m).2 ≠ .running t)
    (hturn : (s.onto d bottom).turn m = (s.turn m).map id (Progress.map (.onto d bottom))) :
    m.Apart d bottom (n + 1) s := by
  have hend' : ∀ t, ((s.onto d bottom).turn m).2 ≠ .running t := by
    intro t ht
    rw [hturn] at ht
    rcases hp : (s.turn m).2 with u | _ | _ | _
    · exact hend u hp
    all_goals simp [hp, Progress.map] at ht
  constructor
  · rw [advance_of_ended n hend, advance_of_ended n hend', hturn]
    rfl
  · rw [advance_of_ended n hend, advance_of_ended n hend', hturn]
    exact .inl rfl

theorem apart_advance (hs : s.Sized m.config) (hd : d ≤ s.depth)
    (hshort : ∀ e u, (m.advance n (.running s)).2 = .faulted e u → ¬ e.Shortage) :
    m.Apart d bottom n s := by
  induction n generalizing s with
  | zero => exact ⟨by simp, .inl (by simp [Progress.map])⟩
  | succ n ih =>
    by_cases hleft : s.Leaves m d ∧ ∃ t, (s.turn m).2 = .running t
    -- once the frame has left, both runs are one run without spares, however long
    · obtain ⟨hx, t, ht⟩ := hleft
      have hrun := forget_advance_of_turn n hs (State.sized_onto d bottom hs)
        (State.turn_onto_of_leaves hx ht)
      refine ⟨(Prod.ext_iff.1 hrun).1, .inr ⟨(Prod.ext_iff.1 hrun).2, ?_⟩⟩
      exact fun hr => hr 0 (Nat.succ_pos n) s (goes_zero.2 rfl) hx
    have hstays : ∀ t, (s.turn m).2 = .running t → ¬ s.Leaves m d :=
      fun t ht hx => hleft ⟨hx, t, ht⟩
    by_cases hend : ∃ t, (s.turn m).2 = .running t
    · obtain ⟨t, ht⟩ := hend
      have hg : m.Goes 1 s t := by rw [Goes, advance_one, ht]
      have hr : m.Retains d 1 s := by
        intro k hk u hu
        obtain rfl : k = 0 := by omega
        exact goes_zero.1 hu ▸ hstays t ht
      rw [advance_of_turn n ht] at hshort
      exact (ih (hs.goes hg) (depth_of_goes hg hr hd) hshort).of_turn ht
        (State.turn_onto bottom hd (by simp [ht]) hstays)
    · rw [not_exists] at hend
      rw [advance_of_ended n hend] at hshort
      exact apart_of_ended hend (State.turn_onto bottom hd hshort hstays)

theorem same_of_rel {R : State → State → Prop} {p p' : Progress} (h : Progress.Rel R p p')
    (hR : Faithful R) :
    p'.result? = p.result? ∧ p'.steps = p.steps ∧ p'.maxFrameDepth = p.maxFrameDepth :=
  ⟨(h.result?_eq hR).symm, (h.counters_eq hR).1.symm, (h.counters_eq hR).2.symm⟩

theorem Apart.same (h : m.Apart d bottom n s) :
    (m.advance n (.running (s.onto d bottom))).2.result? = (m.advance n (.running s)).2.result?
      ∧ (m.advance n (.running (s.onto d bottom))).2.steps = (m.advance n (.running s)).2.steps
      ∧ (m.advance n (.running (s.onto d bottom))).2.maxFrameDepth =
        (m.advance n (.running s)).2.maxFrameDepth := by
  rcases h.progress with hmap | ⟨hforget, -⟩
  · rw [hmap]
    exact same_of_rel (Progress.rel_map (R := fun s s' => s' = s.onto d bottom) (fun _ => rfl) _)
      (State.faithful_onto d bottom)
  · exact same_of_rel (Progress.rel_of_forget hforget) faithful_forget

/-- Nothing depends on how high a stack is, or on what is at its bottom. Put values beneath those of
a live frame, in any state of a run, and go on: if the run is not cut short by the lack of values,
it reports the same and ends the same, with the same counters. Till the frame's own exit the values
beneath its own are all the difference there is; afterwards it is in the spent frames. -/
theorem stack_bottom_unseen {above below : List Frame} {f : Frame} (h : m.At arguments k s)
    (hl : s.calls.live = above ++ f :: below) (bottom : List Value)
    (hshort : ∀ e u, (m.advance n (.running s)).2 = .faulted e u → ¬ e.Shortage) :
    (s.onto (below.length + 1) bottom).calls.live = above ++ f.onto bottom :: below
    ∧ (m.advance n (.running (s.onto (below.length + 1) bottom))).1 =
      (m.advance n (.running s)).1
    ∧ (m.advance n (.running (s.onto (below.length + 1) bottom))).2.result? =
      (m.advance n (.running s)).2.result?
    ∧ (m.advance n (.running (s.onto (below.length + 1) bottom))).2.steps =
      (m.advance n (.running s)).2.steps
    ∧ (m.advance n (.running (s.onto (below.length + 1) bottom))).2.maxFrameDepth =
      (m.advance n (.running s)).2.maxFrameDepth
    ∧ (m.Retains (below.length + 1) n s →
      (m.advance n (.running (s.onto (below.length + 1) bottom))).2 =
        (m.advance n (.running s)).2.map (.onto (below.length + 1) bottom))
    ∧ ((m.advance n (.running (s.onto (below.length + 1) bottom))).2 =
        (m.advance n (.running s)).2.map (.onto (below.length + 1) bottom)
      ∨ (m.advance n (.running (s.onto (below.length + 1) bottom))).2.forget =
        (m.advance n (.running s)).2.forget) := by
  have hd : below.length + 1 ≤ s.depth := by
    have hlen := congrArg List.length hl
    rw [CallStack.length_live, List.length_append, List.length_cons] at hlen
    have hdepth : s.depth = s.calls.depth := rfl
    omega
  have hapart : m.Apart (below.length + 1) bottom n s :=
    apart_advance (State.sized_at h) hd hshort
  obtain ⟨houtcome, hsteps, hmax⟩ := hapart.same
  refine ⟨?_, hapart.trace, houtcome, hsteps, hmax, ?_, hapart.progress.imp_right And.left⟩
  · rw [State.live_onto, hl, raise_append]
  · intro hr
    exact hapart.progress.resolve_right fun hleft => hleft.2 hr

theorem echo_over_null :
    (echo.advance 3 (.running (echoEntered.onto 2 [.null]))).2.result? =
        some (.ok ⟨.integer 5, 7, 2⟩)
      ∧ (echo.advance 3 (.running (echoEntered.onto 1 [.null]))).2.result? =
        some (.ok ⟨.integer 5, 7, 2⟩)
      ∧ echo.Goes 2 (echoEntered.onto 1 [.null]) (echoReturned.onto 1 [.null]) := by
  have hs : echo.At [] 4 echoEntered := rfl
  have hcallee : echoEntered.calls.live =
      [] ++ echoCallee :: [echoCaller.suspend [.integer 7]] := rfl
  have hcaller : echoEntered.calls.live =
      [echoCallee] ++ echoCaller.suspend [.integer 7] :: [] := rfl
  have hfinishes : ∀ e u, (echo.advance 3 (.running echoEntered)).2 = .faulted e u →
      ¬ e.Shortage := nofun
  have hgoes : ∀ e u, (echo.advance 2 (.running echoEntered)).2 = .faulted e u →
      ¬ e.Shortage := nofun
  have hr : echo.Retains 1 2 echoEntered := by
    rintro k hk t ht ⟨hdepth, -⟩
    have := depth_of_goes (d := 2) ht (echo_retains.mono (by omega)) le_rfl
    omega
  refine ⟨?_, ?_, ?_⟩
  · exact (stack_bottom_unseen hs hcallee [.null] hfinishes).2.2.1
  · exact (stack_bottom_unseen hs hcaller [.null] hfinishes).2.2.1
  · exact (stack_bottom_unseen hs hcaller [.null] hgoes).2.2.2.2.2.1 hr

/-- A frame that is short of a value finds what is beneath. -/
example :
    let m : Machine := { program := .ofList [⟨.exit, .null⟩], natives := echo.natives }
    let s : State := .start m.config []
    (s.turn m).2.result? = some (.error .stackUnderflow)
      ∧ ((s.onto 1 [.null]).turn m).2.result? = some (.ok ⟨.null, 1, 1⟩) :=
  ⟨rfl, rfl⟩

end Machine

end FrameMachine
