import FrameMachine.Proofs.Course

/-!
# Calls and their exits

From a call to the exit of the frame it entered, the caller and all beneath it stand still: a turn
touches the active frame and, at an exit, the frame it uncovers, and that one is never the caller
before the callee's own exit (`live_of_goes`). So a call takes its arguments off the caller and its
exit puts one value there.
-/

namespace FrameMachine

/-- The caller `f` of a call: `kept` is left on its stack, and it goes on at its next
instruction. -/
def Frame.suspend (f : Frame) (kept : List Value) : Frame :=
  { f with stack := .ofList kept, pc := f.pc + 1 }

variable {m : Machine} {s s' t : State} {i : Instruction} {above below : List Frame} {f : Frame}

namespace State

/-- Where a live frame is as deep as the state, it is the active one. -/
theorem active_of_live (hl : s.calls.live = above ++ f :: below)
    (hdepth : s.depth = below.length + 1) :
    s.calls.active = f ∧ s.calls.suspended = below := by
  rcases List.cons_eq_append_iff.1 hl with ⟨-, h⟩ | ⟨rest, -, h⟩
  · cases h
    exact ⟨rfl, rfl⟩
  · have hlen : s.calls.suspended.length + 1 = below.length + 1 := hdepth
    rw [h, List.length_append, List.length_cons] at hlen
    omega

/-- With other frames on top of the suspended ones, and what held of the active frame still true of
the lowest of these, it holds of the frame right above `below` and every frame there stays. -/
theorem live_of_replace {P : Frame → Prop} {g : Frame} (pre : List Frame)
    (hl : s.calls.live = above ++ f :: below) (hf : P f)
    (hg : s.depth = below.length + 1 → P s.calls.active → P g) :
    ∃ above' f', pre ++ g :: s.calls.suspended = above' ++ f' :: below ∧ P f' := by
  rcases List.cons_eq_append_iff.1 hl with ⟨-, h⟩ | ⟨rest, -, h⟩
  · cases h
    exact ⟨pre, g, rfl, hg rfl hf⟩
  · exact ⟨pre ++ g :: rest, f, by simp [h], hf⟩

/-- `P` stays true of the active frame when it goes on by instruction `i`, which leaves it its
arguments and puts values on top of what its action left on its stack. -/
def Preserves (m : Machine) (i : Instruction) (s : State) (P : Frame → Prop) : Prop :=
  P s.calls.active → ∀ (a : Action) (g : Frame), s.view.Effect m.program i a →
    g.arguments = s.calls.active.arguments →
    (∃ pushed, g.stack.values = pushed ++ a.frame.stack.values) → P g

/-- What the turns of the frame right above `below` and the results of its calls leave true of it
stays true over a turn that is not its exit, and so does all that is beneath. -/
theorem Step.live_of {P : Frame → Prop} (h : s.Step m i s') (hd : s.Dispatches m i)
    (hl : s.calls.live = above ++ f :: below) (hx : ¬ s.Leaves m (below.length + 1)) (hf : P f)
    (hown : s.depth = below.length + 1 → s.Preserves m i P)
    (hresult : ∀ g v, P g → P (g.push v)) :
    ∃ above' f', s'.calls.live = above' ++ f' :: below ∧ P f' := by
  cases h with
  | @proceed g effect =>
    obtain ⟨locals, hu⟩ := s.tick.update_calls g
    have hg : g.arguments = s.calls.active.arguments := by
      simpa [Action.frame] using effect.arguments_eq
    rw [hu]
    exact live_of_replace (s := s) (g := { g with locals }) [] hl hf
      fun hdepth hp => hown hdepth hp _ _ effect hg ⟨[], rfl⟩
  | @invoke name above stack arguments v op handle top reply =>
    rw [← view_stack] at handle
    exact live_of_replace (s := s) [] hl hf
      fun hdepth hp => hown hdepth hp _ _ (.execute op handle top) rfl ⟨[v], rfl⟩
  | enter op goal top =>
    rw [← view_stack] at top
    exact live_of_replace (s := s) [_] hl hf
      fun hdepth hp => hown hdepth hp _ _ (.call op goal top) rfl ⟨[], rfl⟩
  | @leave v stack caller rest op top callers =>
    rcases List.cons_eq_append_iff.1 hl with ⟨-, h⟩ | ⟨rest', -, h⟩
    · exfalso
      cases h
      exact hx ⟨rfl, i, hd.1, op⟩
    · rw [callers] at h
      rcases List.cons_eq_append_iff.1 h with ⟨-, h⟩ | ⟨rest'', -, h⟩
      · cases h
        exact ⟨[], _, rfl, hresult _ v hf⟩
      · exact ⟨caller.push v :: rest'', f, by simp [CallStack.live, h], hf⟩

/-- The depth limit and the place of the locals are settled when a run starts. -/
theorem Step.fixed (h : s.Step m i s') :
    s'.calls.maxDepth = s.calls.maxDepth ∧ s'.registers.isSome = s.registers.isSome := by
  cases h with
  | @proceed f =>
    refine ⟨by simp, ?_⟩
    rcases hr : s.registers with _ | locals
    · rw [update_own (s := s.tick) hr]
      simp [hr]
    · rw [update_shared (s := s.tick) hr]
      simp
  | _ => exact ⟨rfl, rfl⟩

end State

namespace Machine

theorem fixed_of_goes {n : Nat} (hg : m.Goes n s t) :
    t.calls.maxDepth = s.calls.maxDepth ∧ t.registers.isSome = s.registers.isSome := by
  induction n generalizing t with
  | zero => exact goes_zero.1 hg ▸ ⟨rfl, rfl⟩
  | succ n ih =>
    obtain ⟨u, hu, ht⟩ := goes_succ.1 hg
    obtain ⟨i, -, hs⟩ := State.turn_eq_running_iff.1 ht
    obtain ⟨hmax, hreg⟩ := ih hu
    exact ⟨hs.fixed.1.trans hmax, hs.fixed.2.trans hreg⟩

/-- What the turns of a frame and the results of its calls leave true of it stays true till its own
exit, and so does everything beneath. -/
theorem live_of_goes_of {P : Frame → Prop} {n : Nat} (hg : m.Goes n s t)
    (hr : m.Retains (below.length + 1) n s) (hl : s.calls.live = above ++ f :: below) (hf : P f)
    (hown : ∀ k < n, ∀ u i, m.Goes k s u → u.Dispatches m i → u.depth = below.length + 1 →
      u.Preserves m i P)
    (hresult : ∀ g v, P g → P (g.push v)) :
    ∃ above' f', t.calls.live = above' ++ f' :: below ∧ P f' := by
  induction n generalizing t with
  | zero => exact goes_zero.1 hg ▸ ⟨above, f, hl, hf⟩
  | succ n ih =>
    obtain ⟨u, hu, ht⟩ := goes_succ.1 hg
    obtain ⟨i, hd, hs⟩ := State.turn_eq_running_iff.1 ht
    obtain ⟨above', f', hl', hf'⟩ :=
      ih hu (hr.mono (Nat.le_succ n)) fun k hk => hown k (Nat.lt_succ_of_lt hk)
    have hlast := Nat.lt_succ_self n
    exact hs.live_of hd hl' (hr n hlast u hu) hf' (hown n hlast u i hu hd) hresult

/-- Till its own exit a frame keeps its arguments and everything beneath it. -/
theorem live_of_goes {n : Nat} (hg : m.Goes n s t) (hr : m.Retains (below.length + 1) n s)
    (hl : s.calls.live = above ++ f :: below) :
    ∃ above' f', t.calls.live = above' ++ f' :: below ∧ f'.arguments = f.arguments :=
  live_of_goes_of (P := (·.arguments = f.arguments)) hg hr hl rfl
    (fun _ _ _ _ _ _ _ hp _ _ _ hg _ => hg.trans hp) fun _ _ => id

theorem depth_of_goes {d n : Nat} (hg : m.Goes n s t) (hr : m.Retains d n s) (hd : d ≤ s.depth) :
    d ≤ t.depth := by
  rcases Nat.eq_zero_or_pos d with rfl | hpos
  · exact Nat.zero_le _
  have hlen : (s.calls.live.drop (s.depth - d)).length = d := by
    rw [List.length_drop, CallStack.length_live]
    exact Nat.sub_sub_self hd
  rcases hc : s.calls.live.drop (s.depth - d) with _ | ⟨f, below⟩
  · rw [hc, List.length_nil] at hlen
    omega
  rw [hc, List.length_cons] at hlen
  subst hlen
  have hl : s.calls.live = s.calls.live.take (s.depth - (below.length + 1)) ++ f :: below := by
    rw [← hc, List.take_append_drop]
  obtain ⟨above, f', h, -⟩ := live_of_goes hg hr hl
  have := congrArg List.length h
  rw [CallStack.length_live, List.length_append, List.length_cons] at this
  have hdepth : t.depth = t.calls.depth := rfl
  omega

/-- A call that succeeds leaves its caller suspended beneath a frame that has the arguments on its
stack and in its view. -/
theorem turn_call {s₁ : State} (hf : m.program.fetch s.pc = .ok i) (op : i.opcode = .call)
    (h : (s.turn m).2 = .running s₁) :
    ∃ (kept arguments : List Value) (n : Int64) (target : Nat),
      s.calls.active.stack.toList = kept ++ arguments ++ [.integer n]
      ∧ n.toInt = arguments.length ∧ kept ≠ []
      ∧ m.program.branchTarget i = .ok target
      ∧ s₁.calls.active.stack.toList = arguments ∧ s₁.calls.active.arguments = arguments
      ∧ s₁.pc = target ∧ s₁.calls.suspended = s.calls.active.suspend kept :: s.calls.suspended := by
  obtain ⟨j, hd, hs⟩ := State.turn_eq_running_iff.1 h
  obtain rfl := hd.eq_of_fetch hf
  cases hs with
  | proceed effect => exact absurd op effect.opcode_of_proceed.1
  | invoke op' => simp [op] at op'
  | leave op' => simp [op] at op'
  | @enter target arguments stack op' goal top room =>
    obtain ⟨n, htop, hn, hkept⟩ := OperandStack.popArguments_eq_ok_iff.1 top
    refine ⟨stack.toList, arguments, n, target, htop, hn, ?_, goal, by simp [Frame.enter], rfl, rfl,
      ?_⟩
    · intro hnil
      rw [← OperandStack.length_toList, hnil] at hkept
      simp at hkept
    · simp only [Frame.suspend, OperandStack.ofList_toList]
      rfl

/-- The exit of a frame right above `caller` puts its result there and drops the rest. -/
theorem turn_exit {j : Instruction} {v : Value} {dropped : List Value} {caller : Frame}
    (hd : t.Dispatches m j) (op : j.opcode = .exit)
    (top : t.calls.active.stack.toList = dropped ++ [v])
    (callers : t.calls.suspended = caller :: below) :
    ∃ u, (t.turn m).2 = .running u ∧ u.calls.live = caller.push v :: below := by
  have htop : t.calls.active.stack = (OperandStack.ofList dropped).push v := by
    ext1
    simp [top]
  exact ⟨_, State.turn_eq_running_iff.2 ⟨j, hd, .leave op htop callers⟩, rfl⟩

/-- A callee cannot change its caller. A call that succeeds finds its arguments above a caller's
value and starts the callee on them alone; till the callee's own exit the caller and all frames
beneath it stay as the call left them; the exit adds the result to what the caller kept, and the
caller goes on after its call. Till its exit every frame has the arguments it began with. -/
theorem call_isolates (m : Machine) :
    (∀ {s s₁ : State} {i : Instruction}, m.program.fetch s.pc = .ok i → i.opcode = .call →
      (s.turn m).2 = .running s₁ →
      ∃ (kept arguments : List Value) (n : Int64) (target : Nat),
        s.calls.active.stack.toList = kept ++ arguments ++ [.integer n]
        ∧ n.toInt = arguments.length ∧ kept ≠ []
        ∧ m.program.branchTarget i = .ok target
        ∧ s₁.calls.active.stack.toList = arguments ∧ s₁.calls.active.arguments = arguments
        ∧ s₁.pc = target ∧ s₁.depth = s.depth + 1
        ∧ ∀ {k : Nat} {t : State}, m.Goes k s₁ t → m.Retains s₁.depth k s₁ →
          (∃ above, above ≠ []
            ∧ t.calls.live = above ++ s.calls.active.suspend kept :: s.calls.suspended)
          ∧ ∀ {j : Instruction} {v : Value} {dropped : List Value}, t.Dispatches m j →
            j.opcode = .exit → t.depth = s₁.depth →
            t.calls.active.stack.toList = dropped ++ [v] →
            ∃ u, (t.turn m).2 = .running u
              ∧ u.calls.live = s.calls.active.suspend (kept ++ [v]) :: s.calls.suspended
              ∧ u.depth = s.depth ∧ u.pc = s.pc + 1
              ∧ u.calls.maxDepth = s.calls.maxDepth
              ∧ u.registers.isSome = s.registers.isSome)
    ∧ ∀ {s t : State} {above below : List Frame} {f : Frame} {n : Nat},
      s.calls.live = above ++ f :: below → m.Goes n s t → m.Retains (below.length + 1) n s →
      ∃ above' f', t.calls.live = above' ++ f' :: below ∧ f'.arguments = f.arguments := by
  refine ⟨?_, fun hl hg hr => live_of_goes hg hr hl⟩
  intro s s₁ i hf op h
  obtain ⟨kept, arguments, n, target, htop, hn, hkept, hgoal, hstack, hargs, hpc, hcallers⟩ :=
    turn_call hf op h
  have hdepth : s₁.depth = (s.calls.active.suspend kept :: s.calls.suspended).length + 1 := by
    rw [← hcallers]
    rfl
  refine ⟨kept, arguments, n, target, htop, hn, hkept, hgoal, hstack, hargs, hpc, hdepth, ?_⟩
  intro k t hg hr
  rw [hdepth] at hr
  have hlive : s₁.calls.live =
      [] ++ s₁.calls.active :: s.calls.active.suspend kept :: s.calls.suspended := by
    rw [← hcallers]
    rfl
  obtain ⟨above, callee, hl, -⟩ := live_of_goes hg hr hlive
  refine ⟨⟨above ++ [callee], by simp, by simp [hl]⟩, ?_⟩
  intro j v dropped hd hexit hback hv
  -- At its own exit the callee is the active frame.
  obtain ⟨-, hcallers'⟩ := State.active_of_live hl (hback.trans hdepth)
  obtain ⟨u, hu, hlive⟩ := turn_exit hd hexit hv hcallers'
  have hpush : (s.calls.active.suspend kept).push v = s.calls.active.suspend (kept ++ [v]) := by
    simp [Frame.push, Frame.suspend, OperandStack.push, OperandStack.ofList]
  rw [hpush] at hlive
  have hgoes : m.Goes (1 + (k + 1)) s u := by
    refine goes_add.2 ⟨s₁, goes_succ.2 ⟨s, goes_zero.2 rfl, h⟩, goes_succ.2 ⟨t, hg, hu⟩⟩
  obtain ⟨hmax, hreg⟩ := fixed_of_goes hgoes
  refine ⟨u, hu, hlive, congrArg List.length hlive, ?_, hmax, hreg⟩
  exact congrArg Frame.pc (List.cons.inj hlive).1

/-- Keeps 7, asks for 5 back by a call, and ends. -/
def echo : Machine where
  program := .ofList [⟨.push, .integer 7⟩, ⟨.push, .integer 5⟩, ⟨.push, .integer 1⟩,
    ⟨.call, .integer 5⟩, ⟨.exit, .null⟩, ⟨.arg, .integer 0⟩, ⟨.exit, .null⟩]
  config := { localsCapacity := 1, localsModel := .perFrame }
  natives _ arguments := ⟨argumentAt arguments 0, []⟩

/-- About to call. -/
def echoCaller : Frame where
  stack := .ofList [.integer 7, .integer 5, .integer 1]
  locals := .blank 1
  pc := 3

/-- Called on 5. -/
def echoCallee : Frame where
  stack := .ofList [.integer 5]
  locals := .blank 1
  arguments := [.integer 5]
  pc := 5

/-- A state of `echo` in which `active` runs. -/
def echoState (active : Frame) (suspended : List Frame) (steps : Nat) : State where
  calls := ⟨active, suspended, [], 1024⟩
  registers := none
  steps := steps
  maxFrameDepth := suspended.length + 1

def echoEntered : State := echoState echoCallee [echoCaller.suspend [.integer 7]] 4

def echoLeaving : State :=
  echoState (echoCallee.push (.integer 5)).advance [echoCaller.suspend [.integer 7]] 5

theorem echo_retains : echo.Retains 2 1 echoEntered := by
  intro k hk t ht hl
  obtain rfl : k = 0 := by omega
  obtain rfl := goes_zero.1 ht
  obtain ⟨-, i, hi, op⟩ := hl
  cases hi
  cases op

theorem echo_returns :
    (∃ u, (echoLeaving.turn echo).2 = .running u
      ∧ u.calls.live = [echoCaller.suspend [.integer 7, .integer 5]] ∧ u.pc = 4)
    ∧ ∃ above f, echoLeaving.calls.live = above ++ [f, echoCaller.suspend [.integer 7]]
      ∧ f.arguments = [.integer 5] := by
  have hg : echo.Goes 1 echoEntered echoLeaving := rfl
  have hl : echoEntered.calls.live = [] ++ [echoCallee, echoCaller.suspend [.integer 7]] := rfl
  refine ⟨?_, (call_isolates echo).2 hl hg echo_retains⟩
  have hf : echo.program.fetch (echoState echoCaller [] 3).pc = .ok ⟨.call, .integer 5⟩ := rfl
  obtain ⟨kept, arguments, n, target, hstack, hn, -, -, -, -, -, -, h⟩ :=
    (call_isolates echo).1 hf rfl rfl
  have hkept : kept = [.integer 7] := by
    have hlist : [Value.integer 7] ++ [.integer 5] ++ [.integer 1] =
        kept ++ arguments ++ [.integer n] := hstack
    obtain ⟨hinit, hlast⟩ := List.append_inj' hlist rfl
    cases hlast
    have hlen : (1 : Int) = arguments.length := hn
    exact (List.append_inj' hinit (by simp; omega)).1.symm
  subst hkept
  obtain ⟨-, hexit⟩ := h hg echo_retains
  have hd : echoLeaving.Dispatches echo ⟨.exit, .null⟩ := ⟨rfl, nofun⟩
  have htop : echoLeaving.calls.active.stack.toList = [.integer 5] ++ [.integer 5] := rfl
  obtain ⟨u, hu, hlive, -, hpc, -⟩ := hexit hd rfl rfl htop
  exact ⟨u, hu, hlive, hpc⟩

end Machine

end FrameMachine
