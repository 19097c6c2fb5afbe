import FrameMachine.Proofs.Course

/-!
# Sizes that a run keeps

Every frame of a run, live or spent, has as many locals as the configuration gives a frame, and the
register file, if there is one, keeps its size. So a spent frame made ready for a call is like a
new one (`entered_of_capacity`).
-/

namespace FrameMachine

/-- The frames, the register file and the depth limit of `s` are those of configuration `c`. -/
structure State.Sized (c : Config) (s : State) : Prop where
  live : ∀ f ∈ s.calls.live, f.locals.capacity = c.frameLocals
  spare : ∀ f ∈ s.calls.spare, f.locals.capacity = c.frameLocals
  registers : s.registers.map Locals.capacity = c.newRegisters.map Locals.capacity
  maxDepth : s.calls.maxDepth = c.maxCallDepth

/-- Nothing of a spent frame is left once it is made ready for a call. -/
theorem entered_of_capacity {c : Config} {spare : List Frame}
    (h : ∀ f ∈ spare, f.locals.capacity = c.frameLocals) (arguments : List Value) (target : Nat) :
    (spare.head?.getD (.blank c.frameLocals)).enter arguments target =
      { stack := .ofList arguments, locals := .blank c.frameLocals, arguments, pc := target } := by
  rcases spare with _ | ⟨f, rest⟩
  · simp [Frame.enter, Frame.blank, Locals.reset]
  · simp [Frame.enter, Locals.reset, h f List.mem_cons_self]

namespace State

variable {m : Machine} {s s' : State} {i : Instruction}

theorem sized_start (c : Config) (arguments : List Value) : (start c arguments).Sized c where
  live := by simp [start, CallStack.live, Frame.blank]
  spare := by simp [start]
  registers := rfl
  maxDepth := rfl

theorem Sized.update {c : Config} {f : Frame} (h : s.Sized c)
    (hf : f.locals.capacity = s.view.locals.capacity) : (s.update f).Sized c := by
  have hactive := h.live s.calls.active List.mem_cons_self
  have hrest : ∀ g ∈ s.calls.suspended, g.locals.capacity = c.frameLocals :=
    fun g hg => h.live g (List.mem_cons_of_mem _ hg)
  rcases hr : s.registers with _ | locals
  · rw [view_own hr] at hf
    rw [update_own hr]
    refine ⟨?_, h.spare, h.registers, h.maxDepth⟩
    simpa [hf, hactive] using hrest
  · rw [view_shared hr] at hf
    rw [update_shared hr]
    refine ⟨?_, h.spare, ?_, h.maxDepth⟩
    · simpa [hactive] using hrest
    · rw [← h.registers, hr]
      simp [hf]

/-- `load` and `store` reach as many slots as the configuration says, wherever they are. -/
theorem Sized.capacity_view {c : Config} (h : s.Sized c) :
    s.view.locals.capacity = c.localsCapacity := by
  have hactive := h.live s.calls.active List.mem_cons_self
  have hregisters := h.registers
  rcases hc : c.localsModel with _ | _
  · simp only [Config.newRegisters, hc, Option.map_some, Locals.capacity_blank] at hregisters
    obtain ⟨locals, hr, hl⟩ := Option.map_eq_some_iff.1 hregisters
    rw [view_shared hr, hl]
  · simp only [Config.newRegisters, hc, Option.map_none, Option.map_eq_none_iff] at hregisters
    rw [view_own hregisters, hactive, Config.frameLocals, hc]

theorem Sized.step (h : s.Sized m.config) (hs : s.Step m i s') : s'.Sized m.config := by
  have hactive := h.live s.calls.active List.mem_cons_self
  have hrest : ∀ g ∈ s.calls.suspended, g.locals.capacity = m.config.frameLocals :=
    fun g hg => h.live g (List.mem_cons_of_mem _ hg)
  cases hs with
  | proceed effect =>
    have ht : s.tick.Sized m.config := ⟨h.live, h.spare, h.registers, h.maxDepth⟩
    exact ht.update effect.capacity_eq
  | invoke => exact ⟨by simpa [hactive] using hrest, h.spare, h.registers, h.maxDepth⟩
  | enter =>
    refine ⟨?_, fun f hf => h.spare f (List.mem_of_mem_tail hf), h.registers, h.maxDepth⟩
    simp only [entered_of_capacity h.spare, CallStack.live, List.mem_cons, forall_eq_or_imp]
    exact ⟨by simp, hactive, hrest⟩
  | leave op top callers =>
    rw [callers] at hrest
    refine ⟨?_, ?_, h.registers, h.maxDepth⟩
    · simpa [CallStack.live, Frame.push] using hrest
    · simpa [hactive] using h.spare

theorem Sized.goes {t : State} {n : Nat} (h : s.Sized m.config) (hg : m.Goes n s t) :
    t.Sized m.config := by
  induction n generalizing t with
  | zero => exact Machine.goes_zero.1 hg ▸ h
  | succ n ih =>
    obtain ⟨u, hu, ht⟩ := Machine.goes_succ.1 hg
    obtain ⟨i, -, hi⟩ := turn_eq_running_iff.1 ht
    exact (ih hu).step hi

theorem sized_at {arguments : List Value} {n : Nat} (h : m.At arguments n s) :
    s.Sized m.config :=
  (sized_start m.config arguments).goes (Machine.at_iff.1 h).2

end State

end FrameMachine
