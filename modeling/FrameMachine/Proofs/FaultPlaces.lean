import FrameMachine.Proofs.DepthLimit
import FrameMachine.Proofs.Dispatches
import FrameMachine.Proofs.Ending

/-!
# Where a fault is reported

The last event of a run that faults has the index and the depth of the active frame. An instruction
that fails in its frame, or by a native function's refusal, has not moved that frame yet, so these
are the index and the depth it was dispatched at; and where the fetch or the budget failed, those it
would have been. Only a call that finds the frames at their limit has moved its caller on by then,
and is reported one index too far (`fault_placed`).
-/

namespace FrameMachine

/-- No instruction fails in its frame for want of room for another. -/
theorem Frame.Mishap.ne_callStackOverflow {p : Program} {f : Frame} {i : Instruction} {e : Fault}
    (h : f.Mishap p i e) (limit : Nat) : e ≠ .callStackOverflow limit := by
  rintro rfl
  cases h with
  | target _ h | retPop _ h | executePop _ h => cases h
  | call _ _ h | execute _ _ h =>
    cases h with
    | pop h => cases h

namespace State

/-- The turn in `s` fails before it dispatches anything. -/
inductive Undispatched (m : Machine) (s : State) : Fault → Prop
  | fetch {e : Fault} (h : m.program.fetch s.pc = .error e) : Undispatched m s e
  | budget {i : Instruction} {max : Nat} (fetched : m.program.fetch s.pc = .ok i)
      (limit : m.config.maxSteps = some max) (spent : max ≤ s.steps) :
      Undispatched m s (.stepBudgetExhausted max)

variable {m : Machine} {s u : State} {i : Instruction} {e : Fault}

theorem not_overflows_of_mishap (hd : s.Dispatches m i) (h : s.view.Mishap m.program i e) :
    ¬ s.Overflows m := by
  rintro ⟨j, limit, u, -, -, hturn⟩
  rw [turn_of_fails (.mishap hd h)] at hturn
  cases hturn
  exact h.ne_callStackOverflow limit rfl

theorem Refuses.not_overflows (h : s.Refuses m e) : ¬ s.Overflows m := by
  obtain ⟨i, name, above, stack, arguments, hd, op, -⟩ := h
  rintro ⟨j, limit, u, hd', op', -⟩
  obtain rfl := hd'.eq_of_fetch hd.1
  rw [op] at op'
  cases op'

/-- A turn that fails leaves the depth as it is, and the index too unless it overflows. -/
theorem Fails.placed (h : s.Fails m e u) : u.depth = s.depth
    ∧ (s.Undispatched m e ∧ u.pc = s.pc
      ∨ ∃ i, s.Dispatches m i
        ∧ (s.Overflows m ∧ u.pc = s.pc + 1 ∨ ¬ s.Overflows m ∧ u.pc = s.pc)) := by
  have hturn := turn_of_fails h
  cases h with
  | fetch h => exact ⟨rfl, .inl ⟨.fetch h, rfl⟩⟩
  | budget fetched limit spent => exact ⟨rfl, .inl ⟨.budget fetched limit spent, rfl⟩⟩
  | mishap hd h => exact ⟨rfl, .inr ⟨_, hd, .inr ⟨not_overflows_of_mishap hd h, rfl⟩⟩⟩
  | refusal h =>
    obtain ⟨i, -, -, -, -, hd, -⟩ := id h
    exact ⟨rfl, .inr ⟨i, hd, .inr ⟨h.not_overflows, rfl⟩⟩⟩
  | overflow hd op => exact ⟨rfl, .inr ⟨_, hd, .inl ⟨⟨_, _, _, hd, op, hturn⟩, rfl⟩⟩⟩

/-- How a run ends is reported in its last turn, after what the turn dispatched. -/
theorem turn_of_faulted (h : (s.turn m).2 = .faulted e u) :
    (s.turn m).1 = (s.dispatch m).1 ++ [.own (.faulted u.pc u.depth e)] := by
  have hdispatch : (s.dispatch m).2 = .faulted e u := h
  simp only [turn, hdispatch, Progress.closing, List.map_cons, List.map_nil]

theorem dispatches_dispatch (m : Machine) (s : State) :
    Trace.dispatches (s.dispatch m).1 = Trace.dispatches (s.turn m).1 := by
  simp only [turn, Trace.dispatches_append, Trace.dispatches_closing, List.append_nil]

theorem Undispatched.dispatches_eq (h : s.Undispatched m e) :
    Trace.dispatches (s.dispatch m).1 = [] := by
  rw [dispatches_dispatch]
  cases h with
  | fetch h =>
    rw [turn_of_fetch_error h]
    rfl
  | budget fetched limit spent =>
    rw [turn_of_spent fetched limit spent]
    rfl

end State

namespace Machine

variable {m : Machine} {arguments : List Value} {n : Nat} {fault : Fault}

/-- A run that faults does so in one of its turns, and reports it there. -/
theorem exists_faulted (hv : m.config.validate = .ok ()) (hp : m.program.isEmpty = false)
    (h : (m.run n arguments).2.result? = some (.error fault)) :
    ∃ k s u, m.At arguments k s ∧ m.run n arguments = m.run (k + 1) arguments ∧ s.Fails m fault u
      ∧ (m.run n arguments).1 = (m.run k arguments).1 ++ (s.dispatch m).1
        ++ [.own (.faulted u.pc u.depth fault)] := by
  have h0 : m.At arguments 0 (.start m.config arguments) :=
    at_zero_iff.2 ⟨Config.validate_eq_ok.1 hv, hp, rfl⟩
  have hend : ∀ s, ¬ m.At arguments n s := by
    intro s hs
    rw [hs] at h
    cases h
  obtain ⟨k, -, s, hs, hrun⟩ := exists_last_turn h0 hend
  rw [hrun] at h
  rcases Progress.result?_eq_error_iff.1 h with ⟨u, hu⟩ | hu
  · refine ⟨k, s, u, hs, hrun.trans (run_succ_of_at hs).symm, State.fails_of_turn hu, ?_⟩
    rw [hrun, State.turn_of_faulted hu, List.append_assoc]
  · exact absurd hu (State.turn_ne_refused m s fault)

/-- A run that faults says so last, with the depth that its last turn began at. If that turn
dispatched an instruction, its dispatch is the run's last one, and the fault is reported at its
index unless it is a call that overflows, which is reported at the index after it. If the fetch
failed, or the budget, there was no such dispatch, and the fault is reported at the index that was
to be fetched. -/
theorem fault_placed (hv : m.config.validate = .ok ()) (hp : m.program.isEmpty = false)
    (arguments : List Value) (n : Nat)
    (h : (m.run n arguments).2.result? = some (.error fault)) :
    ∃ k s told pc, m.At arguments k s ∧ m.run n arguments = m.run (k + 1) arguments
      ∧ (m.run n arguments).1 = told ++ [.own (.faulted pc s.depth fault)]
      ∧ ((∃ i, s.Dispatches m i ∧ (Trace.dispatches told).getLast? = some (s.pc, s.depth, i)
          ∧ (pc = s.pc ↔ ¬ s.Overflows m) ∧ (s.Overflows m → pc = s.pc + 1))
        ∨ s.Undispatched m fault ∧ pc = s.pc
          ∧ Trace.dispatches told = Trace.dispatches (m.run k arguments).1) := by
  obtain ⟨k, s, u, hs, hrun, hfails, htrace⟩ := exists_faulted hv hp h
  obtain ⟨hdepth, hplaced⟩ := hfails.placed
  refine ⟨k, s, _, u.pc, hs, hrun, hdepth ▸ htrace, ?_⟩
  rw [Trace.dispatches_append]
  rcases hplaced with ⟨hundispatched, hpc⟩ | ⟨i, hd, hpc⟩
  · rw [hundispatched.dispatches_eq, List.append_nil]
    exact .inr ⟨hundispatched, hpc, rfl⟩
  · rw [State.dispatches_dispatch, hd.accounts.1]
    refine .inl ⟨i, hd, List.getLast?_concat, ?_⟩
    rcases hpc with ⟨hover, hpc⟩ | ⟨hover, hpc⟩
    · have hne : u.pc ≠ s.pc := by omega
      exact ⟨iff_of_false hne (not_not_intro hover), fun _ => hpc⟩
    · exact ⟨iff_of_true hpc hover, fun h => absurd h hover⟩

/-- Calls code that adds to what is no double, if there is room for its frame. -/
def stumble (limit : Nat) : Machine where
  program := .ofList [⟨.push, .null⟩, ⟨.push, .integer 0⟩, ⟨.call, .integer 3⟩, ⟨.push, .null⟩,
    ⟨.push, .integer 4⟩, ⟨.addDoubles, .null⟩]
  config := { maxCallDepth := limit }
  natives _ _ := ⟨.ok .null, []⟩

/-- The sum has taken a value off the stack when it fails, and is where it was. -/
theorem stumble_placed : ∃ told k s,
    ((stumble 2).run 6 []).1 = told ++ [.own (.faulted 5 2 (.typeMismatch .double .integer))]
      ∧ (Trace.dispatches told).getLast? = some (5, 2, ⟨.addDoubles, .null⟩)
      ∧ (stumble 2).At [] k s ∧ s.pc = 5 ∧ s.depth = 2 ∧ ¬ s.Overflows (stumble 2) := by
  have h : ((stumble 2).run 6 []).2.result? = some (.error (.typeMismatch .double .integer)) := rfl
  obtain ⟨k, s, told, pc, hs, -, htrace, hplaced⟩ := fault_placed (m := stumble 2) rfl rfl [] 6 h
  have hrun : ((stumble 2).run 6 []).1 = ((stumble 2).run 6 []).1.dropLast
      ++ [.own (.faulted 5 2 (.typeMismatch .double .integer))] := rfl
  have hdispatches : (Trace.dispatches ((stumble 2).run 6 []).1.dropLast).getLast? =
      some (5, 2, ⟨.addDoubles, .null⟩) := rfl
  obtain ⟨rfl, hevent⟩ := List.append_inj' (htrace.symm.trans hrun) rfl
  simp only [List.cons.injEq, TraceEntry.own.injEq, Event.faulted.injEq] at hevent
  rcases hplaced with ⟨i, -, hlast, hpc, -⟩ | ⟨hundispatched, -⟩
  · rw [hdispatches, Option.some.injEq, Prod.mk.injEq] at hlast
    exact ⟨_, k, s, hrun, hdispatches, hs, hlast.1.symm, hevent.1.2.1,
      hpc.1 (hevent.1.1.trans hlast.1)⟩
  · cases hundispatched with
    | fetch h => cases (Program.fetch_eq_error_iff.1 h).2

/-- A call that overflows is reported at an index that it was not dispatched at. -/
theorem overflow_misplaced :
    ((stumble 1).run 3 []).2.result? = some (.error (.callStackOverflow 1))
      ∧ (∃ told, ((stumble 1).run 3 []).1 = told ++ [.own (.faulted 3 1 (.callStackOverflow 1))]
        ∧ (Trace.dispatches told).getLast? = some (2, 1, ⟨.call, .integer 3⟩))
      ∧ ¬ ∃ told pc depth i, ((stumble 1).run 3 []).1 =
          told ++ [.own (.faulted pc depth (.callStackOverflow 1))]
        ∧ (Trace.dispatches told).getLast? = some (pc, depth, i) := by
  have hrun : ((stumble 1).run 3 []).1 = ((stumble 1).run 3 []).1.dropLast
      ++ [.own (.faulted 3 1 (.callStackOverflow 1))] := rfl
  have hdispatches : (Trace.dispatches ((stumble 1).run 3 []).1.dropLast).getLast? =
      some (2, 1, ⟨.call, .integer 3⟩) := rfl
  refine ⟨rfl, ⟨_, hrun, hdispatches⟩, ?_⟩
  rintro ⟨told, pc, depth, i, htrace, hlast⟩
  obtain ⟨rfl, hevent⟩ := List.append_inj' (htrace.symm.trans hrun) rfl
  cases hevent
  rw [hdispatches] at hlast
  cases hlast

end Machine

end FrameMachine
