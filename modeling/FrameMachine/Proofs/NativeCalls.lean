import FrameMachine.Native.Stock
import FrameMachine.Proofs.Ending

/-!
# Calls of native functions

An `execute` finds on its stack the arguments for a native function, their count and the function.
It asks the function once, for those arguments, and puts the answer in their place; nothing else in
the state but the counter and the index is touched, whatever runs the function starts itself. Where
the stack does not look like this nobody is asked, and no other instruction asks. So all that a run
sees of its native functions is what they answer to what it asks them (`run_of_natives`).
-/

namespace FrameMachine

namespace OperandStack

/-- On top of `kept` stand the arguments for a native function in push order, their count and the
function. -/
def Asks (s : OperandStack) (kept arguments : List Value) (name : NativeName) : Prop :=
  ∃ n : Int64, s.toList = kept ++ arguments ++ [.integer n, .native name]
    ∧ n.toInt = arguments.length

theorem asks_iff {s : OperandStack} {kept arguments : List Value} {name : NativeName} :
    s.Asks kept arguments name ↔
      ∃ above : OperandStack, s = above.push (.native name)
        ∧ above.popArguments 0 = .ok (arguments, .ofList kept) := by
  constructor
  · rintro ⟨n, hs, hn⟩
    refine ⟨.ofList (kept ++ arguments ++ [.integer n]), ?_, ?_⟩
    · ext1
      simp [hs]
    · exact popArguments_eq_ok_iff.2 ⟨n, by simp, hn, Nat.zero_le _⟩
  · rintro ⟨above, rfl, h⟩
    obtain ⟨n, hs, hn, -⟩ := popArguments_eq_ok_iff.1 h
    exact ⟨n, by simp [hs], hn⟩

theorem asks_of_popArguments {s above rest : OperandStack} {arguments : List Value}
    {name : NativeName} (handle : s = above.push (.native name))
    (top : above.popArguments 0 = .ok (arguments, rest)) : s.Asks rest.toList arguments name :=
  asks_iff.2 ⟨above, handle, by rw [ofList_toList, top]⟩

/-- What is asked can be read off the stack in one way. -/
theorem Asks.unique {s : OperandStack} {kept kept' arguments arguments' : List Value}
    {name name' : NativeName} (h : s.Asks kept arguments name)
    (h' : s.Asks kept' arguments' name') :
    arguments' = arguments ∧ name' = name := by
  obtain ⟨above, rfl, top⟩ := asks_iff.1 h
  obtain ⟨above', habove, top'⟩ := asks_iff.1 h'
  obtain ⟨rfl, hname⟩ := push_inj.1 habove
  rw [top] at top'
  exact ⟨(Prod.mk.inj (Except.ok.inj top')).1.symm, (Value.native.inj hname).symm⟩

end OperandStack

variable {m : Machine} {s : State} {i : Instruction} {kept arguments : List Value}
  {name : NativeName} {v : Value} {e : Fault}

namespace State

/-- The turn in `s` asks native function `name` about `arguments`. -/
def Asks (m : Machine) (s : State) (name : NativeName) (arguments : List Value) : Prop :=
  ∃ i kept, s.Dispatches m i ∧ i.opcode = .execute
    ∧ s.calls.active.stack.Asks kept arguments name

/-- What is left of an `execute` is to ask. -/
theorem execute_of_asks (op : i.opcode = .execute)
    (h : s.calls.active.stack.Asks kept arguments name) :
    s.tick.execute m i =
      s.tick.invoke m.natives name arguments { s.view with stack := .ofList kept } := by
  obtain ⟨above, handle, top⟩ := OperandStack.asks_iff.1 h
  rw [← view_stack] at handle
  simp only [execute, tick_view, Frame.act_of_effect (.execute op handle top), perform]

/-- An answer takes the place of the arguments, and the frame goes on. -/
theorem turn_of_answer (hd : s.Dispatches m i) (op : i.opcode = .execute)
    (h : s.calls.active.stack.Asks kept arguments name)
    (reply : (m.natives name arguments).result = .ok v) :
    s.turn m =
      (.own (.dispatched s.pc s.depth i) ::
          ((m.natives name arguments).events.map .inner
            ++ [.own (.nativeReturned name arguments.length v)]),
        .running { s with
          calls := s.calls.setActive
            { s.calls.active with stack := .ofList (kept ++ [v]), pc := s.pc + 1 }
          steps := s.steps + 1 }) := by
  have hl : ({ s.view with stack := .ofList kept }.push v).advance.locals =
      s.tick.view.locals := rfl
  have hpush : (OperandStack.ofList kept).push v = .ofList (kept ++ [v]) := by
    ext1
    simp
  rw [turn_eq_of_dispatches hd, execute_of_asks op h]
  simp only [invoke, reply, update_of_locals hl, Progress.closing, List.map_nil, List.append_nil]
  simp only [Frame.push, Frame.advance, view_arguments, view_pc, hpush]
  rfl

/-- A refusal ends the run. -/
theorem turn_of_refusal (hd : s.Dispatches m i) (op : i.opcode = .execute)
    (h : s.calls.active.stack.Asks kept arguments name)
    (reply : (m.natives name arguments).result = .error e) :
    s.turn m =
      (.own (.dispatched s.pc s.depth i) ::
          ((m.natives name arguments).events.map .inner ++ [.own (.faulted s.pc s.depth e)]),
        .faulted e s.tick) := by
  rw [turn_eq_of_dispatches hd, execute_of_asks op h]
  simp only [invoke, reply]
  rfl

/-- An `execute` that finds no question on the stack fails, and whatever the native functions are
has no part in it. -/
theorem turn_of_not_asks (hd : s.Dispatches m i) (op : i.opcode = .execute)
    (h : ∀ kept arguments name, ¬ s.calls.active.stack.Asks kept arguments name) :
    ∃ e, ∀ natives, s.turn { m with natives } =
      ([.own (.dispatched s.pc s.depth i), .own (.faulted s.pc s.depth e)],
        .faulted e s.tick) := by
  rcases hact : s.view.act m.program i with e | a
  · refine ⟨e, fun natives => ?_⟩
    have hd' : s.Dispatches { m with natives } i := hd
    rw [turn_eq_of_dispatches hd']
    simp only [execute, tick_view, hact]
    rfl
  · exfalso
    cases Frame.effect_of_act hact with
    | execute _ handle top =>
      rw [view_stack] at handle
      exact h _ _ _ (OperandStack.asks_of_popArguments handle top)
    | _ op' => simp [op] at op'

theorem execute_of_natives {natives : NativeTable}
    (hagree : ∀ kept arguments name, i.opcode = .execute →
      s.calls.active.stack.Asks kept arguments name →
      natives name arguments = m.natives name arguments) :
    s.tick.execute { m with natives } i = s.tick.execute m i := by
  simp only [execute, tick_view]
  rcases hact : s.view.act m.program i with e | a
  · rfl
  cases Frame.effect_of_act hact with
  | execute op handle top =>
    rw [view_stack] at handle
    have hasks := OperandStack.asks_of_popArguments handle top
    simp only [perform, invoke, hagree _ _ _ op hasks]
  | _ => rfl

/-- A table of native functions that gives the same answer to what is asked makes the same turn. -/
theorem turn_of_natives {natives : NativeTable}
    (hagree : ∀ name arguments, s.Asks m name arguments →
      natives name arguments = m.natives name arguments) :
    s.turn { m with natives } = s.turn m := by
  rcases turn_cases m s with ⟨e, he⟩ | ⟨i, max, hi, hm, hle⟩ | ⟨i, hd⟩
  · have he' : Program.fetch { m with natives }.program s.pc = .error e := he
    rw [turn_of_fetch_error he, turn_of_fetch_error he']
  · have hi' : Program.fetch { m with natives }.program s.pc = .ok i := hi
    rw [turn_of_spent hi hm hle, turn_of_spent hi' hm hle]
  · have hd' : s.Dispatches { m with natives } i := hd
    rw [turn_eq_of_dispatches hd, turn_eq_of_dispatches hd', execute_of_natives]
    exact fun kept arguments name op h => hagree name arguments ⟨i, kept, hd, op, h⟩

end State

namespace Machine

/-- A run sees of its native functions only what they answer to what it asks: a table that answers
the same there gives the same run. -/
theorem run_of_natives {input : List Value} {n : Nat} {natives : NativeTable}
    (hagree : ∀ k < n, ∀ s name arguments, m.At input k s → s.Asks m name arguments →
      natives name arguments = m.natives name arguments) :
    Machine.run { m with natives } n input = m.run n input := by
  induction n with
  | zero => rfl
  | succ n ih =>
    have hn := ih fun k hk => hagree k (Nat.lt_succ_of_lt hk)
    have hadvance : Machine.advance { m with natives } 1 (m.run n input).2 =
        m.advance 1 (m.run n input).2 := by
      rcases hp : (m.run n input).2 with s | _ | _ | _
      · rw [advance_one, advance_one]
        exact State.turn_of_natives fun name arguments h =>
          hagree n (Nat.lt_succ_self n) s name arguments hp h
      all_goals rfl
    rw [run_succ, run_succ, hn, hadvance]

/-- An `execute` is a clean call. If its stack ends in arguments, their count and a native function,
then the function is asked once, for these arguments, and no other function is. A value that it
gives takes the place of the arguments, their count and the function, and the frame goes on; nothing
else in the state but the counter changes. If it refuses, its fault ends the run. If the stack does
not end so, the `execute` fails whatever the native functions are, and none is asked. -/
theorem execute_asks_once {input : List Value} {k : Nat} (h : m.At input k s)
    (hd : s.Dispatches m i) (op : i.opcode = .execute) :
    (∀ (kept arguments : List Value) (name : NativeName),
      s.calls.active.stack.Asks kept arguments name →
      (∀ natives : NativeTable, natives name arguments = m.natives name arguments →
        s.turn { m with natives } = s.turn m)
      ∧ (∀ v, (m.natives name arguments).result = .ok v →
        s.turn m =
          (.own (.dispatched s.pc s.depth i) ::
              ((m.natives name arguments).events.map .inner
                ++ [.own (.nativeReturned name arguments.length v)]),
            .running { s with
              calls := s.calls.setActive
                { s.calls.active with stack := .ofList (kept ++ [v]), pc := s.pc + 1 }
              steps := s.steps + 1 }))
      ∧ ∀ e, (m.natives name arguments).result = .error e →
        s.turn m =
          (.own (.dispatched s.pc s.depth i) ::
              ((m.natives name arguments).events.map .inner ++ [.own (.faulted s.pc s.depth e)]),
            .faulted e s.tick)
        ∧ ∀ b, k < b → (m.run b input).2.result? = some (.error e))
    ∧ ((∀ kept arguments name, ¬ s.calls.active.stack.Asks kept arguments name) →
      ∃ e, ∀ natives : NativeTable, s.turn { m with natives } =
        ([.own (.dispatched s.pc s.depth i), .own (.faulted s.pc s.depth e)],
          .faulted e s.tick)) := by
  refine ⟨?_, State.turn_of_not_asks hd op⟩
  intro kept arguments name hasks
  refine ⟨fun natives hagree => ?_, fun v => State.turn_of_answer hd op hasks, fun e he => ?_⟩
  · refine State.turn_of_natives fun name' arguments' => ?_
    rintro ⟨j, kept', -, -, hasks'⟩
    obtain ⟨rfl, rfl⟩ := hasks.unique hasks'
    exact hagree
  · have hturn := State.turn_of_refusal hd op hasks he
    refine ⟨hturn, fun b hb => ?_⟩
    have hnext : ∀ t, ¬ m.At input (k + 1) t := by
      intro t ht
      rw [At, run_succ_of_at h, hturn] at ht
      cases ht
    rw [run_stays hnext hb, run_succ_of_at h, hturn]
    rfl

/-- Keeps 7 and asks a stock function about 5. -/
def consult (f : Stock) : Machine where
  program := .ofList [⟨.push, .integer 7⟩, ⟨.push, .integer 5⟩, ⟨.push, .integer 1⟩,
    ⟨.push, .native f.name⟩, ⟨.execute, .null⟩, ⟨.exit, .null⟩]
  config := { localsCapacity := 1, localsModel := .perFrame }
  natives := Stock.table

/-- About to ask. -/
def consultAsking (f : Stock) : State where
  calls :=
    { active :=
        { stack := .ofList [.integer 7, .integer 5, .integer 1, .native f.name]
          locals := .blank 1
          pc := 4 }
      maxDepth := 1024 }
  registers := none
  steps := 4

/-- `nested` answers by a run of its own, and `refuse` does not. -/
theorem consult_asks :
    (∃ u, ((consultAsking .nested).turn (consult .nested)).2 = .running u
      ∧ u.calls.active.stack.toList = [.integer 7, .integer 5] ∧ u.pc = 5 ∧ u.steps = 5)
    ∧ ((consult .refuse).run 5 []).2.result? = some (.error (.nativeFault "refused")) := by
  have hs (f : Stock) : (consult f).At [] 4 (consultAsking f) := rfl
  have hd (f : Stock) : (consultAsking f).Dispatches (consult f) ⟨.execute, .null⟩ := ⟨rfl, nofun⟩
  have hasks (f : Stock) :
      (consultAsking f).calls.active.stack.Asks [.integer 7] [.integer 5] f.name := ⟨1, rfl, rfl⟩
  constructor
  · obtain ⟨-, hanswer, -⟩ :=
      (execute_asks_once (hs .nested) (hd .nested) rfl).1 _ _ _ (hasks .nested)
    rw [hanswer (.integer 5) rfl]
    exact ⟨_, rfl, rfl, rfl, rfl⟩
  · obtain ⟨-, -, hrefusal⟩ :=
      (execute_asks_once (hs .refuse) (hd .refuse) rfl).1 _ _ _ (hasks .refuse)
    exact (hrefusal _ rfl).2 5 (by decide)

end Machine

end FrameMachine
