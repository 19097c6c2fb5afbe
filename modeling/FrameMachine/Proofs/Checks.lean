import FrameMachine.Proofs.Ending
import FrameMachine.Proofs.Sizes

/-!
# The checks of an instruction, in order

What an instruction needs is a list of checks, the same for all instructions of its opcode. Each
check looks at the operand, the active frame, the limits or the native function that is asked, and
has one fault. The instruction fails exactly where a check does, with the fault of the first one
(`execute_faults_iff`).
-/

namespace FrameMachine

/-- Something that an instruction needs. Values on the stack are counted from the top. -/
inductive Check
  /-- The operand is an integer. -/
  | operand
  /-- The operand is the index of a local. -/
  | slot
  /-- The operand is the index of an argument. -/
  | argument
  /-- The operand is the index of an instruction. -/
  | target
  /-- The stack holds `n` values. -/
  | holds (n : Nat)
  /-- The value at `place` is of kind `expected`. -/
  | kind (place : Nat) (expected : Kind)
  /-- The value on top is the index of an instruction. -/
  | address
  /-- The count at `place` is not negative. -/
  | count (place : Nat)
  /-- Beneath the count at `place` there are as many values, and `reserved` more. -/
  | arguments (place reserved : Nat)
  /-- One more frame may be live. -/
  | room
  /-- The native function gives a value for its arguments. -/
  | reply

/-- What taking arguments needs, if their count is at `place` and `reserved` values are to stay. -/
def Check.forArguments (place reserved : Nat) : List Check :=
  [.holds (place + 1), .kind place .integer, .count place, .arguments place reserved]

/-- What an instruction needs, in the order in which it is checked. -/
def Opcode.checks : Opcode → List Check
  | push => []
  | load => [.operand, .slot]
  | store => [.operand, .holds 1, .slot]
  | arg => [.operand, .argument]
  | jump => [.operand, .target]
  | gosub => [.operand, .target]
  | ret => [.holds 1, .kind 0 .integer, .address]
  | addDoubles => [.holds 2, .kind 0 .double, .kind 1 .double]
  | call => [.operand, .target] ++ Check.forArguments 0 1 ++ [.room]
  | execute => [.holds 1, .kind 0 .native] ++ Check.forArguments 1 0 ++ [.reply]
  | exit => [.holds 1]

/-- The fault of a check that is not passed. -/
def Fault.unless (e : Fault) (passed : Prop) [Decidable passed] : Option Fault :=
  if passed then none else some e

/-- The signed word points to one of `size` places. -/
def PointsInto (size : Nat) (index : Int64) : Prop := 0 ≤ index.toInt ∧ index.toInt < size

instance (size : Nat) (index : Int64) : Decidable (PointsInto size index) :=
  inferInstanceAs (Decidable (_ ∧ _))

namespace State

/-- The value of the active frame that is `place` places beneath the top of its stack. -/
def operand? (s : State) (place : Nat) : Option Value := s.calls.active.stack.values[place]?

/-- The number of values that the active frame has beneath that place. -/
def depthBeneath (s : State) (place : Nat) : Nat := s.calls.active.stack.depth - (place + 1)

end State

/-- What the check finds wrong with instruction `i` in state `s`. -/
def Check.fault (m : Machine) (s : State) (i : Instruction) : Check → Option Fault
  | operand => (Fault.typeMismatch .integer i.operand.kind).unless (i.operand.kind = .integer)
  | slot => do
    let n ← i.operand.integer?
    (Fault.localIndexOutOfBounds n).unless (PointsInto m.config.localsCapacity n)
  | argument => do
    let n ← i.operand.integer?
    (Fault.argumentIndexOutOfBounds n).unless (PointsInto s.calls.active.arguments.length n)
  | target => do
    let n ← i.operand.integer?
    (Fault.invalidJumpTarget n).unless (PointsInto m.program.size n)
  | holds n => Fault.stackUnderflow.unless (n ≤ s.calls.active.stack.depth)
  | kind place expected => do
    let v ← s.operand? place
    (Fault.typeMismatch expected v.kind).unless (v.kind = expected)
  | address => do
    let n ← (← s.operand? 0).integer?
    (Fault.invalidReturnAddress n).unless (PointsInto m.program.size n)
  | count place => do
    let n ← (← s.operand? place).integer?
    (Fault.invalidArgumentCount n).unless (0 ≤ n.toInt)
  | arguments place reserved => do
    let n ← (← s.operand? place).integer?
    let needed := n.toInt.toNat + reserved
    let available := s.depthBeneath place
    (Fault.argumentCountMismatch needed available).unless (needed ≤ available)
  | room =>
    (Fault.callStackOverflow m.config.maxCallDepth).unless (s.depth < m.config.maxCallDepth)
  | reply =>
    match s.calls.active.stack.values with
    | .native name :: .integer n :: rest =>
      match (m.natives name (rest.take n.toInt.toNat).reverse).result with
      | .error e => some e
      | .ok _ => none
    | _ => none

/-- The first fault that the checks of instruction `i` find in state `s`. -/
def State.firstFault (m : Machine) (s : State) (i : Instruction) : Option Fault :=
  i.opcode.checks.findSome? (·.fault m s i)

namespace Value

@[simp] theorem kind_integer (n : Int64) : (integer n).kind = .integer := rfl

@[simp] theorem kind_double (d : Double) : (double d).kind = .double := rfl

@[simp] theorem kind_native (name : NativeName) : (native name).kind = .native := rfl

@[simp] theorem integer?_integer (n : Int64) : (integer n).integer? = some n := rfl

end Value

namespace OperandStack

@[simp] theorem depth_empty : ({} : OperandStack).depth = 0 := rfl

end OperandStack

namespace Fault

variable {e : Fault} {passed : Prop} [Decidable passed]

@[simp] theorem unless_of_passed (h : passed) : e.unless passed = none := if_pos h

@[simp] theorem unless_of_not (h : ¬ passed) : e.unless passed = some e := if_neg h

end Fault

theorem not_pointsInto_iff {size : Nat} {index : Int64} :
    ¬ PointsInto size index ↔ index.toInt < 0 ∨ (size : Int) ≤ index.toInt := by
  unfold PointsInto
  omega

theorem Locals.pointsInto_of_load {l : Locals} {slot : Int64} {v : Value}
    (h : l.load slot = .ok v) : PointsInto l.capacity slot := by
  by_contra hout
  rw [Locals.load_of_out (not_pointsInto_iff.1 hout)] at h
  cases h

theorem Locals.pointsInto_of_store {l l' : Locals} {slot : Int64} {v : Value}
    (h : l.store slot v = .ok l') : PointsInto l.capacity slot := by
  by_contra hout
  rw [Locals.store_of_out (not_pointsInto_iff.1 hout)] at h
  cases h

theorem Frame.pointsInto_of_argument {f : Frame} {index : Int64} {v : Value}
    (h : f.argument index = .ok v) : PointsInto f.arguments.length index := by
  by_contra hout
  rw [argument_eq_error_iff.2 ⟨not_pointsInto_iff.1 hout, rfl⟩] at h
  cases h

theorem Program.pointsInto_of_target? {p : Program} {t : Int64} {n : Nat}
    (h : p.target? t = some n) : PointsInto p.size t := by
  obtain ⟨ht, hlt⟩ := target?_eq_some_iff.1 h
  constructor <;> omega

namespace State

variable {m : Machine} {s u : State} {i : Instruction} {e : Fault}

section Arguments

variable {place reserved : Nat} {above : OperandStack}

/-- `above` is what the active frame has on its stack beneath the `place` top values. -/
def Beneath (s : State) (place : Nat) (above : OperandStack) : Prop :=
  ∃ front : List Value, front.length = place
    ∧ s.calls.active.stack.values = front ++ above.values

theorem beneath_zero (s : State) : s.Beneath 0 s.calls.active.stack := ⟨[], rfl, rfl⟩

theorem beneath_one {v : Value} (h : s.calls.active.stack = above.push v) : s.Beneath 1 above :=
  ⟨[v], rfl, by rw [h]; rfl⟩

theorem Beneath.depth_eq (h : s.Beneath place above) :
    s.calls.active.stack.depth = place + above.depth := by
  obtain ⟨front, rfl, hs⟩ := h
  rw [OperandStack.depth, hs, List.length_append]
  rfl

theorem Beneath.operand?_eq (h : s.Beneath place above) : s.operand? place = above.values[0]? := by
  obtain ⟨front, rfl, hs⟩ := h
  rw [operand?, hs, List.getElem?_append_right (Nat.le_refl _), Nat.sub_self]

theorem Beneath.depthBeneath_eq (h : s.Beneath place above) :
    s.depthBeneath place = above.depth - 1 := by
  rw [depthBeneath, h.depth_eq]
  omega

theorem Beneath.forArguments_of_fails (hs : s.Beneath place above)
    (h : above.CountFails reserved e) :
    (Check.forArguments place reserved).findSome? (·.fault m s i) = some e := by
  have hdepth := hs.depth_eq
  have hcount := hs.operand?_eq
  cases h with
  | pop h =>
    cases h with
    | empty h => simp [Check.forArguments, Check.fault, hdepth, h]
    | mismatch top h => simp [Check.forArguments, Check.fault, hdepth, hcount, top, h]
  | negative top h =>
    simp [Check.forArguments, Check.fault, hdepth, hcount, top, Int.not_le.2 h]
  | @short rest n count top hn h =>
    have hneg : 0 ≤ n.toInt := by omega
    have hneeded : n.toNatClampNeg = count := by
      rw [← Int64.toNat_toInt]
      omega
    simp [Check.forArguments, Check.fault, hdepth, hcount, hs.depthBeneath_eq, top, hneg, hneeded,
      Nat.not_le.2 h]

theorem Beneath.forArguments_of_popArguments {rest : OperandStack} {arguments : List Value}
    (hs : s.Beneath place above) (h : above.popArguments reserved = .ok (arguments, rest)) :
    (Check.forArguments place reserved).findSome? (·.fault m s i) = none := by
  have hdepth := hs.depth_eq
  have hcount := hs.operand?_eq
  obtain ⟨n, hv, hn, hle⟩ := OperandStack.values_of_popArguments h
  have habove : above.depth = arguments.length + rest.values.length + 1 := by
    simp [OperandStack.depth, hv]
  have hneg : 0 ≤ n.toInt := by omega
  have hneeded : n.toNatClampNeg + reserved ≤ arguments.length + rest.values.length := by
    rw [← Int64.toNat_toInt]
    omega
  simp [Check.forArguments, Check.fault, hdepth, hcount, hs.depthBeneath_eq, hv, habove, hneg,
    hneeded]

/-- With its target in the program, a call needs its arguments and room for a frame. -/
theorem firstFault_of_call {target : Nat} (op : i.opcode = .call)
    (goal : m.program.branchTarget i = .ok target) :
    s.firstFault m i =
      ((Check.forArguments 0 1).findSome? (·.fault m s i)).or (Check.room.fault m s i) := by
  obtain ⟨t, operand, ht⟩ := Program.branchTarget_eq_ok_iff.1 goal
  have htarget := Program.pointsInto_of_target? ht
  rw [firstFault, op, Opcode.checks, List.findSome?_append, List.findSome?_append]
  simp [Check.fault, operand, htarget]

/-- With a native function on top, an `execute` needs arguments for it and its answer. -/
theorem firstFault_of_execute {name : NativeName} (op : i.opcode = .execute)
    (handle : s.calls.active.stack = above.push (.native name)) :
    s.firstFault m i =
      ((Check.forArguments 1 0).findSome? (·.fault m s i)).or (Check.reply.fault m s i) := by
  rw [firstFault, op, Opcode.checks, List.findSome?_append, List.findSome?_append]
  simp [Check.fault, operand?, handle]

/-- The check of the answer asks what the instruction asks. -/
theorem fault_reply {name : NativeName} {stack : OperandStack} {arguments : List Value}
    (handle : s.calls.active.stack = above.push (.native name))
    (top : above.popArguments 0 = .ok (arguments, stack)) :
    Check.reply.fault m s i =
      match (m.natives name arguments).result with
      | .error e => some e
      | .ok _ => none := by
  obtain ⟨n, hv, hn, -⟩ := OperandStack.values_of_popArguments top
  have htake : n.toNatClampNeg = arguments.length := by
    rw [← Int64.toNat_toInt]
    omega
  simp [Check.fault, handle, hv, htake]

end Arguments

theorem firstFault_of_breaks (hs : s.Sized m.config) (h : s.Breaks m i e u) :
    s.firstFault m i = some e := by
  cases h with
  | mishap h =>
    cases h with
    | operand op h =>
      rcases op with op | op | op <;> simp [firstFault, op, Opcode.checks, Check.fault, h]
    | load op operand h =>
      rw [← not_pointsInto_iff, hs.capacity_view] at h
      simp [firstFault, op, Opcode.checks, Check.fault, operand, h]
    | storeEmpty op operand h =>
      rw [view_stack] at h
      simp [firstFault, op, Opcode.checks, Check.fault, operand, h]
    | store op operand top h =>
      rw [view_stack] at top
      rw [← not_pointsInto_iff, hs.capacity_view] at h
      simp [firstFault, op, Opcode.checks, Check.fault, operand, top, h]
    | arg op operand h =>
      rw [← not_pointsInto_iff, view_arguments] at h
      simp [firstFault, op, Opcode.checks, Check.fault, operand, h]
    | target op h =>
      cases h with
      | operand h =>
        rcases op with op | op | op <;> simp [firstFault, op, Opcode.checks, Check.fault, h]
      | outside operand h =>
        rw [← not_pointsInto_iff] at h
        rcases op with op | op | op <;>
          simp [firstFault, op, Opcode.checks, Check.fault, operand, h]
    | retPop op h =>
      rw [view_stack] at h
      cases h with
      | empty h => simp [firstFault, op, Opcode.checks, Check.fault, h]
      | mismatch top h => simp [firstFault, op, Opcode.checks, Check.fault, operand?, top, h]
    | ret op top h =>
      rw [view_stack] at top
      rw [← not_pointsInto_iff] at h
      simp [firstFault, op, Opcode.checks, Check.fault, operand?, top, h]
    | addShort op h =>
      rw [view_stack] at h
      simp [firstFault, op, Opcode.checks, Check.fault, Nat.not_le.2 h]
    | addRight op top h =>
      rw [view_stack] at top
      simp [firstFault, op, Opcode.checks, Check.fault, operand?, top, h]
    | addLeft op top h =>
      rw [view_stack] at top
      simp [firstFault, op, Opcode.checks, Check.fault, operand?, top, h]
    | call op goal h =>
      rw [view_stack] at h
      rw [firstFault_of_call op goal, s.beneath_zero.forArguments_of_fails h, Option.some_or]
    | executePop op h =>
      rw [view_stack] at h
      cases h with
      | empty h => simp [firstFault, op, Opcode.checks, Check.fault, h]
      | mismatch top h => simp [firstFault, op, Opcode.checks, Check.fault, operand?, top, h]
    | execute op handle h =>
      rw [view_stack] at handle
      rw [firstFault_of_execute op handle, (beneath_one handle).forArguments_of_fails h,
        Option.some_or]
    | exit op h =>
      rw [view_stack] at h
      simp [firstFault, op, Opcode.checks, Check.fault, h]
  | refusal op handle top reply =>
    rw [firstFault_of_execute op handle, (beneath_one handle).forArguments_of_popArguments top,
      Option.none_or, fault_reply handle top, reply]
  | overflow op goal top full =>
    have hroom := Nat.not_lt.2 full
    rw [hs.maxDepth] at hroom
    rw [firstFault_of_call op goal, s.beneath_zero.forArguments_of_popArguments top,
      Option.none_or, hs.maxDepth]
    exact Fault.unless_of_not hroom

/-- What does not fail passes every check. -/
theorem firstFault_of_effect {a : Action} (hs : s.Sized m.config)
    (h : s.view.Effect m.program i a) (hnot : ∀ e u, ¬ s.Breaks m i e u) :
    s.firstFault m i = none := by
  cases h with
  | push op => simp [firstFault, op, Opcode.checks]
  | load op operand value =>
    have hin := Locals.pointsInto_of_load value
    rw [hs.capacity_view] at hin
    simp [firstFault, op, Opcode.checks, Check.fault, operand, hin]
  | store op operand top stored =>
    have hin := Locals.pointsInto_of_store stored
    rw [hs.capacity_view] at hin
    rw [view_stack] at top
    simp [firstFault, op, Opcode.checks, Check.fault, operand, top, hin]
  | arg op operand value =>
    have hin := Frame.pointsInto_of_argument value
    rw [view_arguments] at hin
    simp [firstFault, op, Opcode.checks, Check.fault, operand, hin]
  | jump op goal =>
    obtain ⟨t, operand, ht⟩ := Program.branchTarget_eq_ok_iff.1 goal
    simp [firstFault, op, Opcode.checks, Check.fault, operand, Program.pointsInto_of_target? ht]
  | gosub op goal =>
    obtain ⟨t, operand, ht⟩ := Program.branchTarget_eq_ok_iff.1 goal
    simp [firstFault, op, Opcode.checks, Check.fault, operand, Program.pointsInto_of_target? ht]
  | ret op top goal =>
    rw [view_stack] at top
    simp [firstFault, op, Opcode.checks, Check.fault, operand?, top,
      Program.pointsInto_of_target? goal]
  | addDoubles op top =>
    rw [view_stack] at top
    simp [firstFault, op, Opcode.checks, Check.fault, operand?, top]
  | call op goal top =>
    rw [view_stack] at top
    have hroom : s.depth < m.config.maxCallDepth := by
      rw [← hs.maxDepth]
      by_contra hfull
      exact hnot _ _ (.overflow op goal top (Nat.not_lt.1 hfull))
    rw [firstFault_of_call op goal, s.beneath_zero.forArguments_of_popArguments top,
      Option.none_or]
    exact Fault.unless_of_passed hroom
  | @execute name above stack arguments op handle top =>
    rw [view_stack] at handle
    rw [firstFault_of_execute op handle, (beneath_one handle).forArguments_of_popArguments top,
      Option.none_or, fault_reply handle top]
    rcases hreply : (m.natives name arguments).result with e | v
    · exact absurd (.refusal op handle top hreply) (hnot _ _)
    · rfl
  | exit op top =>
    rw [view_stack] at top
    simp [firstFault, op, Opcode.checks, Check.fault, top]

theorem breaks_iff_firstFault (hs : s.Sized m.config) :
    (∃ u, s.Breaks m i e u) ↔ s.firstFault m i = some e := by
  constructor
  · rintro ⟨u, h⟩
    exact firstFault_of_breaks hs h
  · intro h
    rcases ha : s.view.act m.program i with e' | a
    · have hbreaks : s.Breaks m i e' s.tick := .mishap (Frame.mishap_of_act ha)
      rw [firstFault_of_breaks hs hbreaks] at h
      cases h
      exact ⟨_, hbreaks⟩
    · by_contra hnone
      have hnot : ∀ e' u, ¬ s.Breaks m i e' u := by
        intro e' u hbreaks
        rw [firstFault_of_breaks hs hbreaks] at h
        cases h
        exact hnone ⟨u, hbreaks⟩
      rw [firstFault_of_effect hs (Frame.effect_of_act ha) hnot] at h
      cases h

end State

namespace Machine

/-- An instruction fails where one of its checks does. In every state that a run reaches, whatever
instruction is carried out there, the step ends the run with a fault exactly if one of the checks of
the opcode finds that fault and those before it find none; and so does the turn, if it has come to
dispatch the instruction. -/
theorem execute_faults_iff {m : Machine} {arguments : List Value} {n : Nat} {s : State}
    (h : m.At arguments n s) (i : Instruction) (e : Fault) :
    ((∃ u, (s.tick.execute m i).2 = .faulted e u) ↔ s.firstFault m i = some e)
    ∧ (s.Dispatches m i → ((∃ u, (s.turn m).2 = .faulted e u) ↔ s.firstFault m i = some e)) := by
  have hexecute : (∃ u, (s.tick.execute m i).2 = .faulted e u) ↔ s.firstFault m i = some e := by
    rw [← State.breaks_iff_firstFault (State.sized_at h)]
    exact exists_congr fun u => ⟨State.breaks_of_execute, State.execute_of_breaks⟩
  refine ⟨hexecute, fun hd => ?_⟩
  rw [State.turn_of_dispatches hd]
  exact hexecute

/-- Calls with a count of 5 above one value. -/
def overdrawn : Machine where
  program := .ofList [⟨.push, .integer 7⟩, ⟨.push, .integer 5⟩, ⟨.call, .integer 0⟩]
  config := { localsCapacity := 1, localsModel := .perFrame }
  natives _ _ := ⟨.ok .null, []⟩

/-- About to call. -/
def overdrawnCalling : State where
  calls :=
    { active := { stack := .ofList [.integer 7, .integer 5], locals := .blank 1, pc := 2 }
      maxDepth := 1024 }
  registers := none
  steps := 2

/-- The count is wrong, but of a call to nowhere the target is found first. -/
theorem overdrawn_faults :
    overdrawn.At [] 2 overdrawnCalling
      ∧ (∃ u, (overdrawnCalling.turn overdrawn).2 = .faulted (.argumentCountMismatch 6 1) u)
      ∧ ∃ u, (overdrawnCalling.tick.execute overdrawn ⟨.call, .integer 3⟩).2 =
        .faulted (.invalidJumpTarget 3) u := by
  have h : overdrawn.At [] 2 overdrawnCalling := rfl
  have hd : overdrawnCalling.Dispatches overdrawn ⟨.call, .integer 0⟩ := ⟨rfl, nofun⟩
  exact ⟨h, ((execute_faults_iff h _ _).2 hd).2 rfl, (execute_faults_iff h _ _).1.2 rfl⟩

end Machine

end FrameMachine
