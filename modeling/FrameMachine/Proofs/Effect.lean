import FrameMachine.Proofs.Operands

/-!
# What an instruction does when it does not fail

`Frame.Effect` lists the actions that `Frame.act` can ask for, with what each needs of the frame;
`act_eq_ok_iff` says that the list is right. Proofs about single instructions go by its cases.
-/

namespace FrameMachine

theorem Program.target?_eq_some_iff {p : Program} {t : Int64} {n : Nat} :
    p.target? t = some n ↔ t.toInt = n ∧ n < p.size :=
  positionBelow?_eq_some

theorem Program.branchTarget_eq_ok_iff {p : Program} {i : Instruction} {n : Nat} :
    p.branchTarget i = .ok n ↔ ∃ t, i.operand = .integer t ∧ p.target? t = some n := by
  unfold branchTarget Instruction.integerOperand
  simp only [bind_eq_ok, Value.asInteger_eq_ok_iff]
  refine exists_congr fun t => and_congr_right fun _ => ?_
  split
  · rename_i m hm
    simp [pure, Except.pure, hm]
  · rename_i hm
    simp [throw, throwThe, MonadExceptOf.throw, hm]

/-- The active frame once an action has its part of it. -/
def Action.frame : Action → Frame
  | proceed f => f
  | enter _ _ caller => caller
  | invoke _ _ f => f
  | leave _ f => f

namespace Frame

/-- What instruction `i` asks for in frame `f`, by opcode. -/
inductive Effect (p : Program) (f : Frame) (i : Instruction) : Action → Prop
  | push (op : i.opcode = .push) : Effect p f i (.proceed (f.push i.operand).advance)
  | load {index : Int64} {v : Value} (op : i.opcode = .load) (operand : i.operand = .integer index)
      (value : f.locals.load index = .ok v) : Effect p f i (.proceed (f.push v).advance)
  | store {index : Int64} {v : Value} {stack : OperandStack} {locals : Locals}
      (op : i.opcode = .store) (operand : i.operand = .integer index)
      (top : f.stack = stack.push v) (stored : f.locals.store index v = .ok locals) :
      Effect p f i (.proceed { f with stack, locals }.advance)
  | arg {index : Int64} {v : Value} (op : i.opcode = .arg) (operand : i.operand = .integer index)
      (value : f.argument index = .ok v) : Effect p f i (.proceed (f.push v).advance)
  | jump {target : Nat} (op : i.opcode = .jump) (goal : p.branchTarget i = .ok target) :
      Effect p f i (.proceed (f.jump target))
  | gosub {target : Nat} (op : i.opcode = .gosub) (goal : p.branchTarget i = .ok target) :
      Effect p f i (.proceed ((f.push (.integer (.ofNat (f.pc + 1)))).jump target))
  | ret {address : Int64} {stack : OperandStack} {target : Nat} (op : i.opcode = .ret)
      (top : f.stack = stack.push (.integer address)) (goal : p.target? address = some target) :
      Effect p f i (.proceed ({ f with stack }.jump target))
  | addDoubles {lhs rhs : Double} {stack : OperandStack} (op : i.opcode = .addDoubles)
      (top : f.stack = (stack.push (.double lhs)).push (.double rhs)) :
      Effect p f i (.proceed ({ f with stack }.push (.double (lhs + rhs))).advance)
  | call {target : Nat} {arguments : List Value} {stack : OperandStack} (op : i.opcode = .call)
      (goal : p.branchTarget i = .ok target)
      (top : f.stack.popArguments 1 = .ok (arguments, stack)) :
      Effect p f i (.enter target arguments { f with stack }.advance)
  | execute {name : NativeName} {above stack : OperandStack} {arguments : List Value}
      (op : i.opcode = .execute) (handle : f.stack = above.push (.native name))
      (top : above.popArguments 0 = .ok (arguments, stack)) :
      Effect p f i (.invoke name arguments { f with stack })
  | exit {v : Value} {stack : OperandStack} (op : i.opcode = .exit)
      (top : f.stack = stack.push v) : Effect p f i (.leave v { f with stack })

variable {p : Program} {f : Frame} {i : Instruction} {a : Action}

theorem effect_of_act (h : f.act p i = .ok a) : f.Effect p i a := by
  unfold act Instruction.integerOperand at h
  split at h <;> rename_i op <;>
    simp only [bind_eq_ok, pure, Except.pure, throw, throwThe, MonadExceptOf.throw] at h
  · cases h
    exact .push op
  · obtain ⟨index, hi, v, hv, h⟩ := h
    cases h
    exact .load op (Value.asInteger_eq_ok_iff.1 hi) hv
  · obtain ⟨index, hi, v, hp, locals, hl, h⟩ := h
    cases h
    exact .store op (Value.asInteger_eq_ok_iff.1 hi) (OperandStack.pop_eq_ok_iff.1 hp) hl
  · obtain ⟨index, hi, v, hv, h⟩ := h
    cases h
    exact .arg op (Value.asInteger_eq_ok_iff.1 hi) hv
  · obtain ⟨target, ht, h⟩ := h
    cases h
    exact .jump op ht
  · obtain ⟨target, ht, h⟩ := h
    cases h
    exact .gosub op ht
  · obtain ⟨address, hp, h⟩ := h
    split at h
    · rename_i target ht
      cases h
      exact .ret op (OperandStack.popInteger_eq_ok_iff.1 hp) ht
    · cases h
  · obtain ⟨-, -, rhs, hr, lhs, hl, h⟩ := h
    cases h
    refine .addDoubles op ?_
    rw [← OperandStack.popDouble_eq_ok_iff.1 hl, ← OperandStack.popDouble_eq_ok_iff.1 hr]
  · obtain ⟨target, ht, ⟨arguments, stack⟩, ha, h⟩ := h
    cases h
    exact .call op ht ha
  · obtain ⟨name, hn, ⟨arguments, stack⟩, ha, h⟩ := h
    cases h
    exact .execute op (OperandStack.popNative_eq_ok_iff.1 hn) ha
  · obtain ⟨v, hp, h⟩ := h
    cases h
    exact .exit op (OperandStack.pop_eq_ok_iff.1 hp)

theorem act_of_effect (h : f.Effect p i a) : f.act p i = .ok a := by
  unfold act Instruction.integerOperand
  cases h with
  | push op => simp only [op]; rfl
  | load op operand value =>
    simp only [op, operand, Value.asInteger]
    simp [bind, Except.bind, value, pure, Except.pure]
  | store op operand top stored =>
    simp only [op, operand, Value.asInteger, top, OperandStack.pop_push]
    simp [bind, Except.bind, stored, pure, Except.pure]
  | arg op operand value =>
    simp only [op, operand, Value.asInteger]
    simp [bind, Except.bind, value, pure, Except.pure]
  | jump op goal => simp only [op, goal]; rfl
  | gosub op goal => simp only [op, goal]; rfl
  | ret op top goal =>
    simp only [op, top, OperandStack.popInteger_push]
    simp [bind, Except.bind, goal, pure, Except.pure]
  | @addDoubles lhs rhs stack op top =>
    have hr : ((stack.push (.double lhs)).push (.double rhs)).require 2 = .ok () :=
      OperandStack.require_eq_ok (by simp)
    simp only [op, top, OperandStack.popDouble_push, hr]
    rfl
  | call op goal top =>
    simp only [op, goal, top]
    rfl
  | execute op handle top =>
    simp only [op, handle, OperandStack.popNative_push]
    simp [bind, Except.bind, top, pure, Except.pure]
  | exit op top => simp only [op, top, OperandStack.pop_push]; rfl

theorem act_eq_ok_iff : f.act p i = .ok a ↔ f.Effect p i a :=
  ⟨effect_of_act, act_of_effect⟩

theorem Effect.opcode_of_proceed {g : Frame} (h : f.Effect p i (.proceed g)) :
    i.opcode ≠ .call ∧ i.opcode ≠ .execute ∧ i.opcode ≠ .exit := by
  cases h <;> simp [*]

theorem Effect.arguments_eq (h : f.Effect p i a) : a.frame.arguments = f.arguments := by
  cases h <;> rfl

theorem Effect.locals_eq (h : f.Effect p i a) (hi : i.opcode ≠ .store) :
    a.frame.locals = f.locals := by
  cases h with
  | store op => exact absurd op hi
  | _ => rfl

theorem Effect.capacity_eq (h : f.Effect p i a) :
    a.frame.locals.capacity = f.locals.capacity := by
  by_cases hi : i.opcode = .store
  · cases h with
    | store _ _ _ stored => exact Locals.capacity_store stored
    | _ => rfl
  · rw [h.locals_eq hi]

end Frame

end FrameMachine
