import FrameMachine.Proofs.Slots

/-!
# How an instruction fails

`Frame.Mishap` lists the faults of `Frame.act`, each with what it needs of the frame;
`act_eq_error_iff` says that the list is right. With `Frame.Effect` it says all that an instruction
can do to its frame. Operands come first; of the stack an instruction fails by what is on top, or by
how little is there.
-/

namespace FrameMachine

theorem bind_eq_error {ε α β : Type} {x : Except ε α} {g : α → Except ε β} {e : ε} :
    x >>= g = .error e ↔ x = .error e ∨ ∃ a, x = .ok a ∧ g a = .error e := by
  cases x <;> simp [bind, Except.bind]

namespace Value

theorem asInteger_eq_error_iff {v : Value} {e : Fault} :
    v.asInteger = .error e ↔ v.kind ≠ .integer ∧ e = .typeMismatch .integer v.kind := by
  cases v <;> simp [asInteger, kind, mismatch, eq_comm]

theorem asDouble_eq_error_iff {v : Value} {e : Fault} :
    v.asDouble = .error e ↔ v.kind ≠ .double ∧ e = .typeMismatch .double v.kind := by
  cases v <;> simp [asDouble, kind, mismatch, eq_comm]

theorem asNative_eq_error_iff {v : Value} {e : Fault} :
    v.asNative = .error e ↔ v.kind ≠ .native ∧ e = .typeMismatch .native v.kind := by
  cases v <;> simp [asNative, kind, mismatch, eq_comm]

end Value

namespace OperandStack

/-- How a stack fails whose top value is to be of kind `expected`. -/
inductive PopFails (expected : Kind) (s : OperandStack) : Fault → Prop
  | empty (h : s = {}) : PopFails expected s .stackUnderflow
  | mismatch {rest : OperandStack} {v : Value} (top : s = rest.push v) (h : v.kind ≠ expected) :
      PopFails expected s (.typeMismatch expected v.kind)

/-- How a stack fails that is to have a count on top of so many values and `reserved` more. -/
inductive CountFails (reserved : Nat) (s : OperandStack) : Fault → Prop
  | pop {e : Fault} (h : s.PopFails .integer e) : CountFails reserved s e
  | negative {rest : OperandStack} {n : Int64} (top : s = rest.push (.integer n))
      (h : n.toInt < 0) : CountFails reserved s (.invalidArgumentCount n)
  | short {rest : OperandStack} {n : Int64} {count : Nat} (top : s = rest.push (.integer n))
      (hn : n.toInt = count) (h : rest.depth < count + reserved) :
      CountFails reserved s (.argumentCountMismatch (count + reserved) rest.depth)

variable {s : OperandStack} {e : Fault} {reserved : Nat}

theorem pop_eq_error_iff : s.pop.1 = .error e ↔ s = {} ∧ e = .stackUnderflow := by
  rcases s with ⟨_ | ⟨v, rest⟩⟩ <;> simp [pop, eq_comm]

theorem popAs_eq_error_iff {α : Type} {as : Value → Except Fault α} {expected : Kind}
    (has : ∀ v e, as v = .error e ↔ v.kind ≠ expected ∧ e = .typeMismatch expected v.kind) :
    (s.popAs as).1 = .error e ↔ s.PopFails expected e := by
  rcases s with ⟨_ | ⟨v, rest⟩⟩
  · constructor
    · intro h
      cases h
      exact .empty rfl
    · rintro (_ | ⟨top, -⟩)
      · rfl
      · cases top
  · have hpop : (popAs as ⟨v :: rest⟩).1 = as v := rfl
    rw [hpop, has]
    constructor
    · rintro ⟨h, rfl⟩
      exact .mismatch rfl h
    · rintro (h | ⟨top, h⟩)
      · cases h
      · cases top
        exact ⟨h, rfl⟩

theorem popInteger_eq_error_iff : s.popInteger.1 = .error e ↔ s.PopFails .integer e :=
  popAs_eq_error_iff fun _ _ => Value.asInteger_eq_error_iff

theorem popNative_eq_error_iff : s.popNative.1 = .error e ↔ s.PopFails .native e :=
  popAs_eq_error_iff fun _ _ => Value.asNative_eq_error_iff

theorem require_eq_error_iff {n : Nat} :
    s.require n = .error e ↔ s.depth < n ∧ e = .stackUnderflow := by
  unfold require
  split_ifs with h <;> simp [h, eq_comm]

/-- With two values there, two pops find them. -/
theorem push_push_of_require (h : s.require 2 = .ok ()) :
    ∃ (lhs rhs : Value) (rest : OperandStack), s = (rest.push lhs).push rhs := by
  rcases s with ⟨_ | ⟨rhs, _ | ⟨lhs, rest⟩⟩⟩
  · cases h
  · cases h
  · exact ⟨lhs, rhs, ⟨rest⟩, rfl⟩

theorem popCount_eq_error_iff : s.popCount reserved = .error e ↔ s.CountFails reserved e := by
  unfold popCount
  simp only [bind_eq_error, popInteger_eq_error_iff, popInteger_eq_ok_iff]
  constructor
  · rintro (h | ⟨n, top, h⟩)
    · exact .pop h
    · split at h
      · rename_i hn
        cases h
        exact .negative top (position?_eq_none.1 hn)
      · rename_i count hn
        split_ifs at h with hlt
        · cases h
          exact .short top (position?_eq_some.1 hn) hlt
        · cases h
  · rintro (h | ⟨top, h⟩ | ⟨top, hn, h⟩)
    · exact .inl h
    · subst top
      refine .inr ⟨_, rfl, ?_⟩
      rw [position?_eq_none.2 h]
      rfl
    · subst top
      refine .inr ⟨_, rfl, ?_⟩
      rw [position?_eq_some.2 hn]
      simp [h, throw, throwThe, MonadExceptOf.throw]

/-- A count that is accepted has its values beneath it. -/
theorem top_discard_of_popCount {rest : OperandStack} {count : Nat}
    (h : s.popCount reserved = .ok (count, rest)) :
    ∃ arguments kept, rest.top count = .ok arguments ∧ rest.discard count = .ok kept := by
  obtain ⟨n, -, -, hle⟩ := popCount_eq_ok_iff.1 h
  have hcount : count ≤ rest.depth := by omega
  exact ⟨_, _, top_eq_ok hcount, discard_eq_ok hcount⟩

theorem popArguments_eq_error_iff :
    s.popArguments reserved = .error e ↔ s.CountFails reserved e := by
  rw [← popCount_eq_error_iff]
  unfold popArguments
  rcases h : s.popCount reserved with e' | ⟨count, rest⟩
  · simp [bind, Except.bind]
  · obtain ⟨arguments, kept, ht, hd⟩ := top_discard_of_popCount h
    simp [bind, Except.bind, ht, hd, pure, Except.pure]

end OperandStack

theorem Locals.load_eq_error_iff {l : Locals} {slot : Int64} {e : Fault} :
    l.load slot = .error e ↔
      (slot.toInt < 0 ∨ (l.capacity : Int) ≤ slot.toInt) ∧ e = .localIndexOutOfBounds slot := by
  by_cases h : slot.toInt < 0 ∨ (l.capacity : Int) ≤ slot.toInt
  · simp [Locals.load_of_out h, h, eq_comm]
  · obtain ⟨v, hv⟩ : ∃ v, l.load slot = .ok v := Locals.load_of_lt (by omega) (by omega)
    simp [hv, h]

theorem Locals.store_eq_error_iff {l : Locals} {slot : Int64} {v : Value} {e : Fault} :
    l.store slot v = .error e ↔
      (slot.toInt < 0 ∨ (l.capacity : Int) ≤ slot.toInt) ∧ e = .localIndexOutOfBounds slot := by
  by_cases h : slot.toInt < 0 ∨ (l.capacity : Int) ≤ slot.toInt
  · simp [Locals.store_of_out h, h, eq_comm]
  · obtain ⟨l', hl⟩ : ∃ l', l.store slot v = .ok l' := Locals.store_of_lt (by omega) (by omega) v
    simp [hl, h]

theorem Instruction.integerOperand_eq_error_iff {i : Instruction} {e : Fault} :
    i.integerOperand = .error e ↔
      i.operand.kind ≠ .integer ∧ e = .typeMismatch .integer i.operand.kind :=
  Value.asInteger_eq_error_iff

theorem Program.fetch_eq_ok_iff {p : Program} {n : Nat} {i : Instruction} :
    p.fetch n = .ok i ↔ p.get? n = some i := by
  unfold fetch
  cases p.get? n <;> simp

theorem Program.fetch_eq_error_iff {p : Program} {pc : Nat} {e : Fault} :
    p.fetch pc = .error e ↔ p.size ≤ pc ∧ e = .programCounterOutOfBounds pc := by
  unfold fetch get? size
  rcases h : p.code[pc]? with _ | i
  · simp [Array.getElem?_eq_none_iff.1 h, eq_comm]
  · obtain ⟨hlt, -⟩ := Array.getElem?_eq_some_iff.1 h
    simp [Nat.not_le.2 hlt]

/-- How the target of a branch fails. -/
inductive Program.BranchFails (p : Program) (i : Instruction) : Fault → Prop
  | operand (h : i.operand.kind ≠ .integer) :
      BranchFails p i (.typeMismatch .integer i.operand.kind)
  | outside {t : Int64} (operand : i.operand = .integer t)
      (h : t.toInt < 0 ∨ (p.size : Int) ≤ t.toInt) : BranchFails p i (.invalidJumpTarget t)

theorem Program.branchTarget_eq_error_iff {p : Program} {i : Instruction} {e : Fault} :
    p.branchTarget i = .error e ↔ p.BranchFails i e := by
  unfold branchTarget
  simp only [bind_eq_error, Instruction.integerOperand_eq_error_iff]
  constructor
  · rintro (⟨h, rfl⟩ | ⟨t, ht, h⟩)
    · exact .operand h
    · split at h
      · cases h
      · rename_i hnone
        cases h
        exact .outside (Value.asInteger_eq_ok_iff.1 ht) (positionBelow?_eq_none.1 hnone)
  · rintro (h | ⟨operand, h⟩)
    · exact .inl ⟨h, rfl⟩
    · refine .inr ⟨_, Value.asInteger_eq_ok_iff.2 operand, ?_⟩
      rw [target?, positionBelow?_eq_none.2 h]
      rfl

namespace Frame

theorem argument_eq_error_iff {f : Frame} {index : Int64} {e : Fault} :
    f.argument index = .error e ↔
      (index.toInt < 0 ∨ (f.arguments.length : Int) ≤ index.toInt)
        ∧ e = .argumentIndexOutOfBounds index := by
  unfold argument
  rcases hn : position? index with _ | n
  · have := position?_eq_none.1 hn
    simp [this, eq_comm]
  · have := position?_eq_some.1 hn
    rcases ha : f.arguments[n]? with _ | v
    · rw [List.getElem?_eq_none_iff] at ha
      have hout : index.toInt < 0 ∨ (f.arguments.length : Int) ≤ index.toInt := by omega
      simp [ha, hout, eq_comm]
    · obtain ⟨hlt, -⟩ := List.getElem?_eq_some_iff.1 ha
      have hin : ¬ (index.toInt < 0 ∨ (f.arguments.length : Int) ≤ index.toInt) := by omega
      simp [ha, hin]

/-- How instruction `i` fails in frame `f`, by opcode and in the order of its checks. -/
inductive Mishap (p : Program) (f : Frame) (i : Instruction) : Fault → Prop
  | operand (op : i.opcode = .load ∨ i.opcode = .store ∨ i.opcode = .arg)
      (h : i.operand.kind ≠ .integer) : Mishap p f i (.typeMismatch .integer i.operand.kind)
  | load {slot : Int64} (op : i.opcode = .load) (operand : i.operand = .integer slot)
      (h : slot.toInt < 0 ∨ (f.locals.capacity : Int) ≤ slot.toInt) :
      Mishap p f i (.localIndexOutOfBounds slot)
  | storeEmpty {slot : Int64} (op : i.opcode = .store) (operand : i.operand = .integer slot)
      (h : f.stack = {}) : Mishap p f i .stackUnderflow
  | store {slot : Int64} {v : Value} {stack : OperandStack} (op : i.opcode = .store)
      (operand : i.operand = .integer slot) (top : f.stack = stack.push v)
      (h : slot.toInt < 0 ∨ (f.locals.capacity : Int) ≤ slot.toInt) :
      Mishap p f i (.localIndexOutOfBounds slot)
  | arg {index : Int64} (op : i.opcode = .arg) (operand : i.operand = .integer index)
      (h : index.toInt < 0 ∨ (f.arguments.length : Int) ≤ index.toInt) :
      Mishap p f i (.argumentIndexOutOfBounds index)
  | target {e : Fault} (op : i.opcode = .jump ∨ i.opcode = .gosub ∨ i.opcode = .call)
      (h : p.BranchFails i e) : Mishap p f i e
  | retPop {e : Fault} (op : i.opcode = .ret) (h : f.stack.PopFails .integer e) : Mishap p f i e
  | ret {address : Int64} {stack : OperandStack} (op : i.opcode = .ret)
      (top : f.stack = stack.push (.integer address))
      (h : address.toInt < 0 ∨ (p.size : Int) ≤ address.toInt) :
      Mishap p f i (.invalidReturnAddress address)
  | addShort (op : i.opcode = .addDoubles) (h : f.stack.depth < 2) : Mishap p f i .stackUnderflow
  | addRight {lhs rhs : Value} {stack : OperandStack} (op : i.opcode = .addDoubles)
      (top : f.stack = (stack.push lhs).push rhs) (h : rhs.kind ≠ .double) :
      Mishap p f i (.typeMismatch .double rhs.kind)
  | addLeft {lhs : Value} {rhs : Double} {stack : OperandStack} (op : i.opcode = .addDoubles)
      (top : f.stack = (stack.push lhs).push (.double rhs)) (h : lhs.kind ≠ .double) :
      Mishap p f i (.typeMismatch .double lhs.kind)
  | call {e : Fault} {target : Nat} (op : i.opcode = .call) (goal : p.branchTarget i = .ok target)
      (h : f.stack.CountFails 1 e) : Mishap p f i e
  | executePop {e : Fault} (op : i.opcode = .execute) (h : f.stack.PopFails .native e) :
      Mishap p f i e
  | execute {e : Fault} {name : NativeName} {above : OperandStack} (op : i.opcode = .execute)
      (handle : f.stack = above.push (.native name)) (h : above.CountFails 0 e) : Mishap p f i e
  | exit (op : i.opcode = .exit) (h : f.stack = {}) : Mishap p f i .stackUnderflow

variable {p : Program} {f : Frame} {i : Instruction} {e : Fault}

theorem mishap_of_act (h : f.act p i = .error e) : f.Mishap p i e := by
  unfold act at h
  split at h <;> rename_i op <;>
    simp only [bind_eq_error, pure, Except.pure, throw, throwThe, MonadExceptOf.throw,
      reduceCtorEq, and_false, exists_false, or_false,
      Instruction.integerOperand_eq_error_iff] at h
  · rcases h with ⟨h, rfl⟩ | ⟨slot, hi, h⟩
    · exact .operand (.inl op) h
    · obtain ⟨hout, rfl⟩ := Locals.load_eq_error_iff.1 h
      exact .load op (Value.asInteger_eq_ok_iff.1 hi) hout
  · rcases h with ⟨h, rfl⟩ | ⟨slot, hi, h | ⟨v, hv, h⟩⟩
    · exact .operand (.inr (.inl op)) h
    · obtain ⟨hs, rfl⟩ := OperandStack.pop_eq_error_iff.1 h
      exact .storeEmpty op (Value.asInteger_eq_ok_iff.1 hi) hs
    · obtain ⟨hout, rfl⟩ := Locals.store_eq_error_iff.1 h
      exact .store op (Value.asInteger_eq_ok_iff.1 hi) (OperandStack.pop_eq_ok_iff.1 hv) hout
  · rcases h with ⟨h, rfl⟩ | ⟨index, hi, h⟩
    · exact .operand (.inr (.inr op)) h
    · obtain ⟨hout, rfl⟩ := argument_eq_error_iff.1 h
      exact .arg op (Value.asInteger_eq_ok_iff.1 hi) hout
  · exact .target (.inl op) (Program.branchTarget_eq_error_iff.1 h)
  · exact .target (.inr (.inl op)) (Program.branchTarget_eq_error_iff.1 h)
  · rcases h with h | ⟨address, ha, h⟩
    · exact .retPop op (OperandStack.popInteger_eq_error_iff.1 h)
    · split at h
      · cases h
      · rename_i hnone
        cases h
        exact .ret op (OperandStack.popInteger_eq_ok_iff.1 ha) (positionBelow?_eq_none.1 hnone)
  · rcases h with h | ⟨⟨⟩, hr, h⟩
    · obtain ⟨hshort, rfl⟩ := OperandStack.require_eq_error_iff.1 h
      exact .addShort op hshort
    · obtain ⟨lhs, rhs, stack, top⟩ := OperandStack.push_push_of_require hr
      rw [top] at h
      rcases h with h | ⟨d, hd, h⟩
      · obtain ⟨hk, rfl⟩ := Value.asDouble_eq_error_iff.1 h
        exact .addRight op top hk
      · obtain rfl := Value.asDouble_eq_ok_iff.1 hd
        obtain ⟨hk, rfl⟩ := Value.asDouble_eq_error_iff.1 h
        exact .addLeft op top hk
  · rcases h with h | ⟨target, ht, h⟩
    · exact .target (.inr (.inr op)) (Program.branchTarget_eq_error_iff.1 h)
    · exact .call op ht (OperandStack.popArguments_eq_error_iff.1 h)
  · rcases h with h | ⟨name, hn, h⟩
    · exact .executePop op (OperandStack.popNative_eq_error_iff.1 h)
    · exact .execute op (OperandStack.popNative_eq_ok_iff.1 hn)
        (OperandStack.popArguments_eq_error_iff.1 h)
  · obtain ⟨hs, rfl⟩ := OperandStack.pop_eq_error_iff.1 h
    exact .exit op hs

theorem act_of_mishap (h : f.Mishap p i e) : f.act p i = .error e := by
  cases h with
  | operand op h =>
    have hi := Instruction.integerOperand_eq_error_iff.2 ⟨h, rfl⟩
    rcases op with op | op | op <;> simp only [act, op, hi] <;> rfl
  | load op operand h =>
    rw [act_load op operand, Locals.load_of_out h]
    rfl
  | storeEmpty op operand h =>
    rw [act_store op operand, h]
    rfl
  | store op operand top h =>
    rw [act_store op operand, top, OperandStack.pop_push]
    simp [bind, Except.bind, Locals.store_of_out h]
  | @arg index op operand h =>
    have hi : i.integerOperand = .ok index := Value.asInteger_eq_ok_iff.2 operand
    simp only [act, op, hi]
    simp [bind, Except.bind, argument_eq_error_iff.2 ⟨h, rfl⟩]
  | target op h =>
    have hi := Program.branchTarget_eq_error_iff.2 h
    rcases op with op | op | op <;> simp only [act, op, hi] <;> rfl
  | retPop op h =>
    have hp := OperandStack.popInteger_eq_error_iff.2 h
    simp only [act, op, hp]
    rfl
  | @ret address stack op top h =>
    have hnone : p.target? address = none := positionBelow?_eq_none.2 h
    simp only [act, op, top, OperandStack.popInteger_push]
    simp [bind, Except.bind, hnone, throw, throwThe, MonadExceptOf.throw]
  | addShort op h =>
    have hr := OperandStack.require_eq_error_iff.2 ⟨h, rfl⟩
    simp only [act, op, hr]
    rfl
  | @addRight lhs rhs stack op top h =>
    have hr : ((stack.push lhs).push rhs).require 2 = .ok () :=
      OperandStack.require_eq_ok (by simp)
    have hp : ((stack.push lhs).push rhs).popDouble.1 = .error (.typeMismatch .double rhs.kind) :=
      Value.asDouble_eq_error_iff.2 ⟨h, rfl⟩
    simp only [act, op, top, hr, hp]
    rfl
  | @addLeft lhs rhs stack op top h =>
    have hr : ((stack.push lhs).push (.double rhs)).require 2 = .ok () :=
      OperandStack.require_eq_ok (by simp)
    have hp : (stack.push lhs).popDouble.1 = .error (.typeMismatch .double lhs.kind) :=
      Value.asDouble_eq_error_iff.2 ⟨h, rfl⟩
    simp only [act, op, top, hr, OperandStack.popDouble_push, hp]
    rfl
  | call op goal h =>
    have ha := OperandStack.popArguments_eq_error_iff.2 h
    simp only [act, op, goal, ha]
    rfl
  | executePop op h =>
    have hp := OperandStack.popNative_eq_error_iff.2 h
    simp only [act, op, hp]
    rfl
  | execute op handle h =>
    have ha := OperandStack.popArguments_eq_error_iff.2 h
    simp only [act, op, handle, OperandStack.popNative_push]
    simp [bind, Except.bind, ha]
  | exit op h =>
    simp only [act, op, h]
    rfl

theorem act_eq_error_iff : f.act p i = .error e ↔ f.Mishap p i e :=
  ⟨mishap_of_act, act_of_mishap⟩

end Frame

end FrameMachine
