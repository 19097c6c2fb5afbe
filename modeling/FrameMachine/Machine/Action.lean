import FrameMachine.Frame
import FrameMachine.Program

/-!
# What an instruction asks for

The part of an instruction that one frame can do alone: it reads and moves the frame's own values
and says what is left to do. Callers, spent frames, counters and native functions do not appear, so
none of them can bear on it.
-/

namespace FrameMachine

/-- What is left to do after the active frame has done its part. -/
inductive Action
  /-- Nothing: the frame goes on at the index it holds. -/
  | proceed (f : Frame)
  /-- Enter a frame at `target` with the arguments taken off the caller. -/
  | enter (target : Nat) (arguments : List Value) (caller : Frame)
  /-- Ask a native function for the value to push. -/
  | invoke (native : NativeName) (arguments : List Value) (f : Frame)
  /-- Give the result to the caller. -/
  | leave (result : Value) (f : Frame)

namespace OperandStack

/-- Takes an argument count and checks that so many values and `reserved` more are beneath it. -/
def popCount (reserved : Nat) (s : OperandStack) : Except Fault (Nat × OperandStack) := do
  let (popped, s) := s.popInteger
  let raw ← popped
  match position? raw with
  | none => throw (.invalidArgumentCount raw)
  | some count =>
    if s.depth < count + reserved then
      throw (.argumentCountMismatch (count + reserved) s.depth)
    return (count, s)

/-- Takes a count and that many arguments, in push order, leaving at least `reserved` values. -/
def popArguments (reserved : Nat) (s : OperandStack) :
    Except Fault (List Value × OperandStack) := do
  let (count, s) ← s.popCount reserved
  let arguments ← s.top count
  return (arguments, ← s.discard count)

end OperandStack

/-- The instruction index that the operand points at. -/
def Program.branchTarget (p : Program) (i : Instruction) : Except Fault Nat := do
  let t ← i.integerOperand
  match p.target? t with
  | some target => return target
  | none => throw (.invalidJumpTarget t)

namespace Frame

/-- The frame with `v` on its stack. -/
def push (f : Frame) (v : Value) : Frame := { f with stack := f.stack.push v }

/-- What instruction `i` of program `p` does in frame `f`, whose locals are those that `load` and
`store` reach. -/
def act (p : Program) (f : Frame) (i : Instruction) : Except Fault Action :=
  match i.opcode with
  | .push => return .proceed (f.push i.operand).advance
  | .load => do
    let v ← f.locals.load (← i.integerOperand)
    return .proceed (f.push v).advance
  | .store => do
    let index ← i.integerOperand
    let (popped, stack) := f.stack.pop
    let locals ← f.locals.store index (← popped)
    return .proceed { f with stack, locals }.advance
  | .arg => do
    let v ← f.argument (← i.integerOperand)
    return .proceed (f.push v).advance
  | .jump => do
    return .proceed (f.jump (← p.branchTarget i))
  | .gosub => do
    let target ← p.branchTarget i
    return .proceed ((f.push (.integer (.ofNat (f.pc + 1)))).jump target)
  | .ret => do
    let (popped, stack) := f.stack.popInteger
    let address ← popped
    match p.target? address with
    | some target => return .proceed ({ f with stack }.jump target)
    | none => throw (.invalidReturnAddress address)
  | .addDoubles => do
    f.stack.require 2
    let (popped, stack) := f.stack.popDouble
    let rhs ← popped
    let (popped, stack) := stack.popDouble
    let lhs ← popped
    return .proceed ({ f with stack }.push (.double (lhs + rhs))).advance
  | .call => do
    let target ← p.branchTarget i
    let (arguments, stack) ← f.stack.popArguments 1
    return .enter target arguments { f with stack }.advance
  | .execute => do
    let (popped, stack) := f.stack.popNative
    let native ← popped
    let (arguments, stack) ← stack.popArguments 0
    return .invoke native arguments { f with stack }
  | .exit => do
    let (popped, stack) := f.stack.pop
    return .leave (← popped) { f with stack }

end Frame

end FrameMachine
