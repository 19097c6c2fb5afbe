import FrameMachine.Value.Basic

/-!
# Instructions
-/

namespace FrameMachine

/-- What an instruction does. -/
inductive Opcode
  /-- Push the operand. -/
  | push
  /-- Push the local that the operand indexes. -/
  | load
  /-- Pop into the local that the operand indexes. -/
  | store
  /-- Push the argument that the operand indexes. -/
  | arg
  /-- Go on at the operand. -/
  | jump
  /-- Push the index of the next instruction and go on at the operand. -/
  | gosub
  /-- Pop an index and go on there. -/
  | ret
  /-- Replace the two top doubles by their sum. -/
  | addDoubles
  /-- Pop a count and that many arguments, and enter a new frame at the operand. -/
  | call
  /-- Pop a native function, a count and that many arguments, and push what the function returns. -/
  | execute
  /-- Leave the frame with the top value; leaving the last frame ends the run. -/
  | exit
deriving DecidableEq, Inhabited

namespace Opcode

def mnemonic : Opcode → String
  | push => "push"
  | load => "load"
  | store => "store"
  | arg => "arg"
  | jump => "jump"
  | gosub => "gosub"
  | ret => "return"
  | addDoubles => "add.doubles"
  | call => "call"
  | execute => "execute"
  | exit => "exit"

def all : List Opcode :=
  [push, load, store, arg, jump, gosub, ret, addDoubles, call, execute, exit]

theorem mem_all (o : Opcode) : o ∈ all := by cases o <;> decide

def ofMnemonic? (text : String) : Option Opcode := all.find? (·.mnemonic = text)

theorem ofMnemonic?_mnemonic (o : Opcode) : ofMnemonic? o.mnemonic = some o := by
  cases o <;> decide

/-- Whether the operand means something to the opcode. -/
def takesOperand : Opcode → Bool
  | push | load | store | arg | jump | gosub | call => true
  | ret | addDoubles | execute | exit => false

end Opcode

/-- An opcode with its operand. Opcodes that take none ignore it, though it counts in equality. -/
structure Instruction where
  opcode : Opcode
  operand : Value := .null
deriving DecidableEq, Inhabited

namespace Instruction

/-- The operand as an index or target. -/
def integerOperand (i : Instruction) : Except Fault Int64 := i.operand.asInteger

/-- How listings and traces show an instruction: the operand only where it means something. -/
def text (i : Instruction) : String :=
  if i.opcode.takesOperand then i.opcode.mnemonic ++ " " ++ i.operand.text
  else i.opcode.mnemonic

end Instruction

end FrameMachine
