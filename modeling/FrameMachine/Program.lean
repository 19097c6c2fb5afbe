import FrameMachine.Index
import FrameMachine.Instruction

/-!
# Programs

An immutable sequence of instructions, addressed from 0.
-/

namespace FrameMachine

/-- A sequence of instructions. -/
structure Program where
  code : Array Instruction := #[]
deriving DecidableEq, Inhabited

namespace Program

def ofList (instructions : List Instruction) : Program := ⟨instructions.toArray⟩

def size (p : Program) : Nat := p.code.size

def isEmpty (p : Program) : Bool := p.code.isEmpty

def get? (p : Program) (i : Nat) : Option Instruction := p.code[i]?

/-- The instruction at `pc`; running past the end is a fault. -/
def fetch (p : Program) (pc : Nat) : Except Fault Instruction :=
  match p.get? pc with
  | some i => .ok i
  | none => .error (.programCounterOutOfBounds pc)

/-- The instruction index that a branch target points at, if it points into the program. -/
def target? (p : Program) (t : Int64) : Option Nat := positionBelow? p.size t

/-- One line of a listing: the index, at least four characters wide, and the instruction. -/
def line (index : Nat) (i : Instruction) : String :=
  Text.alignRight 4 index.repr ++ ": " ++ i.text ++ "\n"

/-- The lines of a program, one for each instruction. -/
def lines (p : Program) : List String := p.code.toList.mapIdx line

/-- The listing of a program. -/
def listing (p : Program) : String := String.join p.lines

end Program

end FrameMachine
