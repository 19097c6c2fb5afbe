import FrameMachine.Text.Numeral
import FrameMachine.Value.Kind

/-!
# Faults

Everything that can stop a run or refuse a request, by cause. The wording is in `Fault.message`
alone.
-/

namespace FrameMachine

/-- Why an operation failed. Indices and targets are the signed words that were asked for; counts
and limits are naturals. -/
inductive Fault
  | stackUnderflow
  | typeMismatch (expected actual : Kind)
  | localIndexOutOfBounds (index : Int64)
  | argumentIndexOutOfBounds (index : Int64)
  | invalidJumpTarget (target : Int64)
  | invalidReturnAddress (address : Int64)
  | programCounterOutOfBounds (pc : Nat)
  | emptyProgram
  | invalidArgumentCount (count : Int64)
  /-- A call or native needs `expected` values and finds `available`. -/
  | argumentCountMismatch (expected available : Nat)
  | callStackOverflow (limit : Nat)
  | frameStackUnderflow
  | stepBudgetExhausted (limit : Nat)
  | reservedTag (tag : UInt16)
  /-- A native function's own complaint. -/
  | nativeFault (complaint : String)
  | invalidConfig (reason : String)
deriving DecidableEq, Inhabited

open Text in
/-- What a fault says. -/
def Fault.message : Fault → String
  | .stackUnderflow => "Stack underflow"
  | .typeMismatch expected actual =>
    "Type mismatch: expected " ++ expected.text ++ ", got " ++ actual.text
  | .localIndexOutOfBounds index => "Local variable index out of bounds: " ++ decimal index.toInt
  | .argumentIndexOutOfBounds index => "Argument index out of bounds: " ++ decimal index.toInt
  | .invalidJumpTarget target => "Invalid jump target: " ++ decimal target.toInt
  | .invalidReturnAddress address => "Invalid return address: " ++ decimal address.toInt
  | .programCounterOutOfBounds pc => "Program counter out of bounds: " ++ pc.repr
  | .emptyProgram => "Empty program"
  | .invalidArgumentCount count => "Invalid argument count: " ++ decimal count.toInt
  | .argumentCountMismatch expected available =>
    "Argument count mismatch: expected " ++ expected.repr ++ " values, " ++ available.repr
      ++ " available"
  | .callStackOverflow limit => "Call stack overflow: more than " ++ limit.repr ++ " frames"
  | .frameStackUnderflow => "Frame stack underflow"
  | .stepBudgetExhausted limit =>
    "Step budget exhausted after " ++ limit.repr ++ " instructions"
  | .reservedTag tag => "Reserved type code: " ++ tag.toNat.repr
  | .nativeFault complaint => "Native function fault: " ++ complaint
  | .invalidConfig reason => "Invalid configuration: " ++ reason

end FrameMachine
