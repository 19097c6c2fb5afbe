import FrameMachine.Double.Hex
import FrameMachine.Fault

/-!
# Values

What instructions carry and stacks, locals and argument views hold. Equality is structural:
doubles by their bits, native functions by name.
-/

namespace FrameMachine

/-- The name of a native function. It is one line, so a listing keeps one line per instruction. -/
structure NativeName where
  text : String
  oneLine : '\n' ∉ text.toList := by decide
deriving DecidableEq

/-- The name that a text spells, if it is one line. -/
def NativeName.ofText? (text : String) : Option NativeName :=
  if h : '\n' ∉ text.toList then some ⟨text, h⟩ else none

/-- A client's own datum: a type code and a payload that the machine never looks into. The codes
below 2 belong to the machine, for `undefined` and for native functions. -/
structure UserDefined where
  tag : UInt16
  payload : UInt64
  two_le_tag : 2 ≤ tag
deriving DecidableEq

/-- A user-defined datum, refused where the code is reserved. -/
def UserDefined.make (tag : UInt16) (payload : UInt64) : Except Fault UserDefined :=
  if h : 2 ≤ tag then .ok ⟨tag, payload, h⟩ else .error (.reservedTag tag)

/-- A datum of the machine. -/
inductive Value
  | null
  | undefined
  | integer (n : Int64)
  | double (d : Double)
  | native (name : NativeName)
  | userDefined (u : UserDefined)
deriving DecidableEq, Inhabited

namespace Value

def kind : Value → Kind
  | null => .null
  | undefined => .undefined
  | integer _ => .integer
  | double _ => .double
  | native _ => .native
  | userDefined _ => .userDefined

/-- The type code of a value in the user-defined space: 0 for `undefined`, 1 for native functions,
the tag of user-defined data; null and numbers have none. -/
def typeCode? : Value → Option UInt16
  | undefined => some 0
  | native _ => some 1
  | userDefined u => some u.tag
  | _ => none

def integer? : Value → Option Int64
  | integer n => some n
  | _ => none

def double? : Value → Option Double
  | double d => some d
  | _ => none

/-- The fault of a value that had to be of another kind. -/
def mismatch (v : Value) (expected : Kind) : Fault := .typeMismatch expected v.kind

/-- The integer a value holds, or a type mismatch. -/
def asInteger : Value → Except Fault Int64
  | integer n => .ok n
  | v => .error (v.mismatch .integer)

/-- The double a value holds, or a type mismatch. -/
def asDouble : Value → Except Fault Double
  | double d => .ok d
  | v => .error (v.mismatch .double)

/-- The native function a value names, or a type mismatch. -/
def asNative : Value → Except Fault NativeName
  | native name => .ok name
  | v => .error (v.mismatch .native)

/-- The user-defined datum a value holds, or a type mismatch. -/
def asUserDefined : Value → Except Fault UserDefined
  | userDefined u => .ok u
  | v => .error (v.mismatch .userDefined)

/-- How listings and traces show a value. -/
def text : Value → String
  | null => "null"
  | undefined => "undefined"
  | integer n => "int:" ++ Text.decimal n.toInt
  | double d => "double:" ++ d.hexText
  | native name => "native:" ++ name.text
  | userDefined u => "udt" ++ u.tag.toNat.repr ++ ":0x" ++ Text.hex u.payload.toNat

end Value

end FrameMachine
