import FrameMachine.Machine.Run

/-!
# Stock native functions

A small library of functions for programs to call. All but `nested` only compute with their
arguments; `nested` starts a run of its own, of a program that is over after two turns
(`nested_ends`).
-/

namespace FrameMachine

/-- The functions of the stock library, in the order in which `pick` counts them. -/
inductive Stock
  | argCount
  | first
  | last
  | sumIntegers
  | sumDoubles
  | kindCode
  | median
  | makePoint
  | pointX
  | refuse
  | isNaN
  | digest
  | pick
  | makeUserDefined
  | raise
  | nested
deriving DecidableEq

namespace Stock

def all : List Stock :=
  [argCount, first, last, sumIntegers, sumDoubles, kindCode, median, makePoint, pointX, refuse,
    isNaN, digest, pick, makeUserDefined, raise, nested]

def name : Stock → NativeName
  | argCount => ⟨"arg_count", by decide⟩
  | first => ⟨"first", by decide⟩
  | last => ⟨"last", by decide⟩
  | sumIntegers => ⟨"sum_integers", by decide⟩
  | sumDoubles => ⟨"sum_doubles", by decide⟩
  | kindCode => ⟨"kind_code", by decide⟩
  | median => ⟨"median", by decide⟩
  | makePoint => ⟨"make_point", by decide⟩
  | pointX => ⟨"point_x", by decide⟩
  | refuse => ⟨"refuse", by decide⟩
  | isNaN => ⟨"is_nan", by decide⟩
  | digest => ⟨"digest", by decide⟩
  | pick => ⟨"pick", by decide⟩
  | makeUserDefined => ⟨"make_udt", by decide⟩
  | raise => ⟨"raise", by decide⟩
  | nested => ⟨"nested", by decide⟩

def ofName? (n : NativeName) : Option Stock := all.find? (·.name = n)

theorem ofName?_name (f : Stock) : ofName? f.name = some f := by cases f <;> decide

/-- The number that stands for a kind. -/
def codeOfKind : Kind → Int64
  | .null => 0
  | .undefined => 1
  | .integer => 2
  | .double => 3
  | .native => 4
  | .userDefined => 5

/-- The sum of the integers, refused as soon as a partial sum leaves 64 bits. -/
def integerSum (arguments : List Value) : Except Fault Int64 :=
  arguments.foldlM (fun total v => do
    let n ← v.asInteger
    let sum := total.toInt + n.toInt
    if sum < Int64.minValue.toInt ∨ Int64.maxValue.toInt < sum then
      throw (.nativeFault "integer overflow")
    return .ofInt sum) 0

/-- The sum of the doubles, from left to right, starting at positive zero. -/
def doubleSum (arguments : List Value) : Except Fault Double :=
  arguments.foldlM (fun total v => return total + (← v.asDouble)) 0

/-- The middle of the doubles in their total order; of an even number, the upper middle. -/
def upperMedian (arguments : List Value) : Except Fault Double := do
  let doubles ← arguments.mapM Value.asDouble
  let sorted := doubles.mergeSort fun a b => a.orderKey ≤ b.orderKey
  match sorted[doubles.length / 2]? with
  | some d => return d
  | none => throw (.nativeFault "median of nothing")

/-- What a value adds to a digest beside its kind. -/
def digestWord : Value → Int64
  | .null => -1
  | .undefined => 0
  | .integer n => n
  | .double d => d.bits.toInt64
  | .native _ => 1
  | .userDefined u => u.payload.toInt64 ^^^ u.tag.toUInt64.toInt64

/-- A fingerprint of the arguments in wrapping 64-bit arithmetic. -/
def digestOf (arguments : List Value) : Int64 :=
  arguments.foldl (fun h v => (h * 31 + codeOfKind v.kind) * 31 + digestWord v) 7

/-- The faults that `raise` can be asked for. -/
def raised (n : Int64) : Fault :=
  if n = 0 then .stackUnderflow
  else if n = 1 then .typeMismatch .userDefined .undefined
  else if n = 2 then .stepBudgetExhausted 0
  else if n = 3 then .nativeFault "café 💥\n"
  else if n = 4 then .frameStackUnderflow
  else .invalidJumpTarget n

/-- The functions that only compute. -/
def compute (f : Stock) (arguments : List Value) : Except Fault Value :=
  match f with
  | argCount => return .integer (.ofNat arguments.length)
  | first => argumentAt arguments 0
  | last =>
    -- With no arguments the index before the first wraps around.
    argumentAt arguments ((arguments.length + (1 <<< 64 - 1)) % 1 <<< 64)
  | sumIntegers => return .integer (← integerSum arguments)
  | sumDoubles => return .double (← doubleSum arguments)
  | kindCode => return .integer (codeOfKind (← argumentAt arguments 0).kind)
  | median => return .double (← upperMedian arguments)
  | makePoint => do
    let x ← (← argumentAt arguments 0).asInteger
    let y ← (← argumentAt arguments 1).asInteger
    let payload := x.toUInt64 <<< 32 ||| y.toUInt64 &&& 0xffffffff
    return .userDefined (← UserDefined.make 7 payload)
  | pointX => do
    let u ← (← argumentAt arguments 0).asUserDefined
    return .integer (u.payload >>> 32).toInt64
  | refuse => throw (.nativeFault "refused")
  | isNaN => do
    let d ← (← argumentAt arguments 0).asDouble
    return .integer (if d.isNaN then 1 else 0)
  | digest => return .integer (digestOf arguments)
  | pick => do
    let i ← (← argumentAt arguments 0).asInteger
    match (position? i).bind (all[·]?) with
    | some f => return .native f.name
    | none => throw (.nativeFault "no such native")
  | makeUserDefined => do
    let tag ← (← argumentAt arguments 0).asInteger
    let payload ← (← argumentAt arguments 1).asInteger
    return .userDefined (← UserDefined.make tag.toUInt64.toUInt16 payload.toUInt64)
  | raise => do
    let n ← (← argumentAt arguments 0).asInteger
    throw (raised n)
  | nested => throw (.nativeFault "no such native")

/-- The machine that `nested` starts: it returns its first argument. -/
def firstArgument : Machine where
  program := .ofList [⟨.arg, .integer 0⟩, ⟨.exit, .null⟩]
  natives := fun _ _ => ⟨throw (.nativeFault "no such native"), []⟩

theorem nested_ends (arguments : List Value) :
    (firstArgument.run 2 arguments).2.result?.isSome := by
  cases arguments <;> rfl

/-- A run of `firstArgument` on the same arguments, with its events. -/
def runNested (arguments : List Value) : NativeReply where
  result := ((firstArgument.run 2 arguments).2.result?.get (nested_ends arguments)).map (·.value)
  events := (firstArgument.run 2 arguments).1.map (·.event)

def reply (f : Stock) (arguments : List Value) : NativeReply :=
  match f with
  | nested => runNested arguments
  | f => ⟨f.compute arguments, []⟩

/-- The stock library as a table; names outside it are refused. -/
def table : NativeTable := fun name arguments =>
  match ofName? name with
  | some f => f.reply arguments
  | none => ⟨throw (.nativeFault "no such native"), []⟩

end Stock

end FrameMachine
