import FrameMachine.Double.Basic
import FrameMachine.Json.Token

/-!
# What strings and numbers stand for

A string stands for a text if its escaped codes do: outside the surrogates a code is a character,
and a high surrogate has to be followed at once by a low one. A number stands for a 64-bit integer
where it is written as one and fits, and for a double otherwise, unless it is too large for one.
-/

namespace FrameMachine.Json

/-! ## Strings -/

def isHighSurrogate (code : Nat) : Bool := 0xd800 ≤ code ∧ code < 0xdc00

def isLowSurrogate (code : Nat) : Bool := 0xdc00 ≤ code ∧ code < 0xe000

/-- The characters that string parts stand for. -/
def decode : List StringPart → Option (List Char)
  | [] => some []
  | .char c :: rest => (decode rest).map (c :: ·)
  | .unit high :: .unit low :: rest =>
    if isHighSurrogate high then
      if isLowSurrogate low then
        (decode rest).map (Char.ofNat (0x10000 + (high - 0xd800) * 0x400 + (low - 0xdc00)) :: ·)
      else none
    else if isLowSurrogate high then none
    else (decode (.unit low :: rest)).map (Char.ofNat high :: ·)
  | .unit code :: rest =>
    if isHighSurrogate code ∨ isLowSurrogate code then none
    else (decode rest).map (Char.ofNat code :: ·)

/-- The text that string parts stand for. -/
def decodeText (parts : List StringPart) : Option String := (decode parts).map String.ofList

/-! ## Numbers -/

/-- What a number stands for. -/
inductive Number
  /-- A natural below `2 ^ 64`. -/
  | natural (n : Nat)
  /-- A negative integer from `-2 ^ 63` up. -/
  | negative (i : Int)
  | double (d : Double)
deriving DecidableEq

/-- Appends decimal digits to `n` while the result fits 64 bits; also the digits that are left. -/
def appendDigits (n : Nat) : List Nat → Nat × List Nat
  | [] => (n, [])
  | d :: ds => if n * 10 + d < 1 <<< 64 then appendDigits (n * 10 + d) ds else (n, d :: ds)

def digitsValue (ds : List Nat) : Nat := ds.foldl (fun n d => n * 10 + d) 0

/-- Divides by the `n`-th power of ten, in steps that doubles can hold. -/
def divideByPower (x : Float) (n : Nat) : Float :=
  if n ≤ 308 then x / Float.ofScientific 1 false n
  else if x == 0 then x
  else divideByPower (x / Float.ofScientific 1 false 308) (n - 308)
termination_by n

/-- `significand × 10 ^ exponent` by one multiplication, or by divisions where the exponent is
negative; none if it is too large for a double. -/
def scale (significand : Nat) (exponent : Int) : Option Float :=
  let x := (UInt64.ofNat significand).toFloat
  if exponent < 0 then some (divideByPower x exponent.natAbs)
  else if significand = 0 then some x
  else if 308 < exponent then none
  else
    let y := x * Float.ofScientific 1 false exponent.natAbs
    if y.isInf then none else some y

/-- The double that a number stands for. As many leading digits count as fit 64 bits; of the rest,
those before the point count as zeros and those after it not at all. -/
def Numeral.toDouble? (n : Numeral) : Option Double :=
  let (wholePart, dropped) := appendDigits 0 n.whole
  let (significand, ignored) := appendDigits wholePart n.fraction
  let written : Int := digitsValue n.exponent
  let exponent : Int := dropped.length - (n.fraction.length - ignored.length : Nat)
    + if n.exponentNegative then -written else written
  (scale significand exponent).map fun x => .ofFloat (if n.negative then -x else x)

/-- What a number stands for, if it is not too large. -/
def Numeral.value? (n : Numeral) : Option Number :=
  let m := digitsValue n.whole
  if n.fraction = [] ∧ n.exponent = [] then
    if n.negative then
      if 0 < m ∧ m ≤ 1 <<< 63 then some (.negative (-m)) else n.toDouble?.map .double
    else if m < 1 <<< 64 then some (.natural m)
    else n.toDouble?.map .double
  else n.toDouble?.map .double

end FrameMachine.Json
