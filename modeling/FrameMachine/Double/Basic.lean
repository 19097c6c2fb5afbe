/-!
# Double-precision words

A double is its 64 bits. Two doubles are equal when their bits are, so `0.0` differs from `-0.0`
and a NaN equals itself; only the addition reads the bits as a number.
-/

namespace FrameMachine

/-- A double-precision number, kept as its bits. -/
structure Double where
  bits : UInt64
deriving DecidableEq, Inhabited

namespace Double

/-- The number that the bits stand for. -/
def toFloat (d : Double) : Float := Float.ofBits d.bits

def ofFloat (x : Float) : Double := ⟨x.toBits⟩

/-- The sum, rounded to nearest with ties to even. -/
def add (a b : Double) : Double := ofFloat (a.toFloat + b.toFloat)

instance : Add Double := ⟨add⟩

instance : Zero Double := ⟨⟨0⟩⟩

/-- Whether the sign bit is set, for zeros and NaNs too. -/
def isNegative (d : Double) : Bool := 1 <<< 63 ≤ d.bits.toNat

/-- The biased exponent field: 0 for zeros and subnormals, `0x7ff` for infinities and NaNs. -/
def exponentField (d : Double) : Nat := d.bits.toNat >>> 52 % 0x800

/-- The 52 bits of the fraction field. -/
def fraction (d : Double) : Nat := d.bits.toNat % 1 <<< 52

def isNaN (d : Double) : Bool := d.exponentField = 0x7ff && d.fraction ≠ 0

/-- The place of a double in the total order of bit patterns: negative NaNs first, `-0.0` before
`0.0`, positive NaNs last. -/
def orderKey (d : Double) : Int :=
  let magnitude : Int := (d.bits.toNat % 1 <<< 63 : Nat)
  if d.isNegative then -1 - magnitude else magnitude

end Double

end FrameMachine
