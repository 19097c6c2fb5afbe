import FrameMachine.Double.Basic
import FrameMachine.Text.Numeral

/-!
# Hexadecimal text of doubles

The text shows the bits and loses none: the sign, then `inf`, a NaN with its fraction, or
`0x1.…p±e` with the trailing zeros of the fraction dropped. A subnormal is shown normalised, with
its highest set bit as the leading one.
-/

namespace FrameMachine.Double

open Text

/-- Thirteen hexadecimal digits of a 52-bit fraction, less the zeros at the end. -/
def fractionDigits (fraction : Nat) : List Char :=
  (((hexDigits fraction).leftpad 13 '0').reverse.dropWhile (· = '0')).reverse

/-- The text of `1.fraction × 2 ^ exponent`, for a 52-bit fraction. -/
def binaryText (fraction : Nat) (exponent : Int) : String :=
  let point := if fraction = 0 then "" else "." ++ String.ofList (fractionDigits fraction)
  let sign := if exponent < 0 then "-" else "+"
  "0x1" ++ point ++ "p" ++ sign ++ exponent.natAbs.repr

/-- The text of a nonzero subnormal: the bits under the highest set one move up to fill the
fraction. -/
def subnormalText (fraction : Nat) : String :=
  let top := Nat.log2 fraction
  binaryText ((fraction - 1 <<< top) <<< (52 - top)) ((top : Int) - 1074)

/-- The text of the bits under the sign. -/
def magnitudeText (exponent fraction : Nat) : String :=
  if exponent = 0x7ff then
    if fraction = 0 then "inf"
    else if fraction = 1 <<< 51 then "nan"
    else "nan:0x" ++ hex fraction
  else if exponent = 0 then
    if fraction = 0 then "0x0p+0" else subnormalText fraction
  else binaryText fraction ((exponent : Int) - 1023)

/-- The hexadecimal text of a double. -/
def hexText (d : Double) : String :=
  (if d.isNegative then "-" else "") ++ magnitudeText d.exponentField d.fraction

end FrameMachine.Double
