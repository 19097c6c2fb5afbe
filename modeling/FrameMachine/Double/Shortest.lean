import FrameMachine.Double.Basic
import FrameMachine.Text.Numeral

/-!
# Shortest decimal text of doubles

Of the decimals that lie closer to a double than to its neighbours, the text shows one with the
fewest digits, and of those the nearest. The search is exact: the double and the ends of its
interval are naturals in a common unit, and so is each point of a decimal grid.
-/

namespace FrameMachine.Double

/-- A finite nonzero magnitude as `4 * significand` quarter units of the last place, where a unit
is `2 ^ exponent`. -/
structure Magnitude where
  significand : Nat
  exponent : Int
  /-- Quarter units from the value down to the end of its interval: one just above a power of
  two, where the neighbour below is nearer, and two elsewhere. -/
  below : Nat

def magnitude (d : Double) : Magnitude :=
  if d.exponentField = 0 then ⟨d.fraction, -1074, 2⟩
  else ⟨1 <<< 52 + d.fraction, d.exponentField - 1075,
    if d.fraction = 0 ∧ 1 < d.exponentField then 1 else 2⟩

/-- A decimal `coefficient × 10 ^ exponent`. -/
structure Decimal where
  coefficient : Nat
  exponent : Int

namespace Magnitude

/-- Quarter units as a count of units of which `gridStep` make one step of the grid
`10 ^ e`. -/
def scaled (m : Magnitude) (e : Int) (quarters : Nat) : Nat :=
  quarters <<< (m.exponent - 2).toNat * Nat.pow 10 (-e).toNat

def gridStep (m : Magnitude) (e : Int) : Nat :=
  Nat.pow 10 e.toNat <<< (2 - m.exponent).toNat

/-- Whether `c × 10 ^ e` is in the interval of the numbers that round to the magnitude. Its ends
are, if the significand is even. -/
def contains (m : Magnitude) (e : Int) (c : Nat) : Bool :=
  let low := m.scaled e (4 * m.significand - m.below)
  let high := m.scaled e (4 * m.significand + 2)
  let point := c * m.gridStep e
  if m.significand % 2 = 0 then low ≤ point ∧ point ≤ high else low < point ∧ point < high

/-- The point of the grid `10 ^ e` that rounds to the magnitude, if there is one; of two the
nearer, and of two equally near the even one. -/
def onGrid (m : Magnitude) (e : Int) : Option Decimal :=
  let value := m.scaled e (4 * m.significand)
  let c := value / m.gridStep e
  let down := value - c * m.gridStep e
  let up := (c + 1) * m.gridStep e - value
  match m.contains e c, m.contains e (c + 1) with
  | true, true =>
    if down < up ∨ down = up ∧ c % 2 = 0 then some ⟨c, e⟩ else some ⟨c + 1, e⟩
  | true, false => some ⟨c, e⟩
  | false, true => some ⟨c + 1, e⟩
  | false, false => none

/-- The exponent of the leading decimal digit: no magnitude is as small as `10 ^ (-400)`. -/
def leadingExponent (m : Magnitude) : Int :=
  (Nat.toDigits 10 (m.scaled (-400) (4 * m.significand) / m.gridStep (-400))).length - 401

/-- The decimal with the fewest digits, at most seventeen, that rounds to the magnitude. -/
def shortest (m : Magnitude) : Decimal :=
  let lead := m.leadingExponent
  ((List.range 17).findSome? fun (n : Nat) => m.onGrid (lead - n)).getD ⟨0, 0⟩

end Magnitude

/-- When a decimal is written with its point in place, by the exponent of its leading digit. -/
structure Layout where
  lowest : Int
  highest : Int

namespace Layout

/-- The text of `0.d₁d₂…` moved to the exponent of its leading digit; a whole number ends in
`.0`. -/
def positional (digits : List Char) (lead : Int) : String :=
  if lead < 0 then
    "0." ++ String.ofList (List.replicate (lead.natAbs - 1) '0' ++ digits)
  else
    let whole := digits.take (lead.toNat + 1)
    let padding := List.replicate (lead.toNat + 1 - whole.length) '0'
    let rest := digits.drop (lead.toNat + 1)
    String.ofList (whole ++ padding) ++ "."
      ++ if rest.isEmpty then "0" else String.ofList rest

/-- The text with one digit before the point and a signed exponent. -/
def scientific (digits : List Char) (lead : Int) : String :=
  let rest := digits.drop 1
  let point := if rest.isEmpty then "" else "." ++ String.ofList rest
  String.ofList (digits.take 1) ++ point ++ "e" ++ (if lead < 0 then "-" else "+")
    ++ lead.natAbs.repr

/-- The text of a decimal. -/
def text (l : Layout) (d : Decimal) : String :=
  let all := Nat.toDigits 10 d.coefficient
  let lead : Int := d.exponent + all.length - 1
  let digits := (all.reverse.dropWhile (· = '0')).reverse
  if l.lowest ≤ lead ∧ lead ≤ l.highest then positional digits lead else scientific digits lead

end Layout

/-- The point stays in place from the fifth decimal place up to sixteen digits before it. -/
def layout : Layout := ⟨-5, 15⟩

/-- The shortest text that reads back as the finite double `d`. -/
def shortestText (d : Double) : String :=
  (if d.isNegative then "-" else "")
    ++ if d.exponentField = 0 ∧ d.fraction = 0 then "0.0" else layout.text d.magnitude.shortest

end FrameMachine.Double
