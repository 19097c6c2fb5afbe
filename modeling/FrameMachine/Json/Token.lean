/-!
# JSON tokens

A token keeps what its text says and judges nothing: a string its parts, a number its digits. What
a reader makes of them is for the reader, since a skipped value may hold numbers that are too large
and escapes that spell no character.
-/

namespace FrameMachine.Json

/-- A piece of a string. -/
inductive StringPart
  | char (c : Char)
  /-- The 16-bit code of an escape such as `\u0041`. -/
  | unit (code : Nat)
deriving DecidableEq

/-- A number as it is written: digits before the point, after it, and in the exponent. -/
structure Numeral where
  negative : Bool := false
  whole : List Nat := []
  /-- Empty if there is no point. -/
  fraction : List Nat := []
  exponentNegative : Bool := false
  /-- Empty if there is no exponent. -/
  exponent : List Nat := []
deriving DecidableEq, Inhabited

/-- The smallest pieces of a JSON text. -/
inductive Token
  | openBrace
  | closeBrace
  | openBracket
  | closeBracket
  | colon
  | comma
  | null
  | boolean (b : Bool)
  | number (n : Numeral)
  | string (parts : List StringPart)
  /-- The text went wrong here; nothing follows. -/
  | malformed
deriving DecidableEq

end FrameMachine.Json
