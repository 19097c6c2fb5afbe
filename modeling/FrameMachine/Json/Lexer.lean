import FrameMachine.Json.Token

/-!
# From text to tokens

The lexer takes one character at a time, so the tokens of a text that stops between two tokens are
a start of the tokens of every longer text (`lexFrom_append`). A number ends at the first character
that cannot continue it; words and strings end by themselves.
-/

namespace FrameMachine.Json

/-- How far into a number the lexer is. -/
inductive NumeralPhase
  /-- A minus sign was read. -/
  | minus
  /-- A leading zero was read; no digit may follow. -/
  | zero
  | whole
  /-- A point was read; a digit has to follow. -/
  | point
  | fraction
  /-- The mark of the exponent was read; a sign or a digit has to follow. -/
  | mark
  /-- The sign of the exponent was read; a digit has to follow. -/
  | sign
  | exponent
deriving DecidableEq

/-- Whether a number may end in a phase. -/
def NumeralPhase.complete : NumeralPhase → Bool
  | zero | whole | fraction | exponent => true
  | minus | point | mark | sign => false

/-- What the lexer is in the middle of. -/
inductive Mode
  | idle
  /-- Of a word that stands for `token`, the letters `rest` are still to come. -/
  | word (rest : List Char) (token : Token)
  | number (phase : NumeralPhase) (n : Numeral)
  /-- The string parts read so far, latest first. -/
  | string (parts : List StringPart)
  /-- A backslash was read. -/
  | escape (parts : List StringPart)
  /-- Of a four-digit code, `left` digits are still to come and `code` is what the others say. -/
  | unit (parts : List StringPart) (left code : Nat)
  /-- The text went wrong. -/
  | broken
deriving DecidableEq

def isBlank (c : Char) : Bool := c = ' ' ∨ c = '\t' ∨ c = '\n' ∨ c = '\r'

/-- The value of a decimal digit. -/
def digit? (c : Char) : Option Nat :=
  if '0' ≤ c ∧ c ≤ '9' then some (c.toNat - '0'.toNat) else none

/-- The value of a hexadecimal digit of either case. -/
def hexDigit? (c : Char) : Option Nat :=
  if '0' ≤ c ∧ c ≤ '9' then some (c.toNat - '0'.toNat)
  else if 'a' ≤ c ∧ c ≤ 'f' then some (c.toNat - 'a'.toNat + 10)
  else if 'A' ≤ c ∧ c ≤ 'F' then some (c.toNat - 'A'.toNat + 10)
  else none

/-- The character that a one-letter escape stands for. -/
def simpleEscape? : Char → Option Char
  | '"' => some '"'
  | '\\' => some '\\'
  | '/' => some '/'
  | 'b' => some '\x08'
  | 'f' => some '\x0c'
  | 'n' => some '\n'
  | 'r' => some '\r'
  | 't' => some '\t'
  | _ => none

/-- A text that went wrong says so once. -/
def broken : List Token × Mode := ([.malformed], .broken)

/-- A number in phase `phase` goes on with `c`, if it can. -/
def extendNumeral (phase : NumeralPhase) (n : Numeral) (c : Char) :
    Option (NumeralPhase × Numeral) :=
  match phase, digit? c with
  | .minus, some 0 => some (.zero, { n with whole := [0] })
  | .minus, some d => some (.whole, { n with whole := [d] })
  | .whole, some d => some (.whole, { n with whole := n.whole ++ [d] })
  | .point, some d => some (.fraction, { n with fraction := [d] })
  | .fraction, some d => some (.fraction, { n with fraction := n.fraction ++ [d] })
  | .mark, some d => some (.exponent, { n with exponent := [d] })
  | .sign, some d => some (.exponent, { n with exponent := [d] })
  | .exponent, some d => some (.exponent, { n with exponent := n.exponent ++ [d] })
  | .zero, none => afterWhole c
  | .whole, none => afterWhole c
  | .fraction, none => exponentMark c
  | .mark, none =>
    if c = '+' then some (.sign, n)
    else if c = '-' then some (.sign, { n with exponentNegative := true })
    else none
  | _, _ => none
where
  /-- The mark of an exponent. -/
  exponentMark (c : Char) : Option (NumeralPhase × Numeral) :=
    if c = 'e' ∨ c = 'E' then some (.mark, n) else none
  /-- What may follow the digits before the point. -/
  afterWhole (c : Char) : Option (NumeralPhase × Numeral) :=
    if c = '.' then some (.point, n) else exponentMark c

/-- What a character does between tokens. -/
def begin (c : Char) : List Token × Mode :=
  if isBlank c then ([], .idle)
  else
    match c with
    | '\x7b' => ([.openBrace], .idle)
    | '\x7d' => ([.closeBrace], .idle)
    | '[' => ([.openBracket], .idle)
    | ']' => ([.closeBracket], .idle)
    | ':' => ([.colon], .idle)
    | ',' => ([.comma], .idle)
    | '"' => ([], .string [])
    | 'n' => ([], .word ['u', 'l', 'l'] .null)
    | 't' => ([], .word ['r', 'u', 'e'] (.boolean true))
    | 'f' => ([], .word ['a', 'l', 's', 'e'] (.boolean false))
    | '-' => ([], .number .minus { negative := true })
    | c =>
      match extendNumeral .minus {} c with
      | some (phase, n) => ([], .number phase n)
      | none => broken

/-- What a character does inside a number. A digit right after a leading zero is the one that
neither continues the number nor may follow it. -/
def feedNumber (phase : NumeralPhase) (n : Numeral) (c : Char) : List Token × Mode :=
  match extendNumeral phase n c with
  | some (phase, n) => ([], .number phase n)
  | none =>
    if phase.complete ∧ digit? c = none then
      let (tokens, mode) := begin c
      (.number n :: tokens, mode)
    else broken

/-- What a character does inside a string. Control characters have to be escaped. -/
def feedString (parts : List StringPart) (c : Char) : List Token × Mode :=
  if c = '"' then ([.string parts.reverse], .idle)
  else if c = '\\' then ([], .escape parts)
  else if c < ' ' then broken
  else ([], .string (.char c :: parts))

/-- What a character does after a backslash. -/
def feedEscape (parts : List StringPart) (c : Char) : List Token × Mode :=
  if c = 'u' then ([], .unit parts 4 0)
  else
    match simpleEscape? c with
    | some e => ([], .string (.char e :: parts))
    | none => broken

/-- What a character does inside a four-digit code. -/
def feedUnit (parts : List StringPart) (left code : Nat) (c : Char) : List Token × Mode :=
  match hexDigit? c with
  | some d =>
    if left ≤ 1 then ([], .string (.unit (16 * code + d) :: parts))
    else ([], .unit parts (left - 1) (16 * code + d))
  | none => broken

/-- What a character does inside a word. -/
def feedWord (rest : List Char) (token : Token) (c : Char) : List Token × Mode :=
  match rest with
  | [] => broken
  | [last] => if c = last then ([token], .idle) else broken
  | next :: rest => if c = next then ([], .word rest token) else broken

/-- The tokens that a character completes, and what the lexer is then in the middle of. -/
def Mode.feed : Mode → Char → List Token × Mode
  | idle, c => begin c
  | word rest token, c => feedWord rest token c
  | number phase n, c => feedNumber phase n c
  | string parts, c => feedString parts c
  | escape parts, c => feedEscape parts c
  | unit parts left code, c => feedUnit parts left code c
  | broken, _ => ([], broken)

/-- The tokens that the end of the text completes. -/
def Mode.finish : Mode → List Token
  | idle | broken => []
  | number phase n => if phase.complete then [.number n] else [.malformed]
  | word .. | string _ | escape _ | unit .. => [.malformed]

/-- The tokens of a text read from `mode`, and the mode it leaves the lexer in. -/
def Mode.run : Mode → List Char → List Token × Mode
  | mode, [] => ([], mode)
  | mode, c :: cs =>
    let (tokens, mode) := mode.feed c
    let (more, mode) := mode.run cs
    (tokens ++ more, mode)

/-- The tokens of a text that goes on from `mode`. -/
def lexFrom (mode : Mode) (text : List Char) : List Token :=
  let (tokens, mode) := mode.run text
  tokens ++ mode.finish

/-- The tokens of a text. -/
def lex (text : List Char) : List Token := lexFrom .idle text

theorem Mode.run_append (mode : Mode) (s t : List Char) :
    mode.run (s ++ t) =
      ((mode.run s).1 ++ ((mode.run s).2.run t).1, ((mode.run s).2.run t).2) := by
  induction s generalizing mode with
  | nil => rfl
  | cons c s ih => simp [run, ih]

theorem lexFrom_append (mode : Mode) (s t : List Char) :
    lexFrom mode (s ++ t) = (mode.run s).1 ++ lexFrom (mode.run s).2 t := by
  simp [lexFrom, Mode.run_append]

end FrameMachine.Json
