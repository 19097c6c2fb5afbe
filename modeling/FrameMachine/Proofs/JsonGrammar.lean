import FrameMachine.Json.Lexer
import FrameMachine.Json.Scalar

/-!
# The grammar of JSON texts

A text is JSON if it spells the tokens of a value, with blanks before and after each token where
one likes. The grammar does not say how a text is read: only in which order the tokens of a value
come, and with which characters a token may be spelled.
-/

namespace FrameMachine.Json

/-! ## Values -/

/-- A JSON value. Its strings and numbers are kept as they are written. -/
inductive Tree
  | null
  | boolean (b : Bool)
  | number (n : Numeral)
  | string (parts : List StringPart)
  | array (elements : List Tree)
  /-- Keys with their values; a key may come more than once. -/
  | object (members : List (List StringPart × Tree))

/-- Token lists one after the other, with a comma between any two. -/
def commaSeparated : List (List Token) → List Token
  | [] => []
  | first :: rest => first ++ rest.flatMap (.comma :: ·)

/-- The tokens of a value. -/
def Tree.tokens : Tree → List Token
  | null => [.null]
  | boolean b => [.boolean b]
  | number n => [.number n]
  | string parts => [.string parts]
  | array elements =>
    .openBracket :: commaSeparated (elements.map fun v => v.tokens) ++ [.closeBracket]
  | object members =>
    .openBrace :: commaSeparated (members.map fun m => .string m.1 :: .colon :: m.2.tokens)
      ++ [.closeBrace]
decreasing_by
  · have := List.sizeOf_lt_of_mem ‹v ∈ elements›
    simp only [array.sizeOf_spec]
    omega
  · have := List.sizeOf_lt_of_mem ‹m ∈ members›
    rcases m with ⟨key, v⟩
    simp only [object.sizeOf_spec, Prod.mk.sizeOf_spec] at this ⊢
    omega

theorem Tree.tokens_ne_nil (v : Tree) : v.tokens ≠ [] := by
  cases v <;> simp [Tree.tokens]

/-! ## Strings -/

/-- The code that hexadecimal digits spell. -/
def hexCode? (digits : List Char) : Option Nat :=
  digits.foldlM (fun code c => (hexDigit? c).map (16 * code + ·)) 0

/-- A part of a string is a character that is no control character, quote or backslash, or an
escape by one letter or by four hexadecimal digits. -/
inductive StringPart.SpelledBy : StringPart → List Char → Prop
  | plain {c : Char} (printable : ¬ c < ' ') (noQuote : c ≠ '"') (noBackslash : c ≠ '\\') :
      SpelledBy (.char c) [c]
  | letter {c e : Char} (h : simpleEscape? c = some e) : SpelledBy (.char e) ['\\', c]
  | code {digits : List Char} {code : Nat} (four : digits.length = 4)
      (h : hexCode? digits = some code) : SpelledBy (.unit code) ('\\' :: 'u' :: digits)

/-- The parts of a string one after the other. -/
inductive PartsSpelledBy : List StringPart → List Char → Prop
  | nil : PartsSpelledBy [] []
  | cons {part : StringPart} {parts : List StringPart} {w text : List Char}
      (first : part.SpelledBy w) (rest : PartsSpelledBy parts text) :
      PartsSpelledBy (part :: parts) (w ++ text)

/-- The text as a string without escapes. -/
def plain (text : String) : List StringPart := text.toList.map .char

theorem decodeText_plain (text : String) : decodeText (plain text) = some text := by
  have hdecode (l : List Char) : decode (l.map .char) = some l := by
    induction l with
    | nil => rfl
    | cons c l ih => simp [decode, ih]
  rw [decodeText, plain, hdecode, Option.map_some, String.ofList_toList]

theorem spelledBy_plain {text : String}
    (h : text.toList.all (fun c => ¬ c < ' ' ∧ c ≠ '"' ∧ c ≠ '\\')) :
    PartsSpelledBy (plain text) text.toList := by
  unfold plain
  generalize text.toList = l at h
  induction l with
  | nil => exact .nil
  | cons c l ih =>
    rw [List.all_cons, Bool.and_eq_true, decide_eq_true_eq] at h
    obtain ⟨⟨hcontrol, hquote, hbackslash⟩, hrest⟩ := h
    exact .cons (.plain hcontrol hquote hbackslash) (ih hrest)

/-! ## Numbers -/

namespace Numeral

/-- Decimal digits. -/
def Decimal (digits : List Nat) : Prop := ∀ d ∈ digits, d < 10

/-- The digits before the point: at least one, and no zero leads others. -/
def Whole (digits : List Nat) : Prop :=
  Decimal digits ∧ (digits = [0] ∨ ∃ d ds, digits = d :: ds ∧ d ≠ 0)

def digitsText (digits : List Nat) : List Char := digits.map Nat.digitChar

def signText (negative : Bool) : List Char := if negative then ['-'] else []

/-- The point comes with digits after it only. -/
def fractionText (digits : List Nat) : List Char :=
  if digits = [] then [] else '.' :: digitsText digits

/-- What is written before the exponent. -/
def front (n : Numeral) : List Char :=
  signText n.negative ++ digitsText n.whole ++ fractionText n.fraction

/-- An exponent is marked by an `e` of either case and may have a sign. -/
inductive ExponentSpelledBy (n : Numeral) : List Char → Prop
  | none (h : n.exponent = []) (sign : n.exponentNegative = false) : ExponentSpelledBy n []
  | unsigned {mark : Char} (h : n.exponent ≠ []) (sign : n.exponentNegative = false)
      (hmark : mark = 'e' ∨ mark = 'E') : ExponentSpelledBy n (mark :: digitsText n.exponent)
  | signed {mark : Char} (h : n.exponent ≠ []) (hmark : mark = 'e' ∨ mark = 'E') :
      ExponentSpelledBy n
        (mark :: (if n.exponentNegative then '-' else '+') :: digitsText n.exponent)

/-- The number is written as its sign, its digits before the point and after it, and its
exponent. -/
structure SpelledBy (n : Numeral) (text : List Char) : Prop where
  whole : Whole n.whole
  fraction : Decimal n.fraction
  exponent : Decimal n.exponent
  spelling : ∃ x, n.ExponentSpelledBy x ∧ text = n.front ++ x

end Numeral

/-! ## Texts -/

/-- How a token is spelled. Nothing spells a token of what went wrong. -/
inductive Token.SpelledBy : Token → List Char → Prop
  | openBrace : SpelledBy .openBrace ['\x7b']
  | closeBrace : SpelledBy .closeBrace ['\x7d']
  | openBracket : SpelledBy .openBracket ['[']
  | closeBracket : SpelledBy .closeBracket [']']
  | colon : SpelledBy .colon [':']
  | comma : SpelledBy .comma [',']
  | null : SpelledBy .null ['n', 'u', 'l', 'l']
  | true : SpelledBy (.boolean true) ['t', 'r', 'u', 'e']
  | false : SpelledBy (.boolean false) ['f', 'a', 'l', 's', 'e']
  | number {n : Numeral} {text : List Char} (h : n.SpelledBy text) : SpelledBy (.number n) text
  | string {parts : List StringPart} {text : List Char} (h : PartsSpelledBy parts text) :
      SpelledBy (.string parts) ('"' :: text ++ ['"'])

/-- A text spells tokens one after the other, with blanks between them, before and after. -/
inductive Spelled : List Token → List Char → Prop
  | nil : Spelled [] []
  | blank {c : Char} {ts : List Token} {text : List Char} (h : isBlank c = true)
      (rest : Spelled ts text) : Spelled ts (c :: text)
  | token {t : Token} {ts : List Token} {w text : List Char} (first : t.SpelledBy w)
      (rest : Spelled ts text) : Spelled (t :: ts) (w ++ text)

/-- The text is JSON for the value. -/
def Tree.SpelledBy (v : Tree) (text : String) : Prop := Spelled v.tokens text.toList

variable {ts ts' : List Token} {s s' : List Char} {t : Token}

theorem Spelled.append (h : Spelled ts s) (h' : Spelled ts' s') :
    Spelled (ts ++ ts') (s ++ s') := by
  induction h with
  | nil => exact h'
  | blank hblank _ ih => exact .blank hblank ih
  | token first _ ih =>
    rw [List.append_assoc]
    exact .token first ih

theorem Token.SpelledBy.spelled (h : t.SpelledBy s) : Spelled [t] s := by
  rw [← List.append_nil s]
  exact .token h .nil

theorem spelled_commaSeparated {α : Type} {tokens : α → List Token} {text : α → List Char}
    {items : List α} (h : ∀ a ∈ items, Spelled (tokens a) (text a)) :
    Spelled (commaSeparated (items.map tokens)) ([','].intercalate (items.map text)) := by
  induction items with
  | nil => exact .nil
  | cons a items ih =>
    obtain ⟨ha, hitems⟩ := List.forall_mem_cons.1 h
    cases items with
    | nil => simpa [commaSeparated] using ha
    | cons b items =>
      have hrest := ha.append (Token.SpelledBy.comma.spelled.append (ih hitems))
      simp only [List.map_cons, List.intercalate_cons_cons] at hrest ⊢
      simpa [commaSeparated] using hrest

end FrameMachine.Json
