import FrameMachine.Config.Field
import FrameMachine.Double.Shortest
import FrameMachine.Json.Scalar
import FrameMachine.Text.Quoted

/-!
# Why a configuration text is refused
-/

namespace FrameMachine.Config

/-- What a text gives where something else is wanted. -/
inductive Found
  | null
  | boolean (b : Bool)
  | integer (i : Int)
  | double (d : Double)
  | string (text : String)
  | sequence
  | map

/-- How messages name what was found. -/
def Found.text : Found → String
  | null => "null"
  | boolean b => "boolean `" ++ (if b then "true" else "false") ++ "`"
  | integer i => "integer `" ++ Text.decimal i ++ "`"
  | double d => "floating point `" ++ d.shortestText ++ "`"
  | string text => "string " ++ Text.quoted text
  | sequence => "sequence"
  | map => "map"

/-- What the start of a value gives, as far as its first token says. Nothing, if the token starts
no value, or a number is too large, or a string stands for no text. -/
def Found.ofToken? : Json.Token → Option Found
  | .null => some .null
  | .boolean b => some (.boolean b)
  | .number n =>
    n.value?.map fun
      | .natural n => .integer n
      | .negative i => .integer i
      | .double d => .double d
  | .string parts => (Json.decodeText parts).map .string
  | .openBracket => some .sequence
  | .openBrace => some .map
  | _ => none

/-- What is wanted somewhere. -/
inductive Wanted
  /-- The whole configuration. -/
  | configuration
  /-- A capacity or a depth. -/
  | size
  /-- A number of steps. -/
  | count
  /-- The null beside the name of a locals model. -/
  | unit
deriving DecidableEq

/-- How messages name what is wanted. -/
def Wanted.text : Wanted → String
  | configuration => "struct Config"
  | size => "usize"
  | count => "u64"
  | unit => "unit"

/-- Why the reader refused a token, or the end of the text. -/
inductive ReadError
  | duplicateField (f : Field)
  | unknownVariant (name : String)
  | invalidType (found : Found) (wanted : Wanted)
  /-- A negative integer where a natural is wanted. -/
  | negativeInteger (i : Int) (wanted : Wanted)
  /-- Everything else: the text is not JSON, ends early or goes on after the configuration; a number
  that is read is too large for a double, or a string stands for no text; an array has an element
  too many; or a locals model is neither a string nor an object of one member with a string for its
  key. The words for these are the JSON parser's own: the character it waited for, the nesting it
  was in, the type of what stands where it wants a variant's identifier. They tell no more about a
  configuration than that the text stands for none, so all of them have one message, which is none
  of the parser's. -/
  | malformed

/-- What a read error says. -/
def ReadError.message : ReadError → String
  | duplicateField f => "duplicate field `" ++ f.key ++ "`"
  | unknownVariant name => "unknown variant `" ++ name ++ "`, expected `shared` or `per_frame`"
  | invalidType found wanted => "invalid type: " ++ found.text ++ ", expected " ++ wanted.text
  | negativeInteger i wanted =>
    "invalid value: integer `" ++ Text.decimal i ++ "`, expected " ++ wanted.text
  | malformed => "<syntax>"

/-- The error of a token that starts something else than what is wanted. -/
def ReadError.unwanted (t : Json.Token) (wanted : Wanted) : ReadError :=
  match Found.ofToken? t with
  | some found => .invalidType found wanted
  | none => .malformed

end FrameMachine.Config
