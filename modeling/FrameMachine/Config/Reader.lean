import FrameMachine.Config.ReadError
import FrameMachine.Json.Lexer
import FrameMachine.Json.Skip

/-!
# Reading configurations

A configuration is an object of its fields, in any order and with unknown members among them, or an
array of its first fields in order; fields that are not given keep their defaults. The reader is fed
one token at a time and refuses at the first token that cannot be right, so what follows that token
does not matter (`read_append_of_error`).
-/

namespace FrameMachine.Config

open Json

/-- The two ways to write a configuration. -/
inductive Shape
  | object
  | array
deriving DecidableEq

/-- What has to come next. -/
inductive Expected
  /-- The start of the configuration. -/
  | document
  /-- A key or the end of an object without members. -/
  | firstKey
  | key
  /-- The colon after the key of a field, or of an unknown member. -/
  | colon (f : Option Field)
  | value (f : Field)
  /-- The next field's value, or the end of an array without elements. -/
  | firstElement
  /-- The next field's value. -/
  | element
  /-- The rest of an unknown member's value. -/
  | skipped (s : Skip)
  /-- A comma or the end of the configuration. -/
  | separator
  /-- The name of a locals model, as the one key of an object. Like any key that is no string, a
  name that is none is `malformed`; that the parser calls it a value of another type is its own
  wording. -/
  | variantName
  | variantColon (m : LocalsModel)
  | variantNull (m : LocalsModel)
  | variantEnd (m : LocalsModel)
  /-- Nothing: the configuration is complete. -/
  | nothing
deriving DecidableEq

/-- How far a configuration is read. -/
structure Reader where
  /-- What was read so far, over the defaults. -/
  config : Config := {}
  /-- The fields that were given so far. -/
  given : List Field := []
  shape : Shape := .object
  expected : Expected := .document
deriving DecidableEq

/-- A natural below `2 ^ 64`, in digits alone. -/
def readNatural (wanted : Wanted) (t : Token) : Except ReadError Nat :=
  match t with
  | .number n =>
    match n.value? with
    | some (.natural n) => .ok n
    | some (.negative i) => .error (.negativeInteger i wanted)
    | some (.double d) => .error (.invalidType (.double d) wanted)
    | none => .error .malformed
  | t => .error (.unwanted t wanted)

/-- A limit on the steps, `null` for none. -/
def readLimit (t : Token) : Except ReadError (Option Nat) :=
  match t with
  | .null => .ok none
  | t => (readNatural .count t).map some

/-- The text that a string token stands for. -/
def readText (parts : List StringPart) : Except ReadError String :=
  match decodeText parts with
  | some text => .ok text
  | none => .error .malformed

/-- The locals model that a string token names. -/
def readVariant (parts : List StringPart) : Except ReadError LocalsModel := do
  let name ← readText parts
  match LocalsModel.ofName? name with
  | some m => return m
  | none => throw (.unknownVariant name)

namespace Reader

/-- The reader expecting `e`. -/
def expecting (r : Reader) (e : Expected) : Reader := { r with expected := e }

/-- The reader with field `f` given in configuration `c`. -/
def give (r : Reader) (f : Field) (c : Config) : Reader :=
  { r with config := c, given := r.given ++ [f], expected := .separator }

def giveModel (r : Reader) (m : LocalsModel) : Reader :=
  r.give .localsModel { r.config with localsModel := m }

/-- Reads the first token of the value of field `f`. -/
def feedValue (r : Reader) (f : Field) (t : Token) : Except ReadError Reader :=
  match f with
  | .localsCapacity => do
    return r.give f { r.config with localsCapacity := ← readNatural .size t }
  | .localsModel =>
    match t with
    | .string parts => return r.giveModel (← readVariant parts)
    | .openBrace => return r.expecting .variantName
    | _ => throw .malformed
  | .maxSteps => do
    return r.give f { r.config with maxSteps := ← readLimit t }
  | .maxCallDepth => do
    return r.give f { r.config with maxCallDepth := ← readNatural .size t }
  | .arenaCapacity => do
    return r.give f { r.config with arenaCapacity := ← readNatural .size t }

/-- Reads the key of a member. A field may be given once. -/
def feedKey (r : Reader) (t : Token) : Except ReadError Reader :=
  match t with
  | .string parts => do
    match Field.ofKey? (← readText parts) with
    | some f =>
      if f ∈ r.given then throw (.duplicateField f)
      return r.expecting (.colon (some f))
    | none => return r.expecting (.colon none)
  | _ => throw .malformed

/-- Reads the first token of the value of the first field that was not given. -/
def feedElement (r : Reader) (t : Token) : Except ReadError Reader :=
  match Field.all[r.given.length]? with
  | some f => r.feedValue f t
  | none => throw .malformed

/-- Reads a token of an unknown member's value. -/
def feedSkipped (r : Reader) (s : Skip) (t : Token) : Except ReadError Reader :=
  match s.feed t with
  | some s => return r.expecting (if s.isDone then .separator else .skipped s)
  | none => throw .malformed

/-- Reads what follows a member or an element. -/
def feedSeparator (r : Reader) (t : Token) : Except ReadError Reader :=
  match r.shape, t with
  | .object, .comma => return r.expecting .key
  | .object, .closeBrace => return r.expecting .nothing
  | .array, .comma => return r.expecting .element
  | .array, .closeBracket => return r.expecting .nothing
  | _, _ => throw .malformed

/-- Reads one token. -/
def feed (r : Reader) (t : Token) : Except ReadError Reader :=
  match r.expected with
  | .document =>
    match t with
    | .openBrace => return { r with shape := .object, expected := .firstKey }
    | .openBracket => return { r with shape := .array, expected := .firstElement }
    | t => throw (.unwanted t .configuration)
  | .firstKey => if t = .closeBrace then return r.expecting .nothing else r.feedKey t
  | .key => r.feedKey t
  | .colon f =>
    if t = .colon then
      match f with
      | some f => return r.expecting (.value f)
      | none => return r.expecting (.skipped {})
    else throw .malformed
  | .value f => r.feedValue f t
  | .firstElement => if t = .closeBracket then return r.expecting .nothing else r.feedElement t
  | .element => r.feedElement t
  | .skipped s => r.feedSkipped s t
  | .separator => r.feedSeparator t
  | .variantName =>
    match t with
    | .string parts => return r.expecting (.variantColon (← readVariant parts))
    | _ => throw .malformed
  | .variantColon m =>
    if t = .colon then return r.expecting (.variantNull m) else throw .malformed
  | .variantNull m =>
    if t = .null then return r.expecting (.variantEnd m) else throw (.unwanted t .unit)
  | .variantEnd m => if t = .closeBrace then return r.giveModel m else throw .malformed
  | .nothing => throw .malformed

/-- The configuration that was read, if it is complete. -/
def finish (r : Reader) : Except ReadError Config :=
  if r.expected = .nothing then .ok r.config else .error .malformed

end Reader

/-- The configuration that tokens stand for. -/
def read (tokens : List Token) : Except ReadError Config := do
  (← tokens.foldlM Reader.feed {}).finish

/-- The configuration that a text stands for, if its limits are valid. -/
def ofText (text : String) : Except Fault Config :=
  match read (lex text.toList) with
  | .error e => .error (.invalidConfig e.message)
  | .ok c => c.validate.map fun _ => c

theorem read_append_of_error {s : List Token} {e : ReadError}
    (h : s.foldlM Reader.feed {} = .error e) (t : List Token) : read (s ++ t) = .error e := by
  simp only [read, List.foldlM_append, h]
  rfl

example (rest : List Token) :
    read (lex "\x7b\"locals_model\":\x7b\x7b".toList ++ rest) = .error .malformed := rfl

end FrameMachine.Config
