import FrameMachine.Config.Field

/-!
# Writing configurations

The written form is compact JSON with all fields, in order.
-/

namespace FrameMachine.Config

/-- How the value of a field is written; no limit on the steps is `null`. -/
def writtenValue (c : Config) : Field → String
  | .localsCapacity => c.localsCapacity.repr
  | .localsModel => "\"" ++ c.localsModel.name ++ "\""
  | .maxSteps =>
    match c.maxSteps with
    | some n => n.repr
    | none => "null"
  | .maxCallDepth => c.maxCallDepth.repr
  | .arenaCapacity => c.arenaCapacity.repr

/-- A field with its value. -/
def writtenMember (c : Config) (f : Field) : String :=
  "\"" ++ f.key ++ "\":" ++ c.writtenValue f

/-- The written form of a configuration. -/
def written (c : Config) : String :=
  "\x7b" ++ ",".intercalate (Field.all.map c.writtenMember) ++ "\x7d"

end FrameMachine.Config
