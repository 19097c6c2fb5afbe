/-!
# Kinds of values
-/

namespace FrameMachine

/-- The kinds a value can be of. -/
inductive Kind
  | null
  | undefined
  | integer
  | double
  | native
  | userDefined
deriving DecidableEq, Inhabited

/-- How messages name a kind. -/
def Kind.text : Kind → String
  | .null => "null"
  | .undefined => "undefined"
  | .integer => "integer"
  | .double => "double"
  | .native => "native function"
  | .userDefined => "user-defined"

end FrameMachine
