import FrameMachine.Config.Basic

/-!
# Fields of a written configuration
-/

namespace FrameMachine

/-- The name a locals model is written by. -/
def LocalsModel.name : LocalsModel → String
  | shared => "shared"
  | perFrame => "per_frame"

def LocalsModel.ofName? (text : String) : Option LocalsModel :=
  [shared, perFrame].find? (·.name = text)

theorem LocalsModel.ofName?_name (m : LocalsModel) : ofName? m.name = some m := by
  cases m <;> decide

namespace Config

/-- The parts of a configuration, by the name each is written under. -/
inductive Field
  | localsCapacity
  | localsModel
  | maxSteps
  | maxCallDepth
  | arenaCapacity
deriving DecidableEq, Inhabited

namespace Field

/-- The fields in the order in which they are written. -/
def all : List Field := [localsCapacity, localsModel, maxSteps, maxCallDepth, arenaCapacity]

theorem mem_all (f : Field) : f ∈ all := by cases f <;> decide

/-- The key a field is written under. -/
def key : Field → String
  | localsCapacity => "locals_capacity"
  | localsModel => "locals_model"
  | maxSteps => "max_steps"
  | maxCallDepth => "max_call_depth"
  | arenaCapacity => "arena_capacity"

def ofKey? (text : String) : Option Field := all.find? (·.key = text)

theorem ofKey?_key (f : Field) : ofKey? f.key = some f := by cases f <;> decide

end Field

end Config

end FrameMachine
