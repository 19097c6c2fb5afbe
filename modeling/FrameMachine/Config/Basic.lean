import FrameMachine.Fault

/-!
# Configurations

The limits of a run and where its locals live.
-/

namespace FrameMachine

/-- Where `load` and `store` find their slots. -/
inductive LocalsModel
  /-- One register file serves every frame of a run. -/
  | shared
  /-- Each frame has locals of its own. -/
  | perFrame
deriving DecidableEq, Inhabited

/-- What a run may use. -/
structure Config where
  /-- The number of local slots. -/
  localsCapacity : Nat := 256
  localsModel : LocalsModel := .shared
  /-- The most instructions a run may execute, if there is a limit. -/
  maxSteps : Option Nat := none
  /-- The most frames that may be live at once, the first one included. -/
  maxCallDepth : Nat := 1024
  /-- Bytes to reserve before a run. A hint to the host: no run depends on it. -/
  arenaCapacity : Nat := 2048
deriving DecidableEq, Inhabited

namespace Config

/-- Refuses a depth limit that leaves no room for the first frame. -/
def validate (c : Config) : Except Fault Unit :=
  if c.maxCallDepth = 0 then
    .error (.invalidConfig "max_call_depth must allow the top-level frame")
  else .ok ()

theorem validate_eq_ok {c : Config} : c.validate = .ok () ↔ 0 < c.maxCallDepth := by
  unfold validate
  split
  · simp; omega
  · simp; omega

end Config

end FrameMachine
