import FrameMachine.Index
import FrameMachine.Value.Basic

/-!
# Locals

A fixed number of slots, all `undefined` at first.
-/

namespace FrameMachine

/-- Local slots, addressed from 0. -/
structure Locals where
  slots : Array Value
deriving DecidableEq, Inhabited

namespace Locals

/-- Slots that nothing was stored to. -/
def blank (capacity : Nat) : Locals := ⟨Array.replicate capacity .undefined⟩

def capacity (l : Locals) : Nat := l.slots.size

/-- The value in the slot at `index`. -/
def load (l : Locals) (index : Int64) : Except Fault Value :=
  match (position? index).bind (l.slots[·]?) with
  | some v => .ok v
  | none => .error (.localIndexOutOfBounds index)

/-- The locals with `v` in the slot at `index`. -/
def store (l : Locals) (index : Int64) (v : Value) : Except Fault Locals :=
  match positionBelow? l.capacity index with
  | some n => .ok ⟨l.slots.setIfInBounds n v⟩
  | none => .error (.localIndexOutOfBounds index)

/-- Every slot `undefined` again. -/
def reset (l : Locals) : Locals := blank l.capacity

@[simp] theorem capacity_blank (n : Nat) : (blank n).capacity = n := by simp [blank, capacity]

theorem capacity_store {l l' : Locals} {index : Int64} {v : Value}
    (h : l.store index v = .ok l') : l'.capacity = l.capacity := by
  unfold store at h
  split at h
  · cases h; simp [capacity]
  · cases h

end Locals

end FrameMachine
