/-!
# Signed words as indices
-/

namespace FrameMachine

/-- The position that a signed word points at: none below zero. -/
def position? (index : Int64) : Option Nat :=
  if 0 ≤ index.toInt then some index.toInt.toNat else none

/-- The position among `size` places that a signed word points at. -/
def positionBelow? (size : Nat) (index : Int64) : Option Nat :=
  (position? index).filter (· < size)

theorem position?_eq_some {index : Int64} {n : Nat} :
    position? index = some n ↔ index.toInt = n := by
  unfold position?
  split
  · simp only [Option.some.injEq]; omega
  · simp only [reduceCtorEq, false_iff]; omega

theorem position?_eq_none {index : Int64} : position? index = none ↔ index.toInt < 0 := by
  unfold position?
  split
  · simp only [reduceCtorEq, false_iff]; omega
  · simp only [true_iff]; omega

theorem positionBelow?_eq_some {size : Nat} {index : Int64} {n : Nat} :
    positionBelow? size index = some n ↔ index.toInt = n ∧ n < size := by
  simp [positionBelow?, Option.filter_eq_some_iff, position?_eq_some]

theorem positionBelow?_eq_none {size : Nat} {index : Int64} :
    positionBelow? size index = none ↔ index.toInt < 0 ∨ (size : Int) ≤ index.toInt := by
  rw [Option.eq_none_iff_forall_ne_some]
  constructor
  · intro h
    have := fun n => (not_congr positionBelow?_eq_some).1 (h n)
    have := this index.toInt.toNat
    omega
  · intro h n hn
    have := positionBelow?_eq_some.1 hn
    omega

end FrameMachine
