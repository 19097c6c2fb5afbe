import FrameMachine.Proofs.Step

/-!
# Slots

A store to a slot is what a load finds there, and leaves the others alone; only an index outside
the locals fails. So a turn that loads or stores within the locals goes on, and one that does not
reports the index.
-/

namespace FrameMachine

namespace Locals

variable {l l' : Locals} {slot other : Int64} {v : Value}

theorem load_eq_ok_iff :
    l.load slot = .ok v ↔ ∃ n : Nat, slot.toInt = n ∧ l.slots[n]? = some v := by
  unfold load
  split
  · rename_i w hw
    obtain ⟨n, hn, hw⟩ := Option.bind_eq_some_iff.1 hw
    have hn := position?_eq_some.1 hn
    constructor
    · intro h
      cases h
      exact ⟨n, hn, hw⟩
    · rintro ⟨k, hk, hv⟩
      obtain rfl : n = k := by omega
      rw [hw] at hv
      cases hv
      rfl
  · rename_i hnone
    simp only [reduceCtorEq, false_iff, not_exists, not_and]
    intro n hn hv
    rw [position?_eq_some.2 hn] at hnone
    exact absurd (hnone.symm.trans hv) (by simp)

theorem load_of_lt (h0 : 0 ≤ slot.toInt) (hlt : slot.toInt < l.capacity) :
    ∃ v, l.load slot = .ok v := by
  have hn : slot.toInt.toNat < l.slots.size := by
    unfold capacity at hlt
    omega
  exact ⟨_, load_eq_ok_iff.2 ⟨_, (Int.toNat_of_nonneg h0).symm, Array.getElem?_eq_getElem hn⟩⟩

theorem load_of_out (h : slot.toInt < 0 ∨ (l.capacity : Int) ≤ slot.toInt) :
    l.load slot = .error (.localIndexOutOfBounds slot) := by
  rcases hl : l.load slot with e | v
  · unfold load at hl
    split at hl
    · cases hl
    · exact hl.symm
  · exfalso
    obtain ⟨n, hn, hv⟩ := load_eq_ok_iff.1 hl
    obtain ⟨hlt, -⟩ := Array.getElem?_eq_some_iff.1 hv
    unfold capacity at h
    omega

theorem store_of_lt (h0 : 0 ≤ slot.toInt) (hlt : slot.toInt < l.capacity) (v : Value) :
    ∃ l', l.store slot v = .ok l' := by
  have hn : positionBelow? l.capacity slot = some slot.toInt.toNat :=
    positionBelow?_eq_some.2 ⟨by omega, by omega⟩
  exact ⟨_, by rw [store, hn]⟩

theorem store_of_out (h : slot.toInt < 0 ∨ (l.capacity : Int) ≤ slot.toInt) (v : Value) :
    l.store slot v = .error (.localIndexOutOfBounds slot) := by
  rw [store, positionBelow?_eq_none.2 h]

/-- Whether a store is in bounds depends on the size alone. -/
theorem store_cases (h : l.capacity = l'.capacity) (slot : Int64) (v : Value) :
    (∃ e, l.store slot v = .error e ∧ l'.store slot v = .error e)
      ∨ ∃ k k', l.store slot v = .ok k ∧ l'.store slot v = .ok k' := by
  simp only [store, h]
  rcases positionBelow? l'.capacity slot with _ | n
  · exact .inl ⟨_, rfl, rfl⟩
  · exact .inr ⟨_, _, rfl, rfl⟩

theorem load_blank {c : Nat} (h : (blank c).load slot = .ok v) : v = .undefined := by
  obtain ⟨n, -, hv⟩ := load_eq_ok_iff.1 h
  rw [blank, Array.getElem?_replicate] at hv
  split at hv
  · cases hv
    rfl
  · cases hv

theorem load_store (h : l.store slot v = .ok l') : l'.load slot = .ok v := by
  unfold store at h
  split at h
  · rename_i n hn
    obtain ⟨hn, hlt⟩ := positionBelow?_eq_some.1 hn
    cases h
    exact load_eq_ok_iff.2 ⟨n, hn, Array.getElem?_setIfInBounds_self_of_lt hlt⟩
  · cases h

theorem load_store_ne (h : l.store slot v = .ok l') (hne : other ≠ slot) :
    l'.load other = l.load other := by
  unfold store at h
  split at h
  · rename_i n hn
    obtain ⟨hn, -⟩ := positionBelow?_eq_some.1 hn
    cases h
    unfold load
    rcases ho : position? other with _ | k
    · rfl
    · have hnk : n ≠ k := by
        rintro rfl
        exact hne (Int64.toInt_inj.1 ((position?_eq_some.1 ho).trans hn.symm))
      simp only [Option.bind_some, Array.getElem?_setIfInBounds_ne hnk]
  · cases h

end Locals

variable {m : Machine} {s : State} {i : Instruction}

namespace Frame

variable {p : Program} {f : Frame} {slot : Int64}

theorem act_load (op : i.opcode = .load) (operand : i.operand = .integer slot) :
    f.act p i = do
      let v ← f.locals.load slot
      return .proceed (f.push v).advance := by
  unfold act Instruction.integerOperand
  simp only [op, operand, Value.asInteger]
  rfl

theorem act_store (op : i.opcode = .store) (operand : i.operand = .integer slot) :
    f.act p i = do
      let locals ← f.locals.store slot (← f.stack.pop.1)
      return .proceed { f with stack := f.stack.pop.2, locals }.advance := by
  unfold act Instruction.integerOperand
  simp only [op, operand, Value.asInteger]
  rfl

theorem Effect.stored {a : Action} (h : f.Effect p i a) (op : i.opcode = .store) :
    ∃ (slot : Int64) (v : Value) (stack : OperandStack), i.operand = .integer slot
      ∧ f.stack = stack.push v ∧ f.locals.store slot v = .ok a.frame.locals := by
  cases h with
  | store _ operand top stored => exact ⟨_, _, _, operand, top, stored⟩
  | _ => simp_all

end Frame

namespace State

variable {slot : Int64} {v : Value} {stack : OperandStack} {l : Locals} {e : Fault}

theorem Dispatches.turn_load (hd : s.Dispatches m i) (op : i.opcode = .load)
    (operand : i.operand = .integer slot) (hv : s.view.locals.load slot = .ok v) :
    ∃ u, (s.turn m).2 = .running u
      ∧ u.calls.active.stack = s.calls.active.stack.push v := by
  have hs : s.Step m i (s.tick.update (s.view.push v).advance) := .proceed (.load op operand hv)
  exact ⟨_, turn_eq_running_iff.2 ⟨i, hd, hs⟩, by simp [Frame.push, Frame.advance]⟩

theorem Dispatches.turn_load_error (hd : s.Dispatches m i) (op : i.opcode = .load)
    (operand : i.operand = .integer slot) (he : s.view.locals.load slot = .error e) :
    (s.turn m).2 = .faulted e s.tick := by
  refine turn_of_act_error hd ?_
  rw [Frame.act_load op operand, he]
  rfl

theorem Dispatches.turn_store (hd : s.Dispatches m i) (op : i.opcode = .store)
    (operand : i.operand = .integer slot) (top : s.calls.active.stack = stack.push v)
    (hl : s.view.locals.store slot v = .ok l) :
    ∃ u, (s.turn m).2 = .running u ∧ u.calls.active.stack = stack := by
  rw [← view_stack] at top
  have hs := Step.proceed (m := m) (.store op operand top hl)
  exact ⟨_, turn_eq_running_iff.2 ⟨i, hd, hs⟩, by simp [Frame.advance]⟩

theorem Dispatches.turn_store_error (hd : s.Dispatches m i) (op : i.opcode = .store)
    (operand : i.operand = .integer slot) (top : s.calls.active.stack = stack.push v)
    (he : s.view.locals.store slot v = .error e) : (s.turn m).2 = .faulted e s.tick := by
  refine turn_of_act_error hd ?_
  rw [← view_stack] at top
  rw [Frame.act_store op operand, top, OperandStack.pop_push]
  simp [bind, Except.bind, he]

theorem Dispatches.turn_store_empty (hd : s.Dispatches m i) (op : i.opcode = .store)
    (operand : i.operand = .integer slot) (empty : s.calls.active.stack = {}) :
    (s.turn m).2 = .faulted .stackUnderflow s.tick := by
  refine turn_of_act_error hd ?_
  rw [← view_stack] at empty
  rw [Frame.act_store op operand, empty]
  rfl

end State

end FrameMachine
