import FrameMachine.Machine.Action
import Mathlib.Tactic.Common

/-!
# What pops take

A pop that succeeds has taken its value off the top, and nothing else. So arguments that were
taken with their count stood above what is left, in push order (`popArguments_eq_ok_iff`).
-/

namespace FrameMachine

theorem bind_eq_ok {ε α β : Type} {x : Except ε α} {g : α → Except ε β} {b : β} :
    x >>= g = .ok b ↔ ∃ a, x = .ok a ∧ g a = .ok b := by
  cases x <;> simp [bind, Except.bind]

theorem map_eq_ok {ε α β : Type} {x : Except ε α} {g : α → β} {b : β} :
    x.map g = .ok b ↔ ∃ a, x = .ok a ∧ g a = b := by
  cases x <;> simp [Except.map]

namespace Value

theorem asInteger_eq_ok_iff {v : Value} {n : Int64} : v.asInteger = .ok n ↔ v = .integer n := by
  cases v <;> simp [asInteger]

theorem asDouble_eq_ok_iff {v : Value} {d : Double} : v.asDouble = .ok d ↔ v = .double d := by
  cases v <;> simp [asDouble]

theorem asNative_eq_ok_iff {v : Value} {name : NativeName} :
    v.asNative = .ok name ↔ v = .native name := by
  cases v <;> simp [asNative]

end Value

namespace OperandStack

@[ext] theorem ext_toList {s t : OperandStack} (h : s.toList = t.toList) : s = t := by
  rw [← ofList_toList s, h, ofList_toList]

@[simp] theorem values_push (s : OperandStack) (v : Value) :
    (s.push v).values = v :: s.values := rfl

theorem push_inj {s t : OperandStack} {v w : Value} : s.push v = t.push w ↔ s = t ∧ v = w := by
  rcases s with ⟨vs⟩
  rcases t with ⟨ws⟩
  simp [push, and_comm]

theorem pop_eq_ok_iff {s : OperandStack} {v : Value} :
    s.pop.1 = .ok v ↔ s = s.pop.2.push v := by
  rcases s with ⟨_ | ⟨w, rest⟩⟩
  · simp [pop, push]
  · simp [pop, push]

theorem popAs_eq_ok_iff {α : Type} {as : Value → Except Fault α} {s : OperandStack} {x : α} :
    (s.popAs as).1 = .ok x ↔ ∃ v, s = (s.popAs as).2.push v ∧ as v = .ok x := by
  rcases s with ⟨_ | ⟨w, rest⟩⟩
  · simp [popAs, pop, push]
  · simp [popAs, pop, push]

theorem popInteger_eq_ok_iff {s : OperandStack} {n : Int64} :
    s.popInteger.1 = .ok n ↔ s = s.popInteger.2.push (.integer n) := by
  simp [popInteger, popAs_eq_ok_iff, Value.asInteger_eq_ok_iff]

theorem popDouble_eq_ok_iff {s : OperandStack} {d : Double} :
    s.popDouble.1 = .ok d ↔ s = s.popDouble.2.push (.double d) := by
  simp [popDouble, popAs_eq_ok_iff, Value.asDouble_eq_ok_iff]

theorem popNative_eq_ok_iff {s : OperandStack} {name : NativeName} :
    s.popNative.1 = .ok name ↔ s = s.popNative.2.push (.native name) := by
  simp [popNative, popAs_eq_ok_iff, Value.asNative_eq_ok_iff]

@[simp] theorem popInteger_push (s : OperandStack) (n : Int64) :
    (s.push (.integer n)).popInteger = (.ok n, s) := rfl

@[simp] theorem popDouble_push (s : OperandStack) (d : Double) :
    (s.push (.double d)).popDouble = (.ok d, s) := rfl

@[simp] theorem popNative_push (s : OperandStack) (name : NativeName) :
    (s.push (.native name)).popNative = (.ok name, s) := rfl

theorem popCount_eq_ok_iff {s rest : OperandStack} {reserved count : Nat} :
    s.popCount reserved = .ok (count, rest) ↔ ∃ n : Int64,
      s = rest.push (.integer n) ∧ n.toInt = count ∧ count + reserved ≤ rest.depth := by
  unfold popCount
  simp only [bind_eq_ok, popInteger_eq_ok_iff]
  constructor
  · rintro ⟨n, hs, h⟩
    split at h
    · cases h
    · rename_i c hc
      split_ifs at h with hlt
      · cases h
      · cases h
        exact ⟨n, hs, position?_eq_some.1 hc, by omega⟩
  · rintro ⟨n, rfl, hn, hle⟩
    refine ⟨n, rfl, ?_⟩
    rw [position?_eq_some.2 hn, popInteger_push]
    simp [Nat.not_lt.2 hle, pure, Except.pure]

/-- Arguments are taken exactly when they and their count are on top of at least `reserved`
values. -/
theorem popArguments_eq_ok_iff {s rest : OperandStack} {reserved : Nat} {arguments : List Value} :
    s.popArguments reserved = .ok (arguments, rest) ↔ ∃ n : Int64,
      s.toList = rest.toList ++ arguments ++ [.integer n] ∧ n.toInt = arguments.length
        ∧ reserved ≤ rest.depth := by
  unfold popArguments
  simp only [bind_eq_ok]
  constructor
  · rintro ⟨⟨count, t⟩, hc, args, ht, u, hd, h⟩
    obtain ⟨n, rfl, hn, hle⟩ := popCount_eq_ok_iff.1 hc
    have hcount : count ≤ t.depth := by omega
    cases h
    rw [top_eq_ok hcount] at ht
    rw [discard_eq_ok hcount] at hd
    cases ht
    cases hd
    refine ⟨n, by simp, ?_, ?_⟩
    · rw [hn, List.length_drop, length_toList]
      omega
    · rw [← length_toList, toList_ofList, List.length_take, length_toList]
      omega
  · rintro ⟨n, hs, hn, hr⟩
    have hs' : s = (ofList (rest.toList ++ arguments)).push (.integer n) := by
      ext1
      simp [hs]
    have hlen : (ofList (rest.toList ++ arguments)).depth = rest.depth + arguments.length := by
      rw [← length_toList, toList_ofList, List.length_append, length_toList]
    have hle : arguments.length ≤ (ofList (rest.toList ++ arguments)).depth := by omega
    refine ⟨(arguments.length, _), popCount_eq_ok_iff.2 ⟨n, hs', hn, by omega⟩, arguments, ?_,
      rest, ?_, rfl⟩
    · rw [top_eq_ok hle, toList_ofList, hlen, Nat.add_sub_cancel, ← length_toList,
        List.drop_left]
    · rw [discard_eq_ok hle, toList_ofList, hlen, Nat.add_sub_cancel, ← length_toList,
        List.take_left, ofList_toList]

/-- Arguments that can be taken, seen from the top of the stack. -/
theorem values_of_popArguments {s rest : OperandStack} {reserved : Nat} {arguments : List Value}
    (h : s.popArguments reserved = .ok (arguments, rest)) :
    ∃ n : Int64, s.values = .integer n :: (arguments.reverse ++ rest.values)
      ∧ n.toInt = arguments.length ∧ reserved ≤ rest.values.length := by
  obtain ⟨n, hs, hn, hle⟩ := popArguments_eq_ok_iff.1 h
  refine ⟨n, ?_, hn, hle⟩
  have := congrArg List.reverse hs
  simpa [toList] using this

end OperandStack

end FrameMachine
