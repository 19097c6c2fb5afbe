import FrameMachine.Value.Basic

/-!
# Operand stacks

The values of one frame, last in, first out. Each operation that can fail hands back the stack
beside its result, since a failed pop of the wrong kind has still taken the value.
-/

namespace FrameMachine

/-- The operand stack of a frame, its top value first. -/
structure OperandStack where
  values : List Value := []
deriving DecidableEq, Inhabited

namespace OperandStack

/-- The stack that holds `values`, given bottom first. -/
def ofList (values : List Value) : OperandStack := ⟨values.reverse⟩

/-- All values, bottom first. -/
def toList (s : OperandStack) : List Value := s.values.reverse

def depth (s : OperandStack) : Nat := s.values.length

def isEmpty (s : OperandStack) : Bool := s.values.isEmpty

def push (s : OperandStack) (v : Value) : OperandStack := ⟨v :: s.values⟩

/-- Takes the top value. -/
def pop (s : OperandStack) : Except Fault Value × OperandStack :=
  match s.values with
  | [] => (.error .stackUnderflow, s)
  | v :: rest => (.ok v, ⟨rest⟩)

/-- Takes the top value and reads it with `as`; what `as` refuses is gone from the stack. -/
def popAs {α : Type} (as : Value → Except Fault α) (s : OperandStack) :
    Except Fault α × OperandStack :=
  match s.pop with
  | (.error e, s) => (.error e, s)
  | (.ok v, s) => (as v, s)

def popInteger : OperandStack → Except Fault Int64 × OperandStack := popAs Value.asInteger

def popDouble : OperandStack → Except Fault Double × OperandStack := popAs Value.asDouble

def popNative : OperandStack → Except Fault NativeName × OperandStack := popAs Value.asNative

/-- The top value, left in place. -/
def peek (s : OperandStack) : Except Fault Value :=
  match s.values with
  | [] => .error .stackUnderflow
  | v :: _ => .ok v

/-- Fails unless `n` values are there. -/
def require (s : OperandStack) (n : Nat) : Except Fault Unit :=
  if s.depth < n then .error .stackUnderflow else .ok ()

/-- The top `n` values, bottom first. -/
def top (s : OperandStack) (n : Nat) : Except Fault (List Value) :=
  (s.require n).map fun _ => (s.values.take n).reverse

/-- Drops the top `n` values. -/
def discard (s : OperandStack) (n : Nat) : Except Fault OperandStack :=
  (s.require n).map fun _ => ⟨s.values.drop n⟩

@[simp] theorem toList_ofList (vs : List Value) : (ofList vs).toList = vs := by
  simp [ofList, toList]

@[simp] theorem ofList_toList (s : OperandStack) : ofList s.toList = s := by
  simp [ofList, toList]

@[simp] theorem toList_push (s : OperandStack) (v : Value) :
    (s.push v).toList = s.toList ++ [v] := by
  simp [push, toList]

@[simp] theorem length_toList (s : OperandStack) : s.toList.length = s.depth := by
  simp [toList, depth]

@[simp] theorem depth_push (s : OperandStack) (v : Value) : (s.push v).depth = s.depth + 1 := rfl

@[simp] theorem pop_push (s : OperandStack) (v : Value) : (s.push v).pop = (.ok v, s) := rfl

theorem require_eq_ok {s : OperandStack} {n : Nat} (h : n ≤ s.depth) : s.require n = .ok () :=
  if_neg (Nat.not_lt.2 h)

theorem top_eq_ok {s : OperandStack} {n : Nat} (h : n ≤ s.depth) :
    s.top n = .ok (s.toList.drop (s.depth - n)) := by
  rw [top, require_eq_ok h]
  simp [Except.map, toList, depth, List.drop_reverse] at h ⊢
  omega

theorem discard_eq_ok {s : OperandStack} {n : Nat} (h : n ≤ s.depth) :
    s.discard n = .ok (ofList (s.toList.take (s.depth - n))) := by
  rw [discard, require_eq_ok h]
  simp [Except.map, ofList, toList, depth, List.take_reverse] at h ⊢
  omega

end OperandStack

end FrameMachine
