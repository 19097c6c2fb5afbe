import FrameMachine.Proofs.Recall
import FrameMachine.Proofs.SharedLocals
import Mathlib.Tactic.IntervalCases

/-!
# Where the two models of locals agree

The models part only at a load, and what a load finds is known from the history of the run: the
last store by anyone, or the last one by the same invocation. A run is disciplined where these are
the same store, and then the runs under both models go on in step: up to a load the stores of both
are the same, so both loads find the same (`load_share`). A run without calls is disciplined, for
all its turns are the first frame's.
-/

namespace FrameMachine

/-- The exit of the first frame ends the run. -/
theorem State.Step.not_leaves_one {m : Machine} {s s' : State} {i : Instruction}
    (h : s.Step m i s') (hd : s.Dispatches m i) : ¬ s.Leaves m 1 := by
  cases h with
  | proceed effect => exact hd.stays effect.opcode_of_proceed.2.2
  | invoke op => exact hd.stays (by simp [op])
  | enter op => exact hd.stays (by simp [op])
  | leave op top callers =>
    rintro ⟨hdepth, -⟩
    simp [State.depth, CallStack.depth, callers] at hdepth

namespace Machine

/-- Turn `k` is the last of the first `n` that stores to `slot`. -/
def StoresLast (m : Machine) (arguments : List Value) (n : Nat) (slot : Int64) (k : Nat) : Prop :=
  k < n ∧ (∃ v, m.StoresAt arguments k slot v)
    ∧ ∀ j, k < j → j < n → ∀ w, ¬ m.StoresAt arguments j slot w

/-- If turn `n` loads a slot, then nobody has stored to it so far, or the last who did is the
invocation that loads. -/
def DisciplinedAt (m : Machine) (arguments : List Value) (n : Nat) : Prop :=
  ∀ s i slot, m.At arguments n s → s.Dispatches m i → i.opcode = .load →
    i.operand = .integer slot →
    (∀ k < n, ∀ v, ¬ m.StoresAt arguments k slot v)
      ∨ ∃ k, m.StoresLast arguments n slot k ∧ m.Belongs arguments s.depth n k

def Disciplined (m : Machine) (arguments : List Value) : Prop :=
  ∀ n, m.DisciplinedAt arguments n

/-- Turn `n` does not call. -/
def CallFreeAt (m : Machine) (arguments : List Value) (n : Nat) : Prop :=
  ∀ s i, m.At arguments n s → s.Dispatches m i → i.opcode ≠ .call

def CallFree (m : Machine) (arguments : List Value) : Prop :=
  ∀ n, m.CallFreeAt arguments n

variable {m m' : Machine} {arguments : List Value} {s t : State} {i : Instruction} {n k : Nat}
  {slot : Int64} {v w : Value}

section LastStored

variable {W : Nat → Prop}

theorem StoresAt.unique (hv : m.StoresAt arguments k slot v) (hw : m.StoresAt arguments k slot w) :
    v = w := by
  obtain ⟨s, hs, i, stack, -, -, -, hv⟩ := hv
  obtain ⟨t, ht, j, stack', -, -, -, hw⟩ := hw
  rw [hs.unique ht, hw] at hv
  exact (OperandStack.push_inj.1 hv).2.symm

theorem LastStored.unique (hv : m.LastStored arguments W n slot v)
    (hw : m.LastStored arguments W n slot w) : v = w := by
  rcases hv with ⟨k, hk, hWk, hstore, hafter⟩ | ⟨rfl, hnone⟩ <;>
    rcases hw with ⟨k', hk', hWk', hstore', hafter'⟩ | ⟨rfl, hnone'⟩
  · rcases Nat.lt_trichotomy k k' with hlt | rfl | hlt
    · exact absurd hstore' (hafter k' hlt hk' hWk' w)
    · exact hstore.unique hstore'
    · exact absurd hstore (hafter' k hlt hk hWk v)
  · exact absurd hstore (hnone' k hk hWk v)
  · exact absurd hstore' (hnone k' hk' hWk' w)
  · rfl

theorem LastStored.congr (h : m.LastStored arguments W n slot v)
    (hm : ∀ k < n, ∀ w, m'.StoresAt arguments k slot w ↔ m.StoresAt arguments k slot w) :
    m'.LastStored arguments W n slot v := by
  rcases h with ⟨k, hk, hWk, hstore, hafter⟩ | ⟨hv, hnone⟩
  · refine .inl ⟨k, hk, hWk, (hm k hk v).2 hstore, ?_⟩
    exact fun j hkj hj hWj w => (hm j hj w).not.2 (hafter j hkj hj hWj w)
  · exact .inr ⟨hv, fun k hk hWk w => (hm k hk w).not.2 (hnone k hk hWk w)⟩

/-- What a disciplined load finds is the same whoever's stores count. -/
theorem DisciplinedAt.exists_lastStored (hdisc : m.DisciplinedAt arguments n)
    (h : m.At arguments n s) (hd : s.Dispatches m i) (op : i.opcode = .load)
    (operand : i.operand = .integer slot) :
    ∃ v, m.LastStored arguments (fun _ => True) n slot v
      ∧ m.LastStored arguments (m.Belongs arguments s.depth n) n slot v := by
  rcases hdisc s i slot h hd op operand with hnone | ⟨k, ⟨hk, ⟨v, hstore⟩, hafter⟩, hown⟩
  · have hlast (W : Nat → Prop) : m.LastStored arguments W n slot .undefined :=
      .inr ⟨rfl, fun k hk _ => hnone k hk⟩
    exact ⟨.undefined, hlast _, hlast _⟩
  · have hlast (W : Nat → Prop) (hW : W k) : m.LastStored arguments W n slot v :=
      .inl ⟨k, hk, hW, hstore, fun j hkj hj _ => hafter j hkj hj⟩
    exact ⟨v, hlast _ trivial, hlast _ hown⟩

theorem storesLast_cases (m : Machine) (arguments : List Value) (n : Nat) (slot : Int64) :
    (∀ k < n, ∀ v, ¬ m.StoresAt arguments k slot v) ∨ ∃ k, m.StoresLast arguments n slot k := by
  induction n with
  | zero => exact .inl fun k hk => absurd hk (Nat.not_lt_zero k)
  | succ n ih =>
    by_cases hn : ∃ v, m.StoresAt arguments n slot v
    · exact .inr ⟨n, Nat.lt_succ_self n, hn, fun j hj hj' => by omega⟩
    rw [not_exists] at hn
    rcases ih with hnone | ⟨k, hk, hstore, hafter⟩
    · refine .inl fun k hk => ?_
      rcases Nat.lt_succ_iff_lt_or_eq.1 hk with hlt | rfl
      · exact hnone k hlt
      · exact hn
    · refine .inr ⟨k, Nat.lt_succ_of_lt hk, hstore, fun j hkj hj => ?_⟩
      rcases Nat.lt_succ_iff_lt_or_eq.1 hj with hlt | rfl
      · exact hafter j hkj hlt
      · exact hn

end LastStored

section CallFree

/-- The first frame is there as long as the run goes on. -/
theorem belongs_one (h : m.At arguments n s) (ht : m.At arguments k t) (hdepth : t.depth = 1) :
    m.Belongs arguments 1 n k := by
  refine ⟨t, ht, hdepth, fun j hj u hu => ?_⟩
  have hn : k + j + 1 + (n - (k + j + 1)) = n := by omega
  obtain ⟨u', hu', -⟩ := at_add.1 (hn.symm ▸ h)
  obtain ⟨u'', hu'', hturn⟩ := at_succ.1 hu'
  obtain rfl := hu''.unique (at_add.2 ⟨t, ht, hu⟩)
  obtain ⟨i, hd, hi⟩ := State.turn_eq_running_iff.1 hturn
  exact hi.not_leaves_one hd

theorem depth_of_callFree (hcall : ∀ k < n, m.CallFreeAt arguments k) (h : m.At arguments n s) :
    s.depth = 1 := by
  induction n generalizing s with
  | zero => exact at_zero h ▸ rfl
  | succ n ih =>
    obtain ⟨t, ht, hs⟩ := at_succ.1 h
    obtain ⟨i, hd, hi⟩ := State.turn_eq_running_iff.1 hs
    have hdepth : t.depth = 1 := ih (fun k hk => hcall k (Nat.lt_succ_of_lt hk)) ht
    cases hi with
    | proceed => simpa using hdepth
    | invoke => exact hdepth
    | enter op => exact absurd op (hcall n (Nat.lt_succ_self n) t i ht hd)
    | leave op top callers => simp [State.depth, CallStack.depth, callers] at hdepth

theorem disciplinedAt_of_callFree (hcall : ∀ k < n, m.CallFreeAt arguments k) :
    m.DisciplinedAt arguments n := by
  intro s i slot h _ _ _
  rcases m.storesLast_cases arguments n slot with hnone | ⟨k, hlast⟩
  · exact .inl hnone
  · refine .inr ⟨k, hlast, ?_⟩
    obtain ⟨hk, ⟨v, t, ht, -⟩, -⟩ := hlast
    rw [depth_of_callFree hcall h]
    exact belongs_one h ht (depth_of_callFree (fun j hj => hcall j (Nat.lt_trans hj hk)) ht)

end CallFree

section InStep

variable {l : Locals}

theorem storesAt_share
    (h : InStep State.Shares (m.withModel .perFrame) (m.withModel .shared) arguments k) :
    (m.withModel .shared).StoresAt arguments k slot v ↔
      (m.withModel .perFrame).StoresAt arguments k slot v := by
  constructor
  · rintro ⟨s', hs', hstore⟩
    obtain ⟨s, hs, l, rfl⟩ := h.at_left hs'
    exact ⟨s, hs, hstore⟩
  · rintro ⟨s, hs, hstore⟩
    obtain ⟨_, hs', l, rfl⟩ := h.at_right hs
    exact ⟨_, hs', hstore⟩

theorem capacity_share (h : (m.withModel .perFrame).At arguments n s)
    (h' : (m.withModel .shared).At arguments n (s.share l)) :
    s.view.locals.capacity = l.capacity := by
  have hview : (s.share l).view.locals = l := rfl
  rw [← hview, (State.sized_at h).capacity_view, (State.sized_at h').capacity_view]
  rfl

/-- Two runs in step so far have stored the same, so a disciplined load finds the same. -/
theorem load_share
    (hstep : ∀ k < n,
      InStep State.Shares (m.withModel .perFrame) (m.withModel .shared) arguments k)
    (hdisc : (m.withModel .perFrame).DisciplinedAt arguments n)
    (h : (m.withModel .perFrame).At arguments n s)
    (h' : (m.withModel .shared).At arguments n (s.share l))
    (hd : s.Dispatches (m.withModel .perFrame) i) (op : i.opcode = .load)
    (operand : i.operand = .integer slot) :
    s.view.locals.load slot = l.load slot := by
  have hcapacity := capacity_share h h'
  by_cases hin : 0 ≤ slot.toInt ∧ slot.toInt < l.capacity
  · obtain ⟨own, hown⟩ := Locals.load_of_lt hin.1 (hcapacity ▸ hin.2)
    obtain ⟨shared, hshared⟩ := Locals.load_of_lt hin.1 hin.2
    obtain ⟨v, hall, hsame⟩ := hdisc.exists_lastStored h hd op operand
    have hall' : (m.withModel .shared).LastStored arguments (fun _ => True) n slot v :=
      hall.congr fun k hk w => storesAt_share (hstep k hk)
    obtain rfl := hsame.unique (((recalls_at h).load (State.sized_at h) hown).2 rfl)
    obtain rfl := hall'.unique (((recalls_at h').load (State.sized_at h') hshared).1 rfl)
    rw [hown, hshared]
  · have hout : slot.toInt < 0 ∨ (l.capacity : Int) ≤ slot.toInt := by omega
    rw [Locals.load_of_out hout, Locals.load_of_out (hcapacity ▸ hout)]

/-- As long as every load is disciplined the runs are in step. -/
theorem inStep_share (hdisc : ∀ k < n, (m.withModel .perFrame).DisciplinedAt arguments k) :
    ∀ j ≤ n, InStep State.Shares (m.withModel .perFrame) (m.withModel .shared) arguments j := by
  induction n with
  | zero =>
    intro j hj
    obtain rfl := Nat.le_zero.1 hj
    exact inStep_zero rfl rfl ⟨.blank m.config.localsCapacity, rfl⟩
  | succ n ih =>
    -- a load looks back at all turns so far, so the last one in step is not enough
    have hn := ih fun k hk => hdisc k (Nat.lt_succ_of_lt hk)
    intro j hj
    rcases Nat.le_succ_iff.1 hj with hle | rfl
    · exact hn j hle
    refine (hn n (Nat.le_refl n)).succ ?_
    rintro s _ hs hs' ⟨l, rfl⟩
    have hr : s.registers = none := by
      simpa [Config.newRegisters, withModel] using (State.sized_at hs).registers
    refine State.turn_share hr (capacity_share hs hs') fun i slot hd op operand => ?_
    exact load_share (fun k hk => hn k (Nat.le_of_lt hk)) (hdisc n (Nat.lt_succ_self n)) hs hs' hd
      op operand

/-- If nobody calls with shared locals, then nobody does with locals of their own. -/
theorem callFree_perFrame (h : (m.withModel .shared).CallFree arguments) :
    (m.withModel .perFrame).CallFree arguments := by
  intro n
  induction n using Nat.strongRecOn with
  | ind n ih =>
    have hdisc : ∀ k < n, (m.withModel .perFrame).DisciplinedAt arguments k :=
      fun k hk => disciplinedAt_of_callFree fun j hj => ih j (Nat.lt_trans hj hk)
    intro s i hs hd
    obtain ⟨_, hs', l, rfl⟩ := (inStep_share hdisc n (Nat.le_refl n)).at_right hs
    exact h n _ i hs' hd

end InStep

/-- The two models of locals agree on disciplined runs. If, with locals of their own for each frame,
every load finds its slot as its own invocation stored it last, or as nobody has stored to it, then
with shared locals nobody can tell the run from it. So it is with any run that never calls, be it
under the one model or the other. -/
theorem locals_models_agree
    (h : (m.withModel .perFrame).Disciplined arguments
      ∨ (m.withModel .perFrame).CallFree arguments ∨ (m.withModel .shared).CallFree arguments)
    (n : Nat) : SameRun (m.withModel .perFrame) (m.withModel .shared) arguments n := by
  have hdisc : (m.withModel .perFrame).Disciplined arguments := by
    rcases h with hdisc | hown | hshared
    · exact hdisc
    · exact fun n => disciplinedAt_of_callFree fun k _ => hown k
    · exact fun n => disciplinedAt_of_callFree fun k _ => callFree_perFrame hshared k
  exact (inStep_share (fun k _ => hdisc k) n (Nat.le_refl n)).sameRun State.faithful_shares

/-- Stores 7 to its slot 0, calls a piece of code that gives its argument back, and loads the
slot. -/
def keeper : Machine where
  program := .ofList [⟨.push, .integer 7⟩, ⟨.store, .integer 0⟩, ⟨.push, .integer 0⟩,
    ⟨.push, .integer 5⟩, ⟨.push, .integer 1⟩, ⟨.call, .integer 8⟩, ⟨.load, .integer 0⟩,
    ⟨.exit, .null⟩, ⟨.exit, .null⟩]
  config := { localsCapacity := 1 }
  natives _ arguments := ⟨argumentAt arguments 0, []⟩

theorem keeper_loads_once (h : (keeper.withModel .perFrame).At [] n s)
    (hd : s.Dispatches (keeper.withModel .perFrame) i) (op : i.opcode = .load) : n = 7 := by
  have hn : n < 9 := h.lt_of_ended (b := 9) nofun
  have hi := hd.1
  interval_cases n <;> first | rfl | (cases h; cases hi; cases op)

theorem keeper_stores_once (h : (keeper.withModel .perFrame).StoresAt [] k slot v) : k = 1 := by
  obtain ⟨s, h, i, -, hi, op, -⟩ := h
  have hk : k < 9 := h.lt_of_ended (b := 9) nofun
  interval_cases k <;> first | rfl | (cases h; cases hi; cases op)

theorem keeper_agrees :
    (keeper.withModel .perFrame).Disciplined []
      ∧ ∀ n, SameRun (keeper.withModel .perFrame) (keeper.withModel .shared) [] n := by
  have hdisc : (keeper.withModel .perFrame).Disciplined [] := by
    intro n s i slot h hd op operand
    obtain rfl := keeper_loads_once h hd op
    have hi := hd.1
    cases h
    cases hi
    cases operand
    have hstore : (keeper.withModel .perFrame).StoresAt [] 1 0 (.integer 7) :=
      ⟨_, rfl, ⟨.store, .integer 0⟩, {}, rfl, rfl, rfl, rfl⟩
    have hlast : (keeper.withModel .perFrame).StoresLast [] 7 0 1 :=
      ⟨by omega, ⟨_, hstore⟩, fun j hj _ w hw => by have := keeper_stores_once hw; omega⟩
    have hroot : (keeper.withModel .perFrame).Belongs [] 1 7 1 := belongs_one rfl rfl rfl
    exact .inr ⟨1, hlast, hroot⟩
  exact ⟨hdisc, locals_models_agree (.inl hdisc)⟩

end Machine

end FrameMachine
