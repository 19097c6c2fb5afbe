import FrameMachine.Proofs.Brackets
import FrameMachine.Proofs.Sizes
import FrameMachine.Proofs.Slots

/-!
# What a slot holds

A slot holds what was stored to it last. Where the frames share a register file, any earlier turn
of the run may have stored it; where each has its own locals, only the turns of the same invocation
count, however often its frame was used before and whatever ran in between. A run keeps this turn
by turn (`recalls_at`): the active frame's locals are the only ones that a turn changes, a frame
that is entered has no turns yet and blank locals, and an exit uncovers the caller's as they were.
-/

namespace FrameMachine

/-- The turn in `s` stores `v` to `slot`. -/
def State.Stores (m : Machine) (slot : Int64) (v : Value) (s : State) : Prop :=
  ∃ (i : Instruction) (stack : OperandStack), m.program.fetch s.pc = .ok i ∧ i.opcode = .store
    ∧ i.operand = .integer slot ∧ s.calls.active.stack = stack.push v

namespace Machine

/-- Turn `k` of the run stores `v` to `slot`. -/
def StoresAt (m : Machine) (arguments : List Value) (k : Nat) (slot : Int64) (v : Value) : Prop :=
  ∃ s, m.At arguments k s ∧ s.Stores m slot v

/-- Turn `k` is one of the invocation at depth `d` after `n` turns: the frame at depth `d` was
active then and has not left since. -/
def Belongs (m : Machine) (arguments : List Value) (d n k : Nat) : Prop :=
  ∃ s, m.At arguments k s ∧ s.depth = d ∧ m.Retains d (n - k) s

/-- Of the first `n` turns, those in `W` stored `v` to `slot` last, or nothing, and `v` is
`undefined`. -/
def LastStored (m : Machine) (arguments : List Value) (W : Nat → Prop) (n : Nat) (slot : Int64)
    (v : Value) : Prop :=
  (∃ k < n, W k ∧ m.StoresAt arguments k slot v
    ∧ ∀ j, k < j → j < n → W j → ∀ w, ¬ m.StoresAt arguments j slot w)
  ∨ v = .undefined ∧ ∀ k < n, W k → ∀ w, ¬ m.StoresAt arguments k slot w

/-- Every slot of `l` holds what the turns in `W` stored there last. -/
def Recalls (m : Machine) (arguments : List Value) (W : Nat → Prop) (n : Nat) (l : Locals) : Prop :=
  ∀ slot v, l.load slot = .ok v → m.LastStored arguments W n slot v

end Machine

variable {m : Machine} {arguments : List Value} {s s' : State} {i : Instruction}

namespace Machine

section Belongs

variable {d n k : Nat}

theorem belongs_succ (h : m.At arguments n s) (hx : ¬ s.Leaves m d) (hk : k < n) :
    m.Belongs arguments d (n + 1) k ↔ m.Belongs arguments d n k := by
  refine exists_congr fun t => and_congr_right fun ht => and_congr_right fun _ => ?_
  constructor
  · exact fun hr => hr.mono (by omega)
  · intro hr j hj u hu
    rcases Nat.lt_or_ge j (n - k) with hlt | hge
    · exact hr j hlt u hu
    · obtain rfl : j = n - k := by omega
      have hn : m.At arguments (k + (n - k)) u := at_add.2 ⟨t, ht, hu⟩
      rw [Nat.add_sub_cancel' (Nat.le_of_lt hk)] at hn
      exact hn.unique h ▸ hx

theorem belongs_self (h : m.At arguments n s) (hd : s.depth = d) (hx : ¬ s.Leaves m d) :
    m.Belongs arguments d (n + 1) n := by
  refine ⟨s, h, hd, ?_⟩
  intro j hj t ht
  obtain rfl : j = 0 := by omega
  exact goes_zero.1 ht ▸ hx

theorem Belongs.mono {a b : Nat} (hb : m.Belongs arguments d b k) (hab : a ≤ b) :
    m.Belongs arguments d a k := by
  obtain ⟨t, ht, hd, hr⟩ := hb
  exact ⟨t, ht, hd, hr.mono (Nat.sub_le_sub_right hab k)⟩

theorem Belongs.depth_eq (hb : m.Belongs arguments d (n + 1) n) (h : m.At arguments n s) :
    s.depth = d := by
  obtain ⟨t, ht, hd, -⟩ := hb
  exact h.unique ht ▸ hd

/-- An invocation with a turn in the past is still live. -/
theorem Belongs.depth_le (hb : m.Belongs arguments d n k) (h : m.At arguments n s) (hk : k ≤ n) :
    d ≤ s.depth := by
  obtain ⟨t, ht, hd, hr⟩ := hb
  obtain ⟨u, hu, hg⟩ := at_add.1 ((Nat.add_sub_cancel' hk).symm ▸ h)
  exact depth_of_goes (ht.unique hu ▸ hg) hr (Nat.le_of_eq hd.symm)

end Belongs

section LastStored

variable {W W' : Nat → Prop} {n : Nat} {slot : Int64} {v : Value} {l l' : Locals}

theorem LastStored.keep (h : m.LastStored arguments W n slot v) (hW : ∀ k < n, W' k ↔ W k)
    (hn : W' n → ∀ w, ¬ m.StoresAt arguments n slot w) :
    m.LastStored arguments W' (n + 1) slot v := by
  rcases h with ⟨k, hk, hWk, hstore, hafter⟩ | ⟨hv, hnone⟩
  · refine .inl ⟨k, Nat.lt_succ_of_lt hk, (hW k hk).2 hWk, hstore, ?_⟩
    intro j hkj hj hWj
    rcases Nat.lt_succ_iff_lt_or_eq.1 hj with hlt | rfl
    · exact hafter j hkj hlt ((hW j hlt).1 hWj)
    · exact hn hWj
  · refine .inr ⟨hv, ?_⟩
    intro k hk hWk
    rcases Nat.lt_succ_iff_lt_or_eq.1 hk with hlt | rfl
    · exact hnone k hlt ((hW k hlt).1 hWk)
    · exact hn hWk

theorem Recalls.keep (h : m.Recalls arguments W n l) (hW : ∀ k < n, W' k ↔ W k)
    (hn : W' n → ∀ slot w, ¬ m.StoresAt arguments n slot w) :
    m.Recalls arguments W' (n + 1) l :=
  fun slot v hv => (h slot v hv).keep hW fun hWn => hn hWn slot

theorem Recalls.store (h : m.Recalls arguments W n l) (hW : ∀ k < n, W' k ↔ W k) (hn : W' n)
    (hs : m.At arguments n s) (hstore : s.Stores m slot v) (hl : l.store slot v = .ok l') :
    m.Recalls arguments W' (n + 1) l' := by
  intro other w hw
  by_cases ho : other = slot
  · subst ho
    rw [Locals.load_store hl] at hw
    cases hw
    exact .inl ⟨n, Nat.lt_succ_self n, hn, ⟨s, hs, hstore⟩, fun j hj hj' => by omega⟩
  · rw [Locals.load_store_ne hl ho] at hw
    refine (h other w hw).keep hW ?_
    rintro - u ⟨t, ht, hother⟩
    obtain rfl := hs.unique ht
    obtain ⟨a, -, ha, -, hao, -⟩ := hstore
    obtain ⟨b, -, hb, -, hbo, -⟩ := hother
    rw [ha] at hb
    cases hb
    rw [hao] at hbo
    cases hbo
    exact ho rfl

theorem recalls_blank (hW : ∀ k < n, ¬ W k) (c : Nat) : m.Recalls arguments W n (.blank c) :=
  fun _ _ hv => .inr ⟨Locals.load_blank hv, fun k hk hWk => absurd hWk (hW k hk)⟩

end LastStored

end Machine

namespace State

/-- A turn that does not store leaves the register file alone. -/
theorem Step.registers_cases {l : Locals} (h : s.Step m i s') (hd : s.Dispatches m i)
    (hr : s.registers = some l) :
    (i.opcode ≠ .store ∧ s'.registers = some l)
      ∨ ∃ slot v l', s.Stores m slot v ∧ l.store slot v = .ok l' ∧ s'.registers = some l' := by
  cases h with
  | @proceed f effect =>
    have hlocals : s.view.locals = l := by rw [view_shared hr]
    rw [update_shared (s := s.tick) hr]
    by_cases op : i.opcode = .store
    · obtain ⟨slot, v, stack, operand, top, stored⟩ := effect.stored op
      rw [view_stack] at top
      rw [hlocals] at stored
      exact .inr ⟨slot, v, f.locals, ⟨i, stack, hd.1, op, operand, top⟩, stored, rfl⟩
    · have hf : f.locals = s.view.locals := effect.locals_eq op
      exact .inl ⟨op, by rw [hf, hlocals]⟩
  | invoke op => exact .inl ⟨by simp [op], hr⟩
  | enter op => exact .inl ⟨by simp [op], hr⟩
  | leave op => exact .inl ⟨by simp [op], hr⟩

/-- The frame right above `below` stays over the turn of `i` and then has the locals `l`: only a
store by itself changes them. -/
def Carries (m : Machine) (i : Instruction) (s : State) (below : List Frame) (l : Locals) : Prop :=
  ∃ above f, s.calls.live = above ++ f :: below ∧ ¬ s.Leaves m (below.length + 1)
    ∧ ((s.depth = below.length + 1 → i.opcode ≠ .store) ∧ l = f.locals
      ∨ s.depth = below.length + 1 ∧ ∃ slot v, s.Stores m slot v ∧ f.locals.store slot v = .ok l)

theorem carries_of_suspended {above below : List Frame} {f : Frame}
    (h : s.calls.suspended = above ++ f :: below) : s.Carries m i below f.locals := by
  have hdepth : s.depth ≠ below.length + 1 := by
    have hlen : s.depth = s.calls.suspended.length + 1 := rfl
    rw [h, List.length_append, List.length_cons] at hlen
    omega
  exact ⟨s.calls.active :: above, f, congrArg (s.calls.active :: ·) h, fun hx => hdepth hx.1,
    .inl ⟨fun hd => absurd hd hdepth, rfl⟩⟩

theorem Dispatches.stays {d : Nat} (hd : s.Dispatches m i) (op : i.opcode ≠ .exit) :
    ¬ s.Leaves m d := by
  rintro ⟨-, j, hj, hexit⟩
  obtain rfl := hd.eq_of_fetch hj
  exact op hexit

/-- After a turn each live frame was entered by it and has blank locals, or was carried over. -/
theorem Step.frame_cases {above below : List Frame} {f : Frame} (h : s.Step m i s')
    (hd : s.Dispatches m i) (hr : s.registers = none) (hl : s'.calls.live = above ++ f :: below) :
    (s.depth < below.length + 1 ∧ ∃ c, f.locals = .blank c) ∨ s.Carries m i below f.locals := by
  cases h with
  | @proceed g effect =>
    rw [update_own (s := s.tick) hr] at hl
    rw [view_own hr] at effect
    rcases List.cons_eq_append_iff.1 hl with ⟨-, h⟩ | ⟨rest, -, h⟩
    · cases h
      refine .inr ⟨[], s.calls.active, rfl, hd.stays effect.opcode_of_proceed.2.2, ?_⟩
      by_cases op : i.opcode = .store
      · obtain ⟨slot, v, stack, operand, top, stored⟩ := effect.stored op
        exact .inr ⟨rfl, slot, v, ⟨i, stack, hd.1, op, operand, top⟩, stored⟩
      · exact .inl ⟨fun _ => op, effect.locals_eq op⟩
    · exact .inr (carries_of_suspended h)
  | invoke op =>
    rcases List.cons_eq_append_iff.1 hl with ⟨-, h⟩ | ⟨rest, -, h⟩
    · cases h
      exact .inr ⟨[], s.calls.active, rfl, hd.stays (by simp [op]), .inl ⟨by simp [op], rfl⟩⟩
    · exact .inr (carries_of_suspended h)
  | enter op =>
    rcases List.cons_eq_append_iff.1 hl with ⟨-, h⟩ | ⟨rest, -, h⟩
    · cases h
      exact .inl ⟨Nat.lt_succ_self _, _, rfl⟩
    · rcases List.cons_eq_append_iff.1 h with ⟨-, h⟩ | ⟨rest', -, h⟩
      · cases h
        exact .inr ⟨[], s.calls.active, rfl, hd.stays (by simp [op]), .inl ⟨by simp [op], rfl⟩⟩
      · exact .inr (carries_of_suspended h)
  | @leave v stack caller rest op top callers =>
    rcases List.cons_eq_append_iff.1 hl with ⟨-, h⟩ | ⟨rest', -, h⟩
    · cases h
      have hs : s.calls.suspended = [] ++ caller :: rest := callers
      have hc : s.Carries m i rest caller.locals := carries_of_suspended hs
      exact .inr hc
    · have hs : s.calls.suspended = (caller :: rest') ++ f :: below :=
        callers.trans (congrArg (caller :: ·) h)
      exact .inr (carries_of_suspended hs)

end State

namespace Machine

variable {n : Nat}

/-- After `n` turns the register file, or each frame's own locals, hold what was stored last. -/
structure RecallsAt (m : Machine) (arguments : List Value) (n : Nat) (s : State) : Prop where
  shared : ∀ l, s.registers = some l → m.Recalls arguments (fun _ => True) n l
  own : s.registers = none → ∀ above f below, s.calls.live = above ++ f :: below →
    m.Recalls arguments (m.Belongs arguments (below.length + 1) n) n f.locals

theorem not_storesAt (h : m.At arguments n s) (hd : s.Dispatches m i) (op : i.opcode ≠ .store)
    (slot : Int64) (v : Value) : ¬ m.StoresAt arguments n slot v := by
  rintro ⟨t, ht, j, -, hj, hop, -⟩
  obtain rfl := h.unique ht
  obtain rfl := hd.eq_of_fetch hj
  exact op hop

theorem RecallsAt.carries {below : List Frame} {l : Locals} (hs : m.RecallsAt arguments n s)
    (h : m.At arguments n s) (hd : s.Dispatches m i) (hr : s.registers = none)
    (hc : s.Carries m i below l) :
    m.Recalls arguments (m.Belongs arguments (below.length + 1) (n + 1)) (n + 1) l := by
  obtain ⟨above, f, hl, hx, ⟨op, rfl⟩ | ⟨hdepth, slot, v, hstore, hl'⟩⟩ := hc
  · refine (hs.own hr above f below hl).keep (fun k hk => belongs_succ h hx hk) ?_
    exact fun hb => not_storesAt h hd (op (hb.depth_eq h))
  · refine (hs.own hr above f below hl).store (fun k hk => belongs_succ h hx hk) ?_ h hstore hl'
    exact belongs_self h hdepth hx

/-- A turn keeps it. -/
theorem RecallsAt.step (hs : m.RecallsAt arguments n s) (h : m.At arguments n s)
    (hd : s.Dispatches m i) (hi : s.Step m i s') : m.RecallsAt arguments (n + 1) s' := by
  have hmode : s'.registers.isSome = s.registers.isSome := hi.fixed.2
  constructor
  · intro l' hl'
    rcases hr : s.registers with _ | l
    · simp [hl', hr] at hmode
    · have hl := hs.shared l hr
      rcases hi.registers_cases hd hr with ⟨op, hsame⟩ | ⟨slot, v, l'', hstore, hstored, hnew⟩
      · rw [hsame] at hl'
        cases hl'
        exact hl.keep (fun _ _ => Iff.rfl) fun _ => not_storesAt h hd op
      · rw [hnew] at hl'
        cases hl'
        exact hl.store (fun _ _ => Iff.rfl) trivial h hstore hstored
  · intro hr' above f below hl
    have hr : s.registers = none := by simpa [hr'] using hmode
    rcases hi.frame_cases hd hr hl with ⟨hdepth, c, hc⟩ | hc
    · rw [hc]
      refine recalls_blank ?_ c
      intro k hk hb
      have := (hb.mono (Nat.le_succ n)).depth_le h (Nat.le_of_lt_succ hk)
      omega
    · exact hs.carries h hd hr hc

theorem recallsAt_start (m : Machine) (arguments : List Value) :
    m.RecallsAt arguments 0 (.start m.config arguments) := by
  have hnone : ∀ (W : Nat → Prop), ∀ k < 0, ¬ W k := fun _ _ hk => absurd hk (Nat.not_lt_zero _)
  constructor
  · intro l hl
    simp only [State.start, Config.newRegisters] at hl
    split at hl
    · cases hl
      exact recalls_blank (hnone _) _
    · cases hl
  · rintro - above f below hl
    rcases List.cons_eq_append_iff.1 hl with ⟨-, h⟩ | ⟨rest, -, h⟩
    · cases h
      exact recalls_blank (hnone _) _
    · simp [State.start] at h

theorem recalls_at (h : m.At arguments n s) : m.RecallsAt arguments n s := by
  refine invariant_at (P := m.RecallsAt arguments) ?_ ?_ h
  · exact fun _ => recallsAt_start m arguments
  · exact fun h hd hi hs => hs.step h hd hi

theorem RecallsAt.load {slot : Int64} {v : Value} (h : m.RecallsAt arguments n s)
    (hc : s.Sized m.config) (hv : s.view.locals.load slot = .ok v) :
    (m.config.localsModel = .shared → m.LastStored arguments (fun _ => True) n slot v)
      ∧ (m.config.localsModel = .perFrame →
        m.LastStored arguments (m.Belongs arguments s.depth n) n slot v) := by
  have hregisters := hc.registers
  constructor
  · intro hshared
    simp only [Config.newRegisters, hshared, Option.map_some] at hregisters
    obtain ⟨l, hr, -⟩ := Option.map_eq_some_iff.1 hregisters
    rw [State.view_shared hr] at hv
    exact h.shared l hr slot v hv
  · intro hown
    simp only [Config.newRegisters, hown, Option.map_none, Option.map_eq_none_iff] at hregisters
    rw [State.view_own hregisters] at hv
    exact h.own hregisters [] s.calls.active s.calls.suspended rfl slot v hv

/-- Wherever a run dispatches `load` or `store`, the slots of the configuration are there to use
and any other index is out of bounds. A `load` gives what was stored to the slot last: by any frame,
where they share a register file, or else by the same invocation. -/
theorem load_recalls {slot : Int64} (h : m.At arguments n s) (hd : s.Dispatches m i)
    (operand : i.operand = .integer slot) :
    (i.opcode = .load →
      (0 ≤ slot.toInt → slot.toInt < m.config.localsCapacity →
        ∃ v u, (s.turn m).2 = .running u
          ∧ u.calls.active.stack = s.calls.active.stack.push v
          ∧ (m.config.localsModel = .shared → m.LastStored arguments (fun _ => True) n slot v)
          ∧ (m.config.localsModel = .perFrame →
            m.LastStored arguments (m.Belongs arguments s.depth n) n slot v))
      ∧ (slot.toInt < 0 ∨ (m.config.localsCapacity : Int) ≤ slot.toInt →
        (s.turn m).2 = .faulted (.localIndexOutOfBounds slot) s.tick))
    ∧ (i.opcode = .store →
      (∀ {v : Value} {stack : OperandStack}, s.calls.active.stack = stack.push v →
        (0 ≤ slot.toInt → slot.toInt < m.config.localsCapacity →
          ∃ u, (s.turn m).2 = .running u ∧ u.calls.active.stack = stack)
        ∧ (slot.toInt < 0 ∨ (m.config.localsCapacity : Int) ≤ slot.toInt →
          (s.turn m).2 = .faulted (.localIndexOutOfBounds slot) s.tick))
      ∧ (s.calls.active.stack = {} → (s.turn m).2 = .faulted .stackUnderflow s.tick)) := by
  have hsized := State.sized_at h
  rw [← hsized.capacity_view]
  refine ⟨fun op => ⟨?_, fun hout => ?_⟩, fun op => ⟨fun {v stack} top => ⟨?_, fun hout => ?_⟩, ?_⟩⟩
  · intro h0 hlt
    obtain ⟨v, hv⟩ := Locals.load_of_lt h0 hlt
    obtain ⟨u, hu, htop⟩ := hd.turn_load op operand hv
    exact ⟨v, u, hu, htop, (recalls_at h).load hsized hv⟩
  · exact hd.turn_load_error op operand (Locals.load_of_out hout)
  · intro h0 hlt
    obtain ⟨l, hl⟩ := Locals.store_of_lt h0 hlt v
    exact hd.turn_store op operand top hl
  · exact hd.turn_store_error op operand top (Locals.store_of_out hout v)
  · exact hd.turn_store_empty op operand

/-- Calls one piece of code that stores 4 to its slot 0, and one that only loads its own. -/
def relay : Machine where
  program := .ofList [⟨.push, .integer 0⟩, ⟨.push, .integer 0⟩, ⟨.call, .integer 6⟩,
    ⟨.push, .integer 0⟩, ⟨.call, .integer 10⟩, ⟨.exit, .null⟩, ⟨.push, .integer 4⟩,
    ⟨.store, .integer 0⟩, ⟨.load, .integer 0⟩, ⟨.exit, .null⟩, ⟨.load, .integer 0⟩, ⟨.exit, .null⟩]
  config := { localsCapacity := 1, localsModel := .perFrame }
  natives _ arguments := ⟨argumentAt arguments 0, []⟩

/-- In the second call, whose frame is the first one's. -/
def relayLoading : State where
  calls :=
    { active := { locals := .blank 1, pc := 10 }
      suspended := [{ stack := .ofList [.integer 0, .integer 4], locals := .blank 1, pc := 5 }]
      maxDepth := 1024 }
  registers := none
  steps := 9
  maxFrameDepth := 2

theorem relay_loads_undefined :
    relay.At [] 9 relayLoading
      ∧ relay.LastStored [] (relay.Belongs [] 2 9) 9 0 .undefined := by
  have h : relay.At [] 9 relayLoading := rfl
  have hd : relayLoading.Dispatches relay ⟨.load, .integer 0⟩ := ⟨rfl, nofun⟩
  obtain ⟨v, u, hu, htop, -, hlast⟩ := ((load_recalls h hd rfl).1 rfl).1 (by decide) (by decide)
  have hv : u.calls.active.stack = .ofList [.undefined] := by
    cases hu
    rfl
  rw [hv] at htop
  cases htop
  exact ⟨h, hlast rfl⟩

end Machine

end FrameMachine
