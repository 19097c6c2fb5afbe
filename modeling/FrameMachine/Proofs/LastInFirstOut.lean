import FrameMachine.Proofs.Step
import Mathlib.Data.List.Basic
import Mathlib.Tactic.Common

/-!
# Frames come last in, first out

A call stack holds its active frame apart from the suspended ones. Seen from outside it is a list of
live frames, never empty, that is used at its head and no longer than the limit, and beside it a
list of spares (`FrameLists`). Each operation gives the answer that it gives on the lists and makes
of the call stack what it makes of them (`perform_lists`), and so does any sequence of operations
(`performAll_lists`). What was suspended is resumed as it was (`live_of_resumed`), live and spare
frames never mix (`live_after_filter`, `spare_after_filter`), and the first frame stays
(`getLast?_live_after`).
-/

namespace FrameMachine

namespace CallStack

/-- What can be done to a call stack. -/
inductive Op
  | push (f : Frame)
  | pop
  | recycle (f : Frame)
  | takeSpare
  /-- Makes `change` of the active frame, in place. -/
  | edit (change : Frame → Frame)

/-- The operation is on the spares, and not on the live frames. -/
def Op.onSpares : Op → Bool
  | recycle _ | takeSpare => true
  | push _ | pop | edit _ => false

/-- What an operation answers: a fault, or the frame that it hands out, if any. -/
abbrev Reply := Except Fault (Option Frame)

/-- Carries out an operation. One that fails leaves everything as it is. -/
def perform (c : CallStack) : Op → Reply × CallStack
  | .push f =>
    match c.push f with
    | .ok c' => (.ok none, c')
    | .error e => (.error e, c)
  | .pop =>
    match c.pop with
    | .ok (f, c') => (.ok (some f), c')
    | .error e => (.error e, c)
  | .recycle f => (.ok none, c.recycle f)
  | .takeSpare => c.takeSpare.map .ok id
  | .edit change => (.ok none, c.setActive (change c.active))

end CallStack

open CallStack (Op Reply)

/-- Operations one after the other: what each of them answers, and what they make of `a`. -/
def performAll {α : Type} (perform : α → Op → Reply × α) (a : α) : List Op → List Reply × α
  | [] => ([], a)
  | op :: ops => (performAll perform (perform a op).2 ops).map ((perform a op).1 :: ·) id

/-- Live frames, the active one first, and spare ones, the one to take next first. -/
structure FrameLists where
  live : List Frame
  spare : List Frame := []
  live_ne_nil : live ≠ []

/-- Carries out an operation where `limit` frames may be live. -/
def FrameLists.perform (limit : Nat) (l : FrameLists) : Op → Reply × FrameLists
  | .push f =>
    if l.live.length < limit then (.ok none, ⟨f :: l.live, l.spare, List.cons_ne_nil _ _⟩)
    else (.error (.callStackOverflow limit), l)
  | .pop =>
    match l.live with
    | f :: caller :: rest => (.ok (some f), ⟨caller :: rest, l.spare, List.cons_ne_nil _ _⟩)
    | _ => (.error .frameStackUnderflow, l)
  | .recycle f => (.ok none, { l with spare := f :: l.spare })
  | .takeSpare => (.ok l.spare.head?, { l with spare := l.spare.tail })
  | .edit change =>
    (.ok none, ⟨l.live.modifyHead change, l.spare, by simpa using l.live_ne_nil⟩)

theorem FrameLists.live_perform_congr {l m : FrameLists} (h : l.live = m.live) (limit : Nat)
    (op : Op) : (l.perform limit op).2.live = (m.perform limit op).2.live := by
  obtain ⟨live, spare, hl⟩ := l
  obtain ⟨_, spare', hm⟩ := m
  subst h
  cases op with
  | push f =>
    simp only [perform]
    split <;> rfl
  | pop =>
    simp only [perform]
    split <;> rfl
  | recycle f => rfl
  | takeSpare => rfl
  | edit change => rfl

namespace CallStack

/-- The call stack as lists. -/
def lists (c : CallStack) : FrameLists := ⟨c.live, c.spare, List.cons_ne_nil _ _⟩

/-- The first frame of a run alone. -/
def ofRoot (root : Frame) (limit : Nat) : CallStack where
  active := root
  maxDepth := limit

/-- What operations make of a call stack. -/
def after (c : CallStack) (ops : List Op) : CallStack := (performAll perform c ops).2

variable {c d : CallStack} {f g root : Frame} {op : Op} {ops inner : List Op} {l : List Frame}

@[simp] theorem after_cons (c : CallStack) (op : Op) (ops : List Op) :
    c.after (op :: ops) = (c.perform op).2.after ops := rfl

/-! ## Single operations -/

theorem push_eq_ok_iff : c.push f = .ok d ↔
    c.depth < c.maxDepth ∧ d.live = f :: c.live ∧ d.spare = c.spare ∧
      d.maxDepth = c.maxDepth := by
  obtain ⟨active, suspended, spare, limit⟩ := d
  unfold push
  split_ifs with h
  · simp [Nat.not_lt.2 h]
  · simp [live, Nat.not_le.1 h, eq_comm, and_assoc]

theorem push_eq_error_iff {e : Fault} : c.push f = .error e ↔
    c.maxDepth ≤ c.depth ∧ e = .callStackOverflow c.maxDepth := by
  unfold push
  split_ifs with h <;> simp [h, eq_comm]

theorem pop_eq_ok_iff : c.pop = .ok (f, d) ↔
    1 < c.depth ∧ c.live = f :: d.live ∧ d.spare = c.spare ∧ d.maxDepth = c.maxDepth := by
  obtain ⟨active, suspended, spare, limit⟩ := d
  obtain ⟨active', _ | ⟨caller, rest⟩, spare', limit'⟩ := c
  · simp [pop, live, depth]
  · simp [pop, live, depth, eq_comm, and_assoc]

theorem pop_eq_error_iff {e : Fault} : c.pop = .error e ↔
    c.depth = 1 ∧ e = .frameStackUnderflow := by
  obtain ⟨active, _ | ⟨caller, rest⟩, spare, limit⟩ := c <;> simp [pop, depth, eq_comm]

theorem isRoot_iff : c.isRoot ↔ c.depth = 1 := by
  simp [isRoot, depth]

theorem takeSpare_recycle (c : CallStack) (f : Frame) : (c.recycle f).takeSpare = (some f, c) := rfl

theorem perform_push (c : CallStack) (f : Frame) :
    (c.maxDepth ≤ c.depth ∧
      c.perform (.push f) = (.error (.callStackOverflow c.maxDepth), c)) ∨
    ∃ d, c.depth < c.maxDepth ∧ c.perform (.push f) = (.ok none, d) ∧
      d.live = f :: c.live ∧ d.spare = c.spare ∧ d.maxDepth = c.maxDepth := by
  rcases h : c.push f with e | d
  · obtain ⟨hfull, rfl⟩ := push_eq_error_iff.1 h
    exact .inl ⟨hfull, by simp [perform, h]⟩
  · obtain ⟨hroom, hd⟩ := push_eq_ok_iff.1 h
    exact .inr ⟨d, hroom, by simp [perform, h], hd⟩

theorem perform_pop (c : CallStack) :
    (c.depth = 1 ∧ c.perform .pop = (.error .frameStackUnderflow, c)) ∨
    ∃ f d, 1 < c.depth ∧ c.perform .pop = (.ok (some f), d) ∧
      c.live = f :: d.live ∧ d.spare = c.spare ∧ d.maxDepth = c.maxDepth := by
  rcases h : c.pop with e | ⟨f, d⟩
  · obtain ⟨hroot, rfl⟩ := pop_eq_error_iff.1 h
    exact .inl ⟨hroot, by simp [perform, h]⟩
  · obtain ⟨hcaller, hd⟩ := pop_eq_ok_iff.1 h
    exact .inr ⟨f, d, hcaller, by simp [perform, h], hd⟩

@[simp] theorem maxDepth_perform (c : CallStack) (op : Op) :
    (c.perform op).2.maxDepth = c.maxDepth := by
  cases op with
  | push f => obtain ⟨-, h⟩ | ⟨d, -, h, -, -, hlimit⟩ := c.perform_push f <;> simp [*]
  | pop => obtain ⟨-, h⟩ | ⟨f, d, -, h, -, -, hlimit⟩ := c.perform_pop <;> simp [*]
  | recycle f => rfl
  | takeSpare => simp [perform, takeSpare_eq]
  | edit change => rfl

theorem perform_of_error {e : Fault} (h : (c.perform op).1 = .error e) :
    (c.perform op).2 = c := by
  cases op with
  | push f => obtain ⟨-, hp⟩ | ⟨d, -, hp, -⟩ := c.perform_push f <;> simp_all
  | pop => obtain ⟨-, hp⟩ | ⟨f, d, -, hp, -⟩ := c.perform_pop <;> simp_all
  | recycle f => cases h
  | takeSpare => cases h
  | edit change => cases h

/-- Operations on the spares leave the live frames alone. -/
theorem live_perform_of_onSpares (h : op.onSpares) : (c.perform op).2.live = c.live := by
  cases op with
  | recycle f => rfl
  | takeSpare => simp [perform]
  | push f => cases h
  | pop => cases h
  | edit change => cases h

/-- Operations on the live frames leave the spares alone. -/
theorem spare_perform (h : op.onSpares = false) : (c.perform op).2.spare = c.spare := by
  cases op with
  | push f => obtain ⟨-, hp⟩ | ⟨d, -, hp, -, hspare, -⟩ := c.perform_push f <;> simp [*]
  | pop => obtain ⟨-, hp⟩ | ⟨f, d, -, hp, -, hspare, -⟩ := c.perform_pop <;> simp [*]
  | recycle f => cases h
  | takeSpare => cases h
  | edit change => rfl

/-- What a call stack answers, and what it turns into, is what the lists say. -/
theorem perform_lists (c : CallStack) (op : Op) :
    (c.perform op).map id lists = c.lists.perform c.maxDepth op := by
  cases op with
  | push f =>
    obtain ⟨hfull, h⟩ | ⟨d, hroom, h, hlive, hspare, -⟩ := c.perform_push f
    · simp [FrameLists.perform, lists, h, Nat.not_lt.2 hfull]
    · simp [FrameLists.perform, lists, h, hroom, hlive, hspare]
  | pop => obtain ⟨active, _ | ⟨caller, rest⟩, spare, limit⟩ := c <;> rfl
  | recycle f => rfl
  | takeSpare => simp only [perform, takeSpare_eq]; rfl
  | edit change => rfl

/-! ## Operations one after the other -/

theorem performAll_lists (c : CallStack) (ops : List Op) :
    (performAll perform c ops).map id lists =
      performAll (FrameLists.perform c.maxDepth) c.lists ops := by
  induction ops generalizing c with
  | nil => rfl
  | cons op ops ih =>
    have hstep := c.perform_lists op
    have hrest := ih (c.perform op).2
    simp only [maxDepth_perform] at hrest
    simp only [performAll, ← hstep, Prod.map_fst, Prod.map_snd, id_eq, ← hrest]
    rfl

@[simp] theorem maxDepth_after (c : CallStack) (ops : List Op) :
    (c.after ops).maxDepth = c.maxDepth := by
  induction ops generalizing c with
  | nil => rfl
  | cons op ops ih => simp [ih]

/-- The frames that are live stay below what is pushed on them, until they are reached by pops. -/
theorem suffix_perform (hl : l <:+ c.live) (habove : l.length < c.depth) :
    l <:+ (c.perform op).2.live := by
  -- The active frame is above `l`, and an operation reaches no other.
  have hsuspended : l <:+ c.suspended := by
    obtain ⟨_ | ⟨x, above⟩, h⟩ := hl
    · simp [← length_live, ← h] at habove
    · exact ⟨above, (List.cons.inj h).2⟩
  cases op with
  | push f =>
    obtain ⟨-, h⟩ | ⟨d, -, h, hlive, -⟩ := c.perform_push f
    · simpa [h] using hl
    · simpa [h, hlive] using hl.trans (List.suffix_cons f c.live)
  | pop =>
    obtain ⟨-, h⟩ | ⟨f, d, -, h, hlive, -⟩ := c.perform_pop
    · simpa [h] using hl
    · have : c.suspended = d.live := (List.cons.inj hlive).2
      simpa [h, ← this] using hsuspended
  | recycle f => exact hl
  | takeSpare => simpa [perform] using hl
  | edit change => exact hsuspended.trans (List.suffix_cons _ _)

theorem suffix_after (hl : l <:+ c.live) (habove : ∀ p, p <+: ops → l.length < (c.after p).depth) :
    l <:+ (c.after ops).live := by
  induction ops generalizing c with
  | nil => exact hl
  | cons op ops ih =>
    refine ih (suffix_perform hl (habove [] List.nil_prefix)) fun p hp => ?_
    exact habove (op :: p) ((List.prefix_cons_inj op).2 hp)

/-- A caller is resumed as it was when it was suspended, and so is all that is suspended under it:
`inner` never comes back to it, and then it is popped to. -/
theorem live_of_resumed (hinner : ∀ p, p <+: inner → c.depth < (c.after (.push f :: p)).depth)
    (hpop : (c.after (.push f :: inner)).pop = .ok (g, d)) (hdepth : d.depth = c.depth) :
    d.live = c.live := by
  have hpush : c.live <:+ (c.perform (.push f)).2.live := by
    obtain ⟨-, h⟩ | ⟨d', -, h, hlive, -⟩ := c.perform_push f
    · simp [h]
    · simp [h, hlive]
  obtain ⟨above, habove⟩ : c.live <:+ ((c.perform (.push f)).2.after inner).live :=
    suffix_after hpush (by simpa using hinner)
  rw [← after_cons, live_pop hpop] at habove
  -- By the depths, the frame popped is all that was above.
  have hlength : above.length + c.depth = 1 + d.depth := by
    simpa [Nat.add_comm] using congrArg List.length habove
  obtain ⟨x, rfl⟩ := List.length_eq_one_iff.1 (by omega : above.length = 1)
  exact (List.cons.inj habove).2.symm

/-! ## Live and spare frames apart -/

theorem live_perform_congr (hlive : c.live = d.live) (hlimit : c.maxDepth = d.maxDepth) (op : Op) :
    (c.perform op).2.live = (d.perform op).2.live := by
  calc (c.perform op).2.live
      = (c.lists.perform c.maxDepth op).2.live := congrArg (·.2.live) (c.perform_lists op)
    _ = (d.lists.perform d.maxDepth op).2.live := by
      rw [hlimit]
      exact FrameLists.live_perform_congr hlive d.maxDepth op
    _ = (d.perform op).2.live := congrArg (·.2.live) (d.perform_lists op).symm

theorem spare_perform_congr (hspare : c.spare = d.spare) (hop : op.onSpares) :
    (c.perform op).2.spare = (d.perform op).2.spare := by
  cases op with
  | recycle f => exact congrArg (f :: ·) hspare
  | takeSpare => simp [perform, takeSpare_eq, hspare]
  | push f => cases hop
  | pop => cases hop
  | edit change => cases hop

/-- Of the live frames only the operations on them make anything. -/
theorem live_after_filter (hlive : c.live = d.live) (hlimit : c.maxDepth = d.maxDepth)
    (ops : List Op) : (c.after ops).live = (d.after (ops.filter (!·.onSpares))).live := by
  induction ops generalizing c d with
  | nil => exact hlive
  | cons op ops ih =>
    by_cases hop : op.onSpares
    · rw [List.filter_cons_of_neg (by simp [hop])]
      exact ih ((live_perform_of_onSpares hop).trans hlive) (by simp [hlimit])
    · rw [List.filter_cons_of_pos (by simp [hop])]
      exact ih (live_perform_congr hlive hlimit op) (by simp [hlimit])

/-- Of the spares only the operations on them make anything. -/
theorem spare_after_filter (hspare : c.spare = d.spare) (ops : List Op) :
    (c.after ops).spare = (d.after (ops.filter Op.onSpares)).spare := by
  induction ops generalizing c d with
  | nil => exact hspare
  | cons op ops ih =>
    by_cases hop : op.onSpares
    · rw [List.filter_cons_of_pos hop]
      exact ih (spare_perform_congr hspare hop)
    · rw [List.filter_cons_of_neg hop]
      exact ih ((spare_perform (by simpa using hop)).trans hspare)

/-! ## The first frame -/

/-- What an operation makes of the first frame, `root`: it can be edited where it is active. -/
def rootAfterOne (c : CallStack) (root : Frame) : Op → Frame
  | .edit change => if c.isRoot then change root else root
  | _ => root

/-- What operations make of the first frame. -/
def rootAfter (c : CallStack) (root : Frame) : List Op → Frame
  | [] => root
  | op :: ops => (c.perform op).2.rootAfter (c.rootAfterOne root op) ops

theorem getLast?_cons_live (f : Frame) (c : CallStack) :
    (f :: c.live).getLast? = c.live.getLast? :=
  List.getLast?_cons_cons

theorem getLast?_live_perform (h : c.live.getLast? = some root) :
    (c.perform op).2.live.getLast? = some (c.rootAfterOne root op) := by
  cases op with
  | push f =>
    obtain ⟨-, hp⟩ | ⟨d, -, hp, hlive, -⟩ := c.perform_push f
    · simpa [hp, rootAfterOne] using h
    · simpa [hp, rootAfterOne, hlive, getLast?_cons_live] using h
  | pop =>
    obtain ⟨-, hp⟩ | ⟨f, d, -, hp, hlive, -⟩ := c.perform_pop
    · simpa [hp, rootAfterOne] using h
    · simpa [hp, rootAfterOne, hlive, getLast?_cons_live] using h
  | recycle f => exact h
  | takeSpare => simpa [perform, rootAfterOne] using h
  | edit change =>
    obtain ⟨active, _ | ⟨caller, rest⟩, spare, limit⟩ := c
    · simpa [perform, rootAfterOne, isRoot, live, setActive] using congrArg (Option.map change) h
    · simpa [perform, rootAfterOne, isRoot, live, setActive] using h

theorem getLast?_live_after (h : c.live.getLast? = some root) :
    (c.after ops).live.getLast? = some (c.rootAfter root ops) := by
  induction ops generalizing c root with
  | nil => exact h
  | cons op ops ih => exact ih (getLast?_live_perform h)

/-! ## Depth -/

theorem depth_perform_le (h : c.depth ≤ c.maxDepth) : (c.perform op).2.depth ≤ c.maxDepth := by
  cases op with
  | push f =>
    obtain ⟨-, hp⟩ | ⟨d, hroom, hp, hlive, -⟩ := c.perform_push f
    · simpa [hp] using h
    · have : d.depth = c.depth + 1 := by simpa using congrArg List.length hlive
      simp only [hp]
      omega
  | pop =>
    obtain ⟨-, hp⟩ | ⟨f, d, -, hp, hlive, -⟩ := c.perform_pop
    · simpa [hp] using h
    · have : c.depth = d.depth + 1 := by simpa using congrArg List.length hlive
      simp only [hp]
      omega
  | recycle f => exact h
  | takeSpare => simpa [perform, ← length_live] using h
  | edit change => exact h

theorem depth_after_le (h : c.depth ≤ c.maxDepth) : (c.after ops).depth ≤ c.maxDepth := by
  induction ops generalizing c with
  | nil => exact h
  | cons op ops ih =>
    have hstep : (c.perform op).2.depth ≤ (c.perform op).2.maxDepth := by
      simpa using depth_perform_le h
    simpa using ih hstep

end CallStack

/-- The first frame alone. -/
def FrameLists.ofRoot (root : Frame) : FrameLists where
  live := [root]
  live_ne_nil := List.cons_ne_nil _ _

/-- `c`, which `ops` made of `root` alone, holds a list of frames that is never empty and used last
in, first out, with room for `limit` of them, and another list of spares. -/
structure LastInFirstOut (root : Frame) (limit : Nat) (ops : List Op) (c : CallStack) : Prop where
  /-- So far every answer was that of the lists, and `c` is what the lists are. -/
  simulates : performAll (FrameLists.perform limit) (.ofRoot root) ops =
    ((performAll CallStack.perform (.ofRoot root limit) ops).1, c.lists)
  active_eq : c.live.head? = some c.active
  depth_eq : c.depth = c.live.length
  isRoot_iff : c.isRoot ↔ c.live.length = 1
  push_iff : ∀ f d, c.push f = .ok d ↔
    c.live.length < limit ∧ d.live = f :: c.live ∧ d.spare = c.spare ∧ d.maxDepth = limit
  push_error_iff : ∀ f e, c.push f = .error e ↔
    limit ≤ c.live.length ∧ e = .callStackOverflow limit
  pop_iff : ∀ f d, c.pop = .ok (f, d) ↔
    1 < c.live.length ∧ c.live = f :: d.live ∧ d.spare = c.spare ∧ d.maxDepth = limit
  pop_error_iff : ∀ e, c.pop = .error e ↔ c.live.length = 1 ∧ e = .frameStackUnderflow
  /-- An operation that fails changes nothing. -/
  failed : ∀ op e, (c.perform op).1 = .error e → (c.perform op).2 = c
  /-- A pop that comes back to where `f` was pushed, after `inner` that did not, resumes what was
  suspended there. -/
  resumed : ∀ f inner g d, (∀ p, p <+: inner → c.depth < (c.after (.push f :: p)).depth) →
    (c.after (.push f :: inner)).pop = .ok (g, d) → d.depth = c.depth → d.live = c.live
  /-- The live frames are what the operations on them alone make. -/
  live_apart : c.live =
    ((CallStack.ofRoot root limit).after (ops.filter (!·.onSpares))).live
  /-- The spares are what the operations on them alone make. -/
  spare_apart : c.spare = ((CallStack.ofRoot root limit).after (ops.filter Op.onSpares)).spare
  live_of_onSpares : ∀ op, op.onSpares → (c.perform op).2.live = c.live
  takeSpare_recycle : ∀ f, (c.recycle f).takeSpare = (some f, c)
  /-- The first frame is still there, with the edits made of it while it was active. -/
  root_stays : c.live.getLast? = some ((CallStack.ofRoot root limit).rootAfter root ops)
  depth_le : 0 < limit → c.depth ≤ limit

namespace CallStack

/-- A call stack is used last in, first out, whatever is done to it. -/
theorem last_in_first_out (root : Frame) (limit : Nat) (ops : List Op) :
    LastInFirstOut root limit ops ((ofRoot root limit).after ops) := by
  have hlimit : ((ofRoot root limit).after ops).maxDepth = limit := maxDepth_after _ ops
  exact {
    simulates := (performAll_lists (ofRoot root limit) ops).symm
    active_eq := rfl
    depth_eq := (length_live _).symm
    isRoot_iff := CallStack.isRoot_iff
    push_iff := fun f d => by rw [push_eq_ok_iff, hlimit, length_live]
    push_error_iff := fun f e => by rw [push_eq_error_iff, hlimit, length_live]
    pop_iff := fun f d => by rw [pop_eq_ok_iff, hlimit, length_live]
    pop_error_iff := fun e => pop_eq_error_iff
    failed := fun op e => perform_of_error
    resumed := fun f inner g d => live_of_resumed
    live_apart := live_after_filter rfl rfl ops
    spare_apart := spare_after_filter rfl ops
    live_of_onSpares := fun op => live_perform_of_onSpares
    takeSpare_recycle := CallStack.takeSpare_recycle _
    root_stays := getLast?_live_after rfl
    depth_le := fun hpos => by
      have hroot : (ofRoot root limit).depth ≤ (ofRoot root limit).maxDepth := hpos
      exact depth_after_le hroot }

example (root f g : Frame) : (performAll perform (ofRoot root 2) [.push f, .push g, .pop, .pop]).1 =
    [.ok none, .error (.callStackOverflow 2), .ok (some f), .error .frameStackUnderflow] := rfl

end CallStack

end FrameMachine
