import FrameMachine.Event
import Mathlib.Data.List.Chain

/-!
# What a trace says about calls

A trace says more than what happened: depths count the frames, a frame that is pushed comes right
after its call and one that is popped resumes right after it, and where either leads the next
instruction is fetched. `Tale` says that all of this is so in a list of events, `Pending` which
calls are open at its end. Both grow event by event; pushes and pops match because what lies between
a pending call and the end is `Balanced` (`Pending.append`).
-/

namespace FrameMachine

namespace Event

def isPush : Event → Bool
  | pushedFrame .. => true
  | _ => false

def isPop : Event → Bool
  | poppedFrame .. => true
  | _ => false

/-- The event reports the end of the run. -/
def Closes : Event → Prop
  | finished .. | faulted .. => True
  | _ => False

/-- Where a frame that is entered or resumed goes on. -/
def landing? : Event → Option Nat
  | pushedFrame target _ _ => some target
  | poppedFrame resume _ => some resume
  | _ => none

/-- The event reports a fetch at `pc`: of an instruction to dispatch, of none, or of one that there
is no budget for. -/
def Fetches (pc : Nat) : Event → Prop
  | dispatched p _ _ => p = pc
  | faulted p _ fault =>
    p = pc ∧ (fault = .programCounterOutOfBounds pc ∨ ∃ max, fault = .stepBudgetExhausted max)
  | _ => False

/-- Where the first event leads the second one fetches. -/
def LeadsTo (l e : Event) : Prop := ∀ pc, l.landing? = some pc → e.Fetches pc

theorem Closes.isPush_eq {e : Event} (h : e.Closes) : e.isPush = false := by
  cases e <;> trivial

theorem Closes.isPop_eq {e : Event} (h : e.Closes) : e.isPop = false := by
  cases e <;> trivial

theorem Closes.landing?_eq {e : Event} (h : e.Closes) : e.landing? = none := by
  cases e <;> trivial

end Event

/-- Every frame pushed in the list is popped in it, the last one first. -/
inductive Balanced : List Event → Prop
  | nil : Balanced []
  | plain {e : Event} {t : List Event} (hpush : e.isPush = false) (hpop : e.isPop = false)
      (ht : Balanced t) : Balanced (e :: t)
  | call {inner rest : List Event} {target arguments depth resume back : Nat}
      (hinner : Balanced inner) (hrest : Balanced rest) :
      Balanced (.pushedFrame target arguments depth :: (inner ++ .poppedFrame resume back :: rest))

/-- What the event says about calls fits what was reported before it. -/
def Event.TrueTo (past : List Event) : Event → Prop
  | dispatched _ depth _ => depth + past.countP isPop = 1 + past.countP isPush
  | pushedFrame _ _ depth => ∃ before pc back i,
    past = before ++ [.dispatched pc back i] ∧ i.opcode = .call ∧ depth = back + 1
  | poppedFrame resume depth => ∃ before mid pc i target arguments,
    past = before ++ .dispatched pc depth i :: .pushedFrame target arguments (depth + 1) :: mid
      ∧ i.opcode = .call ∧ Balanced mid ∧ resume = pc + 1
  | _ => True

theorem Event.Closes.trueTo {e : Event} (h : e.Closes) (past : List Event) : e.TrueTo past := by
  cases e <;> trivial

/-- The events tell the truth about calls, each of them, and about where these lead. -/
structure Tale (t : List Event) : Prop where
  trueTo : ∀ past e, past ++ [e] <+: t → e.TrueTo past
  leads : t.IsChain Event.LeadsTo

/-- At the end of `t` there are calls to return from, which go on at `resumes`, the innermost
first. -/
inductive Pending : List Event → List Nat → Prop
  | none {t : List Event} (h : Balanced t) : Pending t []
  | call {t mid : List Event} {resumes : List Nat} {pc target arguments : Nat} {i : Instruction}
      (h : Pending t resumes) (op : i.opcode = .call) (hmid : Balanced mid) :
      Pending
        (t ++ .dispatched pc (resumes.length + 1) i
          :: .pushedFrame target arguments (resumes.length + 2) :: mid)
        ((pc + 1) :: resumes)

namespace Balanced

variable {s t : List Event} {e : Event}

theorem append (hs : Balanced s) (ht : Balanced t) : Balanced (s ++ t) := by
  induction hs with
  | nil => exact ht
  | plain hpush hpop _ ih => exact .plain hpush hpop ih
  | @call inner rest _ _ _ _ _ hinner _ _ ih =>
    rw [List.cons_append, List.append_assoc, List.cons_append]
    exact .call hinner ih

theorem singleton (hpush : e.isPush = false) (hpop : e.isPop = false) : Balanced [e] :=
  .plain hpush hpop .nil

theorem count_eq (h : Balanced t) : t.countP Event.isPush = t.countP Event.isPop := by
  induction h with
  | nil => rfl
  | plain hpush hpop _ ih => simp [hpush, hpop, ih]
  | call _ _ ihinner ihrest =>
    simp only [List.countP_cons, List.countP_append, Bool.false_eq_true, ↓reduceIte,
      Event.isPush, Event.isPop, ihinner, ihrest]
    omega

end Balanced

namespace Pending

variable {t u : List Event} {resumes : List Nat} {resume : Nat}

theorem append (h : Pending t resumes) (hu : Balanced u) : Pending (t ++ u) resumes := by
  cases h with
  | none ht => exact .none (ht.append hu)
  | call h op hmid =>
    rw [List.append_assoc, List.cons_append, List.cons_append]
    exact .call h op (hmid.append hu)

theorem count_eq (h : Pending t resumes) :
    t.countP Event.isPush = t.countP Event.isPop + resumes.length := by
  induction h with
  | none h => exact h.count_eq
  | call h op hmid ih =>
    simp only [List.countP_cons, List.countP_append, Bool.false_eq_true, ↓reduceIte,
      Event.isPush, Event.isPop, ih, hmid.count_eq, List.length_cons]
    omega

theorem balanced (h : Pending t []) : Balanced t := by
  cases h with
  | none h => exact h

theorem exists_call (h : Pending t (resume :: resumes)) :
    ∃ before mid pc i target arguments, t = before ++ .dispatched pc (resumes.length + 1) i
        :: .pushedFrame target arguments (resumes.length + 2) :: mid
      ∧ i.opcode = .call ∧ Balanced mid ∧ resume = pc + 1 ∧ Pending before resumes := by
  cases h with
  | call h op hmid => exact ⟨_, _, _, _, _, _, rfl, op, hmid, rfl, h⟩

theorem enter (h : Pending t resumes) {i : Instruction} (op : i.opcode = .call)
    (pc target arguments : Nat) :
    Pending (t ++ [.dispatched pc (resumes.length + 1) i,
      .pushedFrame target arguments (resumes.length + 2)]) ((pc + 1) :: resumes) :=
  .call h op .nil

theorem leave (h : Pending t (resume :: resumes)) (back : Nat) :
    Pending (t ++ [.poppedFrame resume back]) resumes := by
  obtain ⟨before, mid, pc, i, target, arguments, rfl, -, hmid, -, hbefore⟩ := h.exists_call
  rw [List.append_assoc]
  exact hbefore.append (.plain rfl rfl (.call hmid .nil))

end Pending

namespace Tale

variable {t : List Event} {e : Event}

theorem nil : Tale [] := ⟨fun past e h => by simp at h, .nil⟩

theorem concat (h : Tale t) (he : e.TrueTo t) (hl : ∀ l ∈ t.getLast?, l.LeadsTo e) :
    Tale (t ++ [e]) where
  trueTo := by
    intro past x hx
    rcases List.prefix_concat_iff.1 hx with heq | hx
    · obtain ⟨rfl, hxe⟩ := List.append_inj' heq rfl
      obtain rfl := List.singleton_inj.1 hxe
      exact he
    · exact h.trueTo past x hx
  leads := by
    refine List.isChain_append.2 ⟨h.leads, List.isChain_singleton e, ?_⟩
    rintro l hlast x hx
    obtain rfl : e = x := Option.some.inj hx
    exact hl l hlast

end Tale

end FrameMachine
