import FrameMachine.Machine.State

/-!
# Runs

A run begins with the checks on the machine and goes on turn by turn. Programs may loop for ever,
so `Machine.advance` takes the number of turns to go; what it answers for more turns extends what
it answers for fewer (`advance_add`).
-/

namespace FrameMachine

/-- The answer of a run that ended with a value. -/
structure Report where
  value : Value
  /-- Instructions executed, the last `exit` included. -/
  steps : Nat
  /-- The most frames that were live at once, the first one included. -/
  maxFrameDepth : Nat
deriving DecidableEq

/-- The answer of a run, once it has ended. -/
def Progress.result? : Progress → Option (Except Fault Report)
  | running _ => none
  | finished value s => some (.ok ⟨value, s.steps, s.maxFrameDepth⟩)
  | faulted fault _ => some (.error fault)
  | refused fault => some (.error fault)

namespace Machine

/-- Opens a run: the limits have to be valid and the program must not be empty. -/
def begin (m : Machine) (arguments : List Value) : Trace × Progress :=
  let entered := .own (.entered m.program.size arguments.length)
  match m.config.validate with
  | .error e => ([entered], .refused e)
  | .ok () =>
    if m.program.isEmpty then ([entered, .own .refusedEmpty], .refused .emptyProgram)
    else ([entered], .running (.start m.config arguments))

/-- Goes on for at most `turns` turns. -/
def advance (m : Machine) : (turns : Nat) → Progress → Trace × Progress
  | turns + 1, .running s =>
    let (events, progress) := s.turn m
    let (rest, progress) := m.advance turns progress
    (events ++ rest, progress)
  | _, progress => ([], progress)

/-- The first `turns` turns of a run. -/
def run (m : Machine) (turns : Nat) (arguments : List Value) : Trace × Progress :=
  let (opening, progress) := m.begin arguments
  let (events, progress) := m.advance turns progress
  (opening ++ events, progress)

/-- Going on for `a + b` turns is going on for `a` and then for `b`. -/
theorem advance_add (m : Machine) (a b : Nat) (p : Progress) :
    m.advance (a + b) p =
      ((m.advance a p).1 ++ (m.advance b (m.advance a p).2).1,
        (m.advance b (m.advance a p).2).2) := by
  induction a generalizing p with
  | zero => cases p <;> simp [advance]
  | succ a ih =>
    cases p with
    | running s =>
      rw [Nat.add_right_comm]
      simp only [advance]
      rw [ih]
      simp [List.append_assoc]
    | _ => cases b <;> simp [advance]

end Machine

end FrameMachine
