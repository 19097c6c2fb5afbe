import FrameMachine.Json.Token

/-!
# Passing over a value

A pushdown automaton that accepts the tokens of one JSON value, however deep it is nested, and
keeps nothing of it but the brackets still open.
-/

namespace FrameMachine.Json

/-- The two kinds of brackets. -/
inductive Opener
  | brace
  | bracket
deriving DecidableEq

/-- What has to come next. -/
inductive SkipPhase
  | value
  /-- A value or the end of an empty array. -/
  | firstValue
  | key
  /-- A key or the end of an empty object. -/
  | firstKey
  | colon
  /-- A value is complete: a comma or the end of what it is in. -/
  | ended
deriving DecidableEq

/-- How far a value is passed over. -/
structure Skip where
  /-- The brackets still open, innermost first. -/
  openers : List Opener := []
  phase : SkipPhase := .value
deriving DecidableEq

namespace Skip

/-- Whether the value is complete. -/
def isDone (s : Skip) : Bool := s.openers.isEmpty && s.phase = .ended

/-- What the first token of a value does. -/
def beginValue (openers : List Opener) : Token → Option Skip
  | .null | .boolean _ | .number _ | .string _ => some ⟨openers, .ended⟩
  | .openBrace => some ⟨.brace :: openers, .firstKey⟩
  | .openBracket => some ⟨.bracket :: openers, .firstValue⟩
  | _ => none

/-- Closes the innermost bracket, if it is of kind `o`. -/
def close (o : Opener) : List Opener → Option Skip
  | o' :: rest => if o' = o then some ⟨rest, .ended⟩ else none
  | [] => none

/-- What may come after a comma. -/
def afterComma : List Opener → Option Skip
  | .brace :: rest => some ⟨.brace :: rest, .key⟩
  | .bracket :: rest => some ⟨.bracket :: rest, .value⟩
  | [] => none

/-- One token further, if the token may come here. -/
def feed (s : Skip) (t : Token) : Option Skip :=
  match s.phase, t with
  | .value, t => beginValue s.openers t
  | .firstValue, .closeBracket => close .bracket s.openers
  | .firstValue, t => beginValue s.openers t
  | .key, .string _ => some { s with phase := .colon }
  | .firstKey, .string _ => some { s with phase := .colon }
  | .firstKey, .closeBrace => close .brace s.openers
  | .colon, .colon => some { s with phase := .value }
  | .ended, .comma => afterComma s.openers
  | .ended, .closeBrace => close .brace s.openers
  | .ended, .closeBracket => close .bracket s.openers
  | _, _ => none

end Skip

end FrameMachine.Json
