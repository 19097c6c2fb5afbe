import FrameMachine.Json.Skip
import FrameMachine.Proofs.JsonGrammar

/-!
# Exactly the values can be passed over

What the automaton still asks of the tokens to come is to finish the value it is in and to close
the brackets that are open, innermost first (`Skip.Completes`). A token is what it asks for if it
takes the token and then asks for the rest, and only then (`Skip.completes_cons`): so it takes the
tokens of a value, however deep, and nothing else.
-/

namespace FrameMachine.Json

variable {K : List Token → Prop} {s s' : Skip} {o : Opener} {openers : List Opener} {t : Token}
  {ts : List Token}

/-- The tokens of elements, each after a comma. -/
def moreElements (vs : List Tree) : List Token :=
  (vs.map fun v => v.tokens).flatMap (.comma :: ·)

/-- The tokens of members, each after a comma. -/
def moreMembers (ms : List (List StringPart × Tree)) : List Token :=
  (ms.map fun m => .string m.1 :: .colon :: m.2.tokens).flatMap (.comma :: ·)

theorem moreElements_cons (v : Tree) (vs : List Tree) :
    moreElements (v :: vs) = .comma :: (v.tokens ++ moreElements vs) := by
  simp [moreElements]

theorem moreMembers_cons (k : List StringPart) (v : Tree) (ms : List (List StringPart × Tree)) :
    moreMembers ((k, v) :: ms) = .comma :: .string k :: .colon :: (v.tokens ++ moreMembers ms) := by
  simp [moreMembers]

namespace Tree

theorem tokens_array_nil : (array []).tokens = [.openBracket, .closeBracket] := by
  simp [tokens, commaSeparated]

theorem tokens_array_cons (v : Tree) (vs : List Tree) : (array (v :: vs)).tokens =
    .openBracket :: (v.tokens ++ (moreElements vs ++ [.closeBracket])) := by
  simp [tokens, commaSeparated, moreElements]

theorem tokens_object_nil : (object []).tokens = [.openBrace, .closeBrace] := by
  simp [tokens, commaSeparated]

theorem tokens_object_cons (k : List StringPart) (v : Tree)
    (ms : List (List StringPart × Tree)) : (object ((k, v) :: ms)).tokens =
      .openBrace :: .string k :: .colon :: (v.tokens ++ (moreMembers ms ++ [.closeBrace])) := by
  simp [tokens, commaSeparated, moreMembers]

end Tree

/-- Between two elements or members, the tokens finish what the open brackets hold and close them,
and go on as `K` says. -/
def Closes (K : List Token → Prop) : List Opener → List Token → Prop
  | [], ts => K ts
  | .bracket :: outer, ts =>
    ∃ vs rest, ts = moreElements vs ++ .closeBracket :: rest ∧ Closes K outer rest
  | .brace :: outer, ts =>
    ∃ ms rest, ts = moreMembers ms ++ .closeBrace :: rest ∧ Closes K outer rest

/-- The tokens are a value and then finish what the open brackets hold. -/
def ValueCloses (K : List Token → Prop) (openers : List Opener) (ts : List Token) : Prop :=
  ∃ v : Tree, ∃ rest, ts = v.tokens ++ rest ∧ Closes K openers rest

theorem not_valueCloses_nil : ¬ ValueCloses K openers [] := by
  rintro ⟨v, rest, h, -⟩
  exact v.tokens_ne_nil (List.append_eq_nil_iff.1 h.symm).1

namespace Skip

/-- What the automaton asks of the tokens to come. -/
def Completes (K : List Token → Prop) (s : Skip) (ts : List Token) : Prop :=
  match s.phase with
  | .value => ValueCloses K s.openers ts
  | .firstValue =>
    (∃ outer rest, s.openers = .bracket :: outer ∧ ts = .closeBracket :: rest
      ∧ Closes K outer rest) ∨ ValueCloses K s.openers ts
  | .key => ∃ k rest, ts = .string k :: .colon :: rest ∧ ValueCloses K s.openers rest
  | .firstKey =>
    (∃ outer rest, s.openers = .brace :: outer ∧ ts = .closeBrace :: rest ∧ Closes K outer rest)
      ∨ ∃ k rest, ts = .string k :: .colon :: rest ∧ ValueCloses K s.openers rest
  | .colon => ∃ rest, ts = .colon :: rest ∧ ValueCloses K s.openers rest
  | .ended => Closes K s.openers ts

theorem closes_of_close (h : close o openers = some s') (hts : s'.Completes K ts) :
    ∃ outer, openers = o :: outer ∧ Closes K outer ts := by
  cases openers with
  | nil => cases h
  | cons o' outer =>
    simp only [close] at h
    split at h
    · rename_i ho
      cases h
      exact ⟨outer, by rw [ho], hts⟩
    · cases h

theorem closes_of_afterComma (h : afterComma openers = some s') (hts : s'.Completes K ts) :
    Closes K openers (.comma :: ts) := by
  rcases openers with _ | ⟨_ | _, outer⟩ <;> cases h
  · obtain ⟨k, rest, rfl, v, rest, rfl, ms, rest, rfl, hrest⟩ := hts
    exact ⟨(k, v) :: ms, rest, by simp [moreMembers_cons], hrest⟩
  · obtain ⟨v, rest, rfl, vs, rest, rfl, hrest⟩ := hts
    exact ⟨v :: vs, rest, by simp [moreElements_cons], hrest⟩

theorem closes_of_beginValue (h : beginValue openers t = some s') (hts : s'.Completes K ts) :
    ValueCloses K openers (t :: ts) := by
  cases t with
  | null =>
    cases h
    exact ⟨.null, ts, by simp [Tree.tokens], hts⟩
  | boolean b =>
    cases h
    exact ⟨.boolean b, ts, by simp [Tree.tokens], hts⟩
  | number n =>
    cases h
    exact ⟨.number n, ts, by simp [Tree.tokens], hts⟩
  | string parts =>
    cases h
    exact ⟨.string parts, ts, by simp [Tree.tokens], hts⟩
  | openBrace =>
    cases h
    rcases hts with ⟨_, rest, ⟨⟩, rfl, hrest⟩ | ⟨k, _, rfl, v, _, rfl, ms, rest, rfl, hrest⟩
    · exact ⟨.object [], rest, by rw [Tree.tokens_object_nil]; rfl, hrest⟩
    · exact ⟨.object ((k, v) :: ms), rest, by simp [Tree.tokens_object_cons], hrest⟩
  | openBracket =>
    cases h
    rcases hts with ⟨_, rest, ⟨⟩, rfl, hrest⟩ | ⟨v, _, rfl, vs, rest, rfl, hrest⟩
    · exact ⟨.array [], rest, by rw [Tree.tokens_array_nil]; rfl, hrest⟩
    · exact ⟨.array (v :: vs), rest, by simp [Tree.tokens_array_cons], hrest⟩
  | _ => cases h

theorem Completes.of_feed (h : s.feed t = some s') (hts : s'.Completes K ts) :
    s.Completes K (t :: ts) := by
  rcases s with ⟨openers, phase⟩
  cases phase with
  | value => exact closes_of_beginValue h hts
  | firstValue =>
    cases t with
    | closeBracket =>
      obtain ⟨outer, rfl, hrest⟩ := closes_of_close h hts
      exact .inl ⟨outer, ts, rfl, rfl, hrest⟩
    | _ => exact .inr (closes_of_beginValue h hts)
  | key =>
    cases t with
    | string k =>
      cases h
      obtain ⟨rest, rfl, hrest⟩ := hts
      exact ⟨k, rest, rfl, hrest⟩
    | _ => cases h
  | firstKey =>
    cases t with
    | string k =>
      cases h
      obtain ⟨rest, rfl, hrest⟩ := hts
      exact .inr ⟨k, rest, rfl, hrest⟩
    | closeBrace =>
      obtain ⟨outer, rfl, hrest⟩ := closes_of_close h hts
      exact .inl ⟨outer, ts, rfl, rfl, hrest⟩
    | _ => cases h
  | colon =>
    cases t with
    | colon =>
      cases h
      exact ⟨ts, rfl, hts⟩
    | _ => cases h
  | ended =>
    cases t with
    | comma => exact closes_of_afterComma h hts
    | closeBrace | closeBracket =>
      obtain ⟨outer, rfl, hrest⟩ := closes_of_close h hts
      exact ⟨[], ts, rfl, hrest⟩
    | _ => cases h

theorem beginValue_of_closes (h : ValueCloses K openers (t :: ts)) :
    ∃ s', beginValue openers t = some s' ∧ s'.Completes K ts := by
  obtain ⟨v, rest, htokens, hrest⟩ := h
  cases v with
  | null | boolean | number | string =>
    rw [Tree.tokens, List.singleton_append, List.cons.injEq] at htokens
    obtain ⟨rfl, rfl⟩ := htokens
    exact ⟨_, rfl, hrest⟩
  | array elements =>
    rcases elements with _ | ⟨v, vs⟩
    · rw [Tree.tokens_array_nil] at htokens
      obtain ⟨rfl, rfl⟩ := List.cons.inj htokens
      exact ⟨_, rfl, .inl ⟨openers, rest, rfl, rfl, hrest⟩⟩
    · rw [Tree.tokens_array_cons] at htokens
      obtain ⟨rfl, rfl⟩ := List.cons.inj htokens
      exact ⟨_, rfl, .inr ⟨v, _, by simp, vs, rest, rfl, hrest⟩⟩
  | object members =>
    rcases members with _ | ⟨⟨k, v⟩, ms⟩
    · rw [Tree.tokens_object_nil] at htokens
      obtain ⟨rfl, rfl⟩ := List.cons.inj htokens
      exact ⟨_, rfl, .inl ⟨openers, rest, rfl, rfl, hrest⟩⟩
    · rw [Tree.tokens_object_cons] at htokens
      obtain ⟨rfl, rfl⟩ := List.cons.inj htokens
      exact ⟨_, rfl, .inr ⟨k, _, by simp, v, _, rfl, ms, rest, rfl, hrest⟩⟩

theorem feed_of_closes (ho : openers ≠ []) (h : Closes K openers (t :: ts)) :
    ∃ s', feed ⟨openers, .ended⟩ t = some s' ∧ s'.Completes K ts := by
  rcases openers with _ | ⟨_ | _, outer⟩
  · exact absurd rfl ho
  · obtain ⟨ms, rest, htokens, hrest⟩ := h
    rcases ms with _ | ⟨⟨k, v⟩, ms⟩
    · obtain ⟨rfl, rfl⟩ := List.cons.inj htokens
      exact ⟨_, rfl, hrest⟩
    · rw [moreMembers_cons] at htokens
      obtain ⟨rfl, rfl⟩ := List.cons.inj htokens
      exact ⟨_, rfl, k, _, rfl, v, _, List.append_assoc .., ms, rest, rfl, hrest⟩
  · obtain ⟨vs, rest, htokens, hrest⟩ := h
    rcases vs with _ | ⟨v, vs⟩
    · obtain ⟨rfl, rfl⟩ := List.cons.inj htokens
      exact ⟨_, rfl, hrest⟩
    · rw [moreElements_cons] at htokens
      obtain ⟨rfl, rfl⟩ := List.cons.inj htokens
      exact ⟨_, rfl, v, _, List.append_assoc .., vs, rest, rfl, hrest⟩

theorem Completes.feed (h : s.Completes K (t :: ts)) (hs : s.isDone = false) :
    ∃ s', s.feed t = some s' ∧ s'.Completes K ts := by
  rcases s with ⟨openers, phase⟩
  cases phase with
  | value => exact beginValue_of_closes h
  | firstValue =>
    rcases h with ⟨outer, rest, rfl, htokens, hrest⟩ | h
    · obtain ⟨rfl, rfl⟩ := List.cons.inj htokens
      exact ⟨_, rfl, hrest⟩
    · obtain ⟨s', hbegin, hrest⟩ := beginValue_of_closes h
      refine ⟨s', ?_, hrest⟩
      cases t with
      | closeBracket => cases hbegin
      | _ => exact hbegin
  | key =>
    obtain ⟨k, rest, htokens, hrest⟩ := h
    obtain ⟨rfl, rfl⟩ := List.cons.inj htokens
    exact ⟨_, rfl, rest, rfl, hrest⟩
  | firstKey =>
    rcases h with ⟨outer, rest, rfl, htokens, hrest⟩ | ⟨k, rest, htokens, hrest⟩
    · obtain ⟨rfl, rfl⟩ := List.cons.inj htokens
      exact ⟨_, rfl, hrest⟩
    · obtain ⟨rfl, rfl⟩ := List.cons.inj htokens
      exact ⟨_, rfl, rest, rfl, hrest⟩
  | colon =>
    obtain ⟨rest, htokens, hrest⟩ := h
    obtain ⟨rfl, rfl⟩ := List.cons.inj htokens
    exact ⟨_, rfl, hrest⟩
  | ended =>
    refine feed_of_closes ?_ h
    rintro rfl
    cases hs

/-- What is asked for is what can be taken. -/
theorem completes_cons (hs : s.isDone = false) :
    s.Completes K (t :: ts) ↔ ∃ s', s.feed t = some s' ∧ s'.Completes K ts :=
  ⟨fun h => h.feed hs, fun ⟨_, hfeed, hrest⟩ => hrest.of_feed hfeed⟩

theorem isDone_of_feed (h : s.feed t = some s') : s.isDone = false := by
  rcases s with ⟨_ | ⟨o, openers⟩, phase⟩
  · cases phase with
    | ended => cases t <;> cases h
    | _ => rfl
  · rfl

theorem completes_of_isDone (hs : s.isDone = true) : s.Completes K ts ↔ K ts := by
  rcases s with ⟨_ | ⟨o, openers⟩, phase⟩
  · cases phase with
    | ended => exact Iff.rfl
    | _ => cases hs
  · cases hs

theorem not_completes_nil (hs : s.isDone = false) : ¬ s.Completes K [] := by
  rcases s with ⟨openers, phase⟩
  cases phase with
  | value => exact not_valueCloses_nil
  | firstValue =>
    rintro (⟨_, _, _, ⟨⟩, _⟩ | h)
    exact not_valueCloses_nil h
  | key | colon => nofun
  | firstKey => rintro (⟨_, _, _, ⟨⟩, _⟩ | ⟨_, _, ⟨⟩, _⟩)
  | ended =>
    rcases openers with _ | ⟨_ | _, outer⟩
    · cases hs
    · rintro ⟨ms, rest, h, -⟩
      exact List.append_ne_nil_of_right_ne_nil _ (List.cons_ne_nil _ _) h.symm
    · rintro ⟨vs, rest, h, -⟩
      exact List.append_ne_nil_of_right_ne_nil _ (List.cons_ne_nil _ _) h.symm

end Skip

end FrameMachine.Json
