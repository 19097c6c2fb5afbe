import FrameMachine.Proofs.ConfigDrafts

/-!
# Unknown members change nothing

An object whose keys stand for texts is read by the fields that it gives, each with its value, and
by nothing else of it (`ofTree_object`). So members under other keys may come and go anywhere in a
text, whatever their values are: what was accepted stays the same configuration and what was refused
the same refusal (`unknown_members_unseen`).
-/

namespace FrameMachine

open Json

namespace Json

variable {ts : List Token} {text : List Char} {t : Token}

theorem Spelled.exists_spelledBy (h : Spelled ts text) (ht : t ∈ ts) : ∃ w, t.SpelledBy w := by
  induction h with
  | nil => cases ht
  | blank _ _ ih => exact ih ht
  | token first _ ih =>
    rcases List.mem_cons.1 ht with rfl | ht
    · exact ⟨_, first⟩
    · exact ih ht

theorem exists_spelled (h : ∀ t ∈ ts, ∃ w, t.SpelledBy w) : ∃ text, Spelled ts text := by
  induction ts with
  | nil => exact ⟨[], .nil⟩
  | cons t ts ih =>
    obtain ⟨⟨w, hw⟩, hts⟩ := List.forall_mem_cons.1 h
    obtain ⟨text, htext⟩ := ih hts
    exact ⟨w ++ text, .token hw htext⟩

theorem mem_commaSeparated_of_mem {lists : List (List Token)} {l : List Token} (hl : l ∈ lists)
    (ht : t ∈ l) : t ∈ commaSeparated lists := by
  cases lists with
  | nil => cases hl
  | cons first rest =>
    rw [commaSeparated, List.mem_append, List.mem_flatMap]
    rcases List.mem_cons.1 hl with rfl | hl
    · exact .inl ht
    · exact .inr ⟨l, hl, List.mem_cons_of_mem _ ht⟩

end Json

namespace Config

variable {ms ms' : List (List StringPart × Tree)} {m : List StringPart × Tree} {d : Draft}

/-- The key of the member stands for the name of a field. -/
def namesField (m : List StringPart × Tree) : Bool := (fieldOf? m.1).isSome

/-- `ms'` is `ms` with any number of members put in anywhere, under keys that stand for other texts
than the names of fields. -/
inductive Inserts : (ms ms' : List (List StringPart × Tree)) → Prop
  | nil : Inserts [] []
  | keep (m : List StringPart × Tree) {ms ms' : List (List StringPart × Tree)}
      (rest : Inserts ms ms') : Inserts (m :: ms) (m :: ms')
  | unknown {key : List StringPart} {name : String} (hkey : decodeText key = some name)
      (hname : ∀ f : Field, name ≠ f.key) (v : Tree) {ms ms' : List (List StringPart × Tree)}
      (rest : Inserts ms ms') : Inserts ms ((key, v) :: ms')

theorem ofKey?_eq_some_iff {name : String} {f : Field} :
    Field.ofKey? name = some f ↔ name = f.key := by
  constructor
  · intro h
    have hkey := List.find?_some h
    exact (of_decide_eq_true hkey).symm
  · rintro rfl
    exact f.ofKey?_key

theorem namesField_iff : namesField m ↔ ∃ f : Field, decodeText m.1 = some f.key := by
  simp only [namesField, fieldOf?, Option.isSome_iff_exists, Option.bind_eq_some_iff,
    ofKey?_eq_some_iff]
  constructor
  · rintro ⟨f, name, hname, rfl⟩
    exact ⟨f, hname⟩
  · rintro ⟨f, hf⟩
    exact ⟨f, f.key, hf, rfl⟩

/-! ## The fields of an object -/

/-- The draft with one more field. A field may be given once. -/
def Draft.field (d : Draft) (p : Field × Tree) : Except ReadError Draft :=
  if p.1 ∈ d.given then throw (.duplicateField p.1) else d.give p.1 p.2

theorem fieldsGiven_cons (m : List StringPart × Tree) (ms : List (List StringPart × Tree)) :
    fieldsGiven (m :: ms) = ((fieldOf? m.1).map (·, m.2)).toList ++ fieldsGiven ms := by
  cases hf : fieldOf? m.1 <;> simp [fieldsGiven, hf]

theorem Draft.member_eq (h : (decodeText m.1).isSome) :
    d.member m = ((fieldOf? m.1).map (·, m.2)).toList.foldlM Draft.field d := by
  obtain ⟨name, hname⟩ := Option.isSome_iff_exists.1 h
  cases hf : Field.ofKey? name with
  | none =>
    rw [fieldOf?, hname, Option.bind_some, hf]
    exact member_of_unknown hname hf
  | some f =>
    rw [fieldOf?, hname, Option.bind_some, hf, Option.map_some, Option.toList_some,
      List.foldlM_cons]
    simp only [member, field, readText, hname, hf, bind, Except.bind]
    split
    · rfl
    · cases d.give f m.2 <;> rfl

theorem Draft.foldlM_member_eq (h : ∀ m ∈ ms, (decodeText m.1).isSome) (d : Draft) :
    ms.foldlM Draft.member d = (fieldsGiven ms).foldlM Draft.field d := by
  induction ms generalizing d with
  | nil => rfl
  | cons m ms ih =>
    obtain ⟨hm, hms⟩ := List.forall_mem_cons.1 h
    rw [List.foldlM_cons, fieldsGiven_cons, List.foldlM_append, member_eq hm]
    exact bind_congr (ih hms)

/-- An object is read by the fields that it gives. -/
theorem ofTree_object (h : ∀ m ∈ ms, (decodeText m.1).isSome) :
    ofTree (.object ms) = do return (← (fieldsGiven ms).foldlM Draft.field {}).config := by
  rw [ofTree, Draft.foldlM_member_eq h]

/-! ## Members put in and left out -/

theorem Inserts.fieldsGiven_eq (h : Inserts ms ms') : fieldsGiven ms' = fieldsGiven ms := by
  induction h with
  | nil => rfl
  | keep m _ ih => rw [fieldsGiven_cons, fieldsGiven_cons, ih]
  | @unknown key name hkey hname v ms ms' _ ih =>
    have hnone : fieldOf? key = none := by
      rw [fieldOf?, hkey, Option.bind_some, Option.eq_none_iff_forall_ne_some]
      exact fun f hf => hname f (ofKey?_eq_some_iff.1 hf)
    rw [fieldsGiven_cons, hnone, ih]
    rfl

theorem Inserts.keys (h : Inserts ms ms') (hms : ∀ m ∈ ms, (decodeText m.1).isSome) :
    ∀ m ∈ ms', (decodeText m.1).isSome := by
  induction h with
  | nil => exact hms
  | keep m _ ih =>
    obtain ⟨hm, hms⟩ := List.forall_mem_cons.1 hms
    exact List.forall_mem_cons.2 ⟨hm, ih hms⟩
  | unknown hkey _ v _ ih => exact List.forall_mem_cons.2 ⟨by simp [hkey], ih hms⟩

/-- Whatever names no field was put in. -/
theorem inserts_filter (h : ∀ m ∈ ms, (decodeText m.1).isSome) :
    Inserts (ms.filter namesField) ms := by
  induction ms with
  | nil => exact .nil
  | cons m ms ih =>
    obtain ⟨hm, hms⟩ := List.forall_mem_cons.1 h
    by_cases hfield : namesField m
    · rw [List.filter_cons_of_pos hfield]
      exact .keep m (ih hms)
    · rw [List.filter_cons_of_neg hfield]
      obtain ⟨name, hname⟩ := Option.isSome_iff_exists.1 hm
      refine .unknown hname ?_ m.2 (ih hms)
      rintro f rfl
      exact hfield (namesField_iff.2 ⟨f, hname⟩)

theorem Inserts.ofText_eq (h : Inserts ms ms') (hms : ∀ m ∈ ms, (decodeText m.1).isSome)
    {text text' : String} (htext : (Tree.object ms).SpelledBy text)
    (htext' : (Tree.object ms').SpelledBy text') : ofText text' = ofText text := by
  have htree : ofTree (.object ms') = ofTree (.object ms) := by
    rw [ofTree_object hms, ofTree_object (h.keys hms), h.fieldsGiven_eq]
  rw [ofText_of_spelledBy htext, ofText_of_spelledBy htext', htree]

/-- An object that has a text has one without some of its members. -/
theorem exists_spelledBy_of_subset {text : String} (htext : (Tree.object ms').SpelledBy text)
    (h : ms ⊆ ms') : ∃ text', (Tree.object ms).SpelledBy text' := by
  have htokens : ∀ t ∈ (Tree.object ms).tokens, ∃ w, t.SpelledBy w := by
    intro t ht
    rw [Tree.tokens, List.cons_append, List.mem_cons, List.mem_append, List.mem_singleton] at ht
    rcases ht with rfl | ht | rfl
    · exact ⟨_, .openBrace⟩
    · rcases mem_commaSeparated ht with rfl | ⟨l, hl, ht⟩
      · exact ⟨_, .comma⟩
      · refine Spelled.exists_spelledBy htext ?_
        rw [Tree.tokens, List.cons_append, List.mem_cons, List.mem_append]
        exact .inr (.inl (mem_commaSeparated_of_mem (List.map_subset _ h hl) ht))
    · exact ⟨_, .closeBrace⟩
  obtain ⟨w, hw⟩ := exists_spelled htokens
  exact ⟨String.ofList w, by rwa [Tree.SpelledBy, String.toList_ofList]⟩

/-- Unknown members change nothing about what a text is read as. Where the keys of an object stand
for texts, it can be written without the members that name no field, and however it is written so,
or with any members put in that name none, the answer is the same: the same configuration, or the
same refusal with the same message. -/
theorem unknown_members_unseen (ms : List (List StringPart × Tree))
    (hms : ∀ m ∈ ms, (decodeText m.1).isSome) (text : String)
    (htext : (Tree.object ms).SpelledBy text) :
    (∃ text', (Tree.object (ms.filter namesField)).SpelledBy text')
    ∧ (∀ text', (Tree.object (ms.filter namesField)).SpelledBy text' → ofText text' = ofText text)
    ∧ ∀ ms', Inserts ms ms' → ∀ text', (Tree.object ms').SpelledBy text' →
      ofText text' = ofText text := by
  have hfilter : ∀ m ∈ ms.filter namesField, (decodeText m.1).isSome :=
    fun m hm => hms m (List.mem_filter.1 hm).1
  refine ⟨exists_spelledBy_of_subset htext List.filter_sublist.subset, ?_, ?_⟩
  · intro text' htext'
    exact ((inserts_filter hms).ofText_eq hfilter htext' htext).symm
  · intro ms' hinserts text' htext'
    exact hinserts.ofText_eq hms htext htext'

/-- A second limit on the steps is a duplicate without and with members around it, of which one
holds what no field could: a number too large for a double and half of a surrogate pair. -/
theorem duplicate_seen_among_unknowns :
    [ofText "\x7b\"max_steps\":null,\"max_steps\":3\x7d",
      ofText "\x7b\"max_steps\":null,\"x\":[1e999,\"\\ud800\"],\"max_steps\":3\x7d",
      ofText "\x7b\"\":0,\"max_steps\":null,\"x\":[1e999,\"\\ud800\"],\"max_steps\":3\x7d"] =
    List.replicate 3 (.error (.invalidConfig "duplicate field `max_steps`")) := by
  let odd : Tree := .array [.number { whole := [1], exponent := [9, 9, 9] }, .string [.unit 0xd800]]
  let first := (plain "max_steps", Tree.null)
  let second := (plain "max_steps", Tree.number { whole := [3] })
  let ms := [first, (plain "x", odd), second]
  have hspelled {v : Tree} {text : String} (h : lex text.toList = v.tokens) : v.SpelledBy text :=
    lex_eq_tokens_iff.1 h
  have htext : (Tree.object ms).SpelledBy
      "\x7b\"max_steps\":null,\"x\":[1e999,\"\\ud800\"],\"max_steps\":3\x7d" := by
    refine hspelled ?_
    simp only [ms, first, second, odd, Tree.tokens, commaSeparated, List.map_cons, List.map_nil]
    rfl
  have hinserts : Inserts ms ((plain "", .number { whole := [0] }) :: ms) := by
    refine .unknown (decodeText_plain "") ?_ _ (.keep _ (.keep _ (.keep _ .nil)))
    rintro (_ | _) <;> decide
  obtain ⟨-, hdelete, hinsert⟩ := unknown_members_unseen ms (by decide) _ htext
  rw [hinsert _ hinserts
      "\x7b\"\":0,\"max_steps\":null,\"x\":[1e999,\"\\ud800\"],\"max_steps\":3\x7d" (hspelled ?_),
    hdelete "\x7b\"max_steps\":null,\"max_steps\":3\x7d" (hspelled ?_)]
  · rfl
  · have hfilter : ms.filter namesField = [first, second] := by rfl
    rw [hfilter]
    simp only [first, second, Tree.tokens, commaSeparated, List.map_cons, List.map_nil]
    rfl
  · simp only [ms, first, second, odd, Tree.tokens, commaSeparated, List.map_cons, List.map_nil]
    rfl

end Config

end FrameMachine
