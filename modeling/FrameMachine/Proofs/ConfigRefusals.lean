import FrameMachine.Proofs.ConfigDrafts

/-!
# The first error decides

Where a text stops after a token that ends by itself, its tokens are the first of every longer
text (`lex_append_of_spelled`). So a refusal stands however the text goes on
(`ofText_append_of_error`): a key that comes a second time is refused at its closing quote, a
bracket where a number is wanted at the bracket, and a name of no locals model at its closing
quote, after any members that are accepted (`first_error_decides`).
-/

namespace FrameMachine

namespace Json

variable {ts : List Token} {text : List Char}

/-- What a text spells it gives, whatever follows, unless it ends in a number. -/
theorem lex_append_of_spelled (h : Spelled ts text) (hs : Separated ts)
    (hlast : ∀ n, ts.getLast? ≠ some (.number n)) (rest : List Char) :
    lex (text ++ rest) = ts ++ lex rest := by
  induction h with
  | nil => rfl
  | @blank c ts text hblank _ ih =>
    rw [List.cons_append, lex, lexFrom_cons]
    simp only [Mode.feed, begin, hblank, if_true]
    exact ih hs hlast
  | @token t ts w text hw hrest ih =>
    obtain ⟨hnext, htail⟩ := List.isChain_cons.1 hs
    have htokens := ih htail fun n hn => by
      cases ts with
      | nil => cases hn
      | cons u ts => exact hlast n (by rw [List.getLast?_cons_cons, hn])
    rw [List.append_assoc, List.cons_append]
    cases hw with
    | @number n w hn =>
      -- The number is not the last token, so the text after it says where it ends.
      have hmore : ts ≠ [] := by
        rintro rfl
        exact hlast n rfl
      have hend : EndsNumber (text ++ rest) := by
        have hend := endsNumber_of_spelled hrest fun u hu => hnext u hu ⟨n, rfl⟩
        cases text with
        | nil => exact absurd (lex_of_spelled hrest htail).symm hmore
        | cons c text => exact hend
      obtain ⟨phase, hcomplete, hreads⟩ := reads_numeral hn
      rw [lex, lexFrom_append, hreads, lexFrom_number hcomplete hend, htokens]
      rfl
    | string hparts => rw [lex, lexFrom_of_run (run_string hparts), htokens]
    | _ => rw [lex, lexFrom_of_run rfl, htokens]

end Json

namespace Config

open Json

variable {c : Config} {d d' : Draft} {e : Expected} {err : ReadError} {f : Field}
  {key : List StringPart} {ms : List (List StringPart × Tree)} {ts : List Token} {text : String}

/-- A text whose tokens are refused is refused with that error however it goes on. -/
theorem ofText_append_of_error (h : Spelled ts text.toList) (hs : Separated ts)
    (hlast : ∀ n, ts.getLast? ≠ some (.number n)) (herr : ts.foldlM Reader.feed {} = .error err)
    (rest : String) : ofText (text ++ rest) = .error (.invalidConfig err.message) := by
  rw [ofText, String.toList_append, lex_append_of_spelled h hs hlast,
    read_append_of_error herr]

/-- An object up to the next key: its brace, and members with a comma after each. -/
def opening (ms : List (List StringPart × Tree)) : List Token :=
  .openBrace :: ms.flatMap fun m => memberTokens m ++ [.comma]

theorem separated_opening (ms : List (List StringPart × Tree)) (hs : Separated ts) :
    Separated (opening ms ++ ts) := by
  have hmembers : Separated ((ms.flatMap fun m => memberTokens m ++ [.comma]) ++ ts) := by
    induction ms with
    | nil => exact hs
    | cons m ms ih =>
      have hvalue := m.2.separated_tokens (ih.ending (t := .comma) trivial)
      simpa [memberTokens] using (hvalue.cons (t := .colon) (by simp)).cons (t := .string m.1)
        (by simp)
  exact hmembers.cons (by simp)

/-- Where a key may come, it may after members that are taken. -/
theorem foldlM_opening (h : ms.foldlM Draft.member {} = .ok d) :
    ∃ e, (e = .firstKey ∨ e = .key) ∧
      (opening ms).foldlM Reader.feed {} = .ok (d.reader .object e) := by
  have hrun (ms : List (List StringPart × Tree)) : ∀ (d₀ : Draft) (e : Expected),
      e = .firstKey ∨ e = .key → ms.foldlM Draft.member d₀ = .ok d →
      ∃ e', (e' = .firstKey ∨ e' = .key) ∧
        (ms.flatMap fun m => memberTokens m ++ [.comma]).foldlM Reader.feed
          (d₀.reader .object e) = .ok (d.reader .object e') := by
    induction ms with
    | nil =>
      rintro d₀ e he ⟨⟩
      exact ⟨e, he, rfl⟩
    | cons m ms ih =>
      intro d₀ e he h
      rw [List.foldlM_cons, bind_eq_ok] at h
      obtain ⟨d₁, hm, h⟩ := h
      obtain ⟨e', he', hrest⟩ := ih d₁ .key (.inr rfl) h
      refine ⟨e', he', ?_⟩
      rw [List.flatMap_cons, List.append_assoc, List.foldlM_append, foldlM_member he, hm]
      have hcomma : (d₁.reader .object .separator).feed .comma = .ok (d₁.reader .object .key) := rfl
      exact (foldlM_of_feed_ok _ hcomma _).trans hrest
  exact hrun ms {} .firstKey (.inl rfl) h

/-- What the value of a numeric field has to be. -/
def Field.wanted : Field → Wanted
  | .maxSteps => .count
  | _ => .size

/-- The start of a member that is refused where the fields `given` were given before, and why. -/
inductive Refused (given : List Field) : List Token → ReadError → Prop
  /-- The key of a field that was given. -/
  | duplicate {key : List StringPart} {f : Field} (hkey : decodeText key = some f.key)
      (hf : f ∈ given) : Refused given [.string key] (.duplicateField f)
  /-- An array for a number. -/
  | sequence {key : List StringPart} {f : Field} (hkey : decodeText key = some f.key)
      (hf : f ∉ given) (hnumeric : f ≠ .localsModel) :
      Refused given [.string key, .colon, .openBracket] (.invalidType .sequence f.wanted)
  /-- An object for a number. -/
  | map {key : List StringPart} {f : Field} (hkey : decodeText key = some f.key)
      (hf : f ∉ given) (hnumeric : f ≠ .localsModel) :
      Refused given [.string key, .colon, .openBrace] (.invalidType .map f.wanted)
  /-- A name of no locals model. -/
  | variant {key parts : List StringPart} {name : String}
      (hkey : decodeText key = some Field.localsModel.key) (hf : .localsModel ∉ given)
      (hparts : decodeText parts = some name) (hname : ∀ m : LocalsModel, name ≠ m.name) :
      Refused given [.string key, .colon, .string parts] (.unknownVariant name)

theorem readVariant_of_unknown {parts : List StringPart} {name : String}
    (hparts : decodeText parts = some name) (hname : ∀ m : LocalsModel, name ≠ m.name) :
    readVariant parts = .error (.unknownVariant name) := by
  have hnone : LocalsModel.ofName? name = none :=
    Option.eq_none_iff_forall_not_mem.2 fun m hm => hname m (ofName?_eq_some_iff.1 hm)
  simp only [readVariant, readText, hparts, bind, Except.bind, hnone]
  rfl

theorem feed_key_of_new (he : e = .firstKey ∨ e = .key) (hkey : decodeText key = some f.key)
    (hf : f ∉ d.given) :
    (d.reader .object e).feed (.string key) = .ok (d.reader .object (.colon (some f))) := by
  rw [feed_key he]
  simp only [readText, hkey, bind, Except.bind, f.ofKey?_key, if_neg hf]
  rfl

theorem Refused.foldlM (h : Refused d.given ts err) (he : e = .firstKey ∨ e = .key) :
    ts.foldlM Reader.feed (d.reader .object e) = .error err := by
  cases h with
  | @duplicate key f hkey hf =>
    refine foldlM_of_feed_error ?_ []
    rw [feed_key he]
    simp only [readText, hkey, bind, Except.bind, f.ofKey?_key, if_pos hf]
    rfl
  | @sequence key f hkey hf hnumeric =>
    rw [foldlM_of_feed_ok _ (feed_key_of_new he hkey hf)]
    cases f <;> first | exact absurd rfl hnumeric | rfl
  | @map key f hkey hf hnumeric =>
    rw [foldlM_of_feed_ok _ (feed_key_of_new he hkey hf)]
    cases f <;> first | exact absurd rfl hnumeric | rfl
  | variant hkey hf hparts hname =>
    rw [foldlM_of_feed_ok _ (feed_key_of_new he hkey hf),
      foldlM_of_feed_ok (d.reader .object (.value .localsModel)) rfl]
    refine foldlM_of_feed_error ?_ []
    simp only [Draft.reader, Reader.feed, Reader.feedValue, readVariant_of_unknown hparts hname]
    rfl

theorem Refused.separated {given : List Field} (h : Refused given ts err) : Separated ts := by
  cases h <;> simp [Separated]

theorem Refused.getLast? {given : List Field} (h : Refused given ts err) (n : Numeral) :
    (opening ms ++ ts).getLast? ≠ some (.number n) := by
  cases h <;> simp [List.getLast?_append]

/-- The first error decides. After members that are accepted where they come, a field's key that was
given before is refused as a duplicate, a bracket in the place of a number for what it opens, and an
unknown name of a locals model for its text; and what follows in the text, right or wrong, changes
nothing about it. -/
theorem first_error_decides (hms : TakesMembers c {} [] ms)
    (h : Refused ((fieldsGiven ms).map Prod.fst) ts err)
    (htext : Spelled (opening ms ++ ts) text.toList) (rest : String) :
    ofText (text ++ rest) = .error (.invalidConfig err.message) := by
  obtain ⟨e, he, hopening⟩ := foldlM_opening (Draft.foldlM_member_of_takes (d := {}) hms)
  refine ofText_append_of_error htext (separated_opening ms h.separated) h.getLast? ?_ rest
  rw [List.foldlM_append, hopening]
  exact Refused.foldlM (d := ⟨c, (fieldsGiven ms).map Prod.fst⟩) h he

/-- A second limit on the steps is a duplicate though its key is spelled with a code, and though a
bracket that is never closed follows. -/
theorem second_limit_refused :
    ofText ("\x7b\"x\":[1e999], \"max_steps\":null,\"max\\u005fsteps\"" ++ ":\x7b") =
      .error (.invalidConfig "duplicate field `max_steps`") := by
  let huge : Tree := .number { whole := [1], exponent := [9, 9, 9] }
  let ms := [(plain "x", Tree.array [huge]), (plain "max_steps", .null)]
  let key := plain "max" ++ .unit 0x5f :: plain "steps"
  have hms : TakesMembers {} {} [] ms := by
    have hsets : Sets .maxSteps .null {} {} := ⟨.unlimited, fun _ _ => rfl⟩
    refine (takesMembers_unknown (by rfl) (by decide)).2 ?_
    exact (takesMembers_field (by rfl) (by decide)).2
      ⟨List.not_mem_nil, {}, hsets, takesMembers_nil.2 rfl⟩
  have hkey : Refused [.maxSteps] [.string key] (.duplicateField .maxSteps) :=
    .duplicate (by rfl) (by decide)
  have hlex : lex "\x7b\"x\":[1e999], \"max_steps\":null,\"max\\u005fsteps\"".toList =
      opening ms ++ [.string key] := by
    simp only [opening, memberTokens, ms, huge, Tree.tokens, commaSeparated, List.map_cons,
      List.map_nil, List.flatMap_cons, List.flatMap_nil]
    rfl
  exact first_error_decides hms hkey (hlex ▸ spelled_lex (by decide)) ":\x7b"

end Config

end FrameMachine
