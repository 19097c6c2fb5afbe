import FrameMachine.Proofs.ConfigReading

/-!
# Reading whole values

What the reader does token by token can be said of whole values: a member is taken under its key
(`Draft.member`), an element as the value of the next field (`Draft.element`), and what was taken
before shows in nothing but the configuration so far and the fields that were given. The first
member or element that is refused is the error of all (`read_tokens`). So an array is read as the
object that gives its elements to the fields in order (`array_reads_as_object`).
-/

namespace FrameMachine

open Json

/-- The token that a value begins with. -/
def Json.Tree.first : Tree → Token
  | null => .null
  | boolean b => .boolean b
  | number n => .number n
  | string parts => .string parts
  | array _ => .openBracket
  | object _ => .openBrace

theorem Json.Tree.exists_tokens (v : Tree) : ∃ ts, v.tokens = v.first :: ts := by
  cases v <;> exact ⟨_, by rw [tokens]; rfl⟩

namespace Config

/-- Refuses every value but null. -/
def checkNull : Tree → Except ReadError Unit
  | .null => .ok ()
  | v => .error (.unwanted v.first .unit)

/-- The locals model that a value names. -/
def modelOf : Tree → Except ReadError LocalsModel
  | .string parts => readVariant parts
  | .object ((key, v) :: others) => do
    let m ← readVariant key
    checkNull v
    if others.isEmpty then return m else throw .malformed
  | _ => .error .malformed

/-- `c` with field `f` as the value says. -/
def readAs (f : Field) (v : Tree) (c : Config) : Except ReadError Config :=
  match f with
  | .localsCapacity => do return { c with localsCapacity := ← readNatural .size v.first }
  | .localsModel => do return { c with localsModel := ← modelOf v }
  | .maxSteps => do return { c with maxSteps := ← readLimit v.first }
  | .maxCallDepth => do return { c with maxCallDepth := ← readNatural .size v.first }
  | .arenaCapacity => do return { c with arenaCapacity := ← readNatural .size v.first }

/-- What was read of a configuration so far. -/
structure Draft where
  /-- What the fields that were given say, over the defaults. -/
  config : Config := {}
  given : List Field := []

namespace Draft

/-- The draft with field `f` given by the value. -/
def give (d : Draft) (f : Field) (v : Tree) : Except ReadError Draft := do
  return ⟨← readAs f v d.config, d.given ++ [f]⟩

/-- The draft with one more member. -/
def member (d : Draft) (m : List StringPart × Tree) : Except ReadError Draft := do
  match Field.ofKey? (← readText m.1) with
  | some f => if f ∈ d.given then throw (.duplicateField f) else d.give f m.2
  | none => return d

/-- The draft with one more element. -/
def element (d : Draft) (v : Tree) : Except ReadError Draft :=
  match Field.all[d.given.length]? with
  | some f => d.give f v
  | none => throw .malformed

/-- The reader that has read the draft and expects `e`. -/
def reader (d : Draft) (shape : Shape) (e : Expected) : Reader := ⟨d.config, d.given, shape, e⟩

end Draft

/-- The configuration that a value stands for, or the first error. -/
def ofTree : Tree → Except ReadError Config
  | .object members => do return (← members.foldlM Draft.member {}).config
  | .array elements => do return (← elements.foldlM Draft.element {}).config
  | v => .error (.unwanted v.first .configuration)

variable {d : Draft} {shape : Shape} {e : Expected} {f : Field} {v : Tree} {t : Token}
  {ts : List Token} {r : Reader} {err : ReadError}

theorem foldlM_of_feed_error (h : r.feed t = .error err) (ts : List Token) :
    (t :: ts).foldlM Reader.feed r = .error err := by
  rw [List.foldlM_cons, h]
  rfl

theorem foldlM_of_feed_ok (r' : Reader) (h : r.feed t = .ok r') (ts : List Token) :
    (t :: ts).foldlM Reader.feed r = ts.foldlM Reader.feed r' := by
  rw [List.foldlM_cons, h]
  rfl

/-! ## Values -/

theorem feedValue_eq_give (hf : f ≠ .localsModel) (v : Tree) :
    (d.reader shape e).feedValue f v.first =
      (d.give f v).map fun d' => d'.reader shape .separator := by
  cases f with
  | localsModel => exact absurd rfl hf
  | maxSteps =>
    simp only [Reader.feedValue, Draft.give, readAs]
    cases readLimit v.first <;> rfl
  | _ =>
    simp only [Reader.feedValue, Draft.give, readAs]
    cases readNatural .size v.first <;> rfl

theorem give_localsModel (d : Draft) (v : Tree) :
    d.give .localsModel v = (modelOf v).map fun m =>
      ⟨{ d.config with localsModel := m }, d.given ++ [.localsModel]⟩ := by
  simp only [Draft.give, readAs]
  cases modelOf v <;> rfl

/-- Between the braces, the reader wants the name of a locals model and null. -/
theorem foldlM_tag (d : Draft) (key : List StringPart) (v : Tree)
    (others : List (List StringPart × Tree)) :
    (Tree.object ((key, v) :: others)).tokens.foldlM Reader.feed
        (d.reader shape (.value .localsModel)) =
      (d.give .localsModel (.object ((key, v) :: others))).map (·.reader shape .separator) := by
  rw [give_localsModel, Tree.tokens_object_cons,
    foldlM_of_feed_ok (d.reader shape .variantName) rfl]
  cases hm : readVariant key with
  | error e =>
    have hfeed : (d.reader shape .variantName).feed (.string key) = .error e := by
      simp only [Draft.reader, Reader.feed, hm]
      rfl
    rw [foldlM_of_feed_error hfeed, modelOf, hm]
    rfl
  | ok m =>
    have hfeed : (d.reader shape .variantName).feed (.string key) =
        .ok (d.reader shape (.variantColon m)) := by
      simp only [Draft.reader, Reader.feed, hm]
      rfl
    rw [foldlM_of_feed_ok _ hfeed, foldlM_of_feed_ok (d.reader shape (.variantNull m)) rfl,
      modelOf, hm]
    obtain ⟨ts, hts⟩ := v.exists_tokens
    cases v with
    | null =>
      rw [Tree.tokens, List.singleton_append,
        foldlM_of_feed_ok (d.reader shape (.variantEnd m)) rfl]
      cases others with
      | nil => rfl
      | cons first others =>
        rw [moreMembers_cons]
        exact foldlM_of_feed_error rfl _
    | _ =>
      rw [hts]
      exact foldlM_of_feed_error rfl _

/-- A value that begins with a bracket gives no number. -/
theorem tokens_eq_of_give {d' : Draft} (hf : f ≠ .localsModel) (h : d.give f v = .ok d') :
    v.tokens = [v.first] := by
  cases v with
  | array | object =>
    cases f with
    | localsModel => exact absurd rfl hf
    | _ => cases h
  | _ => rw [Tree.tokens, Tree.first]

/-- The tokens of a value give the field under whose key they come. -/
theorem foldlM_value (d : Draft) (shape : Shape) (f : Field) (v : Tree) :
    v.tokens.foldlM Reader.feed (d.reader shape (.value f)) =
      (d.give f v).map (·.reader shape .separator) := by
  obtain ⟨ts, hts⟩ := v.exists_tokens
  by_cases hf : f = .localsModel
  · subst hf
    cases v with
    | string parts =>
      rw [give_localsModel, modelOf, Tree.tokens, List.foldlM_cons]
      simp only [Draft.reader, Reader.feed, Reader.feedValue]
      cases readVariant parts <;> rfl
    | object members =>
      rcases members with _ | ⟨⟨key, v⟩, others⟩
      · rw [Tree.tokens_object_nil]
        rfl
      · exact foldlM_tag d key v others
    | _ =>
      rw [hts]
      exact foldlM_of_feed_error rfl ts
  · have hfeed : (d.reader shape (.value f)).feed v.first = _ := feedValue_eq_give hf v
    cases hgive : d.give f v with
    | error err =>
      rw [hgive] at hfeed
      rw [hts]
      exact foldlM_of_feed_error hfeed ts
    | ok d' =>
      rw [hgive] at hfeed
      rw [tokens_eq_of_give hf hgive]
      exact foldlM_of_feed_ok _ hfeed []

/-! ## Members and elements -/

/-- Passing over a value takes its tokens and no more. -/
theorem foldlM_skipped (d : Draft) (shape : Shape) (v : Tree) :
    v.tokens.foldlM Reader.feed (d.reader shape (.skipped {})) =
      .ok (d.reader shape .separator) := by
  -- By induction on the tokens to come, from whatever the automaton has passed over.
  have hrun (ts : List Token) : ∀ s : Skip, s.isDone = false → s.Completes (· = []) ts →
      ts.foldlM Reader.feed (d.reader shape (.skipped s)) = .ok (d.reader shape .separator) := by
    induction ts with
    | nil => exact fun s hs h => absurd h (Skip.not_completes_nil hs)
    | cons t ts ih =>
      intro s hs h
      obtain ⟨s', hfeed, hrest⟩ := (Skip.completes_cons hs).1 h
      have hnext : (d.reader shape (.skipped s)).feed t =
          .ok (d.reader shape (if s'.isDone then .separator else .skipped s')) := by
        simp only [Draft.reader, Reader.feed, Reader.feedSkipped, hfeed]
        rfl
      rw [foldlM_of_feed_ok _ hnext]
      cases hs' : s'.isDone with
      | false => exact ih s' hs' hrest
      | true =>
        obtain rfl := (Skip.completes_of_isDone hs').1 hrest
        rfl
  exact hrun v.tokens {} rfl ⟨v, [], (List.append_nil _).symm, rfl⟩

/-- What the reader makes of a key. -/
theorem feed_key (he : e = .firstKey ∨ e = .key) (d : Draft) (key : List StringPart) :
    (d.reader shape e).feed (.string key) = (do
      match Field.ofKey? (← readText key) with
      | some f =>
        if f ∈ d.given then throw (.duplicateField f) else
        return d.reader shape (.colon (some f))
      | none => return d.reader shape (.colon none)) := by
  have hfeed : (d.reader shape e).feed (.string key) =
      (d.reader shape e).feedKey (.string key) := by
    rcases he with rfl | rfl <;> rfl
  rw [hfeed]
  simp only [Draft.reader, Reader.feedKey]
  cases readText key with
  | error err => rfl
  | ok text =>
    simp only [bind, Except.bind]
    cases Field.ofKey? text with
    | none => rfl
    | some f =>
      by_cases hgiven : f ∈ d.given
      · simp only [hgiven]
        rfl
      · simp only [hgiven]
        rfl

/-- The tokens of a member. -/
def memberTokens (m : List StringPart × Tree) : List Token :=
  .string m.1 :: .colon :: m.2.tokens

theorem foldlM_member (he : e = .firstKey ∨ e = .key) (d : Draft)
    (m : List StringPart × Tree) :
    (memberTokens m).foldlM Reader.feed (d.reader .object e) =
      (d.member m).map (·.reader .object .separator) := by
  rcases m with ⟨key, v⟩
  rw [memberTokens, Draft.member, List.foldlM_cons, feed_key he]
  cases hk : readText key with
  | error err => rfl
  | ok text =>
    simp only [bind, Except.bind]
    cases hf : Field.ofKey? text with
    | none => exact foldlM_skipped d .object v
    | some f =>
      by_cases hgiven : f ∈ d.given
      · simp only [hgiven]
        rfl
      · simp only [hgiven]
        exact foldlM_value d .object f v

theorem foldlM_element (he : e = .firstElement ∨ e = .element) (d : Draft) (v : Tree) :
    v.tokens.foldlM Reader.feed (d.reader .array e) =
      (d.element v).map (·.reader .array .separator) := by
  obtain ⟨ts, hts⟩ := v.exists_tokens
  have hfeed : (d.reader .array e).feed v.first = (d.reader .array e).feedElement v.first := by
    have hend : v.first ≠ .closeBracket := by cases v <;> nofun
    rcases he with rfl | rfl
    · simp only [Draft.reader, Reader.feed, if_neg hend]
    · rfl
  cases hf : Field.all[d.given.length]? with
  | none =>
    have herr : (d.reader .array e).feed v.first = .error .malformed := by
      rw [hfeed]
      simp only [Draft.reader, Reader.feedElement, hf]
      rfl
    rw [hts, foldlM_of_feed_error herr]
    simp only [Draft.element, hf]
    rfl
  | some f =>
    have hvalue := foldlM_value d .array f v
    rw [hts, List.foldlM_cons] at hvalue ⊢
    rw [hfeed]
    simp only [Draft.reader, Reader.feedElement, Draft.element, hf]
    exact hvalue

/-- Between brackets the items are taken one after the other. -/
theorem foldlM_commaSeparated {α : Type} (shape : Shape) (close : Token)
    {first next : Expected} {tokens : α → List Token} {step : Draft → α → Except ReadError Draft}
    (hitem : ∀ {e}, e = first ∨ e = next → ∀ d a,
      (tokens a).foldlM Reader.feed (d.reader shape e) =
        (step d a).map (·.reader shape .separator))
    (hcomma : ∀ d : Draft, (d.reader shape .separator).feed .comma = .ok (d.reader shape next))
    (hclose : ∀ {e}, e = first ∨ e = .separator → ∀ d : Draft,
      (d.reader shape e).feed close = .ok (d.reader shape .nothing))
    (items : List α) (d : Draft) :
    (commaSeparated (items.map tokens) ++ [close]).foldlM Reader.feed (d.reader shape first) =
      (items.foldlM step d).map (·.reader shape .nothing) := by
  have hmore (items : List α) : ∀ d : Draft,
      ((items.map tokens).flatMap (.comma :: ·) ++ [close]).foldlM Reader.feed
          (d.reader shape .separator) =
        (items.foldlM step d).map (·.reader shape .nothing) := by
    induction items with
    | nil => exact fun d => foldlM_of_feed_ok _ (hclose (.inr rfl) d) []
    | cons a items ih =>
      intro d
      rw [List.map_cons, List.flatMap_cons, List.cons_append, List.cons_append,
        foldlM_of_feed_ok _ (hcomma d), List.append_assoc, List.foldlM_append, hitem (.inr rfl),
        List.foldlM_cons]
      cases step d a with
      | error err => rfl
      | ok d' => exact ih d'
  cases items with
  | nil => exact foldlM_of_feed_ok _ (hclose (.inl rfl) d) []
  | cons a items =>
    rw [List.map_cons, commaSeparated, List.append_assoc, List.foldlM_append, hitem (.inl rfl),
      List.foldlM_cons]
    cases step d a with
    | error err => rfl
    | ok d' => exact hmore items d'

/-- The tokens of a value are read as the value is. -/
theorem read_tokens (v : Tree) : read v.tokens = ofTree v := by
  cases v with
  | object members =>
    have hmembers := foldlM_commaSeparated .object .closeBrace foldlM_member
      (fun _ => rfl) (by rintro e (rfl | rfl) d <;> rfl) members {}
    rw [read, ofTree, Tree.tokens, List.cons_append,
      foldlM_of_feed_ok (Draft.reader {} .object .firstKey) rfl]
    refine (congrArg (· >>= Reader.finish) hmembers).trans ?_
    cases members.foldlM Draft.member {} <;> rfl
  | array elements =>
    have helements := foldlM_commaSeparated .array .closeBracket foldlM_element
      (fun _ => rfl) (by rintro e (rfl | rfl) d <;> rfl) elements {}
    rw [read, ofTree, Tree.tokens, List.cons_append,
      foldlM_of_feed_ok (Draft.reader {} .array .firstElement) rfl]
    refine (congrArg (· >>= Reader.finish) helements).trans ?_
    cases elements.foldlM Draft.element {} <;> rfl
  | _ =>
    rw [read, Tree.tokens]
    rfl

/-! ## What is accepted -/

theorem Means.tokens_first {x : Datum} (h : Means v x) (ht : v.first ≠ .openBrace) :
    v.tokens = [v.first] := by
  obtain ⟨ts, hts⟩ := v.exists_tokens
  have htokens : v.tokens ++ [] = v.first :: ts := by rw [List.append_nil, hts]
  exact h.tokens_eq htokens ht

theorem modelOf_of_means {m : LocalsModel} (h : Means v (.model m)) : modelOf v = .ok m := by
  cases h with
  | name h => exact readVariant_eq_ok_iff.2 h
  | tag h =>
    rw [modelOf, readVariant_eq_ok_iff.2 h]
    rfl

/-- A value that means something for a field is taken for it. -/
theorem readAs_of_sets {c c' : Config} (h : Sets f v c c') : readAs f v c = .ok c' := by
  obtain ⟨hmeans, hc⟩ := sets_iff.1 h
  have hnatural {w : Wanted} {n : Nat} (h : Means v (.natural n)) :
      readNatural w v.first = .ok n :=
    readNatural_eq_ok_iff.2 ⟨v, h.tokens_first (by cases h; nofun), h⟩
  have hlimit {max : Option Nat} (h : Means v (.limit max)) : readLimit v.first = .ok max :=
    readLimit_eq_ok_iff.2 ⟨v, h.tokens_first (by cases h <;> nofun), h⟩
  rw [hc]
  cases f with
  | localsModel =>
    rw [readAs, modelOf_of_means hmeans]
    rfl
  | maxSteps =>
    rw [readAs, hlimit hmeans]
    rfl
  | _ =>
    rw [readAs, hnatural hmeans]
    rfl

namespace Draft

variable {d' : Draft} {c c' : Config} {key : List StringPart} {text : String}
  {keys : List (List StringPart)} {ms : List (List StringPart × Tree)} {vs : List Tree}

theorem give_of_sets (h : Sets f v d.config c') : d.give f v = .ok ⟨c', d.given ++ [f]⟩ := by
  rw [give, readAs_of_sets h]
  rfl

theorem given_of_give (h : d.give f v = .ok d') : d'.given = d.given ++ [f] := by
  obtain ⟨c, -, hd⟩ := bind_eq_ok.1 h
  cases hd
  rfl

theorem member_of_unknown (hk : decodeText key = some text) (hf : Field.ofKey? text = none) :
    d.member (key, v) = .ok d := by
  simp only [member, readText, hk, hf, bind, Except.bind]
  rfl

theorem member_of_field (hk : decodeText key = some text) (hf : Field.ofKey? text = some f)
    (hnew : f ∉ d.given) : d.member (key, v) = d.give f v := by
  simp only [member, readText, hk, hf, bind, Except.bind, if_neg hnew]

/-- Members that make `c` are taken. -/
theorem foldlM_member_of_takes (h : TakesMembers c d.config d.given ms) :
    ms.foldlM member d = .ok ⟨c, d.given ++ (fieldsGiven ms).map Prod.fst⟩ := by
  induction ms generalizing d with
  | nil =>
    obtain rfl := takesMembers_nil.1 h
    rw [fieldsGiven, List.filterMap_nil, List.map_nil, List.append_nil]
    rfl
  | cons m ms ih =>
    rcases m with ⟨key, v⟩
    obtain ⟨text, hk⟩ := Option.isSome_iff_exists.1 (h.keys _ (List.mem_cons_self ..))
    rw [List.foldlM_cons]
    cases hf : Field.ofKey? text with
    | none =>
      have hgiven : fieldsGiven ((key, v) :: ms) = fieldsGiven ms := by
        simp [fieldsGiven, fieldOf?, hk, hf]
      rw [member_of_unknown hk hf, hgiven]
      exact ih ((takesMembers_unknown hk hf).1 h)
    | some f =>
      obtain ⟨hnew, c', hsets, hrest⟩ := (takesMembers_field hk hf).1 h
      have hgiven : fieldsGiven ((key, v) :: ms) = (f, v) :: fieldsGiven ms := by
        simp [fieldsGiven, fieldOf?, hk, hf]
      have hms := ih (d := ⟨c', d.given ++ [f]⟩) hrest
      rw [List.append_assoc] at hms
      rw [member_of_field hk hf hnew, give_of_sets hsets, hgiven]
      exact hms

/-- Elements that make `c` are taken. -/
theorem foldlM_element_of_takes (h : TakesElements c d.config d.given.length vs) :
    ∃ d', vs.foldlM element d = .ok d' ∧ d'.given.length = d.given.length + vs.length := by
  induction vs generalizing d with
  | nil => exact ⟨d, rfl, rfl⟩
  | cons v vs ih =>
    obtain ⟨f, hf, c', hsets, hrest⟩ := takesElements_cons.1 h
    have hfirst : d.element v = .ok ⟨c', d.given ++ [f]⟩ := by
      simp only [element, hf]
      exact give_of_sets hsets
    obtain ⟨d', hd', hlength⟩ := ih (d := ⟨c', d.given ++ [f]⟩) (by simpa using hrest)
    refine ⟨d', ?_, ?_⟩
    · rw [List.foldlM_cons, hfirst]
      exact hd'
    · rw [hlength, List.length_append, List.length_singleton, List.length_cons]
      omega

/-! ## Arrays and objects -/

/-- The elements are taken as the members that give them to the next fields, in order. -/
theorem foldlM_member_zip (fields : List Field) (hfields : d.given ++ fields = Field.all)
    (hlength : vs.length ≤ fields.length)
    (hkeys : keys.map decodeText = (fields.take vs.length).map fun f => some f.key) :
    (keys.zip vs).foldlM member d = vs.foldlM element d := by
  induction vs generalizing d keys fields with
  | nil => rw [List.zip_nil_right]; rfl
  | cons v vs ih =>
    rcases fields with _ | ⟨f, fields⟩
    · cases hlength
    rcases keys with _ | ⟨key, keys⟩
    · cases hkeys
    obtain ⟨hkey, hkeys⟩ := List.cons.inj hkeys
    have hnew : f ∉ d.given := by
      have hnodup : (d.given ++ f :: fields).Nodup := hfields ▸ (by decide)
      exact fun hf => (List.nodup_append.1 hnodup).2.2 f hf f (List.mem_cons_self ..) rfl
    have helement : d.element v = d.give f v := by
      simp [element, ← hfields]
    rw [List.zip_cons_cons, List.foldlM_cons, List.foldlM_cons, helement,
      member_of_field hkey (Field.ofKey?_key f) hnew]
    cases hgive : d.give f v with
    | error err => rfl
    | ok d' =>
      refine ih fields ?_ (Nat.le_of_succ_le_succ hlength) hkeys
      rw [given_of_give hgive, List.append_assoc, List.singleton_append, hfields]

end Draft

theorem ofText_of_spelledBy {text : String} (h : v.SpelledBy text) :
    ofText text = match ofTree v with
      | .error err => .error (.invalidConfig err.message)
      | .ok c => c.validate.map fun _ => c := by
  have hread : read (lex text.toList) = ofTree v := by rw [lex_eq_tokens_iff.2 h, read_tokens]
  cases hv : ofTree v with
  | error err => simp only [ofText, hread, hv]
  | ok c => simp only [ofText, hread, hv]

/-- A sixth element is refused, whatever it is. -/
theorem ofTree_array_of_lt {c : Config} {vs : List Tree} (h : TakesElements c {} 0 (vs.take 5))
    (hlength : 5 < vs.length) : ofTree (.array vs) = .error .malformed := by
  obtain ⟨d, hd, hgiven⟩ := Draft.foldlM_element_of_takes (d := {}) h
  obtain ⟨v, others, hdrop⟩ : ∃ v others, vs.drop 5 = v :: others :=
    ⟨_, _, List.drop_eq_getElem_cons hlength⟩
  have hlast : d.element v = .error .malformed := by
    have hlength : d.given.length = Field.all.length := by
      rw [hgiven, List.length_take, Nat.min_eq_left (by omega)]
      rfl
    simp only [Draft.element, hlength, List.getElem?_length]
    rfl
  rw [ofTree, ← List.take_append_drop 5 vs, List.foldlM_append, hd, hdrop]
  simp only [bind, Except.bind, List.foldlM_cons, hlast]

/-- An array of at most five values is read as the object that gives them to the first fields, in
order: as the same configuration, or with the same error, whatever the values are and however the
keys are spelled. An array of more values whose first five stand for a configuration is refused. -/
theorem array_reads_as_object (vs : List Tree) :
    (vs.length ≤ 5 → ∀ keys : List (List StringPart),
      keys.map decodeText = (Field.all.take vs.length).map (fun f => some f.key) →
      ∀ text text', (Tree.array vs).SpelledBy text → (Tree.object (keys.zip vs)).SpelledBy text' →
        ofText text = ofText text')
    ∧ (5 < vs.length → ∀ c : Config, c.WrittenAs (.array (vs.take 5)) →
      ∀ text, (Tree.array vs).SpelledBy text →
        ofText text = .error (.invalidConfig ReadError.malformed.message)) := by
  constructor
  · intro hlength keys hkeys text text' harray hobject
    have hread : ofTree (.array vs) = ofTree (.object (keys.zip vs)) := by
      rw [ofTree, ofTree, Draft.foldlM_member_zip Field.all rfl hlength hkeys]
    rw [ofText_of_spelledBy harray, ofText_of_spelledBy hobject, hread]
  · intro hlength c hc text harray
    rcases writtenAs_iff.1 hc with ⟨_, h, -⟩ | ⟨_, h, helements⟩
    · cases h
    · cases h
      rw [ofText_of_spelledBy harray, ofTree_array_of_lt helements hlength]

/-- An unknown locals model is the same error in both forms, and a sixth element is one. -/
theorem unknown_model_reads_alike :
    ofText "[8,\x7b\"global\":null\x7d]" =
        ofText "\x7b\"locals_capacity\":8, \"locals\\u005fmodel\":\x7b\"global\":null\x7d\x7d"
      ∧ ofText "[8,\x7b\"global\":null\x7d]" = .error (.invalidConfig
        "unknown variant `global`, expected `shared` or `per_frame`")
      ∧ ofText "[8,\"shared\",null,4,0, []]" = .error (.invalidConfig "<syntax>") := by
  let digit (d : Nat) : Tree := .number { whole := [d] }
  let values := [digit 8, .object [(plain "global", .null)]]
  let keys := [plain "locals_capacity", plain "locals" ++ .unit 0x5f :: plain "model"]
  let limits := [digit 8, .string (plain "shared"), .null, digit 4, digit 0]
  let c : Config := { localsCapacity := 8, maxCallDepth := 4, arenaCapacity := 0 }
  have hlimits : Overlay {} (Field.all.zip limits) c := by
    have hdigit {d : Nat} (hd : d < 2 ^ 64) : Numeral.IsNatural { whole := [d] } d :=
      ⟨rfl, ⟨rfl, rfl⟩, Nat.zero_add d, hd⟩
    intro f
    refine ⟨fun v hv => ?_, fun hf => absurd (by cases f <;> decide) hf⟩
    simp only [Field.all, limits, List.zip_cons_cons, List.zip_nil_right, List.mem_cons,
      Prod.mk.injEq, List.not_mem_nil, or_false] at hv
    rcases hv with ⟨rfl, rfl⟩ | ⟨rfl, rfl⟩ | ⟨rfl, rfl⟩ | ⟨rfl, rfl⟩ | ⟨rfl, rfl⟩
    · exact .natural (hdigit (by decide))
    · exact .name (by decide)
    · exact .unlimited
    · exact .natural (hdigit (by decide))
    · exact .natural (hdigit (by decide))
  have hspelled {v : Tree} {text : String} (h : lex text.toList = v.tokens) : v.SpelledBy text :=
    lex_eq_tokens_iff.1 h
  refine ⟨?_, by rfl, ?_⟩
  · refine (array_reads_as_object values).1 (by decide) keys (by rfl) _ _ (hspelled ?_)
      (hspelled ?_) <;>
      simp only [values, digit, keys, Tree.tokens, commaSeparated, List.map_cons, List.map_nil,
        List.zip_cons_cons, List.zip_nil_right] <;>
      rfl
  · refine (array_reads_as_object (limits ++ [Tree.array []])).2 (by decide) c
      (.array (by decide) hlimits) _ (hspelled ?_)
    simp only [limits, digit, Tree.tokens, commaSeparated, List.map_cons, List.map_nil,
      List.cons_append, List.nil_append]
    rfl

end Config

end FrameMachine
