import FrameMachine.Config.Reader
import FrameMachine.Proofs.ConfigForms
import FrameMachine.Proofs.JsonLexing
import FrameMachine.Proofs.JsonSkipping
import FrameMachine.Proofs.Operands

/-!
# Exactly the forms of a configuration are read

What the reader still wants of the tokens to come depends on what it expects and on what it was
given (`Reader.Wants`). A token is wanted if the reader takes it and then wants the rest, and only
then (`Reader.wants_cons`). So it reads the tokens of the values that stand for a configuration
and no others (`read_eq_ok_iff`), and with the lexer's grammar the texts (`ofText_eq_ok_iff`).
-/

namespace FrameMachine.Config

open Json

variable {c d d' : Config} {f : Field} {v : Tree} {t : Token} {ts rest : List Token}
  {r r' : Reader}

/-! ## Values of fields -/

theorem readNatural_eq_ok_iff {w : Wanted} {k : Nat} :
    readNatural w t = .ok k ↔ ∃ v : Tree, v.tokens = [t] ∧ Means v (.natural k) := by
  have hread : readNatural w t = .ok k ↔ ∃ n, t = .number n ∧ n.IsNatural k := by
    cases t with
    | number n =>
      simp only [readNatural, Token.number.injEq, exists_eq_left', ← Numeral.value?_eq_natural_iff]
      split <;> simp_all
    | _ => simp [readNatural]
  rw [hread]
  constructor
  · rintro ⟨n, rfl, hn⟩
    exact ⟨.number n, by rw [Tree.tokens], .natural hn⟩
  · rintro ⟨v, hv, hmeans⟩
    cases hmeans with
    | natural hn =>
      rw [Tree.tokens] at hv
      cases hv
      exact ⟨_, rfl, hn⟩

theorem readLimit_eq_ok_iff {limit : Option Nat} :
    readLimit t = .ok limit ↔ ∃ v : Tree, v.tokens = [t] ∧ Means v (.limit limit) := by
  by_cases ht : t = .null
  · subst ht
    constructor
    · rintro ⟨⟩
      exact ⟨.null, by rw [Tree.tokens], .unlimited⟩
    · rintro ⟨v, hv, hmeans⟩
      cases hmeans with
      | limit =>
        rw [Tree.tokens] at hv
        cases hv
      | unlimited => rfl
  · have hmap : readLimit t = (readNatural .count t).map some := by
      cases t <;> first | exact absurd rfl ht | rfl
    simp only [hmap, map_eq_ok, readNatural_eq_ok_iff]
    constructor
    · rintro ⟨k, ⟨v, hv, ⟨hn⟩⟩, rfl⟩
      exact ⟨_, hv, .limit hn⟩
    · rintro ⟨v, hv, hmeans⟩
      cases hmeans with
      | limit hn => exact ⟨_, ⟨_, hv, .natural hn⟩, rfl⟩
      | unlimited =>
        rw [Tree.tokens] at hv
        cases hv
        exact absurd rfl ht

theorem ofName?_eq_some_iff {name : String} {m : LocalsModel} :
    LocalsModel.ofName? name = some m ↔ name = m.name := by
  constructor
  · intro h
    unfold LocalsModel.ofName? at h
    have hname := List.find?_some h
    exact (of_decide_eq_true hname).symm
  · rintro rfl
    exact m.ofName?_name

theorem readVariant_eq_ok_iff {parts : List StringPart} {m : LocalsModel} :
    readVariant parts = .ok m ↔ decodeText parts = some m.name := by
  unfold readVariant readText
  cases hparts : decodeText parts with
  | none => simp [bind, Except.bind]
  | some name =>
    rw [Option.some.injEq, ← ofName?_eq_some_iff]
    cases hm : LocalsModel.ofName? name with
    | none => simp [bind, Except.bind, hm, throw, throwThe, MonadExceptOf.throw]
    | some m' => simp [bind, Except.bind, hm, pure, Except.pure]

theorem means_string_iff {parts : List StringPart} {m : LocalsModel} :
    (∃ v : Tree, v.tokens = [.string parts] ∧ Means v (.model m)) ↔
      decodeText parts = some m.name := by
  constructor
  · rintro ⟨v, hv, hmeans⟩
    cases hmeans with
    | name hm =>
      rw [Tree.tokens] at hv
      cases hv
      exact hm
    | tag =>
      rw [Tree.tokens_object_cons] at hv
      cases hv
  · exact fun hm => ⟨.string parts, by rw [Tree.tokens], .name hm⟩

namespace Reader

/-- What `x` reads of the token becomes field `f`, where `get` finds it and `set` puts it. -/
theorem give_eq_ok_iff {α : Type} {x : Except ReadError α} {get : Config → α} {set : α → Config}
    (hget : ∀ a, get (set a) = a) (hset : ∀ d, set (get d) = take f d r.config)
    (hx : ∀ d, x = .ok (get d) ↔ ∃ v : Tree, v.tokens = [t] ∧ Means v (d.datum f)) :
    (x >>= fun a => pure (r.give f (set a))) = .ok r' ↔
      ∃ v d', Tree.tokens v = [t] ∧ Sets f v r.config d' ∧ r' = r.give f d' := by
  simp only [bind_eq_ok, sets_iff]
  constructor
  · rintro ⟨a, ha, ⟨⟩⟩
    obtain ⟨v, hv, hmeans⟩ := (hx (set a)).1 (by rw [hget, ha])
    exact ⟨v, set a, hv, ⟨hmeans, by rw [← hset, hget]⟩, rfl⟩
  · rintro ⟨v, d', hv, ⟨hmeans, hd⟩, rfl⟩
    refine ⟨get d', (hx d').2 ⟨v, hv, hmeans⟩, ?_⟩
    rw [hset, ← hd]
    rfl

/-- A token is the whole value of a field if it is the one token of a value with a meaning. -/
theorem feedValue_eq_ok_iff (ht : t ≠ .openBrace) : r.feedValue f t = .ok r' ↔
    ∃ v d', Tree.tokens v = [t] ∧ Sets f v r.config d' ∧ r' = r.give f d' := by
  cases f with
  | localsCapacity | maxCallDepth | arenaCapacity =>
    exact give_eq_ok_iff (fun _ => rfl) (fun _ => rfl) fun _ => readNatural_eq_ok_iff
  | maxSteps => exact give_eq_ok_iff (fun _ => rfl) (fun _ => rfl) fun _ => readLimit_eq_ok_iff
  | localsModel =>
    cases t with
    | string parts =>
      exact give_eq_ok_iff (fun _ => rfl) (fun _ => rfl) fun _ =>
        readVariant_eq_ok_iff.trans means_string_iff.symm
    | openBrace => exact absurd rfl ht
    | _ =>
      refine iff_of_false (fun h => by cases h) ?_
      rintro ⟨v, d', hv, ⟨hmeans, -⟩, -⟩
      rw [datum] at hmeans
      cases hmeans with
      | name =>
        rw [Tree.tokens] at hv
        cases hv
      | tag =>
        rw [Tree.tokens_object_cons] at hv
        cases hv

/-! ## What is still wanted -/

/-- The tokens are `t` and then what `K` says. -/
def Begins (t : Token) (K : List Token → Prop) (ts : List Token) : Prop :=
  ∃ rest, ts = t :: rest ∧ K rest

/-- After a member or an element the tokens give the others, end the configuration, and make `c`
of what was read. -/
def WantsMore (c : Config) (r : Reader) (ts : List Token) : Prop :=
  match r.shape with
  | .object =>
    ∃ ms, ts = moreMembers ms ++ [.closeBrace] ∧ TakesMembers c r.config r.given ms
  | .array =>
    ∃ vs, ts = moreElements vs ++ [.closeBracket] ∧ TakesElements c r.config r.given.length vs

/-- The tokens are a value of field `f` and more. -/
def WantsValue (c : Config) (r : Reader) (f : Field) (ts : List Token) : Prop :=
  ∃ v d rest, ts = Tree.tokens v ++ rest ∧ Sets f v r.config d ∧ (r.give f d).WantsMore c rest

/-- The tokens are the value of a member under the key of a field, or under another, and more. -/
def WantsMemberValue (c : Config) (r : Reader) : Option Field → List Token → Prop
  | some f, ts => r.WantsValue c f ts
  | none, ts => ValueCloses (r.WantsMore c) [] ts

/-- The tokens are a member and more. -/
def WantsMember (c : Config) (r : Reader) (ts : List Token) : Prop :=
  ∃ key text, decodeText key = some text ∧ (∀ f, Field.ofKey? text = some f → f ∉ r.given) ∧
    Begins (.string key) (Begins .colon (r.WantsMemberValue c (Field.ofKey? text))) ts

/-- The tokens are the value of the next field and more. -/
def WantsElement (c : Config) (r : Reader) (ts : List Token) : Prop :=
  ∃ f, Field.all[r.given.length]? = some f ∧ r.WantsValue c f ts

/-- The tokens end the object that names the locals model, and then come more. -/
def WantsModel (c : Config) (r : Reader) (m : LocalsModel) : List Token → Prop :=
  Begins .closeBrace ((r.giveModel m).WantsMore c)

/-- What a reader that expects this wants of the tokens to come, to read `c`. -/
def Awaits (c : Config) (r : Reader) : Expected → List Token → Prop
  | .document, ts =>
    (∃ ms, ts = (Tree.object ms).tokens ∧ TakesMembers c r.config r.given ms) ∨
      ∃ vs, ts = (Tree.array vs).tokens ∧ TakesElements c r.config r.given.length vs
  | .firstKey, ts => (ts = [.closeBrace] ∧ c = r.config) ∨ r.WantsMember c ts
  | .key, ts => r.WantsMember c ts
  | .colon f, ts => Begins .colon (r.WantsMemberValue c f) ts
  | .value f, ts => r.WantsValue c f ts
  | .firstElement, ts => (ts = [.closeBracket] ∧ c = r.config) ∨ r.WantsElement c ts
  | .element, ts => r.WantsElement c ts
  | .skipped s, ts => s.isDone = false ∧ s.Completes (r.WantsMore c) ts
  | .separator, ts => r.WantsMore c ts
  | .variantName, ts => ∃ key m, decodeText key = some m.name ∧
      Begins (.string key) (Begins .colon (Begins .null (r.WantsModel c m))) ts
  | .variantColon m, ts => Begins .colon (Begins .null (r.WantsModel c m)) ts
  | .variantNull m, ts => Begins .null (r.WantsModel c m) ts
  | .variantEnd m, ts => r.WantsModel c m ts
  | .nothing, ts => ts = [] ∧ c = r.config

/-- What the reader still wants of the tokens to come, to read `c`. -/
def Wants (c : Config) (r : Reader) (ts : List Token) : Prop := r.Awaits c r.expected ts

theorem wantsMember_iff (hr : r.shape = .object) : r.WantsMember c ts ↔
    ∃ key v ms, ts = .string key :: .colon :: Tree.tokens v ++ (moreMembers ms ++ [.closeBrace])
      ∧ TakesMembers c r.config r.given ((key, v) :: ms) := by
  constructor
  · rintro ⟨key, text, hk, hnew, _, rfl, rest, rfl, hrest⟩
    cases hf : Field.ofKey? text with
    | none =>
      rw [hf] at hrest
      obtain ⟨v, rest, rfl, hmore⟩ := hrest
      simp only [Closes, WantsMore, hr] at hmore
      obtain ⟨ms, rfl, hms⟩ := hmore
      exact ⟨key, v, ms, rfl, (takesMembers_unknown hk hf).2 hms⟩
    | some f =>
      rw [hf] at hrest
      obtain ⟨v, d, rest, rfl, hsets, hmore⟩ := hrest
      simp only [WantsMore, give, hr] at hmore
      obtain ⟨ms, rfl, hms⟩ := hmore
      exact ⟨key, v, ms, rfl, (takesMembers_field hk hf).2 ⟨hnew f hf, d, hsets, hms⟩⟩
  · rintro ⟨key, v, ms, rfl, hms⟩
    obtain ⟨text, hk⟩ := Option.isSome_iff_exists.1 (hms.keys _ (List.mem_cons_self ..))
    refine ⟨key, text, hk, ?_, _, rfl, _, rfl, ?_⟩
    · intro f hf
      exact ((takesMembers_field hk hf).1 hms).1
    · cases hf : Field.ofKey? text with
      | none =>
        refine ⟨v, _, rfl, ?_⟩
        simp only [Closes, WantsMore, hr]
        exact ⟨ms, rfl, (takesMembers_unknown hk hf).1 hms⟩
      | some f =>
        obtain ⟨-, d, hsets, hms⟩ := (takesMembers_field hk hf).1 hms
        refine ⟨v, d, _, rfl, hsets, ?_⟩
        simp only [WantsMore, give, hr]
        exact ⟨ms, rfl, hms⟩

theorem wantsElement_iff (hr : r.shape = .array) : r.WantsElement c ts ↔
    ∃ v vs, ts = Tree.tokens v ++ (moreElements vs ++ [.closeBracket])
      ∧ TakesElements c r.config r.given.length (v :: vs) := by
  simp only [takesElements_cons]
  constructor
  · rintro ⟨f, hf, v, d, rest, rfl, hsets, hmore⟩
    simp only [WantsMore, give, hr, List.length_append, List.length_singleton] at hmore
    obtain ⟨vs, rfl, hvs⟩ := hmore
    exact ⟨v, vs, rfl, f, hf, d, hsets, hvs⟩
  · rintro ⟨v, vs, rfl, f, hf, d, hsets, hvs⟩
    refine ⟨f, hf, v, d, _, rfl, hsets, ?_⟩
    simp only [WantsMore, give, hr, List.length_append, List.length_singleton]
    exact ⟨vs, rfl, hvs⟩

/-! ## One token further -/

theorem feedKey_eq_ok_iff : r.feedKey t = .ok r' ↔
    ∃ key text, t = .string key ∧ decodeText key = some text ∧
      (∀ f, Field.ofKey? text = some f → f ∉ r.given) ∧
      r' = r.expecting (.colon (Field.ofKey? text)) := by
  cases t with
  | string key =>
    simp only [feedKey, bind_eq_ok, readText, Token.string.injEq, exists_and_left,
      exists_eq_left']
    cases hk : decodeText key with
    | none => simp
    | some text =>
      cases hf : Field.ofKey? text with
      | none => simp [hf, pure, Except.pure, eq_comm]
      | some f =>
        by_cases hgiven : f ∈ r.given
        · simp [hf, hgiven, throw, throwThe, MonadExceptOf.throw, bind, Except.bind]
        · simp [hf, hgiven, pure, Except.pure, eq_comm, bind, Except.bind]
  | _ => simp [feedKey, throw, throwThe, MonadExceptOf.throw]

theorem wantsMember_cons :
    r.WantsMember c (t :: ts) ↔ ∃ r', r.feedKey t = .ok r' ∧ r'.Wants c ts := by
  simp only [feedKey_eq_ok_iff]
  constructor
  · rintro ⟨key, text, hk, hnew, rest, htokens, hrest⟩
    obtain ⟨rfl, rfl⟩ := List.cons.inj htokens
    exact ⟨_, ⟨key, text, rfl, hk, hnew, rfl⟩, hrest⟩
  · rintro ⟨_, ⟨key, text, rfl, hk, hnew, rfl⟩, hrest⟩
    exact ⟨key, text, hk, hnew, ts, rfl, hrest⟩

theorem wantsMore_cons :
    r.WantsMore c (t :: ts) ↔ ∃ r', r.feedSeparator t = .ok r' ∧ r'.Wants c ts := by
  cases hr : r.shape with
  | object =>
    simp only [WantsMore, feedSeparator, hr]
    constructor
    · rintro ⟨_ | ⟨⟨key, v⟩, ms⟩, htokens, hms⟩
      · obtain ⟨rfl, rfl⟩ := List.cons.inj htokens
        exact ⟨_, rfl, rfl, takesMembers_nil.1 hms⟩
      · rw [moreMembers_cons] at htokens
        obtain ⟨rfl, rfl⟩ := List.cons.inj htokens
        exact ⟨_, rfl, (wantsMember_iff hr).2 ⟨key, v, ms, by simp, hms⟩⟩
    · rintro ⟨r', hfeed, hwants⟩
      cases t with
      | comma =>
        cases hfeed
        obtain ⟨key, v, ms, rfl, hms⟩ := (wantsMember_iff hr).1 hwants
        exact ⟨(key, v) :: ms, by simp [moreMembers_cons], hms⟩
      | closeBrace =>
        cases hfeed
        obtain ⟨rfl, hc⟩ := hwants
        exact ⟨[], rfl, takesMembers_nil.2 hc⟩
      | _ => cases hfeed
  | array =>
    simp only [WantsMore, feedSeparator, hr]
    constructor
    · rintro ⟨_ | ⟨v, vs⟩, htokens, hvs⟩
      · obtain ⟨rfl, rfl⟩ := List.cons.inj htokens
        exact ⟨_, rfl, rfl, takesElements_nil.1 hvs⟩
      · rw [moreElements_cons] at htokens
        obtain ⟨rfl, rfl⟩ := List.cons.inj htokens
        exact ⟨_, rfl, (wantsElement_iff hr).2 ⟨v, vs, List.append_assoc .., hvs⟩⟩
    · rintro ⟨r', hfeed, hwants⟩
      cases t with
      | comma =>
        cases hfeed
        obtain ⟨v, vs, rfl, hvs⟩ := (wantsElement_iff hr).1 hwants
        exact ⟨v :: vs, by simp [moreElements_cons], hvs⟩
      | closeBracket =>
        cases hfeed
        obtain ⟨rfl, hc⟩ := hwants
        exact ⟨[], rfl, takesElements_nil.2 hc⟩
      | _ => cases hfeed

theorem wantsDocument_cons (hr : r.expected = .document) :
    r.Wants c (t :: ts) ↔ ∃ r', r.feed t = .ok r' ∧ r'.Wants c ts := by
  rw [Wants, hr]
  simp only [Awaits, feed, hr]
  constructor
  · rintro (⟨_ | ⟨⟨key, v⟩, ms⟩, htokens, hms⟩ | ⟨_ | ⟨v, vs⟩, htokens, hvs⟩)
    · rw [Tree.tokens_object_nil] at htokens
      obtain ⟨rfl, rfl⟩ := List.cons.inj htokens
      exact ⟨_, rfl, .inl ⟨rfl, takesMembers_nil.1 hms⟩⟩
    · rw [Tree.tokens_object_cons] at htokens
      obtain ⟨rfl, rfl⟩ := List.cons.inj htokens
      exact ⟨_, rfl, .inr ((wantsMember_iff rfl).2 ⟨key, v, ms, rfl, hms⟩)⟩
    · rw [Tree.tokens_array_nil] at htokens
      obtain ⟨rfl, rfl⟩ := List.cons.inj htokens
      exact ⟨_, rfl, .inl ⟨rfl, takesElements_nil.1 hvs⟩⟩
    · rw [Tree.tokens_array_cons] at htokens
      obtain ⟨rfl, rfl⟩ := List.cons.inj htokens
      exact ⟨_, rfl, .inr ((wantsElement_iff rfl).2 ⟨v, vs, rfl, hvs⟩)⟩
  · rintro ⟨r', hfeed, hwants⟩
    cases t with
    | openBrace =>
      cases hfeed
      refine .inl ?_
      rcases hwants with ⟨rfl, hc⟩ | hwants
      · exact ⟨[], Tree.tokens_object_nil.symm, takesMembers_nil.2 hc⟩
      · obtain ⟨key, v, ms, rfl, hms⟩ := (wantsMember_iff rfl).1 hwants
        exact ⟨(key, v) :: ms, (Tree.tokens_object_cons ..).symm, hms⟩
    | openBracket =>
      cases hfeed
      refine .inr ?_
      rcases hwants with ⟨rfl, hc⟩ | hwants
      · exact ⟨[], Tree.tokens_array_nil.symm, takesElements_nil.2 hc⟩
      · obtain ⟨v, vs, rfl, hvs⟩ := (wantsElement_iff rfl).1 hwants
        exact ⟨v :: vs, (Tree.tokens_array_cons ..).symm, hvs⟩
    | _ => cases hfeed

theorem wantsValue_cons :
    r.WantsValue c f (t :: ts) ↔ ∃ r', r.feedValue f t = .ok r' ∧ r'.Wants c ts := by
  by_cases ht : t = .openBrace
  · subst ht
    constructor
    · rintro ⟨v, d, rest, htokens, hsets, hmore⟩
      obtain ⟨hmeans, hd⟩ := sets_iff.1 hsets
      generalize hx : d.datum f = x at hmeans
      cases hmeans with
      | tag hm =>
        rw [Tree.tokens_object_cons, Tree.tokens] at htokens
        obtain ⟨-, rfl⟩ := List.cons.inj htokens
        cases f <;> cases hx
        refine ⟨_, rfl, _, _, hm, _, rfl, _, rfl, _, rfl, rest, rfl, ?_⟩
        rw [hd] at hmore
        exact hmore
      | _ =>
        rw [Tree.tokens] at htokens
        cases htokens
    · rintro ⟨r', hfeed, hwants⟩
      cases f with
      | localsModel =>
        cases hfeed
        obtain ⟨key, m, hm, _, rfl, _, rfl, _, rfl, rest, rfl, hmore⟩ := hwants
        exact ⟨.object [(key, .null)], { r.config with localsModel := m }, rest,
          by rw [Tree.tokens_object_cons, Tree.tokens]; rfl, sets_iff.2 ⟨.tag hm, rfl⟩, hmore⟩
      | _ => cases hfeed
  · simp only [feedValue_eq_ok_iff ht]
    constructor
    · rintro ⟨v, d, rest, htokens, hsets, hmore⟩
      have hv := hsets.means.tokens_eq htokens.symm ht
      rw [hv] at htokens
      cases htokens
      exact ⟨_, ⟨v, d, hv, hsets, rfl⟩, hmore⟩
    · rintro ⟨_, ⟨v, d, hv, hsets, rfl⟩, hwants⟩
      exact ⟨v, d, ts, by rw [hv]; rfl, hsets, hwants⟩

theorem wantsElement_cons :
    r.WantsElement c (t :: ts) ↔ ∃ r', r.feedElement t = .ok r' ∧ r'.Wants c ts := by
  unfold WantsElement feedElement
  cases hf : Field.all[r.given.length]? with
  | none => simp [throw, throwThe, MonadExceptOf.throw]
  | some f => simp [wantsValue_cons]

theorem wantsSkipped_cons {s : Skip} : s.isDone = false ∧ s.Completes (r.WantsMore c) (t :: ts) ↔
    ∃ r', r.feedSkipped s t = .ok r' ∧ r'.Wants c ts := by
  have hwants (s' : Skip) :
      (r.expecting (if s'.isDone then .separator else .skipped s')).Wants c ts ↔
        s'.Completes (r.WantsMore c) ts := by
    cases hs' : s'.isDone with
    | false => exact and_iff_right hs'
    | true => exact (Skip.completes_of_isDone hs').symm
  unfold feedSkipped
  constructor
  · rintro ⟨hs, h⟩
    obtain ⟨s', hfeed, hrest⟩ := (Skip.completes_cons hs).1 h
    rw [hfeed]
    exact ⟨_, rfl, (hwants s').2 hrest⟩
  · rintro ⟨r', hfeed, hrest⟩
    cases hs' : s.feed t with
    | none =>
      rw [hs'] at hfeed
      cases hfeed
    | some s' =>
      rw [hs'] at hfeed
      cases hfeed
      have hs : s.isDone = false := Skip.isDone_of_feed hs'
      exact ⟨hs, (Skip.completes_cons hs).2 ⟨s', hs', (hwants s').1 hrest⟩⟩

theorem wantsName_cons (hr : r.expected = .variantName) :
    r.Wants c (t :: ts) ↔ ∃ r', r.feed t = .ok r' ∧ r'.Wants c ts := by
  rw [Wants, hr]
  simp only [Awaits, feed, hr]
  constructor
  · rintro ⟨key, m, hm, rest, htokens, hrest⟩
    obtain ⟨rfl, rfl⟩ := List.cons.inj htokens
    refine ⟨r.expecting (.variantColon m), ?_, hrest⟩
    exact bind_eq_ok.2 ⟨m, readVariant_eq_ok_iff.2 hm, rfl⟩
  · rintro ⟨r', hfeed, hrest⟩
    cases t with
    | string key =>
      obtain ⟨m, hm, h⟩ := bind_eq_ok.1 hfeed
      cases h
      exact ⟨key, m, readVariant_eq_ok_iff.1 hm, ts, rfl, hrest⟩
    | _ => cases hfeed

theorem begins_cons {x : Token} {e : ReadError} {K : List Token → Prop}
    (hK : K ts ↔ r'.Wants c ts) : Begins x K (t :: ts) ↔
      ∃ r'', (if t = x then .ok r' else .error e : Except ReadError Reader) = .ok r''
        ∧ r''.Wants c ts := by
  by_cases ht : t = x
  · simp [Begins, ht, hK]
  · simp [Begins, ht]

theorem ends_cons {x : Token} {W : Prop} {other : Except ReadError Reader}
    (hW : W ↔ ∃ r', other = .ok r' ∧ r'.Wants c ts) (hx : t = x → ∀ r', other ≠ .ok r') :
    (t :: ts = [x] ∧ c = r.config) ∨ W ↔
      ∃ r', (if t = x then .ok (r.expecting .nothing) else other) = .ok r' ∧ r'.Wants c ts := by
  by_cases ht : t = x
  · have hno : ¬ W := fun h => by
      obtain ⟨r', hr', -⟩ := hW.1 h
      exact hx ht r' hr'
    simp [ht, hno, Wants, expecting, Awaits]
  · simp [ht, hW]

theorem feedElement_closeBracket : r.feedElement .closeBracket ≠ .ok r' := by
  unfold feedElement
  split
  · rename_i f _
    cases f <;> nofun
  · nofun

/-- A token is wanted if the reader takes it and then wants the rest. -/
theorem wants_cons : r.Wants c (t :: ts) ↔ ∃ r', r.feed t = .ok r' ∧ r'.Wants c ts := by
  rcases r with ⟨config, given, shape, expected⟩
  cases expected with
  | document => exact wantsDocument_cons rfl
  | firstKey =>
    -- The end of the object is no key.
    refine ends_cons wantsMember_cons ?_
    rintro rfl r'
    nofun
  | key => exact wantsMember_cons
  | colon f =>
    cases f with
    | none => exact begins_cons (and_iff_right rfl).symm
    | some f => exact begins_cons Iff.rfl
  | value f => exact wantsValue_cons
  | firstElement =>
    refine ends_cons wantsElement_cons ?_
    rintro rfl r'
    exact feedElement_closeBracket
  | element => exact wantsElement_cons
  | skipped s => exact wantsSkipped_cons
  | separator => exact wantsMore_cons
  | variantName => exact wantsName_cons rfl
  | variantColon m | variantNull m | variantEnd m => exact begins_cons Iff.rfl
  | nothing =>
    constructor
    · rintro ⟨⟨⟩, _⟩
    · rintro ⟨_, ⟨⟩, _⟩

theorem not_wantsValue_nil : ¬ r.WantsValue c f [] := by
  rintro ⟨v, d, rest, h, -⟩
  exact v.tokens_ne_nil (List.append_eq_nil_iff.1 h.symm).1

theorem not_wantsMore_nil : ¬ r.WantsMore c [] := by
  unfold WantsMore
  cases r.shape with
  | object =>
    rintro ⟨ms, h, -⟩
    exact List.append_ne_nil_of_right_ne_nil _ (List.cons_ne_nil _ _) h.symm
  | array =>
    rintro ⟨vs, h, -⟩
    exact List.append_ne_nil_of_right_ne_nil _ (List.cons_ne_nil _ _) h.symm

theorem wants_nil : r.Wants c [] ↔ r.finish = .ok c := by
  have hmore (he : r.expected ≠ .nothing) : ¬ r.Wants c [] := by
    unfold Wants
    cases hr : r.expected with
    | document =>
      rintro (⟨ms, h, -⟩ | ⟨vs, h, -⟩)
      · exact Tree.tokens_ne_nil _ h.symm
      · exact Tree.tokens_ne_nil _ h.symm
    | firstKey => rintro (⟨⟨⟩, _⟩ | ⟨_, _, _, _, _, ⟨⟩, _⟩)
    | key => rintro ⟨_, _, _, _, _, ⟨⟩, _⟩
    | value f => exact not_wantsValue_nil
    | firstElement =>
      rintro (⟨⟨⟩, _⟩ | ⟨f, -, h⟩)
      exact not_wantsValue_nil h
    | element =>
      rintro ⟨f, -, h⟩
      exact not_wantsValue_nil h
    | skipped s =>
      rintro ⟨hs, h⟩
      exact Skip.not_completes_nil hs h
    | separator => exact not_wantsMore_nil
    | variantName => rintro ⟨_, _, _, _, ⟨⟩, _⟩
    | colon | variantColon | variantNull | variantEnd => rintro ⟨_, ⟨⟩, _⟩
    | nothing => exact absurd hr he
  unfold finish
  split
  · rename_i hr
    rw [Wants, hr, Except.ok.injEq]
    exact (and_iff_right rfl).trans eq_comm
  · rename_i hr
    exact iff_of_false (hmore hr) nofun

end Reader

/-! ## What is read -/

/-- The reader reads the tokens of the values that stand for a configuration. -/
theorem read_eq_ok_iff : read ts = .ok c ↔ ∃ v : Tree, ts = v.tokens ∧ c.WrittenAs v := by
  -- By induction on the tokens, from whatever was read before them.
  have hrun (r : Reader) : (ts.foldlM Reader.feed r >>= Reader.finish) = .ok c ↔ r.Wants c ts := by
    induction ts generalizing r with
    | nil => exact Reader.wants_nil.symm
    | cons t ts ih =>
      rw [Reader.wants_cons, List.foldlM_cons, bind_assoc, bind_eq_ok]
      simp only [ih]
  refine (hrun {}).trans ?_
  simp only [writtenAs_iff]
  constructor
  · rintro (⟨ms, hts, hms⟩ | ⟨vs, hts, hvs⟩)
    · exact ⟨.object ms, hts, .inl ⟨ms, rfl, hms⟩⟩
    · exact ⟨.array vs, hts, .inr ⟨vs, rfl, hvs⟩⟩
  · rintro ⟨_, hts, ⟨ms, rfl, hms⟩ | ⟨vs, rfl, hvs⟩⟩
    · exact .inl ⟨ms, hts, hms⟩
    · exact .inr ⟨vs, hts, hvs⟩

/-- A text is read as a configuration if it is JSON for a value that stands for it, and its depth
limit leaves room for the first frame. -/
theorem ofText_eq_ok_iff (text : String) (c : Config) : ofText text = .ok c ↔
    (∃ v : Tree, v.SpelledBy text ∧ c.WrittenAs v) ∧ 0 < c.maxCallDepth := by
  have hread : read (lex text.toList) = .ok c ↔ ∃ v : Tree, v.SpelledBy text ∧ c.WrittenAs v := by
    simp only [read_eq_ok_iff, lex_eq_tokens_iff, Tree.SpelledBy]
  rw [← hread, ← validate_eq_ok, ofText]
  cases hc : read (lex text.toList) with
  | error e => simp
  | ok c' =>
    simp only [map_eq_ok, Except.ok.injEq]
    constructor
    · rintro ⟨⟨⟩, hv, rfl⟩
      exact ⟨rfl, hv⟩
    · rintro ⟨rfl, hv⟩
      exact ⟨(), hv, rfl⟩

example : ofText "[8, \"per_frame\", 100]" =
    .ok { localsCapacity := 8, localsModel := .perFrame, maxSteps := some 100 } := by rfl

end FrameMachine.Config
