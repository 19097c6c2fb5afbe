import FrameMachine.Config.Field
import FrameMachine.Json.Scalar
import FrameMachine.Proofs.JsonGrammar
import Mathlib.Algebra.Ring.Nat

/-!
# The values that stand for a configuration

An object of fields or an array of the first fields stands for the configuration that says of each
field what the value given for it means, and of the others what the defaults say
(`WrittenAs`). Giving one field after the other comes to the same (`overlay_cons_iff`).
-/

namespace FrameMachine

namespace Json

/-- The number is `k`, without a sign, a point or an exponent, and fits 64 bits. -/
structure Numeral.IsNatural (n : Numeral) (k : Nat) : Prop where
  unsigned : n.negative = false
  whole : n.fraction = [] ∧ n.exponent = []
  value : digitsValue n.whole = k
  fits : k < 2 ^ 64

theorem Numeral.value?_eq_natural_iff {n : Numeral} {k : Nat} :
    n.value? = some (.natural k) ↔ n.IsNatural k := by
  have hdouble : n.toDouble?.map Number.double ≠ some (.natural k) := by
    cases n.toDouble? <;> simp
  unfold value?
  constructor
  · intro h
    dsimp only at h
    split at h
    · rename_i hwhole
      split at h
      · split at h
        · cases h
        · exact absurd h hdouble
      · rename_i hsign
        split at h
        · rename_i hfits
          cases h
          exact ⟨by simpa using hsign, hwhole, rfl, by simpa [Nat.one_shiftLeft] using hfits⟩
        · exact absurd h hdouble
    · exact absurd h hdouble
  · rintro ⟨hsign, hwhole, rfl, hfits⟩
    rw [← Nat.one_shiftLeft] at hfits
    simp only [if_pos hwhole, hsign, Bool.false_eq_true, if_false, if_pos hfits]

end Json

open Json

/-- What a configuration says of a field. -/
inductive Config.Datum
  | natural (n : Nat)
  | model (m : LocalsModel)
  | limit (max : Option Nat)

namespace Config

def datum (c : Config) : Field → Datum
  | .localsCapacity => .natural c.localsCapacity
  | .localsModel => .model c.localsModel
  | .maxSteps => .limit c.maxSteps
  | .maxCallDepth => .natural c.maxCallDepth
  | .arenaCapacity => .natural c.arenaCapacity

/-- How a datum is given: a natural by a number, a limit by a number or null, and a locals model by
its name, or by an object of its name and null. -/
inductive Means : Tree → Datum → Prop
  | natural {n : Numeral} {k : Nat} (h : n.IsNatural k) : Means (.number n) (.natural k)
  | limit {n : Numeral} {k : Nat} (h : n.IsNatural k) : Means (.number n) (.limit (some k))
  | unlimited : Means .null (.limit none)
  | name {parts : List StringPart} {m : LocalsModel} (h : decodeText parts = some m.name) :
      Means (.string parts) (.model m)
  | tag {key : List StringPart} {m : LocalsModel} (h : decodeText key = some m.name) :
      Means (.object [(key, .null)]) (.model m)

/-- The field whose key the string parts stand for. -/
def fieldOf? (key : List StringPart) : Option Field := (decodeText key).bind Field.ofKey?

/-- The fields among members, with their values. -/
def fieldsGiven (members : List (List StringPart × Tree)) : List (Field × Tree) :=
  members.filterMap fun m => (fieldOf? m.1).map (·, m.2)

/-- `c` says of the fields that are given what their values mean, and of the others what `d`
says. -/
def Overlay (d : Config) (given : List (Field × Tree)) (c : Config) : Prop :=
  ∀ f, (∀ v, (f, v) ∈ given → Means v (c.datum f))
    ∧ (f ∉ given.map Prod.fst → c.datum f = d.datum f)

/-- The value stands for the configuration, over the defaults. In an object every key stands for a
text, and no two for the same field; an array has at most all the fields, in order. -/
inductive WrittenAs (c : Config) : Tree → Prop
  | object {members : List (List StringPart × Tree)}
      (keys : ∀ m ∈ members, (decodeText m.1).isSome)
      (once : ((fieldsGiven members).map Prod.fst).Nodup)
      (overlay : Overlay {} (fieldsGiven members) c) : WrittenAs c (.object members)
  | array {elements : List Tree} (size : elements.length ≤ Field.all.length)
      (overlay : Overlay {} (Field.all.zip elements) c) : WrittenAs c (.array elements)

variable {c d d' : Config} {f g : Field} {v : Tree} {given : List (Field × Tree)}
  {fields : List Field} {key : List StringPart} {ms : List (List StringPart × Tree)}
  {vs : List Tree}

/-- A value with a meaning is one token, unless it begins an object. -/
theorem Means.tokens_eq {x : Datum} (h : Means v x) {t : Token} {ts rest : List Token}
    (hv : v.tokens ++ rest = t :: ts)
    (ht : t ≠ .openBrace) : v.tokens = [t] := by
  cases h with
  | tag =>
    rw [Tree.tokens] at hv
    cases hv
    exact absurd rfl ht
  | _ =>
    rw [Tree.tokens] at hv ⊢
    cases hv
    rfl

theorem ext_datum (h : ∀ f, c.datum f = d.datum f) : c = d := by
  rcases c with ⟨capacity, model, steps, depth, arena⟩
  rcases d with ⟨capacity', model', steps', depth', arena'⟩
  obtain rfl := Datum.natural.inj (h .localsCapacity)
  obtain rfl := Datum.model.inj (h .localsModel)
  obtain rfl := Datum.limit.inj (h .maxSteps)
  obtain rfl := Datum.natural.inj (h .maxCallDepth)
  obtain rfl := Datum.natural.inj (h .arenaCapacity)
  rfl

/-- `d` with field `f` from `c`. -/
def take (f : Field) (c d : Config) : Config :=
  match f with
  | .localsCapacity => { d with localsCapacity := c.localsCapacity }
  | .localsModel => { d with localsModel := c.localsModel }
  | .maxSteps => { d with maxSteps := c.maxSteps }
  | .maxCallDepth => { d with maxCallDepth := c.maxCallDepth }
  | .arenaCapacity => { d with arenaCapacity := c.arenaCapacity }

theorem datum_take (f g : Field) (c d : Config) :
    (take f c d).datum g = if g = f then c.datum g else d.datum g := by
  cases f <;> cases g <;> rfl

/-- `d'` is `d` but for field `f`, where it says what the value means. -/
structure Sets (f : Field) (v : Tree) (d d' : Config) : Prop where
  means : Means v (d'.datum f)
  other : ∀ g, g ≠ f → d'.datum g = d.datum g

theorem sets_iff : Sets f v d d' ↔ Means v (d'.datum f) ∧ d' = take f d' d := by
  constructor
  · intro h
    refine ⟨h.means, ext_datum fun g => ?_⟩
    rw [datum_take]
    split
    · rfl
    · rename_i hg
      exact h.other g hg
  · rintro ⟨hmeans, htake⟩
    refine ⟨hmeans, fun g hg => ?_⟩
    rw [htake, datum_take, if_neg hg]

theorem overlay_nil : Overlay d [] c ↔ c = d := by
  constructor
  · exact fun h => ext_datum fun f => (h f).2 List.not_mem_nil
  · rintro rfl f
    exact ⟨nofun, fun _ => rfl⟩

/-- A field is given first and the others over it. -/
theorem overlay_cons_iff (hf : f ∉ given.map Prod.fst) :
    Overlay d ((f, v) :: given) c ↔ ∃ d', Sets f v d d' ∧ Overlay d' given c := by
  constructor
  · intro h
    refine ⟨take f c d, ⟨?_, ?_⟩, ?_⟩
    · rw [datum_take, if_pos rfl]
      exact (h f).1 v (List.mem_cons_self ..)
    · intro g hg
      rw [datum_take, if_neg hg]
    · intro g
      refine ⟨fun w hw => (h g).1 w (List.mem_cons_of_mem _ hw), fun hg => ?_⟩
      rw [datum_take]
      split
      · rfl
      · rename_i hgf
        exact (h g).2 (by simp [hgf, hg])
  · rintro ⟨d', hsets, h⟩ g
    constructor
    · intro w hw
      rcases List.mem_cons.1 hw with hw | hw
      · cases hw
        rw [(h f).2 hf]
        exact hsets.means
      · exact (h g).1 w hw
    · intro hg
      rw [List.map_cons, List.mem_cons, not_or] at hg
      rw [(h g).2 hg.2, hsets.other g hg.1]

/-! ## Members and elements one by one -/

/-- Members make `c` of `d`, when `fields` were given before them. -/
structure TakesMembers (c d : Config) (fields : List Field) (ms : List (List StringPart × Tree)) :
    Prop where
  keys : ∀ m ∈ ms, (decodeText m.1).isSome
  once : ((fieldsGiven ms).map Prod.fst).Nodup
  new : ∀ f ∈ (fieldsGiven ms).map Prod.fst, f ∉ fields
  overlay : Overlay d (fieldsGiven ms) c

/-- Elements make `c` of `d`, when `n` fields were given before them. -/
structure TakesElements (c d : Config) (n : Nat) (vs : List Tree) : Prop where
  size : vs.length ≤ (Field.all.drop n).length
  overlay : Overlay d ((Field.all.drop n).zip vs) c

theorem takesMembers_nil : TakesMembers c d fields [] ↔ c = d := by
  constructor
  · exact fun h => overlay_nil.1 h.overlay
  · exact fun h => ⟨nofun, .nil, nofun, overlay_nil.2 h⟩

theorem takesMembers_unknown {text : String} (hk : decodeText key = some text)
    (hf : Field.ofKey? text = none) :
    TakesMembers c d fields ((key, v) :: ms) ↔ TakesMembers c d fields ms := by
  have hgiven : fieldsGiven ((key, v) :: ms) = fieldsGiven ms := by
    simp [fieldsGiven, fieldOf?, hk, hf]
  constructor
  · rintro ⟨hkeys, honce, hnew, hoverlay⟩
    rw [hgiven] at honce hnew hoverlay
    exact ⟨fun m hm => hkeys m (List.mem_cons_of_mem _ hm), honce, hnew, hoverlay⟩
  · rintro ⟨hkeys, honce, hnew, hoverlay⟩
    rw [← hgiven] at honce hnew hoverlay
    exact ⟨List.forall_mem_cons.2 ⟨by simp [hk], hkeys⟩, honce, hnew, hoverlay⟩

theorem takesMembers_field {text : String} (hk : decodeText key = some text)
    (hf : Field.ofKey? text = some f) :
    TakesMembers c d fields ((key, v) :: ms) ↔
      f ∉ fields ∧ ∃ d', Sets f v d d' ∧ TakesMembers c d' (fields ++ [f]) ms := by
  have hgiven : fieldsGiven ((key, v) :: ms) = (f, v) :: fieldsGiven ms := by
    simp [fieldsGiven, fieldOf?, hk, hf]
  constructor
  · rintro ⟨hkeys, honce, hnew, hoverlay⟩
    rw [hgiven] at honce hnew hoverlay
    rw [List.map_cons] at honce hnew
    obtain ⟨hfirst, honce⟩ := List.nodup_cons.1 honce
    obtain ⟨hf, hnew⟩ := List.forall_mem_cons.1 hnew
    obtain ⟨d', hsets, hoverlay⟩ := (overlay_cons_iff hfirst).1 hoverlay
    refine ⟨hf, d', hsets, fun m hm => hkeys m (List.mem_cons_of_mem _ hm), honce, ?_, hoverlay⟩
    intro g hg
    rw [List.mem_append, List.mem_singleton, not_or]
    refine ⟨hnew g hg, ?_⟩
    rintro rfl
    exact hfirst hg
  · rintro ⟨hf, d', hsets, hkeys, honce, hnew, hoverlay⟩
    have hfirst : f ∉ (fieldsGiven ms).map Prod.fst := fun hg => hnew f hg (by simp)
    refine ⟨List.forall_mem_cons.2 ⟨by simp [hk], hkeys⟩, ?_, ?_, ?_⟩
    · rw [hgiven, List.map_cons]
      exact List.nodup_cons.2 ⟨hfirst, honce⟩
    · rw [hgiven, List.map_cons]
      refine List.forall_mem_cons.2 ⟨hf, fun g hg => ?_⟩
      exact fun hmem => hnew g hg (List.mem_append_left _ hmem)
    · rw [hgiven]
      exact (overlay_cons_iff hfirst).2 ⟨d', hsets, hoverlay⟩

theorem takesElements_nil {n : Nat} : TakesElements c d n [] ↔ c = d := by
  constructor
  · intro h
    have hoverlay := h.overlay
    rw [List.zip_nil_right] at hoverlay
    exact overlay_nil.1 hoverlay
  · intro h
    refine ⟨Nat.zero_le _, ?_⟩
    rw [List.zip_nil_right]
    exact overlay_nil.2 h

theorem takesElements_cons {n : Nat} : TakesElements c d n (v :: vs) ↔
    ∃ f, Field.all[n]? = some f ∧ ∃ d', Sets f v d d' ∧ TakesElements c d' (n + 1) vs := by
  cases hf : Field.all[n]? with
  | none =>
    have hdrop : Field.all.drop n = [] := List.drop_eq_nil_of_le (List.getElem?_eq_none_iff.1 hf)
    constructor
    · rintro ⟨hsize, -⟩
      rw [hdrop] at hsize
      cases hsize
    · rintro ⟨_, ⟨⟩, _⟩
  | some f =>
    obtain ⟨hn, hfn⟩ := List.getElem?_eq_some_iff.1 hf
    have hdrop : Field.all.drop n = f :: Field.all.drop (n + 1) := by
      rw [List.drop_eq_getElem_cons hn, hfn]
    have hnodup : (Field.all.drop n).Nodup :=
      List.Nodup.sublist (List.drop_sublist ..) (show Field.all.Nodup by decide)
    have hfirst : f ∉ ((Field.all.drop (n + 1)).zip vs).map Prod.fst := by
      rw [hdrop, List.nodup_cons] at hnodup
      intro hmem
      obtain ⟨p, hp, rfl⟩ := List.mem_map.1 hmem
      exact hnodup.1 (List.of_mem_zip hp).1
    constructor
    · rintro ⟨hsize, hoverlay⟩
      rw [hdrop] at hsize hoverlay
      rw [List.zip_cons_cons] at hoverlay
      obtain ⟨d', hsets, hoverlay⟩ := (overlay_cons_iff hfirst).1 hoverlay
      exact ⟨f, rfl, d', hsets, Nat.le_of_succ_le_succ hsize, hoverlay⟩
    · rintro ⟨_, ⟨⟩, d', hsets, hsize, hoverlay⟩
      refine ⟨?_, ?_⟩
      · rw [hdrop]
        exact Nat.succ_le_succ hsize
      · rw [hdrop, List.zip_cons_cons]
        exact (overlay_cons_iff hfirst).2 ⟨d', hsets, hoverlay⟩

theorem writtenAs_iff {v : Tree} : c.WrittenAs v ↔
    (∃ ms, v = .object ms ∧ TakesMembers c {} [] ms) ∨
      ∃ vs, v = .array vs ∧ TakesElements c {} 0 vs := by
  constructor
  · rintro (⟨keys, once, overlay⟩ | ⟨size, overlay⟩)
    · exact .inl ⟨_, rfl, keys, once, nofun, overlay⟩
    · exact .inr ⟨_, rfl, size, overlay⟩
  · rintro (⟨ms, rfl, hms⟩ | ⟨vs, rfl, hvs⟩)
    · exact .object hms.keys hms.once hms.overlay
    · exact .array hvs.size hvs.overlay

end Config

end FrameMachine
