import FrameMachine.Config.Writer
import FrameMachine.Proofs.ConfigReading

/-!
# What is written is read back

The written form of a configuration is JSON for the object of its fields, as long as its numbers
fit 64 bits (`written_spelled`), and a configuration that was read has no others
(`WrittenAs.fits`). So writing loses nothing, and reading takes back what was written.
-/

namespace FrameMachine

namespace Json

open Numeral

/-- The digits that a natural is printed in. -/
theorem exists_digits (k : Nat) : ∃ ds, Whole ds ∧ (ds = [0] → k = 0) ∧
    digitsText ds = Nat.toDigits 10 k ∧ digitsValue ds = k := by
  induction k using Nat.strongRecOn with
  | ind k ih =>
    rw [Nat.toDigits_eq_if (by decide)]
    split
    · rename_i hk
      refine ⟨[k], ⟨by simpa [Decimal] using hk, ?_⟩, by simp, rfl, by simp [digitsValue]⟩
      by_cases h0 : k = 0
      · exact .inl (by rw [h0])
      · exact .inr ⟨k, [], rfl, h0⟩
    · obtain ⟨ds, hwhole, h0, htext, hvalue⟩ := ih (k / 10) (by omega)
      obtain ⟨hwhole', h0'⟩ := whole_concat hwhole (fun h => by have := h0 h; omega)
        (Nat.mod_lt k (by decide))
      refine ⟨ds ++ [k % 10], hwhole', fun h => absurd h h0', ?_, ?_⟩
      · rw [← htext]
        simp [digitsText]
      · unfold digitsValue at hvalue ⊢
        rw [List.foldl_append, hvalue, List.foldl_cons, List.foldl_nil]
        omega

/-- A natural is printed as a number that stands for it. -/
theorem exists_numeral {k : Nat} (hk : k < 2 ^ 64) :
    ∃ n : Numeral, n.SpelledBy k.repr.toList ∧ n.IsNatural k := by
  obtain ⟨ds, hwhole, -, htext, hvalue⟩ := exists_digits k
  refine ⟨{ whole := ds }, ⟨hwhole, nofun, nofun, [], .none rfl rfl, ?_⟩, rfl, ⟨rfl, rfl⟩,
    hvalue, hk⟩
  rw [Nat.repr_eq_ofList_toDigits, ← htext]
  simp [front, signText, fractionText]

end Json

open Json

namespace Config

variable {c : Config} {v : Tree} {x : Datum} {given : List (Field × Tree)}

/-- What is a number fits 64 bits. -/
def Datum.Fits : Datum → Prop
  | natural n => n < 2 ^ 64
  | model _ => True
  | limit max => ∀ n ∈ max, n < 2 ^ 64

instance : (x : Datum) → Decidable x.Fits
  | .natural n => inferInstanceAs (Decidable (n < 2 ^ 64))
  | .model _ => inferInstanceAs (Decidable True)
  | .limit max => inferInstanceAs (Decidable (∀ n ∈ max, n < 2 ^ 64))

/-- All numbers of the configuration fit 64 bits. -/
def Fits (c : Config) : Prop := ∀ f, (c.datum f).Fits

instance (c : Config) : Decidable c.Fits :=
  decidable_of_iff (∀ f ∈ Field.all, (c.datum f).Fits)
    ⟨fun h f => h f f.mem_all, fun h f _ => h f⟩

theorem Means.fits (h : Means v x) : x.Fits := by
  cases h with
  | natural h => exact h.fits
  | limit h =>
    rintro n ⟨⟩
    exact h.fits
  | unlimited => nofun
  | name | tag => trivial

theorem Overlay.fits (h : Overlay {} given c) : c.Fits := by
  intro f
  by_cases hf : f ∈ given.map Prod.fst
  · obtain ⟨⟨f, v⟩, hv, rfl⟩ := List.mem_map.1 hf
    exact ((h f).1 v hv).fits
  · have hdefault : Fits {} := by decide
    rw [(h f).2 hf]
    exact hdefault f

/-- A configuration that is read has numbers that fit. -/
theorem WrittenAs.fits (h : c.WrittenAs v) : c.Fits := by
  cases h with
  | object _ _ overlay => exact overlay.fits
  | array _ overlay => exact overlay.fits

/-! ## What is written -/

theorem spelledBy_key (f : Field) : PartsSpelledBy (plain f.key) f.key.toList :=
  spelledBy_plain (by cases f <;> decide)

theorem spelledBy_name (m : LocalsModel) : PartsSpelledBy (plain m.name) m.name.toList :=
  spelledBy_plain (by cases m <;> decide)

/-- Each field is written as a value that means what the configuration says of it. -/
theorem exists_writtenValue (h : c.Fits) (f : Field) :
    ∃ v : Tree, Means v (c.datum f) ∧ Spelled v.tokens (c.writtenValue f).toList := by
  have hnatural {k : Nat} (hk : k < 2 ^ 64) :
      ∃ n : Numeral, n.IsNatural k ∧ Spelled (Tree.number n).tokens k.repr.toList := by
    obtain ⟨n, htext, hn⟩ := exists_numeral hk
    refine ⟨n, hn, ?_⟩
    rw [Tree.tokens]
    exact (Token.SpelledBy.number htext).spelled
  have hf := h f
  cases f with
  | localsModel =>
    refine ⟨.string (plain c.localsModel.name), .name (decodeText_plain _), ?_⟩
    rw [Tree.tokens]
    simpa [writtenValue] using (Token.SpelledBy.string (spelledBy_name c.localsModel)).spelled
  | maxSteps =>
    simp only [datum, writtenValue] at hf ⊢
    cases hmax : c.maxSteps with
    | none =>
      refine ⟨.null, .unlimited, ?_⟩
      rw [Tree.tokens]
      exact Token.SpelledBy.null.spelled
    | some max =>
      rw [hmax] at hf
      obtain ⟨n, hn, htext⟩ := hnatural (hf max rfl)
      exact ⟨.number n, .limit hn, htext⟩
  | _ =>
    obtain ⟨n, hn, htext⟩ := hnatural hf
    exact ⟨.number n, .natural hn, htext⟩

/-- The written form is JSON for the object of all fields, in order, each under its key. -/
theorem written_spelled (h : c.Fits) : ∃ v : Field → Tree, (∀ f, Means (v f) (c.datum f)) ∧
    (Tree.object (Field.all.map fun f => (plain f.key, v f))).SpelledBy c.written := by
  choose v hmeans hv using exists_writtenValue h
  refine ⟨v, hmeans, ?_⟩
  have hmember : ∀ f ∈ Field.all, Spelled (.string (plain f.key) :: .colon :: (v f).tokens)
      (c.writtenMember f).toList := by
    intro f _
    have hkey := (Token.SpelledBy.string (spelledBy_key f)).spelled
    simpa [writtenMember] using hkey.append (Token.SpelledBy.colon.spelled.append (hv f))
  have hmembers := (Token.SpelledBy.openBrace.spelled.append
    (spelled_commaSeparated hmember)).append Token.SpelledBy.closeBrace.spelled
  rw [Tree.SpelledBy, Tree.tokens, List.map_map]
  simpa [written, String.toList_intercalate, Function.comp_def] using hmembers

/-- The object of all fields stands for the configuration. -/
theorem writtenAs_fields {v : Field → Tree} (h : ∀ f, Means (v f) (c.datum f)) :
    c.WrittenAs (.object (Field.all.map fun f => (plain f.key, v f))) := by
  have hgiven : fieldsGiven (Field.all.map fun f => (plain f.key, v f)) =
      Field.all.map fun f => (f, v f) := by
    simp [fieldsGiven, fieldOf?, decodeText_plain, Field.ofKey?_key, List.filterMap_map]
  have hfields : (Field.all.map fun f => (f, v f)).map Prod.fst = Field.all := by
    simp [Function.comp_def]
  refine .object ?_ ?_ ?_
  · intro m hm
    obtain ⟨f, -, rfl⟩ := List.mem_map.1 hm
    rw [decodeText_plain]
    rfl
  · rw [hgiven, hfields]
    decide
  · intro f
    rw [hgiven, hfields]
    refine ⟨fun w hw => ?_, fun hf => absurd f.mem_all hf⟩
    obtain ⟨g, -, hg⟩ := List.mem_map.1 hw
    cases hg
    exact h f

theorem read_written (h : c.Fits) : read (lex c.written.toList) = .ok c := by
  obtain ⟨v, hmeans, htext⟩ := written_spelled h
  exact read_eq_ok_iff.2 ⟨_, lex_eq_tokens_iff.2 htext, writtenAs_fields hmeans⟩

theorem ofText_written (h : c.Fits) : ofText c.written = if 0 < c.maxCallDepth then .ok c else
    .error (.invalidConfig "max_call_depth must allow the top-level frame") := by
  rw [ofText, read_written h]
  by_cases hdepth : 0 < c.maxCallDepth
  · simp only [validate_eq_ok.2 hdepth, if_pos hdepth]
    rfl
  · simp only [validate, if_pos (Nat.eq_zero_of_not_pos hdepth), if_neg hdepth]
    rfl

theorem fits_of_ofText {text : String} (h : ofText text = .ok c) :
    c.Fits ∧ 0 < c.maxCallDepth := by
  unfold ofText at h
  split at h
  · cases h
  · rename_i c' hread
    obtain ⟨_, hdepth, rfl⟩ := map_eq_ok.1 h
    obtain ⟨v, -, hv⟩ := read_eq_ok_iff.1 hread
    exact ⟨hv.fits, validate_eq_ok.1 hdepth⟩

/-- A configuration whose numbers fit is written as JSON for the object of its fields in order, and
reading that gives it back, or the error of the check if no call depth is allowed. So no two are
written alike, and what was read from any text is read again from its written form. -/
theorem written_reads_back :
    (∀ c : Config, c.Fits → ∃ v : Field → Tree, (∀ f, Means (v f) (c.datum f)) ∧
      (Tree.object (Field.all.map fun f => (plain f.key, v f))).SpelledBy c.written) ∧
    (∀ c : Config, c.Fits → ofText c.written = if 0 < c.maxCallDepth then .ok c else
      .error (.invalidConfig "max_call_depth must allow the top-level frame")) ∧
    (∀ c d : Config, c.Fits → d.Fits → c.written = d.written → c = d) ∧
    ∀ (text : String) (c : Config), ofText text = .ok c → ofText c.written = .ok c := by
  refine ⟨fun _ => written_spelled, fun _ => ofText_written, ?_, ?_⟩
  · intro c d hc hd h
    have hread := read_written hc
    rw [h, read_written hd] at hread
    injection hread with hread
    exact hread.symm
  · intro text c h
    obtain ⟨hfits, hdepth⟩ := fits_of_ofText h
    rw [ofText_written hfits, if_pos hdepth]

/-- The largest numbers are written out in full and read back, a depth limit of zero is refused, and
a text that leaves fields out is read as its written form is. -/
theorem largest_reads_back :
    ofText ("\x7b\"locals_capacity\":18446744073709551615,\"locals_model\":\"per_frame\"," ++
        "\"max_steps\":18446744073709551615,\"max_call_depth\":1,\"arena_capacity\":0\x7d") =
      .ok ⟨2 ^ 64 - 1, .perFrame, some (2 ^ 64 - 1), 1, 0⟩ ∧
    ofText (written { maxCallDepth := 0 }) =
      .error (.invalidConfig "max_call_depth must allow the top-level frame") ∧
    ofText (written { maxSteps := some 7 }) = ofText "[256,\"shared\",7]" := by
  obtain ⟨-, hreads, -, hagain⟩ := written_reads_back
  have hwritten : written ⟨2 ^ 64 - 1, .perFrame, some (2 ^ 64 - 1), 1, 0⟩ =
      "\x7b\"locals_capacity\":18446744073709551615,\"locals_model\":\"per_frame\"," ++
        "\"max_steps\":18446744073709551615,\"max_call_depth\":1,\"arena_capacity\":0\x7d" := by
    decide +kernel
  have hpartial : ofText "[256,\"shared\",7]" = .ok { maxSteps := some 7 } := by rfl
  have hlargest := hreads ⟨2 ^ 64 - 1, .perFrame, some (2 ^ 64 - 1), 1, 0⟩ (by decide)
  rw [hwritten, if_pos Nat.one_pos] at hlargest
  refine ⟨hlargest, hreads { maxCallDepth := 0 } (by decide), ?_⟩
  rw [hagain _ _ hpartial, hpartial]

end Config

end FrameMachine
