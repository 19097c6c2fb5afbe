import FrameMachine.Proofs.JsonGrammar
import Mathlib.Data.Nat.Digits.Defs

/-!
# Numbers are read as they are spelled

What the lexer has read of a number says, by the phase it is in, how the number goes on
(`NumeralPhase.Reached`): where it may end, it is spelled by what was read. The other way round, a
number that is spelled leads from one phase to the next till its end (`reads_numeral`).
-/

namespace FrameMachine.Json

open Numeral

variable {phase phase' : NumeralPhase} {n n' : Numeral} {c : Char} {p x : List Char} {d : Nat}
  {ds : List Nat}

theorem digit?_digitChar : ∀ d < 10, digit? (Nat.digitChar d) = some d := by decide

theorem digit?_eq_some (h : digit? c = some d) : d < 10 ∧ c = Nat.digitChar d := by
  unfold digit? at h
  split at h
  · rename_i hc
    simp only [Option.some.injEq] at h
    have hlow : '0'.toNat ≤ c.toNat := hc.1
    have hhigh : c.toNat ≤ '9'.toNat := hc.2
    have h0 : '0'.toNat = 48 := rfl
    have h9 : '9'.toNat = 57 := rfl
    have hd : d < 10 := by omega
    refine ⟨hd, Char.toNat_inj.1 ?_⟩
    rw [Nat.toNat_digitChar_of_lt_ten hd]
    omega
  · cases h

namespace Numeral

/-- A number without an exponent. -/
def Plain (n : Numeral) : Prop := n.exponent = [] ∧ n.exponentNegative = false

theorem decimal_concat (h : Decimal ds) (hd : d < 10) : Decimal (ds ++ [d]) := by
  intro i hi
  rcases List.mem_append.1 hi with hi | hi
  · exact h i hi
  · exact List.eq_of_mem_singleton hi ▸ hd

theorem whole_concat (h : Whole ds) (h0 : ds ≠ [0]) (hd : d < 10) :
    Whole (ds ++ [d]) ∧ ds ++ [d] ≠ [0] := by
  obtain ⟨hdecimal, rfl | ⟨e, es, rfl, he⟩⟩ := h
  · exact absurd rfl h0
  · exact ⟨⟨decimal_concat hdecimal hd, .inr ⟨e, es ++ [d], rfl, he⟩⟩, by simp [he]⟩

theorem front_first (b : Bool) (d : Nat) :
    front { negative := b, whole := [d] } = signText b ++ [Nat.digitChar d] := by
  simp [front, digitsText, fractionText]

theorem front_fraction_first (hf : n.fraction = []) (d : Nat) :
    front { n with fraction := [d] } = n.front ++ ['.'] ++ [Nat.digitChar d] := by
  simp [front, hf, digitsText, fractionText]

theorem front_whole_concat (hf : n.fraction = []) (d : Nat) :
    front { n with whole := n.whole ++ [d] } = n.front ++ [Nat.digitChar d] := by
  simp [front, hf, fractionText, digitsText]

theorem front_fraction_concat (h0 : n.fraction ≠ []) (d : Nat) :
    front { n with fraction := n.fraction ++ [d] } = n.front ++ [Nat.digitChar d] := by
  simp [front, h0, fractionText, digitsText]

theorem SpelledBy.concat (h : n.SpelledBy p) (hx : n.exponent ≠ []) (hd : d < 10) :
    SpelledBy { n with exponent := n.exponent ++ [d] } (p ++ [Nat.digitChar d]) := by
  obtain ⟨x, hspelled, rfl⟩ := h.spelling
  refine ⟨h.whole, h.fraction, decimal_concat h.exponent hd, x ++ [Nat.digitChar d], ?_, ?_⟩
  · have hnew : n.exponent ++ [d] ≠ [] := by simp
    cases hspelled with
    | none h0 => exact absurd h0 hx
    | unsigned _ hs hm =>
      have := ExponentSpelledBy.unsigned (n := { n with exponent := n.exponent ++ [d] }) hnew hs hm
      simpa [digitsText] using this
    | signed _ hm =>
      have := ExponentSpelledBy.signed (n := { n with exponent := n.exponent ++ [d] }) hnew hm
      simpa [digitsText] using this
  · simp [front]

end Numeral

/-- The text is the start of a number: the numeral is what it says, and the phase how far it
goes. -/
inductive NumeralPhase.Reached : NumeralPhase → Numeral → List Char → Prop
  | minus (b : Bool) : Reached .minus { negative := b } (signText b)
  | zero (b : Bool) :
      Reached .zero { negative := b, whole := [0] } (front { negative := b, whole := [0] })
  | whole {n : Numeral} (hw : Whole n.whole) (h0 : n.whole ≠ [0]) (hf : n.fraction = [])
      (hx : n.Plain) : Reached .whole n n.front
  | point {n : Numeral} (hw : Whole n.whole) (hf : n.fraction = []) (hx : n.Plain) :
      Reached .point n (n.front ++ ['.'])
  | fraction {n : Numeral} (hw : Whole n.whole) (hf : Decimal n.fraction) (h0 : n.fraction ≠ [])
      (hx : n.Plain) : Reached .fraction n n.front
  | mark {n : Numeral} {e : Char} (hw : Whole n.whole) (hf : Decimal n.fraction) (hx : n.Plain)
      (he : e = 'e' ∨ e = 'E') : Reached .mark n (n.front ++ [e])
  | sign {n : Numeral} {e : Char} (hw : Whole n.whole) (hf : Decimal n.fraction)
      (hx : n.exponent = []) (he : e = 'e' ∨ e = 'E') :
      Reached .sign n (n.front ++ [e, if n.exponentNegative then '-' else '+'])
  | exponent {n : Numeral} {p : List Char} (hx : n.exponent ≠ []) (h : n.SpelledBy p) :
      Reached .exponent n p

/-- An exponent or its mark may come after any digit before it. -/
theorem reached_of_exponentMark (hw : Whole n.whole) (hf : Decimal n.fraction) (hx : n.Plain)
    (he : extendNumeral.exponentMark n c = some (phase', n')) :
    phase'.Reached n' (n.front ++ [c]) := by
  unfold extendNumeral.exponentMark at he
  split at he
  · rename_i hc
    cases he
    exact .mark hw hf hx hc
  · cases he

theorem reached_of_afterWhole (hw : Whole n.whole) (hf : n.fraction = []) (hx : n.Plain)
    (he : extendNumeral.afterWhole n c = some (phase', n')) :
    phase'.Reached n' (n.front ++ [c]) := by
  unfold extendNumeral.afterWhole at he
  split at he
  · rename_i hc
    cases he
    cases hc
    exact .point hw hf hx
  · exact reached_of_exponentMark hw (by simp [hf, Decimal]) hx he

theorem NumeralPhase.Reached.extend_digit (h : phase.Reached n p) (hc : digit? c = some d)
    (he : extendNumeral phase n c = some (phase', n')) : phase'.Reached n' (p ++ [c]) := by
  obtain ⟨hd, rfl⟩ := digit?_eq_some hc
  cases h with
  | minus b =>
    rcases d with _ | d <;> simp only [extendNumeral, hc] at he <;> cases he
    · rw [← front_first]
      exact .zero b
    · rw [← front_first]
      exact .whole ⟨by simpa [Decimal] using hd, .inr ⟨d + 1, [], rfl, by omega⟩⟩ (by simp)
        rfl ⟨rfl, rfl⟩
  | whole hw h0 hf hx =>
    simp only [extendNumeral, hc] at he
    cases he
    rw [← front_whole_concat hf]
    exact .whole (whole_concat hw h0 hd).1 (whole_concat hw h0 hd).2 hf hx
  | point hw hf hx =>
    simp only [extendNumeral, hc] at he
    cases he
    rw [← front_fraction_first hf]
    exact .fraction hw (by simpa [Decimal] using hd) (by simp) hx
  | fraction hw hf h0 hx =>
    simp only [extendNumeral, hc] at he
    cases he
    rw [← front_fraction_concat h0]
    exact .fraction hw (decimal_concat hf hd) (by simp) hx
  | mark hw hf hx he' =>
    simp only [extendNumeral, hc] at he
    cases he
    have hspelled := ExponentSpelledBy.unsigned (n := { n with exponent := [d] }) (by simp) hx.2 he'
    exact .exponent (by simp) ⟨hw, hf, by simpa [Decimal] using hd, _, hspelled,
      by simp [front, digitsText]⟩
  | sign hw hf hx he' =>
    simp only [extendNumeral, hc] at he
    cases he
    have hspelled := ExponentSpelledBy.signed (n := { n with exponent := [d] }) (by simp) he'
    exact .exponent (by simp) ⟨hw, hf, by simpa [Decimal] using hd, _, hspelled,
      by simp [front, digitsText]⟩
  | exponent hx h =>
    simp only [extendNumeral, hc] at he
    cases he
    exact .exponent (by simp) (h.concat hx hd)
  | _ => simp [extendNumeral, hc] at he

theorem NumeralPhase.Reached.extend_other (h : phase.Reached n p) (hc : digit? c = none)
    (he : extendNumeral phase n c = some (phase', n')) : phase'.Reached n' (p ++ [c]) := by
  cases h with
  | zero b =>
    simp only [extendNumeral, hc] at he
    exact reached_of_afterWhole ⟨by simp [Decimal], .inl rfl⟩ rfl ⟨rfl, rfl⟩ he
  | whole hw h0 hf hx =>
    simp only [extendNumeral, hc] at he
    exact reached_of_afterWhole hw hf hx he
  | fraction hw hf h0 hx =>
    simp only [extendNumeral, hc] at he
    exact reached_of_exponentMark hw hf hx he
  | mark hw hf hx he' =>
    simp only [extendNumeral, hc] at he
    rw [List.append_assoc]
    split_ifs at he with hplus hminus
    · cases he
      simpa [hx.2, hplus] using Reached.sign hw hf hx.1 he'
    · cases he
      subst hminus
      exact .sign (n := { n with exponentNegative := true }) hw hf hx.1 he'
  | _ => simp [extendNumeral, hc] at he

theorem NumeralPhase.Reached.extend (h : phase.Reached n p)
    (he : extendNumeral phase n c = some (phase', n')) : phase'.Reached n' (p ++ [c]) := by
  cases hc : digit? c with
  | none => exact h.extend_other hc he
  | some d => exact h.extend_digit hc he

theorem NumeralPhase.Reached.spelledBy (h : phase.Reached n p) (hc : phase.complete = true) :
    n.SpelledBy p := by
  have hplain : ∀ {m : Numeral}, Whole m.whole → Decimal m.fraction → m.Plain →
      m.SpelledBy m.front := by
    intro m hw hf hx
    exact ⟨hw, hf, by simp [hx.1, Decimal], [], .none hx.1 hx.2, (List.append_nil _).symm⟩
  cases h with
  | zero b => exact hplain ⟨by simp [Decimal], .inl rfl⟩ (by simp [Decimal]) ⟨rfl, rfl⟩
  | whole hw _ hf hx => exact hplain hw (by simp [hf, Decimal]) hx
  | fraction hw hf _ hx => exact hplain hw hf hx
  | exponent _ h => exact h
  | _ => cases hc

/-- Reading the text leads from one mode to the other and completes no token. -/
def Mode.Reads (mode : Mode) (text : List Char) (mode' : Mode) : Prop :=
  mode.run text = ([], mode')

namespace Mode

variable {mode mode' mode'' : Mode} {s t : List Char}

theorem Reads.append (h : mode.Reads s mode') (h' : mode'.Reads t mode'') :
    mode.Reads (s ++ t) mode'' := by
  unfold Reads at h h' ⊢
  rw [run_append, h, h']
  rfl

theorem Reads.cons (hc : mode.feed c = ([], mode')) (h : mode'.Reads s mode'') :
    mode.Reads (c :: s) mode'' := by
  rw [Reads] at h
  simp [Reads, run, hc, h]

theorem reads_of_extend (h : extendNumeral phase n c = some (phase', n')) :
    (number phase n).Reads [c] (number phase' n') := by
  simp [Reads, run, feed, feedNumber, h]

/-- Digits go where digits are read: `g` says where in the numeral that is. -/
theorem reads_digits (phase : NumeralPhase) (g : List Nat → Numeral)
    (hg : ∀ ds d, d < 10 →
      extendNumeral phase (g ds) (Nat.digitChar d) = some (phase, g (ds ++ [d])))
    (h : Decimal ds) (first : List Nat) :
    (number phase (g first)).Reads (digitsText ds) (number phase (g (first ++ ds))) := by
  induction ds generalizing first with
  | nil =>
    rw [List.append_nil]
    rfl
  | cons d ds ih =>
    have hd : d < 10 := h d (List.mem_cons_self ..)
    have hrest := ih (fun e he => h e (List.mem_cons_of_mem d he)) (first ++ [d])
    rw [List.append_assoc] at hrest
    exact (reads_of_extend (hg first d hd)).append hrest

/-- Digits that have to come, with the first one changing the phase. -/
theorem reads_digits_from (phase' : NumeralPhase) (g : List Nat → Numeral)
    (hfirst : ∀ d < 10, extendNumeral phase n (Nat.digitChar d) = some (phase', g [d]))
    (hg : ∀ ds d, d < 10 →
      extendNumeral phase' (g ds) (Nat.digitChar d) = some (phase', g (ds ++ [d])))
    (h0 : ds ≠ []) (h : Decimal ds) :
    (number phase n).Reads (digitsText ds) (number phase' (g ds)) := by
  rcases ds with _ | ⟨d, ds⟩
  · exact absurd rfl h0
  · exact (reads_of_extend (hfirst d (h d (List.mem_cons_self ..)))).append
      (reads_digits phase' g hg (fun e he => h e (List.mem_cons_of_mem d he)) [d])

theorem reads_first : ∀ b : Bool, ∀ d < 10, idle.Reads (signText b ++ [Nat.digitChar d])
    (number (if d = 0 then .zero else .whole) { negative := b, whole := [d] }) := by
  unfold Reads
  decide

end Mode

/-- The phases in which a point or an exponent may follow. -/
def NumeralPhase.AfterDigits (phase : NumeralPhase) : Prop :=
  phase = .zero ∨ phase = .whole ∨ phase = .fraction

theorem reads_whole (b : Bool) (h : Whole ds) :
    ∃ phase, (phase = .zero ∨ phase = .whole) ∧
      Mode.idle.Reads (signText b ++ digitsText ds)
        (.number phase { negative := b, whole := ds }) := by
  obtain ⟨hdecimal, rfl | ⟨d, ds, rfl, hd⟩⟩ := h
  · exact ⟨.zero, .inl rfl, Mode.reads_first b 0 (by decide)⟩
  · have hfirst := Mode.reads_first b d (hdecimal d (List.mem_cons_self ..))
    rw [if_neg hd] at hfirst
    have hrest := Mode.reads_digits .whole (fun ds => { negative := b, whole := ds })
      (fun ds d hd => by simp [extendNumeral, digit?_digitChar d hd])
      (fun e he => hdecimal e (List.mem_cons_of_mem d he)) [d]
    refine ⟨.whole, .inr rfl, ?_⟩
    simpa [digitsText] using hfirst.append hrest

theorem reads_fraction (hphase : phase = .zero ∨ phase = .whole) (hn : n.fraction = [])
    (h : Decimal ds) :
    ∃ phase', phase'.AfterDigits ∧
      (Mode.number phase n).Reads (fractionText ds) (.number phase' { n with fraction := ds }) := by
  by_cases h0 : ds = []
  · have hsame : { n with fraction := [] } = n := by rw [← hn]
    rw [h0, hsame]
    exact ⟨phase, hphase.imp_right .inl, rfl⟩
  · have hpoint : (Mode.number phase n).Reads ['.'] (.number .point n) :=
      Mode.reads_of_extend (by rcases hphase with rfl | rfl <;> rfl)
    have hdigits : (Mode.number .point n).Reads (digitsText ds)
        (.number .fraction { n with fraction := ds }) :=
      Mode.reads_digits_from .fraction (fun ds => { n with fraction := ds })
        (fun d hd => by simp [extendNumeral, digit?_digitChar d hd])
        (fun ds d hd => by simp [extendNumeral, digit?_digitChar d hd]) h0 h
    rw [fractionText, if_neg h0]
    exact ⟨.fraction, .inr (.inr rfl), hpoint.append hdigits⟩

theorem reads_exponent_digits (hphase : phase = .mark ∨ phase = .sign) (h0 : ds ≠ [])
    (h : Decimal ds) :
    (Mode.number phase n).Reads (digitsText ds) (.number .exponent { n with exponent := ds }) :=
  Mode.reads_digits_from .exponent (fun ds => { n with exponent := ds })
    (fun d hd => by rcases hphase with rfl | rfl <;> simp [extendNumeral, digit?_digitChar d hd])
    (fun ds d hd => by simp [extendNumeral, digit?_digitChar d hd]) h0 h

theorem reads_exponent (hphase : phase.AfterDigits) (h : n.ExponentSpelledBy x)
    (hx : Decimal n.exponent) :
    ∃ phase', phase'.complete = true ∧
      (Mode.number phase { n with exponentNegative := false, exponent := [] }).Reads x
        (.number phase' n) := by
  have hmark : ∀ {e : Char} {m : Numeral}, e = 'e' ∨ e = 'E' →
      (Mode.number phase m).Reads [e] (.number .mark m) := by
    rintro e m (rfl | rfl) <;>
      exact Mode.reads_of_extend (by rcases hphase with rfl | rfl | rfl <;> rfl)
  cases h with
  | none h0 hs =>
    have hsame : { n with exponentNegative := false, exponent := [] } = n := by rw [← hs, ← h0]
    rw [hsame]
    exact ⟨phase, by rcases hphase with rfl | rfl | rfl <;> rfl, rfl⟩
  | unsigned h0 hs he =>
    have hdigits := reads_exponent_digits
      (n := { n with exponentNegative := false, exponent := [] })
      (.inl rfl) h0 hx
    rw [← hs] at hdigits ⊢
    exact ⟨.exponent, rfl, (hmark he).append hdigits⟩
  | signed h0 he =>
    have hsign : (Mode.number .mark { n with exponentNegative := false, exponent := [] }).Reads
        [if n.exponentNegative then '-' else '+'] (.number .sign { n with exponent := [] }) := by
      cases hs : n.exponentNegative <;> exact Mode.reads_of_extend rfl
    have hdigits := reads_exponent_digits (n := { n with exponent := [] }) (.inr rfl) h0 hx
    exact ⟨.exponent, rfl, (hmark he).append (hsign.append hdigits)⟩

/-- A number that is spelled is read to its end, where it may end. -/
theorem reads_numeral (h : n.SpelledBy p) :
    ∃ phase, phase.complete = true ∧ Mode.idle.Reads p (.number phase n) := by
  obtain ⟨x, hexponent, rfl⟩ := h.spelling
  obtain ⟨phase, hphase, hwhole⟩ := reads_whole n.negative h.whole
  obtain ⟨phase', hphase', hfraction⟩ :=
    reads_fraction (n := { negative := n.negative, whole := n.whole }) hphase rfl h.fraction
  obtain ⟨phase'', hcomplete, hrest⟩ := reads_exponent hphase' hexponent h.exponent
  exact ⟨phase'', hcomplete, (hwhole.append hfraction).append hrest⟩

end FrameMachine.Json
