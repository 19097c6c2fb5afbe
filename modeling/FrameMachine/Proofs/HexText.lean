import FrameMachine.Double.Hex
import Mathlib.Data.List.TakeWhile
import Mathlib.Data.Nat.Digits.Defs

/-!
# The hexadecimal text of a double shows its bits

The text begins with the sign, and what follows says by its first characters of which form it is.
In the finite form the fraction ends at the `p`, and each exponent belongs to one form of number:
those of subnormals lie under those of normal ones. So the text gives back sign, exponent and
fraction (`hexText_injective`).
-/

namespace FrameMachine

namespace Text

/-- A text is cut at a mark in one way, if there is no such mark before it. -/
theorem cut_at_mark {α : Type} {a : α} {l l' r r' : List α} (hl : a ∉ l) (hl' : a ∉ l')
    (h : l ++ a :: r = l' ++ a :: r') : l = l' ∧ r = r' := by
  rcases List.append_eq_append_iff.1 h with ⟨mid, rfl, hr⟩ | ⟨mid, rfl, hr⟩
  · cases mid with
    | nil => exact ⟨by simp, by simpa using hr⟩
    | cons b mid =>
      obtain ⟨rfl, -⟩ := List.cons.inj hr
      simp at hl'
  · cases mid with
    | nil => exact ⟨by simp, by simpa using hr.symm⟩
    | cons b mid =>
      obtain ⟨rfl, -⟩ := List.cons.inj hr
      simp at hl

variable {c : Char} {n : Nat}

theorem notMem_decimal (h : c.isDigit = false) : c ∉ Nat.toDigits 10 n := by
  intro hc
  simp [Nat.isDigit_of_mem_toDigits (by decide) (by decide) hc] at h

/-- What is no hexadecimal digit is not in a hexadecimal numeral. -/
theorem notMem_hexDigits (h : ∀ d < 16, Nat.digitChar d ≠ c) : c ∉ hexDigits n := by
  induction n using Nat.strongRecOn with
  | ind n ih =>
    unfold hexDigits at ih ⊢
    rw [Nat.toDigits_eq_if (by decide)]
    split
    · rename_i hn
      simpa [eq_comm] using h n hn
    · rw [List.mem_append, not_or]
      refine ⟨ih (n / 16) (by omega), ?_⟩
      simpa [eq_comm] using h (n % 16) (Nat.mod_lt n (by decide))

/-- What a hexadecimal digit counts. -/
def hexDigit (c : Char) : Nat := "0123456789abcdef".toList.idxOf c

/-- The number that hexadecimal digits spell. -/
def hexValue (digits : List Char) : Nat := digits.foldl (fun v c => 16 * v + hexDigit c) 0

theorem hexValue_concat (l : List Char) (c : Char) :
    hexValue (l ++ [c]) = 16 * hexValue l + hexDigit c := by
  simp [hexValue]

theorem hexDigit_digitChar : ∀ d < 16, hexDigit (Nat.digitChar d) = d := by decide

theorem hexValue_hexDigits (n : Nat) : hexValue (hexDigits n) = n := by
  induction n using Nat.strongRecOn with
  | ind n ih =>
    unfold hexDigits at ih ⊢
    rw [Nat.toDigits_eq_if (by decide)]
    split
    · rename_i hn
      simp [hexValue, hexDigit_digitChar n hn]
    · rw [hexValue_concat, ih (n / 16) (by omega),
        hexDigit_digitChar _ (Nat.mod_lt n (by decide))]
      omega

theorem hexValue_leftpad (width : Nat) (l : List Char) :
    hexValue (l.leftpad width '0') = hexValue l := by
  have hzeros : ∀ k, hexValue (List.replicate k '0') = 0 := by
    intro k
    induction k with
    | zero => rfl
    | succ k ih => rw [List.replicate_succ', hexValue_concat, ih]; rfl
  unfold List.leftpad
  generalize width - l.length = k
  have h := hzeros k
  unfold hexValue at h ⊢
  rw [List.foldl_append, h]

/-- Zeros at the end multiply. -/
theorem hexValue_append_zeros (l : List Char) (k : Nat) :
    hexValue (l ++ List.replicate k '0') = hexValue l * 16 ^ k := by
  induction k with
  | zero => simp
  | succ k ih =>
    rw [List.replicate_succ', ← List.append_assoc, hexValue_concat, ih, Nat.pow_succ]
    change 16 * _ + 0 = _
    ring

end Text

namespace Double

open Text

variable {e e' f f' : Nat} {x x' : Int}

/-- The digits of a fraction with the zeros at their end are all thirteen. -/
theorem fractionDigits_append_zeros (hf : f < 2 ^ 52) :
    fractionDigits f ++ List.replicate (13 - (fractionDigits f).length) '0' =
      (hexDigits f).leftpad 13 '0' := by
  have hwidth : ((hexDigits f).leftpad 13 '0').length = 13 := by
    have := Nat.toDigits_length 16 f 13 (by decide) (by omega)
    rw [List.length_leftpad, hexDigits]
    omega
  unfold fractionDigits
  generalize (hexDigits f).leftpad 13 '0' = digits at hwidth
  have hcut := List.takeWhile_append_dropWhile (l := digits.reverse) (p := (· = '0'))
  have hzeros : digits.reverse.takeWhile (· = '0') =
      List.replicate (13 - (digits.reverse.dropWhile (· = '0')).length) '0' := by
    have hlength := congrArg List.length hcut
    rw [List.length_append, List.length_reverse, hwidth] at hlength
    rw [List.eq_replicate_iff]
    refine ⟨by omega, fun c hc => by simpa using List.mem_takeWhile_imp hc⟩
  rw [← List.reverse_inj, List.reverse_append, List.reverse_reverse, List.reverse_replicate,
    List.length_reverse, ← hzeros, hcut]

theorem fractionDigits_inj (hf : f < 2 ^ 52) (hf' : f' < 2 ^ 52)
    (h : fractionDigits f = fractionDigits f') : f = f' := by
  have hvalue : ∀ {g}, g < 2 ^ 52 →
      hexValue (fractionDigits g) * 16 ^ (13 - (fractionDigits g).length) = g := by
    intro g hg
    rw [← hexValue_append_zeros, fractionDigits_append_zeros hg, hexValue_leftpad,
      hexValue_hexDigits]
  rw [← hvalue hf, ← hvalue hf', h]

theorem notMem_fractionDigits {c : Char} (h : ∀ d < 16, Nat.digitChar d ≠ c) (f : Nat) :
    c ∉ fractionDigits f := by
  intro hc
  have hc : c ∈ (hexDigits f).leftpad 13 '0' :=
    List.mem_reverse.1 ((List.dropWhile_sublist _).subset (List.mem_reverse.1 hc))
  rcases List.mem_append.1 hc with hc | hc
  · exact h 0 (by decide) (List.eq_of_mem_replicate hc).symm
  · exact notMem_hexDigits h hc

theorem toList_binaryText (f : Nat) (x : Int) :
    (binaryText f x).toList = '0' :: 'x' :: '1' ::
      ((if f = 0 then [] else '.' :: fractionDigits f)
        ++ 'p' :: (if x < 0 then '-' else '+') :: x.natAbs.repr.toList) := by
  unfold binaryText
  split <;> split <;> simp

theorem binaryText_inj (hf : f < 2 ^ 52) (hf' : f' < 2 ^ 52)
    (h : binaryText f x = binaryText f' x') : f = f' ∧ x = x' := by
  have hp : ∀ g, 'p' ∉ if g = 0 then [] else '.' :: fractionDigits g := by
    intro g
    split
    · exact List.not_mem_nil
    · simpa using notMem_fractionDigits (by decide) g
  have h := congrArg String.toList h
  simp only [toList_binaryText, List.cons.injEq, true_and] at h
  obtain ⟨hfraction, hexponent⟩ := cut_at_mark (hp f) (hp f') h
  obtain ⟨hsign, hdigits⟩ := List.cons.inj hexponent
  have habs := repr_injective (String.toList_injective hdigits)
  refine ⟨?_, ?_⟩
  · split_ifs at hfraction with h0 h0' h0'
    · rw [h0, h0']
    · exact fractionDigits_inj hf hf' (List.cons.inj hfraction).2
  · split_ifs at hsign
    · omega
    · simp at hsign
    · simp at hsign
    · omega

/-- The forms of the text under the sign. -/
inductive Form
  | infinity
  | quiet
  | nan (fraction : Nat)
  | zero
  | finite (fraction : Nat) (exponent : Int)

namespace Form

def text : Form → String
  | infinity => "inf"
  | quiet => "nan"
  | nan fraction => "nan:0x" ++ hex fraction
  | zero => "0x0p+0"
  | finite fraction exponent => binaryText fraction exponent

theorem newline_notMem_text (a : Form) : '\n' ∉ a.text.toList := by
  have hdecimal : ∀ n, '\n' ∉ Nat.toDigits 10 n := fun n => notMem_decimal rfl
  have hdigits : ∀ n, '\n' ∉ hexDigits n := fun n => notMem_hexDigits (by decide)
  have hfraction : ∀ n, '\n' ∉ fractionDigits n := notMem_fractionDigits (by decide)
  cases a with
  | finite fraction exponent =>
    simp only [text, toList_binaryText]
    split_ifs <;> simp [hdecimal, hfraction]
  | _ => simp [text, hex, hdigits]

/-- A finite form has 52 bits to show. -/
def Fits : Form → Prop
  | finite fraction _ => fraction < 2 ^ 52
  | _ => True

/-- The form of the bits under the sign. -/
def of (exponent fraction : Nat) : Form :=
  if exponent = 0x7ff then
    if fraction = 0 then infinity else if fraction = 1 <<< 51 then quiet else nan fraction
  else if exponent = 0 then
    if fraction = 0 then zero
    else finite ((fraction - 1 <<< fraction.log2) <<< (52 - fraction.log2))
      ((fraction.log2 : Int) - 1074)
  else finite fraction ((exponent : Int) - 1023)

theorem text_of (e f : Nat) : (of e f).text = magnitudeText e f := by
  unfold of magnitudeText subnormalText
  split_ifs <;> rfl

theorem text_inj {a b : Form} (ha : a.Fits) (hb : b.Fits) (h : a.text = b.text) : a = b := by
  have hlist := congrArg String.toList h
  cases a <;> cases b <;> simp [text, toList_binaryText, hex] at hlist ⊢
  · exact hexDigits_injective hlist
  · exact binaryText_inj ha hb h

theorem log2_bounds (h0 : f ≠ 0) (hf : f < 2 ^ 52) :
    f.log2 < 52 ∧ 2 ^ f.log2 ≤ f ∧ f < 2 * 2 ^ f.log2 := by
  refine ⟨(Nat.log2_lt h0).2 hf, Nat.log2_self_le h0, ?_⟩
  rw [← Nat.pow_succ']
  exact Nat.lt_log2_self

theorem fits_of (hf : f < 2 ^ 52) : (of e f).Fits := by
  unfold of
  split_ifs with _ _ _ _ h0
  any_goals trivial
  · obtain ⟨htop, hle, hlt⟩ := log2_bounds h0 hf
    rw [Fits, Nat.shiftLeft_eq, Nat.one_shiftLeft]
    calc (f - 2 ^ f.log2) * 2 ^ (52 - f.log2)
        < 2 ^ f.log2 * 2 ^ (52 - f.log2) :=
          Nat.mul_lt_mul_of_pos_right (by omega) (Nat.two_pow_pos _)
      _ = 2 ^ 52 := by rw [← Nat.pow_add]; congr 1; omega

/-- No exponent is of a subnormal and of a normal number, and a subnormal's gives the place of its
highest bit. -/
theorem of_inj (hf : f < 2 ^ 52) (hf' : f' < 2 ^ 52) (h : of e f = of e' f') :
    e = e' ∧ f = f' := by
  unfold of at h
  split_ifs at h
  any_goals cases h
  any_goals omega
  · rename_i h0 _ _ h0'
    obtain ⟨hshown, hexponent⟩ := finite.inj h
    obtain ⟨-, hle, -⟩ := log2_bounds h0 hf
    obtain ⟨-, hle', -⟩ := log2_bounds h0' hf'
    have htop : f.log2 = f'.log2 := by omega
    rw [← htop] at hle'
    simp only [← htop, Nat.shiftLeft_eq, Nat.one_mul] at hshown
    have hrest := Nat.eq_of_mul_eq_mul_right (Nat.two_pow_pos _) hshown
    omega
  · rename_i h0 _ _
    have := (log2_bounds h0 hf).1
    obtain ⟨-, hexponent⟩ := finite.inj h
    omega
  · rename_i h0'
    have := (log2_bounds h0' hf').1
    obtain ⟨-, hexponent⟩ := finite.inj h
    omega
  · obtain ⟨hshown, hexponent⟩ := finite.inj h
    omega

end Form

theorem magnitudeText_inj (hf : f < 2 ^ 52) (hf' : f' < 2 ^ 52)
    (h : magnitudeText e f = magnitudeText e' f') : e = e' ∧ f = f' := by
  rw [← Form.text_of, ← Form.text_of] at h
  exact Form.of_inj hf hf' (Form.text_inj (Form.fits_of hf) (Form.fits_of hf') h)

theorem magnitudeText_ne_minus (e f : Nat) (s : String) : magnitudeText e f ≠ "-" ++ s := by
  intro h
  have h := congrArg String.toList h
  rw [← Form.text_of] at h
  cases hform : Form.of e f <;> simp [hform, Form.text, toList_binaryText] at h

/-- The fields of a double are its bits. -/
theorem ext_fields {d d' : Double} (hsign : d.isNegative = d'.isNegative)
    (hexponent : d.exponentField = d'.exponentField) (hfraction : d.fraction = d'.fraction) :
    d = d' := by
  rcases d with ⟨bits⟩
  rcases d' with ⟨bits'⟩
  have hlt := bits.toNat_lt
  have hlt' := bits'.toNat_lt
  simp only [isNegative, exponentField, fraction, Nat.shiftRight_eq_div_pow, Nat.one_shiftLeft,
    decide_eq_decide] at hsign hexponent hfraction
  have hbits : bits.toNat = bits'.toNat := by omega
  rw [UInt64.toNat_inj.1 hbits]

/-- Doubles with the same text have the same bits. -/
theorem hexText_injective {d d' : Double} (h : d.hexText = d'.hexText) : d = d' := by
  have hfraction : ∀ d : Double, d.fraction < 2 ^ 52 := fun d => Nat.mod_lt _ (by decide)
  have hmagnitude : d.isNegative = d'.isNegative
      ∧ magnitudeText d.exponentField d.fraction = magnitudeText d'.exponentField d'.fraction := by
    unfold hexText at h
    rcases hs : d.isNegative <;> rcases hs' : d'.isNegative <;> simp [hs, hs'] at h ⊢
    · exact h
    · exact magnitudeText_ne_minus _ _ _ h
    · exact magnitudeText_ne_minus _ _ _ h.symm
    · exact h
  obtain ⟨hexponent, hfrac⟩ := magnitudeText_inj (hfraction d) (hfraction d') hmagnitude.2
  exact ext_fields hmagnitude.1 hexponent hfrac

theorem newline_notMem_hexText (d : Double) : '\n' ∉ d.hexText.toList := by
  have hmagnitude := Form.newline_notMem_text (.of d.exponentField d.fraction)
  rw [Form.text_of] at hmagnitude
  unfold hexText
  split <;> simp [hmagnitude]

end Double

end FrameMachine
