/-!
# Numerals

Integers in decimal, naturals in hexadecimal. Both print without leading zeros, so a number has
one numeral (`hex_injective`, `decimal_injective`).
-/

namespace FrameMachine.Text

/-- The decimal numeral of an integer: a minus sign only below zero. -/
def decimal (i : Int) : String :=
  if i < 0 then "-" ++ i.natAbs.repr else i.natAbs.repr

/-- The hexadecimal digits of a natural, lower case, most significant first. -/
def hexDigits (n : Nat) : List Char := Nat.toDigits 16 n

/-- The hexadecimal numeral of a natural, with no mark in front. -/
def hex (n : Nat) : String := String.ofList (hexDigits n)

/-- A text moved right with blanks until it is `width` characters wide. -/
def alignRight (width : Nat) (text : String) : String :=
  String.ofList (text.toList.leftpad width ' ')

theorem digitChar_inj {a b : Nat} (ha : a < 16) (hb : b < 16) (h : a.digitChar = b.digitChar) :
    a = b := by
  have key : ∀ a < 16, ∀ b < 16, Nat.digitChar a = Nat.digitChar b → a = b := by decide
  exact key a ha b hb h

theorem hexDigits_injective : ∀ {m n : Nat}, hexDigits m = hexDigits n → m = n := by
  intro m
  induction m using Nat.strongRecOn with
  | ind m ih =>
    intro n h
    unfold hexDigits at h ih
    rw [Nat.toDigits_eq_if (by decide), Nat.toDigits_eq_if (n := n) (by decide)] at h
    split at h <;> split at h
    · rename_i hm hn
      exact digitChar_inj hm hn (by simpa using h)
    · have := congrArg List.length h
      simp at this
    · have := congrArg List.length h
      simp at this
    · have hcut := List.append_inj' h rfl
      have hdiv := ih (m / 16) (by omega) hcut.1
      have hmod := digitChar_inj (Nat.mod_lt m (by decide)) (Nat.mod_lt n (by decide))
        (by simpa using hcut.2)
      omega

theorem hex_injective {m n : Nat} (h : hex m = hex n) : m = n :=
  hexDigits_injective (String.ofList_injective h)

theorem repr_injective {m n : Nat} (h : m.repr = n.repr) : m = n := by
  rw [Nat.repr_eq_ofList_toDigits, Nat.repr_eq_ofList_toDigits] at h
  rw [← Nat.ofDigitChars_ten_toDigits (n := m), String.ofList_injective h,
    Nat.ofDigitChars_ten_toDigits]

theorem repr_ne_minus (n : Nat) (s : String) : n.repr ≠ "-" ++ s := by
  intro h
  have hlist := congrArg String.toList h
  rw [Nat.repr_eq_ofList_toDigits] at hlist
  simp at hlist
  have hmem : '-' ∈ Nat.toDigits 10 n := by rw [hlist]; simp
  have := Nat.isDigit_of_mem_toDigits (by decide) (by decide) hmem
  simp at this

theorem decimal_injective {i j : Int} (h : decimal i = decimal j) : i = j := by
  unfold decimal at h
  split at h <;> split at h
  · have := repr_injective (String.append_right_inj _ |>.1 h)
    omega
  · exact absurd h.symm (repr_ne_minus _ _)
  · exact absurd h (repr_ne_minus _ _)
  · have := repr_injective h
    omega

end FrameMachine.Text
