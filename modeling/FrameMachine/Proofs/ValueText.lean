import FrameMachine.Instruction
import FrameMachine.Proofs.HexText

/-!
# The text of a value shows it

The text of a value begins with its kind, and what follows gives back the rest of it
(`Value.text_injective`). It is one line, so the text of an instruction is, and up to the first
blank that one is the mnemonic: it shows the opcode, and the operand where the opcode takes one
(`Instruction.text_eq_iff`).
-/

namespace FrameMachine

open Text

namespace Value

variable {a b : Value}

/-- Values with the same text are the same. -/
theorem text_injective (h : a.text = b.text) : a = b := by
  have hcolon : ∀ n, ':' ∉ Nat.toDigits 10 n := fun n => notMem_decimal rfl
  have hlist := congrArg String.toList h
  cases a <;> cases b <;> simp [text] at hlist ⊢
  case integer.integer n m =>
    exact Int64.toInt_inj.1 (decimal_injective (String.toList_injective hlist))
  case double.double d d' => exact Double.hexText_injective (String.toList_injective hlist)
  case native.native name name' =>
    rcases name with ⟨name, _⟩
    rcases name' with ⟨name', _⟩
    simpa using String.toList_injective hlist
  case userDefined.userDefined u u' =>
    rcases u with ⟨tag, payload, _⟩
    rcases u' with ⟨tag', payload', _⟩
    obtain ⟨htag, hpayload⟩ := cut_at_mark (hcolon _) (hcolon _) hlist
    simp only [List.cons.injEq, true_and, String.toList_inj] at hpayload
    have htag := repr_injective (String.toList_injective (by simpa using htag))
    have hpayload := hex_injective hpayload
    simp [UInt16.toNat_inj.1 htag, UInt64.toNat_inj.1 hpayload]

theorem newline_notMem_text (v : Value) : '\n' ∉ v.text.toList := by
  have hdecimal : ∀ n, '\n' ∉ Nat.toDigits 10 n := fun n => notMem_decimal rfl
  have hdigits : ∀ n, '\n' ∉ hexDigits n := fun n => notMem_hexDigits (by decide)
  cases v with
  | null | undefined => decide
  | integer n =>
    simp only [text, decimal]
    split <;> simp [hdecimal]
  | double d => simp [text, d.newline_notMem_hexText]
  | native name => simp [text, name.oneLine]
  | userDefined u => simp [text, hex, hdecimal, hdigits]

end Value

namespace Opcode

theorem mnemonic_injective {o o' : Opcode} (h : o.mnemonic = o'.mnemonic) : o = o' := by
  have h := congrArg ofMnemonic? h
  simpa [ofMnemonic?_mnemonic] using h

theorem blank_notMem_mnemonic (o : Opcode) : ' ' ∉ o.mnemonic.toList := by
  cases o <;> decide

theorem newline_notMem_mnemonic (o : Opcode) : '\n' ∉ o.mnemonic.toList := by
  cases o <;> decide

end Opcode

namespace Instruction

variable {i j : Instruction}

/-- The text of an instruction shows its opcode and an operand that means something. -/
theorem text_eq_iff : i.text = j.text ↔
    i.opcode = j.opcode ∧ (i.opcode.takesOperand = true → i.operand = j.operand) := by
  have hi := i.opcode.blank_notMem_mnemonic
  have hj := j.opcode.blank_notMem_mnemonic
  constructor
  · intro h
    have h := congrArg String.toList h
    unfold text at h
    split_ifs at h with hti htj htj
    · simp only [String.toList_append, List.append_assoc] at h
      obtain ⟨hop, hoperand⟩ := cut_at_mark hi hj h
      exact ⟨Opcode.mnemonic_injective (String.toList_injective hop),
        fun _ => Value.text_injective (String.toList_injective hoperand)⟩
    · simp [← h] at hj
    · simp [h] at hi
    · exact ⟨Opcode.mnemonic_injective (String.toList_injective h), fun ht => absurd ht hti⟩
  · rintro ⟨hop, hoperand⟩
    unfold text
    rw [← hop]
    split
    · rw [hoperand ‹_›]
    · rfl

theorem newline_notMem_text (i : Instruction) : '\n' ∉ i.text.toList := by
  have hmnemonic := i.opcode.newline_notMem_mnemonic
  have hoperand := i.operand.newline_notMem_text
  unfold text
  split <;> simp [hmnemonic, hoperand]

end Instruction

end FrameMachine
