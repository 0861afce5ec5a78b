import LiveMarkup.Decimal.Read

/-! Decimal digits are read as the number that they were written for. -/

namespace LiveMarkup.Decimal

variable {n : Nat}

theorem isDigit_of_mem_toDigits {c : Char} (h : c ∈ Nat.toDigits 10 n) : c.isDigit = true :=
  Nat.isDigit_of_mem_toDigits (by decide) (by decide) h

theorem natOfDigits_toDigits (n : Nat) : natOfDigits (Nat.toDigits 10 n) = n :=
  Nat.ofDigitChars_eq_foldl.symm.trans Nat.ofDigitChars_ten_toDigits

theorem toList_toString (n : Nat) : (toString n).toList = Nat.toDigits 10 n := Nat.toList_repr

private theorem readNat?_toDigits (n : Nat) : readNat? (Nat.toDigits 10 n) = some n := by
  rw [readNat?, if_pos, natOfDigits_toDigits]
  rw [Bool.and_eq_true, List.all_eq_true]
  exact ⟨by simp, fun c hc => isDigit_of_mem_toDigits hc⟩

/-- A position of 64 bits, written without a sign. -/
theorem readIndex?_toString (h : n < Nat.pow 2 64) : readIndex? (toString n).toList = some n := by
  have hplain : readIndex? (Nat.toDigits 10 n) = (readNat? (Nat.toDigits 10 n)).bind fun n =>
      if n < Nat.pow 2 64 then some n else none := by
    unfold readIndex?
    split
    · next rest heq =>
      have hplus : '+'.isDigit = true := isDigit_of_mem_toDigits (heq ▸ List.mem_cons_self)
      exact absurd hplus (by decide)
    · rfl
  rw [toList_toString, hplain, readNat?_toDigits, Option.bind_some]
  exact if_pos h

end LiveMarkup.Decimal
