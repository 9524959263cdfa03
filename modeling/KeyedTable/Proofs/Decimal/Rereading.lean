import KeyedTable.Decimal.Integer

namespace KeyedTable.Decimal

variable {bound value : Nat} {beyond : IntegerFault} {cs : List Char} {text : String}

theorem le_ofDigitChars (value : Nat) (cs : List Char) : value ≤ Nat.ofDigitChars 10 cs value := by
  induction cs generalizing value with
  | nil => exact Nat.le_refl value
  | cons c cs ih =>
    rw [Nat.ofDigitChars_cons]
    exact Nat.le_trans (by omega) (ih _)

theorem readDigits_eq (h : ∀ c ∈ cs, c.isDigit) (hvalue : value ≤ bound) :
    readDigits bound beyond value cs =
      if Nat.ofDigitChars 10 cs value ≤ bound then .ok (Nat.ofDigitChars 10 cs value)
      else .error beyond := by
  induction cs generalizing value with
  | nil => rw [readDigits, Nat.ofDigitChars_nil, if_pos hvalue]
  | cons c cs ih =>
    obtain ⟨hc, hcs⟩ := List.forall_mem_cons.mp h
    have hnext : 10 * value + (c.toNat - '0'.toNat) = value * 10 + digitValue c := by
      rw [Nat.mul_comm, digitValue]
    rw [readDigits, if_pos hc, Nat.ofDigitChars_cons, hnext]
    by_cases hle : value * 10 + digitValue c ≤ bound
    · rw [if_pos hle, ih hcs hle]
    · -- More digits do not bring the number back below the bound.
      have hgrows := le_ofDigitChars (value * 10 + digitValue c) cs
      rw [if_neg hle, if_neg (by omega)]

theorem readDigits_toDigits (bound : Nat) (beyond : IntegerFault) (n : Nat) :
    readDigits bound beyond 0 (Nat.toDigits 10 n) = if n ≤ bound then .ok n else .error beyond := by
  have hdigits : ∀ c ∈ Nat.toDigits 10 n, c.isDigit := fun c hc =>
    Nat.isDigit_of_mem_toDigits (by decide) (by decide) hc
  rw [readDigits_eq hdigits (Nat.zero_le bound), Nat.ofDigitChars_ten_toDigits]

theorem exists_digit_toDigits (n : Nat) :
    ∃ d ds, Nat.toDigits 10 n = d :: ds ∧ d ≠ '+' ∧ d ≠ '-' := by
  obtain ⟨d, ds, heq⟩ := List.exists_cons_of_ne_nil (@Nat.toDigits_ne_nil n 10)
  have hdigit : d.isDigit :=
    Nat.isDigit_of_mem_toDigits (by decide) (by decide) (heq ▸ List.mem_cons_self)
  refine ⟨d, ds, heq, ?_, ?_⟩
  · rintro rfl
    exact absurd hdigit (by decide)
  · rintro rfl
    exact absurd hdigit (by decide)

theorem readSigned_natural {n : Nat} (h : text.toList = Nat.toDigits 10 n) :
    readSigned text = if n ≤ maxSigned then .ok (Int.ofNat n) else .error .tooLarge := by
  obtain ⟨d, ds, heq, hplus, hminus⟩ := exists_digit_toDigits n
  have hread : readSigned text =
      (readDigits maxSigned .tooLarge 0 (Nat.toDigits 10 n)).map Int.ofNat := by
    rw [readSigned, h, heq]
    split <;> simp_all
  rw [hread, readDigits_toDigits]
  split <;> rfl

theorem readSigned_negative {n : Nat} (h : text.toList = '-' :: Nat.toDigits 10 n) :
    readSigned text = if n ≤ maxSigned + 1 then .ok (-Int.ofNat n) else .error .tooSmall := by
  obtain ⟨d, ds, heq, -, -⟩ := exists_digit_toDigits n
  have hread : readSigned text =
      (readDigits (maxSigned + 1) .tooSmall 0 (Nat.toDigits 10 n)).map fun n => -Int.ofNat n := by
    rw [readSigned, h, heq]
    rfl
  rw [hread, readDigits_toDigits]
  split <;> rfl

theorem readCount_natural {n : Nat} (h : text.toList = Nat.toDigits 10 n) :
    readCount text = if n ≤ maxCount then .ok n else .error .tooLarge := by
  obtain ⟨d, ds, heq, hplus, -⟩ := exists_digit_toDigits n
  have hread : readCount text = readDigits maxCount .tooLarge 0 (Nat.toDigits 10 n) := by
    rw [readCount, readUnsigned, h, heq]
    split <;> simp_all
  rw [hread, readDigits_toDigits]

end KeyedTable.Decimal
