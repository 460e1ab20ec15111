import WebServer.Lib.Bytes
import Mathlib.Data.Nat.Digits.Lemmas

/-!
# Lib/Numeral — decimal numerals

A numeral of a number is a row of decimal digits that has this value and no leading zero.  `numeral`
writes it from `Nat.digits`; the other way is `Nat.ofDigits`.
-/

/-- The character of a digit. -/
def digitByte (d : ℕ) : UInt8 := UInt8.ofNat (48 + d)

/-- The digit of a character. -/
def byteDigit (c : UInt8) : ℕ := c.toNat - 48

/-- **The digits of a number**, the last one first; zero has one. -/
def numeralDigits (n : ℕ) : List ℕ := if n = 0 then [0] else Nat.digits 10 n

/-- **The numeral of a number.** -/
def numeral (n : ℕ) : Bytes := ((numeralDigits n).map digitByte).reverse

/-- **A row of characters is the numeral of a number**: digits only, of this value, and a leading
zero stands alone. -/
structure IsNumeral (s : Bytes) (n : ℕ) : Prop where
  digit (c : UInt8) : c ∈ s → 48 ≤ c ∧ c ≤ 57
  value : Nat.ofDigits 10 (s.reverse.map byteDigit) = n
  leading : ∃ c t, s = c :: t ∧ (c = 48 → t = [])

/-! ## Digits and characters -/

section Digit

variable {d : ℕ}

theorem toNat_digitByte (h : d < 10) : (digitByte d).toNat = 48 + d := by
  rw [digitByte, UInt8.toNat_ofNat']
  omega

@[simp] theorem byteDigit_digitByte (h : d < 10) : byteDigit (digitByte d) = d := by
  rw [byteDigit, toNat_digitByte h]
  omega

theorem digitByte_bounds (h : d < 10) : 48 ≤ digitByte d ∧ digitByte d ≤ 57 := by
  rw [UInt8.le_iff_toNat_le, UInt8.le_iff_toNat_le, toNat_digitByte h]
  exact ⟨Nat.le_add_right .., Nat.add_le_add_left (Nat.le_of_lt_succ h) 48⟩

theorem digitByte_eq_zero (h : d < 10) (he : digitByte d = 48) : d = 0 := by
  have := congrArg UInt8.toNat he
  rw [toNat_digitByte h] at this
  exact Nat.add_left_cancel (m := d) (k := 0) this

end Digit

/-! ## The digits of a number -/

section Digits

variable {n : ℕ}

theorem lt_ten_of_mem_numeralDigits {d : ℕ} (h : d ∈ numeralDigits n) : d < 10 := by
  rw [numeralDigits] at h
  split at h
  · obtain rfl := List.mem_singleton.mp h
    decide
  · exact Nat.digits_lt_base (by decide) h

theorem numeralDigits_ne_nil (n : ℕ) : numeralDigits n ≠ [] := by
  rw [numeralDigits]
  split
  · exact List.cons_ne_nil _ _
  · exact Nat.digits_ne_nil_iff_ne_zero.mpr ‹_›

/-- A number below ten is its own digit. -/
theorem numeralDigits_of_lt (h : n < 10) : numeralDigits n = [n] := by
  rw [numeralDigits]
  split
  · next h0 => rw [h0]
  · next h0 => exact Nat.digits_of_lt 10 n h0 h

/-- **The last digit, and the digits before it.** -/
theorem numeralDigits_of_le (h : 10 ≤ n) : numeralDigits n = n % 10 :: numeralDigits (n / 10) := by
  rw [numeralDigits, if_neg (by omega), Nat.digits_def' (by decide) (by omega), numeralDigits,
    if_neg (by omega)]

theorem ofDigits_numeralDigits (n : ℕ) : Nat.ofDigits 10 (numeralDigits n) = n := by
  rw [numeralDigits]
  split
  · next h0 => rw [h0]; rfl
  · exact Nat.ofDigits_digits 10 n

/-- The first digit is a zero only of zero. -/
theorem getLast_numeralDigits (h : (numeralDigits n).getLast (numeralDigits_ne_nil n) = 0) :
    numeralDigits n = [0] := by
  by_cases h0 : n = 0
  · rw [numeralDigits, if_pos h0]
  · have hne := Nat.getLast_digit_ne_zero 10 h0
    simp only [numeralDigits, if_neg h0] at h
    exact absurd h hne

theorem length_numeralDigits_le {k : ℕ} (hk : 0 < k) (h : n < 10 ^ k) :
    (numeralDigits n).length ≤ k := by
  rw [numeralDigits]
  split
  · exact hk
  · exact (Nat.digits_length_le_iff (by decide) n).mpr h

end Digits

/-! ## Numerals -/

/-- **`numeral` writes the numeral.** -/
theorem isNumeral_numeral (n : ℕ) : IsNumeral (numeral n) n where
  digit c hc := by
    obtain ⟨d, hd, rfl⟩ := List.mem_map.mp (List.mem_reverse.mp hc)
    exact digitByte_bounds (lt_ten_of_mem_numeralDigits hd)
  value := by
    have hback : (numeralDigits n).map (byteDigit ∘ digitByte) = numeralDigits n :=
      (List.map_congr_left fun d hd =>
        byteDigit_digitByte (lt_ten_of_mem_numeralDigits hd)).trans (List.map_id _)
    rw [numeral, List.reverse_reverse, List.map_map, hback, ofDigits_numeralDigits]
  leading := by
    have hne := numeralDigits_ne_nil n
    have hsplit := List.dropLast_append_getLast hne
    refine ⟨digitByte ((numeralDigits n).getLast hne),
      (((numeralDigits n).dropLast).map digitByte).reverse, ?_, fun hzero => ?_⟩
    · conv_lhs => rw [numeral, ← hsplit]
      rw [List.map_append, List.reverse_append]
      rfl
    · have hlast := digitByte_eq_zero (lt_ten_of_mem_numeralDigits (List.getLast_mem hne)) hzero
      rw [getLast_numeralDigits hlast]
      rfl

theorem length_numeral_le {n k : ℕ} (hk : 0 < k) (h : n < 10 ^ k) : (numeral n).length ≤ k := by
  rw [numeral, List.length_reverse, List.length_map]
  exact length_numeralDigits_le hk h
