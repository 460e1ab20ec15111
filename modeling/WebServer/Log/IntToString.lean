import WebServer.Lib.Numeral
import Mathlib.Data.Int.Notation

/-!
# Log/IntToString — the characters of an integer

`IntToString` takes the digits off its argument by C remainders, which are negative for a negative
number, through a table that is mirrored at zero.  The loop ends when the number is zero, and the
sign is tested after it: the digits come out right for every number (`intToString_eq`), the sign of
a negative one does not.
-/

namespace WebServer.Log

/-! ## The code -/

/-- `digits` -/
def digits : Bytes := text "9876543210123456789"

/-- `zero[index]`, where `zero` is `digits + 9`. -/
def zero (index : ℤ) : UInt8 := digits.getD (9 + index).toNat 0

/-- **The loop of `IntToString`**: the characters it stores, and the number it ends with. -/
def digitLoop (number : ℤ) : Bytes × ℤ :=
  let index := number.tmod 10
  let number' := number.tdiv 10
  if _h : number' ≠ 0 then (zero index :: (digitLoop number').1, (digitLoop number').2)
  else ([zero index], number')
termination_by number.natAbs
decreasing_by
  all_goals
    have hdiv : (number.tdiv 10).natAbs = number.natAbs / 10 := Int.natAbs_tdiv number 10
    have hne : number.tdiv 10 ≠ 0 := _h
    omega

/-- **`IntToString`**: what it leaves in `buffer`, up to the terminating null, and what it returns.
-/
def intToString (number : ℤ) : Bytes × ℕ :=
  let r := digitLoop number
  let buf := if r.2 < 0 then r.1 ++ text "-" else r.1
  (buf.reverse ++ [0], buf.length)

/-- `kMaxNumberSize` -/
def kMaxNumberSize : ℕ := 32

/-- **The integer types** that the stream accepts; `short` and `unsigned short` are converted to
`int` and `unsigned int`, which hold their values. -/
inductive IntType
  | short
  | unsignedShort
  | int
  | unsignedInt
  | long
  | unsignedLong
  | longLong
  | unsignedLongLong

/-- The size of a type in bits. -/
def IntType.bits : IntType → ℕ
  | .short | .unsignedShort => 16
  | .int | .unsignedInt => 32
  | .long | .unsignedLong | .longLong | .unsignedLongLong => 64

def IntType.isSigned : IntType → Bool
  | .short | .int | .long | .longLong => true
  | .unsignedShort | .unsignedInt | .unsignedLong | .unsignedLongLong => false

/-- **The values of a type.** -/
def IntType.InRange (t : IntType) (n : ℤ) : Prop :=
  if t.isSigned then -2 ^ (t.bits - 1) ≤ n ∧ n < 2 ^ (t.bits - 1) else 0 ≤ n ∧ n < 2 ^ t.bits

instance (t : IntType) (n : ℤ) : Decidable (t.InRange n) := by
  unfold IntType.InRange
  infer_instance

/-! ## What is to be written -/

/-- **The decimal representation of an integer**: a numeral, behind a minus sign if it is negative.
-/
def IsDecimal (s : Bytes) (n : ℤ) : Prop :=
  if n < 0 then ∃ t, s = text "-" ++ t ∧ IsNumeral t n.natAbs else IsNumeral s n.natAbs

/-- **An integer is written exactly**: its decimal representation and a null, its length, within the
room that `FormatInt` asks for. -/
structure Exact (n : ℤ) : Prop where
  decimal : ∃ s, (intToString n).1 = s ++ [0] ∧ IsDecimal s n ∧ (intToString n).2 = s.length
  fits : (intToString n).1.length ≤ kMaxNumberSize

/-! ## The loop -/

/-- The mirrored table. -/
theorem zero_eq : ∀ d < 10, zero (d : ℕ) = digitByte d ∧ zero (-(d : ℕ)) = digitByte d := by
  decide

/-- **A digit of a number**, whatever its sign. -/
theorem zero_tmod (n : ℤ) : zero (n.tmod 10) = digitByte (n.natAbs % 10) := by
  obtain ⟨m, rfl | rfl⟩ := n.eq_nat_or_neg
  · rw [Int.natAbs_natCast]
    exact (zero_eq _ (Nat.mod_lt m (by decide))).1
  · rw [Int.natAbs_neg, Int.natAbs_natCast, Int.neg_tmod]
    exact (zero_eq _ (Nat.mod_lt m (by decide))).2

theorem natAbs_tdiv (n : ℤ) : (n.tdiv 10).natAbs = n.natAbs / 10 := Int.natAbs_tdiv n 10

/-- **The loop stores the digits** of the absolute value, and ends with zero. -/
theorem digitLoop_eq (n : ℤ) :
    digitLoop n = ((numeralDigits n.natAbs).map digitByte, 0) := by
  induction n using digitLoop.induct with
  | case1 n number' hne ih =>
    have hdiv : number'.natAbs = n.natAbs / 10 := natAbs_tdiv n
    have hle : 10 ≤ n.natAbs := by omega
    rw [digitLoop, dif_pos hne, ih, numeralDigits_of_le hle, ← hdiv, List.map_cons, zero_tmod]
  | case2 n number' hz =>
    have hz : number' = 0 := not_not.mp hz
    have hdiv : number'.natAbs = n.natAbs / 10 := natAbs_tdiv n
    have hlt : n.natAbs < 10 := by omega
    rw [digitLoop, dif_neg (not_not.mpr hz), numeralDigits_of_lt hlt, zero_tmod,
      Nat.mod_eq_of_lt hlt]
    exact Prod.ext rfl hz

/-- **What `IntToString` leaves**: the numeral of the absolute value. -/
theorem intToString_eq (n : ℤ) :
    intToString n = (numeral n.natAbs ++ [0], (numeral n.natAbs).length) := by
  rw [intToString, digitLoop_eq]
  dsimp only
  rw [if_neg (lt_irrefl 0), numeral, List.length_reverse]

/-! ## Exactness -/

section Exact

variable {t : IntType} {n : ℤ}

theorem IntType.InRange.natAbs_lt (h : t.InRange n) : n.natAbs < 10 ^ 20 := by
  unfold IntType.InRange at h
  cases t <;> simp [IntType.isSigned, IntType.bits] at h <;> omega

/-- The characters and their null fit. -/
theorem length_intToString_le (h : t.InRange n) : (intToString n).2 + 1 ≤ 21 := by
  rw [intToString_eq]
  exact Nat.succ_le_succ (length_numeral_le (by decide) h.natAbs_lt)

/-- **A number that is not negative is written exactly.** -/
theorem exact_of_nonneg (h : t.InRange n) (hn : 0 ≤ n) : Exact n := by
  have hlen := length_intToString_le h
  rw [intToString_eq] at hlen
  refine ⟨⟨numeral n.natAbs, by rw [intToString_eq], ?_, by rw [intToString_eq]⟩, ?_⟩
  · rw [IsDecimal, if_neg (not_lt.mpr hn)]
    exact isNumeral_numeral _
  · rw [intToString_eq, List.length_append, List.length_singleton]
    exact Nat.le_trans hlen (by decide)

/-- **The sign of a negative number is lost.** -/
theorem not_exact_of_neg (hn : n < 0) : ¬ Exact n := by
  rintro ⟨⟨s, hs, hdec, -⟩, -⟩
  rw [intToString_eq] at hs
  obtain rfl : numeral n.natAbs = s := List.append_cancel_right hs
  rw [IsDecimal, if_pos hn] at hdec
  obtain ⟨t, ht, -⟩ := hdec
  have hdigit := (isNumeral_numeral n.natAbs).digit 45 (by rw [ht]; exact List.mem_cons_self ..)
  exact absurd hdigit (by decide)

/-- **Exactly the numbers that are not negative are written exactly**, of every type. -/
theorem exact_iff (h : t.InRange n) : Exact n ↔ 0 ≤ n :=
  ⟨fun he => not_lt.mp fun hn => not_exact_of_neg hn he, exact_of_nonneg h⟩

/-- The greatest `unsigned long long`. -/
theorem exact_iff_max : Exact 18446744073709551615 :=
  (exact_iff (t := .unsignedLongLong) (by decide)).mpr (by decide)

/-- **`-1` is written as `1`.** -/
theorem not_exact_int : ¬ ∀ (t : IntType) (n : ℤ), t.InRange n → Exact n := fun h =>
  not_exact_of_neg (by decide) (h .int (-1) (by decide))

end Exact

end WebServer.Log
