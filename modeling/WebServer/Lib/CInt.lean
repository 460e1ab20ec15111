import Mathlib.Algebra.Group.Int.Defs
import Mathlib.Algebra.Group.Nat.Defs
import Mathlib.Data.Int.Notation

/-!
# Lib/CInt — the type `int`

An `int` is an integer below `2³¹` in absolute value.  A longer one that is converted wraps around;
a sum that is not an `int` is undefined.
-/

namespace CInt

/-- A conversion to `int`. -/
def convert (n : ℤ) : ℤ := n.bmod (2 ^ 32)

/-- `INT_MAX` -/
def intMax : ℕ := 2 ^ 31 - 1

/-- The sum of two `int`s. -/
def add (a b : ℤ) : Option ℤ := if -2 ^ 31 ≤ a + b ∧ a + b < 2 ^ 31 then some (a + b) else none

variable {a b c n : ℤ}

/-- **A number that fits is converted to itself.** -/
theorem convert_of_lt (h0 : 0 ≤ n) (h : n < 2 ^ 31) : convert n = n := by
  rw [convert, Int.bmod_eq_emod]
  split <;> omega

/-- One that does not become negative does not become larger. -/
theorem toNat_convert_le (h0 : 0 ≤ n) (h : 0 ≤ convert n) :
    (convert n).toNat ≤ n.toNat ∧ convert n < 2 ^ 31 := by
  rw [convert, Int.bmod_eq_emod] at h ⊢
  split at h <;> split <;> omega

/-- A `size_t` that fits is stored as it is. -/
theorem convert_natCast {k : ℕ} (h : k ≤ intMax) : convert k = k :=
  convert_of_lt (Int.natCast_nonneg k) (by rw [intMax] at h; omega)

theorem toNat_convert_natCast {k : ℕ} (h : 0 ≤ convert k) :
    (convert k).toNat ≤ k ∧ (convert k).toNat ≤ intMax := by
  obtain ⟨hle, hlt⟩ := toNat_convert_le (Int.natCast_nonneg k) h
  rw [Int.toNat_natCast] at hle
  refine ⟨hle, ?_⟩
  rw [intMax]
  omega

theorem add_of_lt (h0 : 0 ≤ a + b) (h : a + b < 2 ^ 31) : add a b = some (a + b) :=
  if_pos ⟨by omega, h⟩

/-- A sum that is defined is the sum. -/
theorem eq_of_add (h : add a b = some c) : c = a + b := by
  unfold add at h
  split at h
  · exact (Option.some.inj h).symm
  · exact absurd h (by simp)

end CInt
