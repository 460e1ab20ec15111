import Mathlib.Data.Int.CardIntervalMod

/-!
# Lib/Turns — handing things out in turn

Turns go round `n` places, and some of them are lost: their place gets nothing.  `T` turns visit
every place `T / n` times, and the first `T % n` places once more (`count_turns`), so what the
places got is even exactly if the lost turns fell evenly (`even_iff_evenlyLost`).
-/

namespace Turns

/-- **How often `T` turns visit place `i`.** -/
theorem count_turns {n i : ℕ} (hi : i < n) (T : ℕ) :
    Nat.count (fun t => t % n = i) T = T / n + if i < T % n then 1 else 0 := by
  have hturn (t : ℕ) : t % n = i ↔ t ≡ i [MOD n] := by rw [Nat.ModEq, Nat.mod_eq_of_lt hi]
  simp only [hturn]
  rw [Nat.count_modEq_card T (Nat.zero_lt_of_lt hi), Nat.mod_eq_of_lt hi]

/-- Turns that come one after another, from turn `t` on. -/
theorem count_turns_add (n i t T : ℕ) :
    Nat.count (fun s => s % n = i) t + Nat.count (fun s => (t % n + s) % n = i) T
      = Nat.count (fun s => s % n = i) (t + T) := by
  rw [Nat.count_add]
  simp only [Nat.mod_add_mod]

/-! ## Even distributions -/

/-- **An even distribution** over `n` places: no place has two more than another. -/
def Even (n : ℕ) (c : ℕ → ℕ) : Prop := ∀ i < n, ∀ j < n, c i ≤ c j + 1

/-- **Evenly lost turns**, of `T`: two places that were visited equally often have lost equally
many, up to one; and a place that the last round has visited has lost as many as one it has not, or
up to two more. -/
def EvenlyLost (n T : ℕ) (lost : ℕ → ℕ) : Prop :=
  ∀ i < n, ∀ j < n,
    lost j + (if i < T % n then 1 else 0) ≤ lost i + (if j < T % n then 1 else 0) + 1

variable {n : ℕ} {c lost : ℕ → ℕ}

instance (n : ℕ) (c : ℕ → ℕ) : Decidable (Even n c) := by
  unfold Even
  infer_instance

instance (n T : ℕ) (lost : ℕ → ℕ) : Decidable (EvenlyLost n T lost) := by
  unfold EvenlyLost
  infer_instance

/-- **What the turns gave is even** exactly if they were lost evenly. -/
theorem even_iff_evenlyLost {T : ℕ}
    (h : ∀ i < n, c i + lost i = Nat.count (fun t => t % n = i) T) :
    Even n c ↔ EvenlyLost n T lost := by
  have hcount (i : ℕ) (hi : i < n) : c i + lost i = T / n + if i < T % n then 1 else 0 := by
    rw [h i hi, count_turns hi]
  constructor
  · intro heven i hi j hj
    have hij := heven i hi j hj
    have hci := hcount i hi
    have hcj := hcount j hj
    omega
  · intro hlost i hi j hj
    have hij := hlost i hi j hj
    have hci := hcount i hi
    have hcj := hcount j hj
    omega

end Turns
