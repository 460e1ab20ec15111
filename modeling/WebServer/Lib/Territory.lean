import Mathlib.Data.Option.Basic
import Mathlib.Data.Set.Basic

/-!
# Lib/Territory — who owns which address

An allocator divides an address space.  A division is a map from addresses to owners; an owner
`Holds` a range when every address of it is his, so ranges of different owners are apart
(`Holds.apart`).  Ranges change hands by `grant`, which leaves every range that holds none of the
granted addresses (`Holds.grant_of_apart`).
-/

/-- **A division of the addresses** among owners. -/
abbrev Territory (ω : Type*) := ℕ → Option ω

/-- Two ranges, given by start and length, have no address in common. -/
def Apart (r r' : ℕ × ℕ) : Prop := ∀ x, r.1 ≤ x → x < r.1 + r.2 → ¬ (r'.1 ≤ x ∧ x < r'.1 + r'.2)

theorem Apart.symm {r r' : ℕ × ℕ} (h : Apart r r') : Apart r' r :=
  fun x h₁ h₂ h₃ => h x h₃.1 h₃.2 ⟨h₁, h₂⟩

theorem Apart.part {a n b k : ℕ} {r : ℕ × ℕ} (h : Apart (a, n) r) (hb : a ≤ b)
    (hk : b + k ≤ a + n) : Apart (b, k) r :=
  fun x hx hx' => h x (Nat.le_trans hb hx) (Nat.lt_of_lt_of_le hx' hk)

/-- Ranges that are apart, and not empty, lie one after the other. -/
theorem Apart.le_or_le {r r' : ℕ × ℕ} (h : Apart r r') (hr : 0 < r.2) (hr' : 0 < r'.2) :
    r.1 + r.2 ≤ r'.1 ∨ r'.1 + r'.2 ≤ r.1 := by
  by_cases hle : r.1 ≤ r'.1
  · have := h r'.1 hle
    omega
  · have := h r.1 (Nat.le_refl _) (by omega)
    omega

namespace Territory

variable {ω : Type*} {t : Territory ω} {u v : ω} {a n b k : ℕ}

/-- **An owner holds a range.** -/
def Holds (t : Territory ω) (u : ω) (a n : ℕ) : Prop := ∀ x, a ≤ x → x < a + n → t x = some u

/-- Nobody holds an address of a range. -/
def Vacant (t : Territory ω) (a n : ℕ) : Prop := ∀ x, a ≤ x → x < a + n → t x = none

/-- A range goes to an owner, or to nobody. -/
def grant (t : Territory ω) (u : Option ω) (a n : ℕ) : Territory ω :=
  fun x => if a ≤ x ∧ x < a + n then u else t x

theorem grant_of_mem {u : Option ω} {x : ℕ} (h : a ≤ x ∧ x < a + n) : t.grant u a n x = u :=
  if_pos h

theorem grant_of_notMem {u : Option ω} {x : ℕ} (h : ¬ (a ≤ x ∧ x < a + n)) :
    t.grant u a n x = t x := if_neg h

theorem holds_grant : (t.grant (some u) a n).Holds u a n := fun _ h h' => grant_of_mem ⟨h, h'⟩

/-- A part of a range that is held. -/
theorem Holds.part (h : t.Holds u a n) (hb : a ≤ b) (hk : b + k ≤ a + n) : t.Holds u b k :=
  fun x hx hx' => h x (by omega) (by omega)

/-- **Ranges of different owners are apart.** -/
theorem Holds.apart (h : t.Holds u a n) (h' : t.Holds v b k) (huv : u ≠ v) : Apart (a, n) (b, k) :=
  fun x hx hx' hb => huv (Option.some.inj ((h x hx hx').symm.trans (h' x hb.1 hb.2)))

/-- A vacant range is apart from one that is held. -/
theorem Vacant.apart (h : t.Vacant a n) (h' : t.Holds v b k) : Apart (a, n) (b, k) :=
  fun x hx hx' hb => absurd ((h x hx hx').symm.trans (h' x hb.1 hb.2)) (by simp)

/-- **A grant leaves what is apart from it.** -/
theorem Holds.grant_of_apart (h : t.Holds v b k) {w : Option ω} (ha : Apart (a, n) (b, k)) :
    (t.grant w a n).Holds v b k := fun x hx hx' => by
  rw [grant_of_notMem fun hin => ha x hin.1 hin.2 ⟨hx, hx'⟩]
  exact h x hx hx'

/-- A grant out of another owner's range leaves what is held. -/
theorem Holds.grant_of_ne (h : t.Holds v b k) (hu : t.Holds u a n) (huv : u ≠ v) {w : Option ω} :
    (t.grant w a n).Holds v b k := h.grant_of_apart (hu.apart h huv)

/-- A grant of a vacant range leaves what is held. -/
theorem Holds.grant_of_vacant (h : t.Holds v b k) (hu : t.Vacant a n) {w : Option ω} :
    (t.grant w a n).Holds v b k := h.grant_of_apart (hu.apart h)

end Territory
