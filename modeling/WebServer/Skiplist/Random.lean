import Mathlib.GroupTheory.SpecificGroups.Cyclic.Basic
import Mathlib.NumberTheory.LucasPrimality
import Mathlib.Tactic.NormNum.Prime
import Mathlib.Tactic.ReduceModChar

/-!
# Skiplist/Random — a generator that visits every number

`Next` multiplies the seed by `A` modulo the prime `M = 2³¹ - 1`, with a shift and a mask in place
of the division.  The seed stays between `0` and `M`, no product overflows, and since `A` is a
primitive root of `M`, every number between them is the seed once in each period (`next_period`).
-/

namespace WebServer.Skiplist

namespace Random

/-! ## The modulus -/

/-- `M` -/
def modulus : UInt32 := 2147483647

/-- `A` -/
def multiplier : UInt64 := 16807

theorem pow_eq_one : (16807 : ZMod 2147483647) ^ (2147483647 - 1) = 1 := by
  reduce_mod_char

/-- The prime factors of `M - 1`. -/
theorem mem_of_dvd {q : ℕ} (hq : q.Prime) (hdvd : q ∣ 2147483647 - 1) :
    q ∈ [2, 3, 3, 7, 11, 31, 151, 331] := by
  have hprime : ∀ p ∈ [2, 3, 3, 7, 11, 31, 151, 331], Nat.Prime p := by norm_num
  have hprod : 2147483647 - 1 = [2, 3, 3, 7, 11, 31, 151, 331].prod := by decide
  rw [hprod, hq.prime.dvd_prod_iff] at hdvd
  obtain ⟨p, hp, hqp⟩ := hdvd
  rwa [(Nat.prime_dvd_prime_iff_eq hq (hprime p hp)).mp hqp]

/-- The powers at the exponents where one prime factor is left out. -/
theorem pow_ne_one {q : ℕ} (hq : q.Prime) (hdvd : q ∣ 2147483647 - 1) :
    (16807 : ZMod 2147483647) ^ ((2147483647 - 1) / q) ≠ 1 := by
  have hmem := mem_of_dvd hq hdvd
  -- one power for each factor
  simp only [List.mem_cons, List.not_mem_nil, or_false] at hmem
  rcases hmem with rfl | rfl | rfl | rfl | rfl | rfl | rfl | rfl <;> reduce_mod_char <;> decide

/-- **`M` is prime.** -/
theorem prime_modulus : Nat.Prime 2147483647 :=
  lucas_primality _ 16807 pow_eq_one fun _ => pow_ne_one

/-- **`A` is a primitive root.** -/
theorem orderOf_multiplier : orderOf (16807 : ZMod 2147483647) = 2147483646 :=
  orderOf_eq_of_pow_and_pow_div_prime (by decide) pow_eq_one fun _ => pow_ne_one

/-! ## One step -/

/-- What the constructor makes of its argument. -/
def startSeed (s : UInt32) : UInt32 :=
  let seed := s &&& 0x7fffffff
  if seed = 0 ∨ seed = 2147483647 then 1 else seed

/-- What `Next` makes of the seed. -/
def nextSeed (seed : UInt32) : UInt32 :=
  let product := seed.toUInt64 * multiplier
  let seed := ((product >>> 31) + (product &&& modulus.toUInt64)).toUInt32
  if seed > modulus then seed - modulus else seed

theorem startSeed_bounds (s : UInt32) :
    0 < (startSeed s).toNat ∧ (startSeed s).toNat < 2147483647 := by
  have hmask : (s &&& 0x7fffffff).toNat = s.toNat % 2 ^ 31 := by
    rw [UInt32.toNat_and]
    exact Nat.and_two_pow_sub_one_eq_mod s.toNat 31
  rw [startSeed]
  split
  · decide
  · next hne =>
    rw [not_or, ← UInt32.toNat_inj, ← UInt32.toNat_inj, hmask] at hne
    rw [hmask]
    simp only [UInt32.reduceToNat] at hne
    omega

/-- The shift and the mask cut a product in two. -/
theorem toNat_folded (product : UInt64) (h : product.toNat < 2 ^ 46) :
    ((product >>> 31) + (product &&& modulus.toUInt64)).toUInt32.toNat
      = product.toNat / 2 ^ 31 + product.toNat % 2 ^ 31 := by
  have hmask : (product &&& modulus.toUInt64).toNat = product.toNat % 2 ^ 31 := by
    rw [UInt64.toNat_and]
    exact Nat.and_two_pow_sub_one_eq_mod product.toNat 31
  have hshift : (product >>> 31).toNat = product.toNat / 2 ^ 31 := by
    rw [UInt64.toNat_shiftRight]
    exact Nat.shiftRight_eq_div_pow product.toNat 31
  have hsum : product.toNat / 2 ^ 31 + product.toNat % 2 ^ 31 < 2 ^ 32 := by omega
  rw [UInt64.toNat_toUInt32, UInt64.toNat_add, hmask, hshift,
    Nat.mod_eq_of_lt (hsum.trans (by decide)), Nat.mod_eq_of_lt hsum]

/-- **A step is a multiplication modulo `M`.** -/
theorem toNat_nextSeed {seed : UInt32} (h0 : 0 < seed.toNat) (h : seed.toNat < 2147483647) :
    (nextSeed seed).toNat = seed.toNat * 16807 % 2147483647 ∧ 0 < (nextSeed seed).toNat := by
  have hproduct : (seed.toUInt64 * multiplier).toNat = seed.toNat * 16807 := by
    have hlt : seed.toNat * 16807 < 2 ^ 64 := by omega
    rw [UInt64.toNat_mul, UInt32.toNat_toUInt64]
    exact Nat.mod_eq_of_lt hlt
  have hfolded := toNat_folded (seed.toUInt64 * multiplier) (by omega)
  rw [hproduct] at hfolded
  -- a sum that is `M` would make the product a multiple of `M`
  have hdvd : ¬ 2147483647 ∣ seed.toNat * 16807 := fun hd => by
    rcases prime_modulus.dvd_mul.mp hd with hd | hd
    · exact absurd (Nat.le_of_dvd h0 hd) (by omega)
    · exact absurd (Nat.le_of_dvd (by decide) hd) (by decide)
  have hmod : modulus.toNat = 2147483647 := rfl
  rw [nextSeed]
  split
  · next hgt =>
    rw [gt_iff_lt, UInt32.lt_iff_toNat_lt, hfolded, hmod] at hgt
    rw [UInt32.toNat_sub_of_le _ _ (by rw [UInt32.le_iff_toNat_le, hfolded, hmod]; omega), hfolded,
      hmod]
    omega
  · next hle =>
    rw [gt_iff_lt, UInt32.lt_iff_toNat_lt, hfolded, hmod] at hle
    rw [hfolded]
    omega

end Random

/-! ## The generator -/

/-- **`Random`**, with a seed that is a residue other than zero. -/
@[ext] structure Random where
  seed : UInt32
  pos : 0 < seed.toNat
  lt : seed.toNat < 2147483647

namespace Random

/-- The constructor. -/
def ofSeed (s : UInt32) : Random := ⟨startSeed s, (startSeed_bounds s).1, (startSeed_bounds s).2⟩

/-- **`Next`**; its result is the new seed. -/
def next (r : Random) : Random where
  seed := nextSeed r.seed
  pos := (toNat_nextSeed r.pos r.lt).2
  lt := by
    rw [(toNat_nextSeed r.pos r.lt).1]
    exact Nat.mod_lt _ (by decide)

/-- **Every seed is made** by the constructor, of itself. -/
theorem ofSeed_seed (r : Random) : ofSeed r.seed = r := by
  have hmask : r.seed &&& 0x7fffffff = r.seed := by
    rw [← UInt32.toNat_inj, UInt32.toNat_and]
    refine (Nat.and_two_pow_sub_one_eq_mod r.seed.toNat 31).trans (Nat.mod_eq_of_lt ?_)
    exact r.lt.trans (by decide)
  have hne : ¬ (r.seed = 0 ∨ r.seed = 2147483647) := by
    rintro (h | h)
    · exact absurd (congrArg UInt32.toNat h) r.pos.ne'
    · exact absurd (congrArg UInt32.toNat h) r.lt.ne
  have hstart : startSeed r.seed = r.seed := by
    rw [startSeed, hmask]
    exact if_neg hne
  exact Random.ext hstart

/-- The seed as a residue. -/
def residue (r : Random) : ZMod 2147483647 := r.seed.toNat

theorem residue_ne_zero (r : Random) : r.residue ≠ 0 := by
  rw [residue, Ne, ZMod.natCast_eq_zero_iff]
  exact fun h => absurd (Nat.le_of_dvd r.pos h) (Nat.not_le.mpr r.lt)

theorem residue_inj {r r' : Random} (h : r.residue = r'.residue) : r = r' := by
  rw [residue, residue, ZMod.natCast_eq_natCast_iff', Nat.mod_eq_of_lt r.lt,
    Nat.mod_eq_of_lt r'.lt] at h
  exact Random.ext (UInt32.toNat_inj.mp h)

/-- **Many steps** are one multiplication by a power. -/
theorem residue_iterate (r : Random) (k : ℕ) : (next^[k] r).residue = r.residue * 16807 ^ k := by
  induction k with
  | zero => rw [pow_zero, mul_one, Function.iterate_zero_apply]
  | succ k ih =>
    have hnext (r : Random) : r.next.residue = r.residue * 16807 := by
      rw [residue, next, (toNat_nextSeed r.pos r.lt).1, ZMod.natCast_mod, Nat.cast_mul, residue]
      rfl
    rw [Function.iterate_succ_apply', hnext, ih, pow_succ, mul_assoc]

/-- **The generator visits every number** — from any seed, and each can be what the constructor
starts with, each seed is reached after exactly one number of steps below `M - 1`. -/
theorem next_period (r r' : Random) :
    (∃ s, ofSeed s = r) ∧ ∃! k, k < 2147483646 ∧ next^[k] r = r' := by
  refine ⟨⟨r.seed, r.ofSeed_seed⟩, ?_⟩
  have hg : (16807 : ZMod 2147483647) ≠ 0 := by decide
  have : Fact (Nat.Prime 2147483647) := ⟨prime_modulus⟩
  obtain ⟨g, hgval⟩ : ∃ g : (ZMod 2147483647)ˣ, g = Units.mk0 16807 hg := ⟨_, rfl⟩
  have horder : orderOf g = 2147483646 := by
    rw [← orderOf_units, hgval, Units.val_mk0, orderOf_multiplier]
  have htop : Subgroup.zpowers g = ⊤ := by
    refine Subgroup.eq_top_of_card_eq _ ?_
    rw [Nat.card_zpowers, horder, Nat.card_eq_fintype_card, ZMod.card_units_eq_totient,
      Nat.totient_prime prime_modulus]
  -- `k` steps lead from one seed to the other when this power is their quotient
  have hsteps (k : ℕ) : next^[k] r = r' ↔
      g ^ k = (Units.mk0 _ r.residue_ne_zero)⁻¹ * Units.mk0 _ r'.residue_ne_zero := by
    rw [eq_inv_mul_iff_mul_eq, Units.ext_iff, Units.val_mul, Units.val_pow_eq_pow_val, hgval,
      Units.val_mk0, Units.val_mk0, Units.val_mk0, ← residue_iterate]
    exact ⟨congrArg residue, residue_inj⟩
  have hmem : (Units.mk0 _ r.residue_ne_zero)⁻¹ * Units.mk0 _ r'.residue_ne_zero ∈
      Subgroup.zpowers g := htop ▸ Subgroup.mem_top _
  obtain ⟨k, hk, hpow⟩ := Finset.mem_image.mp (mem_zpowers_iff_mem_range_orderOf.mp hmem)
  rw [Finset.mem_range, horder] at hk
  refine ⟨k, ⟨hk, (hsteps k).mpr hpow⟩, fun l ⟨hl, hlr⟩ => ?_⟩
  exact pow_injOn_Iio_orderOf (Set.mem_Iio.mpr (horder ▸ hl)) (Set.mem_Iio.mpr (horder ▸ hk))
    (((hsteps l).mp hlr).trans hpow.symm)

end Random

end WebServer.Skiplist
