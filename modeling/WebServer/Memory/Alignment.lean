import WebServer.Memory.Safety
import Mathlib.Data.Nat.ModEq

/-!
# Memory/Alignment — slots are aligned for what is placed in them

`padPointer` subtracts modulo `2⁶⁴`, so its result need not bring an address to a multiple of a slot
size that is no power of two.  It does so for every power of two that divides the slot size
(`dvd_add_padPointer`), and slots follow each other at multiples of it.
-/

namespace WebServer.Memory

/-! ## Padding -/

/-- **The padded address is a multiple of every power of two that divides the alignment** — a wrap
at `2⁶⁴` does not change residues of powers of two up to it. -/
theorem dvd_add_padPointer {p align k : ℕ} (hp : p ≤ 2 ^ 64) (hk : k ≤ 64) (h : 2 ^ k ∣ align) :
    2 ^ k ∣ p + MemoryPool.padPointer p align := by
  have hword : 2 ^ k ∣ 2 ^ 64 := Nat.pow_dvd_pow 2 hk
  have hpad : MemoryPool.padPointer p align ≡ align + 2 ^ 64 - p [MOD 2 ^ k] :=
    calc (align + 2 ^ 64 - p) % 2 ^ 64 % align
        ≡ (align + 2 ^ 64 - p) % 2 ^ 64 [MOD 2 ^ k] := (Nat.mod_modEq _ _).of_dvd h
      _ ≡ align + 2 ^ 64 - p [MOD 2 ^ k] := (Nat.mod_modEq _ _).of_dvd hword
  have hsum : p + MemoryPool.padPointer p align ≡ align + 2 ^ 64 [MOD 2 ^ k] := by
    have hadd := Nat.ModEq.add_left p hpad
    rwa [show p + (align + 2 ^ 64 - p) = align + 2 ^ 64 by omega] at hadd
  exact (Nat.modEq_zero_iff_dvd).mp (hsum.trans (Nat.modEq_zero_iff_dvd.mpr (Nat.dvd_add h hword)))

/-- **An address where a slot of a pool may stand.** -/
def SlotAligned (i : Fin 64) (p : ℕ) : Prop := ∀ k, 2 ^ k ∣ slotSize i → 2 ^ k ∣ p

namespace SlotAligned

variable {i : Fin 64} {p k : ℕ}

/-- A power of two that divides a slot size is at most 512. -/
theorem le_of_dvd (h : 2 ^ k ∣ slotSize i) : k ≤ 9 := by
  have hpos := slotSize_pos i
  have hle : 2 ^ k ≤ 2 ^ 9 := Nat.le_trans (Nat.le_of_dvd (by omega) h) (by omega)
  exact (Nat.pow_le_pow_iff_right (by decide)).mp hle

/-- The next slot. -/
theorem add_slotSize (h : SlotAligned i p) : SlotAligned i (p + slotSize i) :=
  fun k hk => Nat.dvd_add (h k hk) hk

/-- **The first slot of a block.** -/
theorem padded (hp : p ≤ 2 ^ 64) : SlotAligned i (p + MemoryPool.padPointer p (slotSize i)) :=
  fun _ hk => dvd_add_padPointer hp (Nat.le_trans (le_of_dvd hk) (by decide)) hk

end SlotAligned

/-- **A pointer that fits a size**: a multiple of 8, of every power of two that divides the slot
size, and of every power of two that divides the size, as the alignment of a type divides its size.
-/
structure Fits (size p : ℕ) : Prop where
  eight : 8 ∣ p
  slot (k : ℕ) : 2 ^ k ∣ 8 * ((size + 7) / 8) → 2 ^ k ∣ p
  object (k : ℕ) : 2 ^ k ∣ size → 2 ^ k ∣ p

/-- The slot size for a size. -/
theorem slotSize_poolId {size : ℕ} (hsize : 1 ≤ size) (hs : ¬ size > 512) :
    slotSize (Pools.poolId size hs) = 8 * ((size + 7) / 8) := by
  change 8 * ((size + 7) >>> 3 - 1 + 1) = _
  rw [Nat.shiftRight_eq_div_pow]
  omega

theorem SlotAligned.fits {size p : ℕ} (hsize : 1 ≤ size) (hs : ¬ size > 512)
    (h : SlotAligned (Pools.poolId size hs) p) : Fits size p := by
  have hslot := slotSize_poolId hsize hs
  have height : 8 ∣ p := h 3 (hslot ▸ Nat.dvd_mul_right 8 _)
  refine ⟨height, fun k hk => h k (hslot ▸ hk), fun k hk => ?_⟩
  obtain hle | hgt := Nat.lt_or_ge 3 k |>.symm
  · exact Nat.dvd_trans (Nat.pow_dvd_pow 2 hle) height
  · -- a size that is a multiple of 16 is its own slot size
    have hdvd : 8 ∣ size := Nat.dvd_trans (Nat.pow_dvd_pow 2 (Nat.le_of_lt hgt)) hk
    have heq : 8 * ((size + 7) / 8) = size := by omega
    exact h k (by rw [hslot, heq]; exact hk)

/-! ## Runs -/

namespace Process

/-- **What a run keeps**: the slots that are free, and the next one to be cut, are aligned. -/
def KeptAligned (s : Process) : Prop := ∃ t blocks frees, Divided s t blocks frees ∧
  (∀ i, ∀ p ∈ frees i, SlotAligned i p) ∧ (∀ i, SlotAligned i (s.pools.pool i).currentSlot) ∧
  ∀ r ∈ s.live, ∀ h : ¬ r.2 > 512, SlotAligned (Pools.poolId r.2 h) r.1

variable {s : Process} {t : Territory Owner} {blocks frees : Fin 64 → List ℕ} {i : Fin 64}

/-- The next slot of a pool. -/
theorem advance_aligned {pool : MemoryPool} (hslot : pool.slotSize = slotSize i)
    (h : SlotAligned i pool.currentSlot) : SlotAligned i pool.advance.currentSlot := by
  rw [MemoryPool.advance, hslot, slotSize_shift]
  exact h.add_slotSize

/-- **A call of `allocate` returns an aligned slot**, and the next one is aligned too. -/
theorem allocate_aligned (h : Divided s t blocks frees) (hfree : ∀ p ∈ frees i, SlotAligned i p)
    (hcur : SlotAligned i (s.pools.pool i).currentSlot) {new : ℕ}
    (hnew : (s.pools.pool i).needsBlock = true → Fresh s.owned new blockSize) :
    SlotAligned i ((s.pools.pool i).allocate s.pools.mem new).1 ∧
      SlotAligned i ((s.pools.pool i).allocate s.pools.mem new).2.1.currentSlot := by
  have hslot := (h.pool i).slotSize
  unfold MemoryPool.allocate MemoryPool.nofreeSolve
  by_cases hne : (s.pools.pool i).freeSlot ≠ 0
  · rw [if_pos hne]
    obtain ⟨hmem, -⟩ := h.reuse_sub (slotSize_small i) (poolId_slotSize i _).symm hne
    exact ⟨hfree _ hmem, hcur⟩
  · rw [if_neg hne]
    by_cases hfull : (s.pools.pool i).currentSlot ≥ (s.pools.pool i).lastSlot
    · have hyes : (s.pools.pool i).needsBlock = true := by
        simpa [MemoryPool.needsBlock, hfull] using hne
      have hrange : new + blockSize ≤ 2 ^ 64 := (hnew hyes).2.1
      have hbs : blockSize = 4096 := rfl
      have hw : wordSize = 8 := rfl
      have hfirst : SlotAligned i ((s.pools.pool i).enterBlock new).currentSlot := by
        rw [MemoryPool.enterBlock, hslot]
        exact .padded (by omega)
      rw [if_pos hfull]
      exact ⟨hfirst, advance_aligned hslot hfirst⟩
    · rw [if_neg hfull]
      exact ⟨hcur, advance_aligned hslot hcur⟩

/-- **`use_Memory` returns an aligned pointer**, and what the pools hold stays aligned. -/
theorem KeptAligned.use (h : s.KeptAligned) {size new : ℕ} (hsize : 1 ≤ size)
    (hnew : ∀ n, s.pools.request size = some n → Fresh s.owned new n) :
    KeptAligned ⟨(s.pools.useMemory size new).2, s.ownedAfter size new,
      ((s.pools.useMemory size new).1, size) :: s.live⟩ := by
  obtain ⟨t, blocks, frees, h, hfree, hcur, hlive⟩ := h
  obtain ⟨t', blocks', frees', hsub, h'⟩ := divided_use h hsize hnew
  refine ⟨t', blocks', frees', h', fun i p hp => hfree i p (hsub i hp), ?_⟩
  by_cases hs : size > 512
  · have h0 : size ≠ 0 := by omega
    rw [Pools.useMemory, if_neg h0, dif_pos hs]
    refine ⟨hcur, fun r hr hsmall => ?_⟩
    rcases List.mem_cons.mp hr with rfl | hr
    · exact absurd hs hsmall
    · exact hlive r hr hsmall
  · obtain ⟨i, hi⟩ : ∃ i, i = Pools.poolId size hs := ⟨_, rfl⟩
    have hask : (s.pools.pool i).needsBlock = true → Fresh s.owned new blockSize := fun hneeds =>
      hnew _ (by rw [request_small s.pools hsize hs hi, if_pos hneeds])
    obtain ⟨hret, hnext⟩ := allocate_aligned h (hfree i) (hcur i) hask
    rw [useMemory_small s.pools new hsize hs hi]
    refine ⟨fun j => ?_, fun r hr hsmall => ?_⟩
    · by_cases hj : j = i
      · subst hj
        dsimp only
        rw [Function.update_self]
        exact hnext
      · dsimp only
        rw [Function.update_of_ne hj]
        exact hcur j
    · rcases List.mem_cons.mp hr with rfl | hr
      · exact hi ▸ hret
      · exact hlive r hr hsmall

/-- **`free_Memory` puts aligned slots back.** -/
theorem KeptAligned.free (h : s.KeptAligned) {size p : ℕ} (hp : (p, size) ∈ s.live) :
    KeptAligned ⟨s.pools.freeMemory size p,
      if size > 512 then s.owned.erase (p, size) else s.owned, s.live.erase (p, size)⟩ := by
  obtain ⟨t, blocks, frees, h, hfree, hcur, hlive⟩ := h
  have hrest : ∀ r ∈ s.live.erase (p, size), ∀ h : ¬ r.2 > 512,
      SlotAligned (Pools.poolId r.2 h) r.1 := fun r hr => hlive r (List.mem_of_mem_erase hr)
  by_cases hs : size > 512
  · obtain ⟨t', h'⟩ := h.giveLarge hs hp
    rw [if_pos hs, Pools.freeMemory, dif_pos hs, ite_self]
    exact ⟨t', blocks, frees, h', hfree, hcur, hrest⟩
  · obtain ⟨hp0, h'⟩ := h.give_head hs rfl hp
    rw [if_neg hs, Pools.freeMemory, if_neg hp0, dif_neg hs, MemoryPool.deAllocate, if_pos hp0]
    refine ⟨t, blocks, _, h', fun j q hq => ?_, fun j => ?_, hrest⟩
    · by_cases hj : j = Pools.poolId size hs
      · subst hj
        rw [Function.update_self] at hq
        rcases List.mem_cons.mp hq with rfl | hq
        · exact hlive _ hp hs
        · exact hfree _ q hq
      · rw [Function.update_of_ne hj] at hq
        exact hfree j q hq
    · by_cases hj : j = Pools.poolId size hs
      · subst hj
        dsimp only
        rw [Function.update_self]
        exact hcur _
      · dsimp only
        rw [Function.update_of_ne hj]
        exact hcur j

/-- **One step keeps what is aligned.** -/
theorem KeptAligned.step {s' : Process} {c : Call} (h : s.KeptAligned) (hs : Step s c s') :
    s'.KeptAligned := by
  cases hs with
  | use hsize hnew => exact h.use hsize hnew
  | free hp => exact h.free hp
  | write hm =>
    obtain ⟨t, blocks, frees, h, hkept⟩ := h
    exact ⟨t, blocks, frees, h.write hm, hkept⟩

theorem keptAligned_init (m : Memory) : (init m).KeptAligned := by
  obtain ⟨t, blocks, frees, h⟩ := kept_init m
  refine ⟨t, blocks, frees, h, fun i p hp => ?_, fun i _ _ => Nat.dvd_zero _,
    fun r hr => absurd hr List.not_mem_nil⟩
  rw [(h.pool i).freeChain.unique .nil] at hp
  exact absurd hp List.not_mem_nil

/-- **Every pointer that `use_Memory` returns fits its size**, wherever `operator new` puts the
blocks. -/
theorem use_fits_of_run {m : Memory} {as : List Call} {s s' : Process} {size new : ℕ}
    (r : Run Step (init m) as s) (hs : Step s (.useMemory size new) s') (hle : size ≤ 512) :
    Fits size (s.pools.useMemory size new).1 := by
  have hkept : s'.KeptAligned :=
    (r.invariant (I := KeptAligned) (fun _ _ _ h hs => h.step hs) (keptAligned_init m)).step hs
  obtain ⟨t, blocks, frees, -, -, -, hlive⟩ := hkept
  cases hs with
  | use hsize hnew =>
    have hsmall : ¬ size > 512 := Nat.not_lt.mpr hle
    exact (hlive _ (List.mem_cons_self ..) hsmall).fits hsize hsmall

/-- The first 48 bytes, from a block at `4096`: a multiple of 16, and not of 48. -/
theorem use_fits_of_run_first : ∃ p, Fits 48 p ∧ 16 ∣ p ∧ ¬ 48 ∣ p := by
  obtain ⟨s, hs⟩ : ∃ s, Step (init fun _ => 0) (.useMemory 48 4096) s := by
    refine ⟨_, .use (by decide) fun n hn => ?_⟩
    obtain rfl : blockSize = n := Option.some.inj hn
    exact ⟨by decide, by decide, fun _ h => absurd h List.not_mem_nil⟩
  exact ⟨_, use_fits_of_run (.nil _) hs (by decide), by decide, by decide⟩

end Process

end WebServer.Memory
