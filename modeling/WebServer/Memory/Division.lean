import WebServer.Memory.MemoryPool

/-!
# Memory/Division — how the pools divide the memory

Every address the process got from `operator new` has an owner: the link word of a block, a slot,
the rest of a pool's current block, or a large region.  `Divided` ties the pools to such a division,
and each thing a pool does keeps it: a slot is cut off the rest of a block, changes hands without
changing its range, and a new block falls into a link word and a rest.
-/

namespace WebServer.Memory

/-! ## Owners -/

/-- **Who owns an address.** -/
inductive Owner
  | link (b : ℕ)
  | slot (i : Fin 64) (p : ℕ)
  | rest (i : Fin 64)
  | large (p : ℕ)

/-- The slot size of a pool. -/
def slotSize (i : Fin 64) : ℕ := 8 * (i + 1)

theorem slotSize_pos (i : Fin 64) : 8 ≤ slotSize i ∧ slotSize i ≤ 512 := by
  unfold slotSize
  omega

theorem slotSize_init (i : Fin 64) : ((i : ℕ) + 1) <<< 3 = slotSize i := by
  rw [Nat.shiftLeft_eq, slotSize]
  omega

theorem slotSize_shift (i : Fin 64) : (slotSize i >>> 3) * wordSize = slotSize i := by
  rw [Nat.shiftRight_eq_div_pow, slotSize, wordSize]
  omega

/-- A size fits the slots of its pool. -/
theorem le_slotSize {size : ℕ} (h : ¬ size > 512) : size ≤ slotSize (Pools.poolId size h) := by
  change size ≤ 8 * ((size + 7) >>> 3 - 1 + 1)
  rw [Nat.shiftRight_eq_div_pow]
  omega

/-- A slot size is the size of its own pool. -/
theorem poolId_slotSize (i : Fin 64) (h : ¬ slotSize i > 512) :
    Pools.poolId (slotSize i) h = i := by
  refine Fin.ext ?_
  change (slotSize i + 7) >>> 3 - 1 = i
  rw [Nat.shiftRight_eq_div_pow, slotSize]
  omega

theorem slotSize_small (i : Fin 64) : ¬ slotSize i > 512 := Nat.not_lt.mpr (slotSize_pos i).2

/-- **A slot of a pool**: it has its own range, which lies in a block. -/
structure IsSlot (t : Territory Owner) (blocks : List ℕ) (i : Fin 64) (p : ℕ) : Prop where
  holds : t.Holds (.slot i p) p (slotSize i)
  block : ∃ b ∈ blocks, b ≤ p ∧ p + slotSize i ≤ b + blockSize

/-- A region that the program has: a slot of the pool for its size, or a range of its own. -/
def IsRegion (t : Territory Owner) (blocks : Fin 64 → List ℕ) (r : ℕ × ℕ) : Prop :=
  if h : r.2 > 512 then t.Holds (.large r.1) r.1 r.2
  else IsSlot t (blocks (Pools.poolId r.2 h)) (Pools.poolId r.2 h) r.1

/-- What a pool has left of its current block. -/
structure HasRest (t : Territory Owner) (i : Fin 64) (pool : MemoryPool) (b : ℕ) : Prop where
  lastSlot : pool.lastSlot = b + blockSize - slotSize i + 1
  le_currentSlot : b ≤ pool.currentSlot
  holds : t.Holds (.rest i) pool.currentSlot (b + blockSize - pool.currentSlot)

/-- **How a pool stands in the division**, with the blocks and the free slots its chains list. -/
structure PoolDivided (t : Territory Owner) (m : Memory) (i : Fin 64) (pool : MemoryPool)
    (blocks frees : List ℕ) : Prop where
  slotSize : pool.slotSize = slotSize i
  blockChain : m.Chain wordSize pool.currentBlock blocks
  freeChain : m.Chain wordSize pool.freeSlot frees
  link (b : ℕ) : b ∈ blocks → t.Holds (.link b) b wordSize
  free (p : ℕ) : p ∈ frees → IsSlot t blocks i p
  rest : (blocks = [] ∧ pool.currentSlot = 0 ∧ pool.lastSlot = 0) ∨
    ∃ b bs, blocks = b :: bs ∧ HasRest t i pool b

/-- **The division of a process**: each owner's range lies in what `operator new` handed out, and no
region of the program is on a free list or listed twice. -/
structure Divided (s : Process) (t : Territory Owner) (blocks frees : Fin 64 → List ℕ) : Prop where
  pool (i : Fin 64) : PoolDivided t s.pools.mem i (s.pools.pool i) (blocks i) (frees i)
  region (r : ℕ × ℕ) : r ∈ s.live → IsRegion t blocks r
  starts : (s.live.map Prod.fst).Nodup
  busy (i : Fin 64) (p : ℕ) : p ∈ frees i → p ∉ s.live.map Prod.fst
  owned (x : ℕ) (u : Owner) : t x = some u → Process.Within s.owned x
  range (r : ℕ × ℕ) : r ∈ s.owned → 0 < r.1 ∧ r.1 + r.2 ≤ 2 ^ 64

/-! ## Frames -/

section Frame

variable {t t' : Territory Owner} {m m' : Memory} {i : Fin 64} {pool : MemoryPool}
  {blocks bs frees : List ℕ} {p : ℕ}

theorem IsSlot.mono (h : IsSlot t blocks i p) (ht : t'.Holds (.slot i p) p (Memory.slotSize i))
    (hb : blocks ⊆ bs) : IsSlot t' bs i p := by
  obtain ⟨b, hmem, hin⟩ := h.block
  exact ⟨ht, b, hb hmem, hin⟩

/-- The first word of a slot. -/
theorem IsSlot.word (h : IsSlot t blocks i p) : t.Holds (.slot i p) p wordSize :=
  h.holds.part (Nat.le_refl _) (by have := slotSize_pos i; unfold wordSize; omega)

/-- **A slot belongs to one pool.** -/
theorem IsSlot.pool_unique {j : Fin 64} (h : IsSlot t blocks i p) (h' : IsSlot t bs j p) :
    i = j := by
  have hw := h.word p (Nat.le_refl _) (Nat.lt_add_of_pos_right (by decide))
  have hw' := h'.word p (Nat.le_refl _) (Nat.lt_add_of_pos_right (by decide))
  exact (Owner.slot.inj (Option.some.inj (hw.symm.trans hw'))).1

/-- A division that leaves what a pool has, and a memory that leaves its links, leave the pool. -/
theorem PoolDivided.frame (h : PoolDivided t m i pool blocks frees)
    (ht : ∀ u a n, (∃ b ∈ blocks, u = .link b) ∨ (∃ p ∈ frees, u = .slot i p) ∨ u = .rest i →
      t.Holds u a n → t'.Holds u a n)
    (hlink : ∀ b ∈ blocks, ∀ x, b ≤ x → x < b + wordSize → m' x = m x)
    (hfree : ∀ p ∈ frees, ∀ x, p ≤ x → x < p + wordSize → m' x = m x) :
    PoolDivided t' m' i pool blocks frees where
  slotSize := h.slotSize
  blockChain := h.blockChain.frame hlink
  freeChain := h.freeChain.frame hfree
  link b hb := ht _ _ _ (.inl ⟨b, hb, rfl⟩) (h.link b hb)
  free p hp := (h.free p hp).mono (ht _ _ _ (.inr (.inl ⟨p, hp, rfl⟩)) (h.free p hp).holds)
    (List.Subset.refl _)
  rest := h.rest.imp_right fun ⟨b, bs, hb, hr⟩ =>
    ⟨b, bs, hb, hr.lastSlot, hr.le_currentSlot, ht _ _ _ (.inr (.inr rfl)) hr.holds⟩

/-- Another free list. -/
theorem PoolDivided.setFree (h : PoolDivided t m i pool blocks frees) {q : ℕ} {fs : List ℕ}
    (hchain : m.Chain wordSize q fs) (hfree : ∀ p ∈ fs, IsSlot t blocks i p) :
    PoolDivided t m i { pool with freeSlot := q } blocks fs where
  slotSize := h.slotSize
  blockChain := h.blockChain
  freeChain := hchain
  link := h.link
  free := hfree
  rest := h.rest.imp_right fun ⟨b, bs, hb, hr⟩ =>
    ⟨b, bs, hb, hr.lastSlot, hr.le_currentSlot, hr.holds⟩

/-- A division that leaves a region, and more blocks, leave the region. -/
theorem IsRegion.mono {blocks bs : Fin 64 → List ℕ} {r : ℕ × ℕ} (h : IsRegion t blocks r)
    (ht : ∀ u n, (u = .large r.1 ∨ ∃ i, u = .slot i r.1) → t.Holds u r.1 n → t'.Holds u r.1 n)
    (hb : ∀ i, blocks i ⊆ bs i) : IsRegion t' bs r := by
  unfold IsRegion at h ⊢
  split at h
  · next hl =>
    rw [dif_pos hl]
    exact ht _ _ (.inl rfl) h
  · next hs =>
    rw [dif_neg hs]
    exact h.mono (ht _ _ (.inr ⟨_, rfl⟩) h.holds) (hb _)

/-- The first address of a region. -/
theorem IsRegion.start {blocks : Fin 64 → List ℕ} {r : ℕ × ℕ} (h : IsRegion t blocks r) :
    ∃ u, t r.1 = some u ∧ (u = .large r.1 ∨ ∃ i, u = .slot i r.1) := by
  unfold IsRegion at h
  split at h
  · next hl => exact ⟨_, h r.1 (Nat.le_refl _) (by omega), .inl rfl⟩
  · have := slotSize_pos (Pools.poolId r.2 ‹_›)
    exact ⟨_, h.holds r.1 (Nat.le_refl _) (by omega), .inr ⟨_, rfl⟩⟩

/-- One pool changes, the others stand as they did. -/
theorem poolDivided_update {pools : Fin 64 → MemoryPool} {blocks frees : Fin 64 → List ℕ}
    {pool : MemoryPool} {bs fs : List ℕ} (hi : PoolDivided t m i pool bs fs)
    (hne : ∀ j, j ≠ i → PoolDivided t m j (pools j) (blocks j) (frees j)) (j : Fin 64) :
    PoolDivided t m j (Function.update pools i pool j) (Function.update blocks i bs j)
      (Function.update frees i fs j) := by
  by_cases hj : j = i
  · subst hj
    rwa [Function.update_self, Function.update_self, Function.update_self]
  · rw [Function.update_of_ne hj, Function.update_of_ne hj, Function.update_of_ne hj]
    exact hne j hj

/-- A store to a word leaves the words apart from it. -/
theorem store_of_apart {a v b n : ℕ} (h : Apart (a, n) (b, n)) :
    ∀ x, b ≤ x → x < b + n → m.store a v n x = m x := by
  intro x hx hx'
  refine Memory.store_of_outside ?_
  have := h.symm x hx hx'
  omega

end Frame

namespace Divided

variable {s : Process} {t : Territory Owner} {blocks frees : Fin 64 → List ℕ}

/-- Every held address is an address of the machine, and not null. -/
theorem address (h : Divided s t blocks frees) {u : Owner} {a n : ℕ} (ha : t.Holds u a n)
    (hn : 0 < n) : 0 < a ∧ a < 2 ^ 64 := by
  obtain ⟨r, hr, hle, hlt⟩ := h.owned a u (ha a (Nat.le_refl _) (by omega))
  have := h.range r hr
  omega

/-- The start of a chain of held cells fits a word. -/
theorem chain_fits (h : Divided s t blocks frees) {m : Memory} {p : ℕ} {ps : List ℕ}
    (hchain : m.Chain wordSize p ps) (hheld : ∀ q ∈ ps, ∃ u, t.Holds u q wordSize) :
    p < 256 ^ wordSize := by
  cases hchain with
  | nil => decide
  | cons hp hrest =>
    obtain ⟨u, hu⟩ := hheld p (List.mem_cons_self ..)
    exact (h.address hu (by decide)).2

/-- A fresh range is vacant. -/
theorem vacant (h : Divided s t blocks frees) {new n : ℕ} (hf : Process.Fresh s.owned new n) :
    t.Vacant new n := by
  intro x hx hx'
  rcases hu : t x with _ | u
  · rfl
  · obtain ⟨r, hr, hle, hlt⟩ := h.owned x u hu
    exact absurd ⟨hle, hlt⟩ (hf.2.2 r hr x hx hx')

/-- The owner of a region of the program. -/
theorem holds_region (h : Divided s t blocks frees) {r : ℕ × ℕ} (hr : r ∈ s.live) :
    ∃ u, t.Holds u r.1 r.2 ∧ (u = .large r.1 ∨ ∃ i, u = .slot i r.1) := by
  have hreg := h.region r hr
  unfold IsRegion at hreg
  split at hreg
  · exact ⟨_, hreg, .inl rfl⟩
  · next hs =>
    have hle := le_slotSize hs
    exact ⟨_, hreg.holds.part (Nat.le_refl _) (by omega), .inr ⟨_, rfl⟩⟩

/-- **A pool's chain words are apart from what the program has.** -/
theorem not_within_live (h : Divided s t blocks frees) {u : Owner} {a n : ℕ} (ha : t.Holds u a n)
    (hu : (∃ b, u = .link b) ∨ ∃ i, ∃ p ∈ frees i, u = .slot i p) :
    ∀ x, a ≤ x → x < a + n → ¬ Process.Within s.live x := by
  rintro x hx hx' ⟨r, hr, hle, hlt⟩
  obtain ⟨v, hv, hform⟩ := h.holds_region hr
  obtain rfl : u = v := Option.some.inj ((ha x hx hx').symm.trans (hv x hle hlt))
  rcases hu with ⟨b, rfl⟩ | ⟨i, p, hp, rfl⟩
  · rcases hform with hform | ⟨i, hform⟩ <;> exact Owner.noConfusion hform
  · rcases hform with hform | ⟨j, hform⟩
    · exact Owner.noConfusion hform
    · exact h.busy i p hp ((Owner.slot.inj hform).2 ▸ List.mem_map_of_mem hr)

/-- A region that is given back is not listed any more. -/
theorem notMem_erase (h : Divided s t blocks frees) {r : ℕ × ℕ} (hr : r ∈ s.live) :
    r.1 ∉ (s.live.erase r).map Prod.fst :=
  (List.nodup_cons.mp (((List.perm_cons_erase hr).map Prod.fst).nodup_iff.mp h.starts)).1

/-! ## What the program does -/

/-- **Writing where the program may** keeps the division. -/
theorem write (h : Divided s t blocks frees) {m : Memory}
    (hm : ∀ x, Process.Within s.owned x → ¬ Process.Within s.live x → m x = s.pools.mem x) :
    Divided ⟨⟨s.pools.pool, m⟩, s.owned, s.live⟩ t blocks frees where
  pool i := by
    refine (h.pool i).frame (fun _ _ _ _ hu => hu) (fun b hb x hx hx' => ?_) fun p hp x hx hx' => ?_
    · have hlink := (h.pool i).link b hb
      exact hm x (h.owned x _ (hlink x hx hx')) (h.not_within_live hlink (.inl ⟨b, rfl⟩) x hx hx')
    · have hslot := ((h.pool i).free p hp).word
      exact hm x (h.owned x _ (hslot x hx hx'))
        (h.not_within_live hslot (.inr ⟨i, p, hp, rfl⟩) x hx hx')
  region := h.region
  starts := h.starts
  busy := h.busy
  owned := h.owned
  range := h.range

/-- The start of a region of the program is not where a pool's own range starts. -/
theorem start_notMem (h : Divided s t blocks frees) {a : ℕ} {u : Owner} (ha : t a = some u)
    (hl : u ≠ .large a) (hu : ∀ i, u ≠ .slot i a) : a ∉ s.live.map Prod.fst := by
  rintro hmem
  obtain ⟨r, hr, rfl⟩ := List.mem_map.mp hmem
  obtain ⟨v, hv, hform⟩ := (h.region r hr).start
  obtain rfl : u = v := Option.some.inj (ha.symm.trans hv)
  rcases hform with hform | ⟨i, hform⟩
  · exact hl hform
  · exact hu i hform

/-- An address that is no pool's slot is on no free list. -/
theorem notMem_frees (h : Divided s t blocks frees) {a : ℕ} (ha : ∀ i, t a ≠ some (.slot i a))
    (i : Fin 64) : a ∉ frees i := fun hmem =>
  ha i (((h.pool i).free a hmem).word a (Nat.le_refl _) (by unfold wordSize; omega))

/-- A region more in the program's list. -/
theorem busy_cons (h : Divided s t blocks frees) {a size : ℕ} (ha : ∀ i, a ∉ frees i) (i : Fin 64)
    (p : ℕ) (hp : p ∈ frees i) : p ∉ ((a, size) :: s.live).map Prod.fst := by
  rw [List.map_cons, List.mem_cons, not_or]
  refine ⟨?_, h.busy i p hp⟩
  rintro rfl
  exact ha i hp

/-- **A range more from `operator new`**, and owners for it. -/
theorem owned_cons (h : Divided s t blocks frees) (t' : Territory Owner) {new n : ℕ}
    (hf : Process.Fresh s.owned new n) (ht : ∀ x, ¬(new ≤ x ∧ x < new + n) → t' x = t x) :
    (∀ x u, t' x = some u → Process.Within ((new, n) :: s.owned) x) ∧
      ∀ r ∈ (new, n) :: s.owned, 0 < r.1 ∧ r.1 + r.2 ≤ 2 ^ 64 := by
  refine ⟨fun x u hx => ?_, fun r hr => ?_⟩
  · by_cases hin : new ≤ x ∧ x < new + n
    · exact ⟨_, List.mem_cons_self .., hin⟩
    · rw [ht x hin] at hx
      obtain ⟨r, hr, hrx⟩ := h.owned x u hx
      exact ⟨r, List.mem_cons_of_mem _ hr, hrx⟩
  · rcases List.mem_cons.mp hr with rfl | hr
    · exact ⟨hf.1, hf.2.1⟩
    · exact h.range r hr

/-- **Cutting a slot off the rest of the current block.** -/
theorem take (h : Divided s t blocks frees) {size : ℕ} (hs : ¬ size > 512) {i : Fin 64}
    (hi : i = Pools.poolId size hs)
    (hlt : (s.pools.pool i).currentSlot < (s.pools.pool i).lastSlot) :
    ∃ t', Divided ⟨⟨Function.update s.pools.pool i (s.pools.pool i).advance, s.pools.mem⟩, s.owned,
      ((s.pools.pool i).currentSlot, size) :: s.live⟩ t' blocks frees := by
  have hp := h.pool i
  have hpos := slotSize_pos i
  obtain ⟨-, hc, hl⟩ | ⟨b, bs, hb, hr⟩ := hp.rest
  · omega
  have hls := hr.lastSlot
  have hle := hr.le_currentSlot
  have hbs : blockSize = 4096 := rfl
  generalize hc : (s.pools.pool i).currentSlot = c at hlt hle
  have hrest : t.Holds (.rest i) c (b + blockSize - c) := hc ▸ hr.holds
  have hcut : t.Holds (.rest i) c (slotSize i) := hrest.part (Nat.le_refl _) (by omega)
  have hadv : (s.pools.pool i).advance.currentSlot = c + slotSize i := by
    rw [MemoryPool.advance, hc, hp.slotSize, slotSize_shift]
  -- what no pool's rest owns keeps its range
  have hkeep : ∀ u a n, u ≠ .rest i → t.Holds u a n →
      (t.grant (some (.slot i c)) c (slotSize i)).Holds u a n := fun u a n hne hu =>
    hu.grant_of_ne hcut hne.symm
  have hframe : ∀ j, j ≠ i → PoolDivided (t.grant (some (.slot i c)) c (slotSize i)) s.pools.mem j
      (s.pools.pool j) (blocks j) (frees j) := by
    intro j hj
    refine (h.pool j).frame (fun u a n hu hold => hkeep u a n ?_ hold) (fun _ _ _ _ _ => rfl)
      fun _ _ _ _ _ => rfl
    rcases hu with ⟨_, _, rfl⟩ | ⟨_, _, rfl⟩ | rfl
    · exact Owner.noConfusion
    · exact Owner.noConfusion
    · exact fun e => hj (Owner.rest.inj e)
  have hpool : PoolDivided (t.grant (some (.slot i c)) c (slotSize i)) s.pools.mem i
      (s.pools.pool i).advance (blocks i) (frees i) :=
    { slotSize := hp.slotSize
      blockChain := hp.blockChain
      freeChain := hp.freeChain
      link := fun b hb => hkeep _ _ _ Owner.noConfusion (hp.link b hb)
      free := fun p hpf => (hp.free p hpf).mono
        (hkeep _ _ _ Owner.noConfusion (hp.free p hpf).holds)
        (List.Subset.refl _)
      rest := by
        refine .inr ⟨b, bs, hb, hls, by omega, ?_⟩
        rw [hadv]
        refine (hrest.part (by omega) (by omega)).grant_of_apart fun x hx hx' hin => ?_
        exact absurd hin.1 (by omega) }
  have hslot : IsSlot (t.grant (some (.slot i c)) c (slotSize i)) (blocks i) i c :=
    ⟨Territory.holds_grant, b, hb ▸ List.mem_cons_self .., hle, by omega⟩
  have hnew : c ∉ s.live.map Prod.fst :=
    h.start_notMem (hcut c (Nat.le_refl _) (by omega)) Owner.noConfusion fun _ => Owner.noConfusion
  have hfree : ∀ j, c ∉ frees j := h.notMem_frees fun j e =>
    Owner.noConfusion (Option.some.inj ((hcut c (Nat.le_refl _) (by omega)).symm.trans e))
  refine ⟨t.grant (some (.slot i c)) c (slotSize i), ?_, ?_, List.nodup_cons.mpr ⟨hnew, h.starts⟩,
    h.busy_cons hfree, ?_, h.range⟩
  · intro j
    have := poolDivided_update hpool hframe j
    rwa [Function.update_eq_self, Function.update_eq_self] at this
  · intro r hr
    rcases List.mem_cons.mp hr with rfl | hr
    · rw [IsRegion, dif_neg hs, ← hi]
      exact hslot
    · refine (h.region r hr).mono (fun u n hu hold => hkeep u _ n ?_ hold) fun _ =>
        List.Subset.refl _
      rcases hu with rfl | ⟨_, rfl⟩ <;> exact Owner.noConfusion
  · intro x u hx
    by_cases hin : c ≤ x ∧ x < c + slotSize i
    · exact h.owned x _ (hcut x hin.1 hin.2)
    · rw [Territory.grant_of_notMem hin] at hx
      exact h.owned x u hx

/-- **A new block** becomes the current one; what was left of the old one is given up. -/
theorem enter_head (h : Divided s t blocks frees) (i : Fin 64) {new : ℕ}
    (hf : Process.Fresh s.owned new blockSize) :
    (∃ t', Divided ⟨⟨Function.update s.pools.pool i ((s.pools.pool i).enterBlock new),
      s.pools.mem.store new (s.pools.pool i).currentBlock wordSize⟩, (new, blockSize) :: s.owned,
      s.live⟩ t' (Function.update blocks i (new :: blocks i)) frees) ∧
    ((s.pools.pool i).enterBlock new).currentSlot < ((s.pools.pool i).enterBlock new).lastSlot := by
  have hp := h.pool i
  have hpos := slotSize_pos i
  have hv := h.vacant hf
  have hbs : blockSize = 4096 := rfl
  have hw : wordSize = 8 := rfl
  have hpad : MemoryPool.padPointer (new + wordSize) (slotSize i) < slotSize i :=
    Nat.mod_lt _ (by omega)
  generalize hc : ((s.pools.pool i).enterBlock new).currentSlot = c
  have hc' : c = new + wordSize + MemoryPool.padPointer (new + wordSize) (slotSize i) := by
    rw [← hc, MemoryPool.enterBlock, hp.slotSize]
  have hls : ((s.pools.pool i).enterBlock new).lastSlot = new + blockSize - slotSize i + 1 := by
    rw [MemoryPool.enterBlock, hp.slotSize]
  refine ⟨?_, by omega⟩
  -- the block falls into its link word and its rest
  obtain ⟨t', ht'⟩ : ∃ t', t' = (t.grant (some (.link new)) new wordSize).grant (some (.rest i)) c
      (new + blockSize - c) := ⟨_, rfl⟩
  have hkeep : ∀ {u a n}, t.Holds u a n → t'.Holds u a n := by
    intro u a n hu
    have hap := hv.apart hu
    rw [ht']
    exact (hu.grant_of_apart (hap.part (Nat.le_refl _) (by omega))).grant_of_apart
      (hap.part (by omega) (by omega))
  have hlink : t'.Holds (.link new) new wordSize := by
    rw [ht']
    refine Territory.holds_grant.grant_of_apart fun x hx hx' hin => ?_
    exact absurd hin.2 (by omega)
  have hstore : ∀ {u a}, t.Holds u a wordSize → ∀ x, a ≤ x → x < a + wordSize →
      s.pools.mem.store new (s.pools.pool i).currentBlock wordSize x = s.pools.mem x := by
    intro u a hu
    exact store_of_apart ((hv.apart hu).part (Nat.le_refl _) (by omega))
  have hframe : ∀ j, PoolDivided t' (s.pools.mem.store new (s.pools.pool i).currentBlock wordSize) j
      (s.pools.pool j) (blocks j) (frees j) := fun j =>
    (h.pool j).frame (fun _ _ _ _ hu => hkeep hu) (fun b hb => hstore ((h.pool j).link b hb))
      fun p hpf => hstore ((h.pool j).free p hpf).word
  have hfit := h.chain_fits hp.blockChain fun b hb => ⟨_, hp.link b hb⟩
  have hpool : PoolDivided t' (s.pools.mem.store new (s.pools.pool i).currentBlock wordSize) i
      ((s.pools.pool i).enterBlock new) (new :: blocks i) (frees i) :=
    { slotSize := hp.slotSize
      blockChain := hp.blockChain.push (by have := hf.1; omega) hfit fun b hb => by
        have hap := hv.apart (hp.link b hb)
        have := hap.le_or_le (show 0 < blockSize by decide) (show 0 < wordSize by decide)
        dsimp only at this
        omega
      freeChain := (hframe i).freeChain
      link := fun b hb => by
        rcases List.mem_cons.mp hb with rfl | hb
        · exact hlink
        · exact (hframe i).link b hb
      free := fun p hpf => ((hframe i).free p hpf).mono ((hframe i).free p hpf).holds
        (List.subset_cons_self ..)
      rest := by
        refine .inr ⟨new, blocks i, rfl, hls, by omega, ?_⟩
        rw [hc, ht']
        exact Territory.holds_grant }
  obtain ⟨howned, hrange⟩ := h.owned_cons t' hf fun x hin => by
    rw [ht', Territory.grant_of_notMem (by omega), Territory.grant_of_notMem (by omega)]
  refine ⟨t', ?_, ?_, h.starts, h.busy, howned, hrange⟩
  · intro j
    have := poolDivided_update hpool (fun j _ => hframe j) j
    rwa [Function.update_eq_self i frees] at this
  · intro r hr
    refine (h.region r hr).mono (fun _ _ _ hold => hkeep hold) fun j => ?_
    by_cases hj : j = i
    · subst hj
      rw [Function.update_self]
      exact List.subset_cons_self ..
    · rw [Function.update_of_ne hj]
      exact List.Subset.refl _

/-- …whatever the pool's blocks are then. -/
theorem enter (h : Divided s t blocks frees) (i : Fin 64) {new : ℕ}
    (hf : Process.Fresh s.owned new blockSize) :
    (∃ t' blocks', Divided ⟨⟨Function.update s.pools.pool i ((s.pools.pool i).enterBlock new),
      s.pools.mem.store new (s.pools.pool i).currentBlock wordSize⟩, (new, blockSize) :: s.owned,
      s.live⟩ t' blocks' frees) ∧
    ((s.pools.pool i).enterBlock new).currentSlot < ((s.pools.pool i).enterBlock new).lastSlot := by
  obtain ⟨⟨t', h'⟩, hlt⟩ := h.enter_head i hf
  exact ⟨⟨t', _, h'⟩, hlt⟩

/-- **Taking a slot off the free list.** -/
theorem reuse_sub (h : Divided s t blocks frees) {size : ℕ} (hs : ¬ size > 512) {i : Fin 64}
    (hi : i = Pools.poolId size hs) (hne : (s.pools.pool i).freeSlot ≠ 0) :
    (s.pools.pool i).freeSlot ∈ frees i ∧ ∃ frees', (∀ j, frees' j ⊆ frees j) ∧
    Divided ⟨⟨Function.update s.pools.pool i { s.pools.pool i with
      freeSlot := s.pools.mem.load (s.pools.pool i).freeSlot wordSize }, s.pools.mem⟩, s.owned,
      ((s.pools.pool i).freeSlot, size) :: s.live⟩ t blocks frees' := by
  have hp := h.pool i
  have hchain := hp.freeChain
  generalize hfs : (s.pools.pool i).freeSlot = p at hchain hne
  rcases hfr : frees i with _ | ⟨q, ps⟩
  · rw [hfr] at hchain
    cases hchain
    exact absurd rfl hne
  rw [hfr] at hchain
  have hnd := List.nodup_cons.mp hchain.nodup
  cases hchain with
  | cons hp0 hrest =>
    have hmem : ∀ r ∈ p :: ps, r ∈ frees i := fun r hr => hfr ▸ hr
    have hpool := hp.setFree hrest fun r hr => hp.free r (hmem r (List.mem_cons_of_mem _ hr))
    have hslot := hp.free p (hmem p (List.mem_cons_self ..))
    refine ⟨List.mem_cons_self .., Function.update frees i ps, ?_, ?_, ?_, ?_, ?_, h.owned, h.range⟩
    · intro j
      by_cases hj : j = i
      · subst hj
        rw [Function.update_self]
        exact fun r hr => hmem r (List.mem_cons_of_mem _ hr)
      · rw [Function.update_of_ne hj]
        exact List.Subset.refl _
    · intro j
      have := poolDivided_update hpool (fun j _ => h.pool j) j
      rwa [Function.update_eq_self i blocks] at this
    · intro r hr
      rcases List.mem_cons.mp hr with rfl | hr
      · rw [IsRegion, dif_neg hs, ← hi]
        exact hslot
      · exact h.region r hr
    · exact List.nodup_cons.mpr ⟨h.busy i p (hmem p (List.mem_cons_self ..)), h.starts⟩
    · intro j r hr
      rw [List.map_cons, List.mem_cons, not_or]
      by_cases hj : j = i
      · subst hj
        rw [Function.update_self] at hr
        refine ⟨?_, h.busy j r (hmem r (List.mem_cons_of_mem _ hr))⟩
        rintro rfl
        exact hnd.1 hr
      · rw [Function.update_of_ne hj] at hr
        refine ⟨?_, h.busy j r hr⟩
        rintro rfl
        exact hj (((h.pool j).free r hr).pool_unique hslot)

/-- …whatever is free then. -/
theorem reuse (h : Divided s t blocks frees) {size : ℕ} (hs : ¬ size > 512) {i : Fin 64}
    (hi : i = Pools.poolId size hs) (hne : (s.pools.pool i).freeSlot ≠ 0) :
    ∃ frees', Divided ⟨⟨Function.update s.pools.pool i { s.pools.pool i with
      freeSlot := s.pools.mem.load (s.pools.pool i).freeSlot wordSize }, s.pools.mem⟩, s.owned,
      ((s.pools.pool i).freeSlot, size) :: s.live⟩ t blocks frees' :=
  let ⟨_, frees', _, h'⟩ := h.reuse_sub hs hi hne
  ⟨frees', h'⟩

/-- **A large region**, straight from `operator new`. -/
theorem large (h : Divided s t blocks frees) {size new : ℕ} (hs : size > 512)
    (hf : Process.Fresh s.owned new size) :
    ∃ t', Divided ⟨s.pools, (new, size) :: s.owned, (new, size) :: s.live⟩ t' blocks frees := by
  have hv := h.vacant hf
  have hkeep : ∀ {u a n}, t.Holds u a n → (t.grant (some (.large new)) new size).Holds u a n :=
    fun hu => hu.grant_of_vacant hv
  have hnone : t new = none := hv new (Nat.le_refl _) (by omega)
  have hfree : ∀ j, new ∉ frees j :=
    h.notMem_frees fun j e => absurd (hnone.symm.trans e) (by simp)
  obtain ⟨howned, hrange⟩ :=
    h.owned_cons (t.grant (some (.large new)) new size) hf fun x hin => by
      rw [Territory.grant_of_notMem hin]
  refine ⟨t.grant (some (.large new)) new size, ?_, ?_, ?_, h.busy_cons hfree, howned, hrange⟩
  · exact fun j => (h.pool j).frame (fun _ _ _ _ hu => hkeep hu) (fun _ _ _ _ _ => rfl)
      fun _ _ _ _ _ => rfl
  · intro r hr
    rcases List.mem_cons.mp hr with rfl | hr
    · rw [IsRegion, dif_pos hs]
      exact Territory.holds_grant
    · exact (h.region r hr).mono (fun _ _ _ hold => hkeep hold) fun _ => List.Subset.refl _
  · refine List.nodup_cons.mpr ⟨fun hmem => ?_, h.starts⟩
    obtain ⟨r, hr, hrn⟩ := List.mem_map.mp hmem
    obtain ⟨u, hu, -⟩ := (h.region r hr).start
    rw [hrn, hnone] at hu
    exact absurd hu (by simp)

/-- **Putting a slot on the free list.** -/
theorem give_head (h : Divided s t blocks frees) {p size : ℕ} (hs : ¬ size > 512) {i : Fin 64}
    (hi : i = Pools.poolId size hs) (hlive : (p, size) ∈ s.live) : p ≠ 0 ∧
    Divided ⟨⟨Function.update s.pools.pool i { s.pools.pool i with freeSlot := p },
      s.pools.mem.store p (s.pools.pool i).freeSlot wordSize⟩, s.owned, s.live.erase (p, size)⟩
      t blocks (Function.update frees i (p :: frees i)) := by
  have hp := h.pool i
  have hslot : IsSlot t (blocks i) i p := by
    have := h.region _ hlive
    rwa [IsRegion, dif_neg hs, ← hi] at this
  have hp0 : p ≠ 0 := (h.address hslot.word (by decide)).1.ne'
  have hother : ∀ {j q}, q ∈ frees j → Apart (p, wordSize) (q, wordSize) := by
    intro j q hq
    refine hslot.word.apart ((h.pool j).free q hq).word fun e => ?_
    exact h.busy j q hq ((Owner.slot.inj e).2 ▸ List.mem_map_of_mem hlive)
  have hframe : ∀ j, PoolDivided t (s.pools.mem.store p (s.pools.pool i).freeSlot wordSize) j
      (s.pools.pool j) (blocks j) (frees j) := fun j =>
    (h.pool j).frame (fun _ _ _ _ hu => hu)
      (fun b hb => store_of_apart (hslot.word.apart ((h.pool j).link b hb) Owner.noConfusion))
      fun q hq => store_of_apart (hother hq)
  have hchain := hp.freeChain.push hp0 (h.chain_fits hp.freeChain fun q hq =>
    ⟨_, (hp.free q hq).word⟩) fun q hq => by
      have := (hother hq).le_or_le (show 0 < wordSize by decide) (show 0 < wordSize by decide)
      dsimp only at this
      omega
  have hpool := (hframe i).setFree hchain fun q hq => by
    rcases List.mem_cons.mp hq with rfl | hq
    · exact hslot
    · exact hp.free q hq
  have hsub : (s.live.erase (p, size)).Sublist s.live := List.erase_sublist
  refine ⟨hp0, ?_, ?_, ?_, ?_, h.owned, h.range⟩
  · intro j
    have := poolDivided_update hpool (fun j _ => hframe j) j
    rwa [Function.update_eq_self i blocks] at this
  · exact fun r hr => h.region r (hsub.subset hr)
  · exact h.starts.sublist (hsub.map _)
  · intro j q hq hmem
    have hmem' := (hsub.map _).subset hmem
    by_cases hj : j = i
    · subst hj
      rw [Function.update_self] at hq
      rcases List.mem_cons.mp hq with rfl | hq
      · exact h.notMem_erase hlive hmem
      · exact h.busy j q hq hmem'
    · rw [Function.update_of_ne hj] at hq
      exact h.busy j q hq hmem'

/-- …whatever is free then. -/
theorem give (h : Divided s t blocks frees) {p size : ℕ} (hs : ¬ size > 512) {i : Fin 64}
    (hi : i = Pools.poolId size hs) (hlive : (p, size) ∈ s.live) : p ≠ 0 ∧
    ∃ frees', Divided ⟨⟨Function.update s.pools.pool i { s.pools.pool i with freeSlot := p },
      s.pools.mem.store p (s.pools.pool i).freeSlot wordSize⟩, s.owned, s.live.erase (p, size)⟩
      t blocks frees' :=
  let ⟨hp, h'⟩ := h.give_head hs hi hlive
  ⟨hp, _, h'⟩

/-- **Giving a large region back.** -/
theorem giveLarge (h : Divided s t blocks frees) {p size : ℕ} (hs : size > 512)
    (hlive : (p, size) ∈ s.live) :
    ∃ t', Divided ⟨s.pools, s.owned.erase (p, size), s.live.erase (p, size)⟩ t' blocks frees := by
  have hreg : t.Holds (.large p) p size := by
    have := h.region _ hlive
    rwa [IsRegion, dif_pos hs] at this
  have hkeep : ∀ {u a n}, u ≠ .large p → t.Holds u a n → (t.grant none p size).Holds u a n :=
    fun hne hu => hu.grant_of_ne hreg hne.symm
  have hsub : (s.live.erase (p, size)).Sublist s.live := List.erase_sublist
  refine ⟨t.grant none p size, ?_, ?_, ?_, ?_, ?_, ?_⟩
  · refine fun j => (h.pool j).frame (fun u _ _ hu hold => hkeep ?_ hold) (fun _ _ _ _ _ => rfl)
      fun _ _ _ _ _ => rfl
    rcases hu with ⟨_, _, rfl⟩ | ⟨_, _, rfl⟩ | rfl <;> exact Owner.noConfusion
  · intro r hr
    have hne : r.1 ≠ p := by
      rintro e
      have hmem := List.mem_map_of_mem (f := Prod.fst) hr
      rw [e] at hmem
      exact h.notMem_erase hlive hmem
    refine (h.region r (hsub.subset hr)).mono (fun u _ hu hold => hkeep ?_ hold) fun _ =>
      List.Subset.refl _
    rcases hu with rfl | ⟨_, rfl⟩
    · exact fun e => hne (Owner.large.inj e)
    · exact Owner.noConfusion
  · exact h.starts.sublist (hsub.map _)
  · exact fun j q hq hmem => h.busy j q hq ((hsub.map _).subset hmem)
  · intro x u hx
    by_cases hin : p ≤ x ∧ x < p + size
    · rw [Territory.grant_of_mem hin] at hx
      exact absurd hx (by simp)
    · rw [Territory.grant_of_notMem hin] at hx
      obtain ⟨r, hr, hrx⟩ := h.owned x u hx
      refine ⟨r, (List.mem_erase_of_ne ?_).mpr hr, hrx⟩
      rintro rfl
      exact hin hrx
  · exact fun r hr => h.range r (List.mem_of_mem_erase hr)

end Divided

end WebServer.Memory
