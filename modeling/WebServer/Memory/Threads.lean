import WebServer.Memory.Safety

/-!
# Memory/Threads — several threads allocate from the pools

`allocate` looks at the free list and at the space left before it takes a lock.  The threads are
interleaved between these atomic steps.  An uninterrupted call is `MemoryPool.allocate`
(`run_useSlot`); a slot that is cut off the current block after another thread took the
last one ends outside the block (`overrun`), and no run goes wrong where the space that was seen is
still there when the slot is cut (`threads_safe_of_stillRoom`).
-/

namespace WebServer.Memory

namespace MemoryPool

/-- The locked part of `allocate`, when the list is not empty. -/
def popFree (pool : MemoryPool) (m : Memory) : ℕ × MemoryPool × Memory :=
  (pool.freeSlot, { pool with freeSlot := m.load pool.freeSlot wordSize }, m)

/-- The locked part of `nofree_solve`. -/
def cutSlot (pool : MemoryPool) (m : Memory) : ℕ × MemoryPool × Memory :=
  (pool.currentSlot, pool.advance, m)

/-- **A call of `allocate` takes one of three ways.** -/
theorem allocate_eq (pool : MemoryPool) (m : Memory) (newBlock : ℕ) :
    pool.allocate m newBlock =
      if pool.freeSlot ≠ 0 then pool.popFree m
      else if pool.currentSlot ≥ pool.lastSlot then pool.allocateBlock m newBlock
      else pool.cutSlot m := rfl

end MemoryPool

/-! ## Threads -/

/-- **Where a thread stands** in a call of `allocate` on a pool. -/
inductive Site
  | idle
  | pop (i : Fin 64)
  | room (i : Fin 64)
  | cut (i : Fin 64)
  | full (i : Fin 64)
  | link (i : Fin 64) (newBlock : ℕ)
deriving DecidableEq

/-- An atomic step of a thread; between two calls it writes to memory. -/
inductive Action
  | allocate (i : Fin 64)
  | pop
  | room
  | cut
  | new (newBlock : ℕ)
  | link
  | deAllocate (i : Fin 64) (p : ℕ)
  | write (m : Memory)

/-- **The pools and the threads that share them.** -/
structure Threads (ι : Type*) where
  process : Process
  site : ι → Site

namespace Threads

variable {ι : Type*}

def init (ι : Type*) (m : Memory) : Threads ι := ⟨.init m, fun _ => .idle⟩

/-- A pool. -/
abbrev pool (s : Threads ι) (i : Fin 64) : MemoryPool := s.process.pools.pool i

/-- The memory. -/
abbrev mem (s : Threads ι) : Memory := s.process.pools.mem

variable [DecidableEq ι]

/-- A thread goes on to another place of its call. -/
def goto (s : Threads ι) (k : ι) (site : Site) : Threads ι :=
  ⟨s.process, Function.update s.site k site⟩

/-- **A call returns**: a slot of a pool is handed out. -/
def handOut (s : Threads ι) (k : ι) (i : Fin 64) (r : ℕ × MemoryPool × Memory) : Threads ι :=
  ⟨⟨⟨Function.update s.process.pools.pool i r.2.1, r.2.2⟩, s.process.owned,
    (r.1, slotSize i) :: s.process.live⟩, Function.update s.site k .idle⟩

/-- `operator new` hands out a block. -/
def obtainBlock (s : Threads ι) (k : ι) (i : Fin 64) (newBlock : ℕ) : Threads ι :=
  ⟨⟨s.process.pools, (newBlock, blockSize) :: s.process.owned, s.process.live⟩,
    Function.update s.site k (.link i newBlock)⟩

/-- The locked part of `deAllocate`. -/
def takeBack (s : Threads ι) (i : Fin 64) (p : ℕ) : Threads ι :=
  let r := (s.pool i).deAllocate s.mem p
  ⟨⟨⟨Function.update s.process.pools.pool i r.1, r.2⟩, s.process.owned,
    s.process.live.erase (p, slotSize i)⟩, s.site⟩

/-- **One atomic step of a thread.**  The two tests are outside the locks, what is taken is taken
inside one. -/
inductive Step : Threads ι → ι × Action → Threads ι → Prop
  | allocate {s : Threads ι} {k : ι} {i : Fin 64} (hk : s.site k = .idle) :
      Step s (k, .allocate i) (s.goto k (if (s.pool i).freeSlot ≠ 0 then .pop i else .room i))
  | pop {s : Threads ι} {k : ι} {i : Fin 64} (hk : s.site k = .pop i)
      (hfree : (s.pool i).freeSlot ≠ 0) :
      Step s (k, .pop) (s.handOut k i ((s.pool i).popFree s.mem))
  | popNone {s : Threads ι} {k : ι} {i : Fin 64} (hk : s.site k = .pop i)
      (hfree : (s.pool i).freeSlot = 0) :
      Step s (k, .pop) (s.goto k (.room i))
  | room {s : Threads ι} {k : ι} {i : Fin 64} (hk : s.site k = .room i) :
      Step s (k, .room)
        (s.goto k (if (s.pool i).currentSlot ≥ (s.pool i).lastSlot then .full i else .cut i))
  | cut {s : Threads ι} {k : ι} {i : Fin 64} (hk : s.site k = .cut i) :
      Step s (k, .cut) (s.handOut k i ((s.pool i).cutSlot s.mem))
  | new {s : Threads ι} {k : ι} {i : Fin 64} {b : ℕ} (hk : s.site k = .full i)
      (hnew : Process.Fresh s.process.owned b blockSize) :
      Step s (k, .new b) (s.obtainBlock k i b)
  | link {s : Threads ι} {k : ι} {i : Fin 64} {b : ℕ} (hk : s.site k = .link i b) :
      Step s (k, .link) (s.handOut k i ((s.pool i).allocateBlock s.mem b))
  | deAllocate {s : Threads ι} {k : ι} {i : Fin 64} {p : ℕ} (hk : s.site k = .idle)
      (hp : (p, slotSize i) ∈ s.process.live) :
      Step s (k, .deAllocate i p) (s.takeBack i p)
  | write {s : Threads ι} {k : ι} {m : Memory} (hk : s.site k = .idle)
      (hm : ∀ x, Process.Within s.process.owned x → ¬ Process.Within s.process.live x →
        m x = s.mem x) :
      Step s (k, .write m) ⟨⟨⟨s.process.pools.pool, m⟩, s.process.owned, s.process.live⟩, s.site⟩

/-- **The slots handed out are the callers' own**: each lies in one block of 4096 bytes, and no two
of them overlap. -/
structure Safe (s : Threads ι) : Prop where
  inBlock (r : ℕ × ℕ) : r ∈ s.process.live →
    ∃ b, (b, blockSize) ∈ s.process.owned ∧ b ≤ r.1 ∧ r.1 + r.2 ≤ b + blockSize
  apart : s.process.live.Pairwise Apart

/-- **The space a thread saw is still there** when it cuts its slot. -/
def StillRoom (s : Threads ι) (a : ι × Action) : Prop :=
  a.2 = .cut → ∀ i, s.site a.1 = .cut i → (s.pool i).currentSlot < (s.pool i).lastSlot

end Threads

/-! ## What a run keeps

A block that a thread has got from `operator new`, and not linked yet, is a large region of that
thread: nothing else in the division knows about it. -/

/-- The order of the ranges and of the regions does not matter. -/
theorem Divided.perm {s : Process} {t : Territory Owner} {blocks frees : Fin 64 → List ℕ}
    (h : Divided s t blocks frees) {owned live : List (ℕ × ℕ)} (ho : s.owned.Perm owned)
    (hl : s.live.Perm live) : Divided ⟨s.pools, owned, live⟩ t blocks frees where
  pool := h.pool
  region r hr := h.region r (hl.mem_iff.mpr hr)
  starts := (hl.map Prod.fst).nodup_iff.mp h.starts
  busy i p hp hmem := h.busy i p hp ((hl.map Prod.fst).mem_iff.mpr hmem)
  owned x u hx := let ⟨r, hr, hin⟩ := h.owned x u hx; ⟨r, ho.mem_iff.mp hr, hin⟩
  range r hr := h.range r (ho.mem_iff.mpr hr)

namespace Threads

variable {ι : Type*}

/-- **The threads that are about to link a block** hold it, each its own. -/
structure Pending (site : ι → Site) (held : List (ℕ × ℕ)) : Prop where
  held (k : ι) (i : Fin 64) (b : ℕ) : site k = .link i b → (b, blockSize) ∈ held
  distinct (k k' : ι) (i i' : Fin 64) (b : ℕ) :
    site k = .link i b → site k' = .link i' b → k = k'

/-- **How the threads stand in a division.** -/
structure Shared (s : Threads ι) (held : List (ℕ × ℕ)) (t : Territory Owner)
    (blocks frees : Fin 64 → List ℕ) : Prop where
  divided : Divided ⟨s.process.pools, s.process.owned, held ++ s.process.live⟩ t blocks frees
  apart : s.process.owned.Pairwise Apart
  blocks (i : Fin 64) (b : ℕ) : b ∈ blocks i → (b, blockSize) ∈ s.process.owned
  small (r : ℕ × ℕ) : r ∈ s.process.live → ¬ r.2 > 512
  sub : held ⊆ s.process.owned
  pending : Pending s.site held

variable {s : Threads ι} {held : List (ℕ × ℕ)} {t : Territory Owner}
  {blocks frees : Fin 64 → List ℕ} {k : ι} {i : Fin 64}

/-- **A division keeps the slots apart and in their blocks.** -/
theorem Shared.safe (h : s.Shared held t blocks frees) : s.Safe := by
  refine ⟨fun r hr => ?_, ?_⟩
  · have hs := h.small r hr
    have hslot := h.divided.region r (List.mem_append_right _ hr)
    rw [IsRegion, dif_neg hs] at hslot
    obtain ⟨b, hb, hle, hin⟩ := hslot.block
    have hfit := le_slotSize hs
    exact ⟨b, h.blocks _ b hb, hle, by omega⟩
  · have hkept : Process.Kept ⟨s.process.pools, s.process.owned, held ++ s.process.live⟩ :=
      ⟨t, blocks, frees, h.divided⟩
    exact (List.pairwise_append.mp hkept.safe.apart).2.1

section Sites

variable [DecidableEq ι] {site : ι → Site}

/-- A thread that goes to another place holds no new block. -/
theorem Pending.goto (h : Pending site held) {d : Site} (hd : ∀ i b, d ≠ .link i b) :
    Pending (Function.update site k d) held := by
  have hold : ∀ k' i b, Function.update site k d k' = .link i b → site k' = .link i b := by
    intro k' i b e
    by_cases hk : k' = k
    · subst hk
      rw [Function.update_self] at e
      exact absurd e (hd i b)
    · rwa [Function.update_of_ne hk] at e
  exact ⟨fun k' i b e => h.held k' i b (hold k' i b e),
    fun k₁ k₂ i i' b e₁ e₂ => h.distinct k₁ k₂ i i' b (hold k₁ i b e₁) (hold k₂ i' b e₂)⟩

/-- A thread gets a block that no other thread holds. -/
theorem Pending.obtain (h : Pending site held) {b : ℕ} (hb : (b, blockSize) ∉ held) :
    Pending (Function.update site k (.link i b)) ((b, blockSize) :: held) := by
  have hother : ∀ k' i' b', k' ≠ k → Function.update site k (.link i b) k' = .link i' b' →
      site k' = .link i' b' := fun k' i' b' hk e => by rwa [Function.update_of_ne hk] at e
  have hself : ∀ i' b', Function.update site k (.link i b) k = .link i' b' → b' = b := by
    intro i' b' e
    rw [Function.update_self] at e
    exact (Site.link.inj e).2.symm
  refine ⟨fun k' i' b' e => ?_, fun k₁ k₂ i₁ i₂ b' e₁ e₂ => ?_⟩
  · by_cases hk : k' = k
    · subst hk
      rw [hself i' b' e]
      exact List.mem_cons_self ..
    · exact List.mem_cons_of_mem _ (h.held k' i' b' (hother k' i' b' hk e))
  · by_cases hk₁ : k₁ = k <;> by_cases hk₂ : k₂ = k
    · rw [hk₁, hk₂]
    · subst hk₁
      exact absurd (hself i₁ b' e₁ ▸ h.held k₂ i₂ b' (hother k₂ i₂ b' hk₂ e₂)) hb
    · subst hk₂
      exact absurd (hself i₂ b' e₂ ▸ h.held k₁ i₁ b' (hother k₁ i₁ b' hk₁ e₁)) hb
    · exact h.distinct k₁ k₂ i₁ i₂ b' (hother k₁ i₁ b' hk₁ e₁) (hother k₂ i₂ b' hk₂ e₂)

/-- A thread links its block. -/
theorem Pending.link (h : Pending site held) {b : ℕ} (hk : site k = .link i b) :
    Pending (Function.update site k .idle) (held.erase (b, blockSize)) := by
  have hold := h.goto (k := k) (d := .idle) fun _ _ => Site.noConfusion
  refine ⟨fun k' i' b' e => ?_, hold.distinct⟩
  refine (List.mem_erase_of_ne fun heq => ?_).mpr (hold.held k' i' b' e)
  obtain rfl : b' = b := (Prod.mk.inj heq).1
  by_cases hkk : k' = k
  · subst hkk
    rw [Function.update_self] at e
    exact Site.noConfusion e
  · rw [Function.update_of_ne hkk] at e
    exact hkk (h.distinct k' k i' i b' e hk)

end Sites

/-! ## One step -/

/-- A block that a thread holds is as fresh as it was. -/
theorem Shared.fresh (h : s.Shared held t blocks frees) {b : ℕ} (hb : (b, blockSize) ∈ held) :
    Process.Fresh (s.process.owned.erase (b, blockSize)) b blockSize := by
  have hrange := h.divided.range _ (h.sub hb)
  have hperm := List.perm_cons_erase (h.sub hb)
  have hpair := (hperm.pairwise_iff Apart.symm).mp h.apart
  exact ⟨hrange.1, hrange.2, (List.pairwise_cons.mp hpair).1⟩

/-- **`deAllocate`.** -/
theorem Shared.takeBack (h : s.Shared held t blocks frees) {p : ℕ}
    (hp : (p, slotSize i) ∈ s.process.live) :
    ∃ frees', (s.takeBack i p).Shared held t blocks frees' := by
  have hnot : (p, slotSize i) ∉ held := fun hmem => by
    have hnd := (List.nodup_append.mp (List.map_append ▸ h.divided.starts)).2.2
    exact hnd p (List.mem_map_of_mem hmem) p (List.mem_map_of_mem hp) rfl
  obtain ⟨hp0, frees', h'⟩ := h.divided.give (slotSize_small i) (poolId_slotSize i _).symm
    (List.mem_append_right _ hp)
  rw [List.erase_append_right _ hnot] at h'
  refine ⟨frees', ?_⟩
  rw [Threads.takeBack, MemoryPool.deAllocate, if_pos hp0]
  exact ⟨h', h.apart, h.blocks, fun r hr => h.small r (List.mem_of_mem_erase hr), h.sub, h.pending⟩

section Step

variable [DecidableEq ι]

theorem Shared.goto (h : s.Shared held t blocks frees) {d : Site} (hd : ∀ i b, d ≠ .link i b) :
    (s.goto k d).Shared held t blocks frees :=
  { h with pending := h.pending.goto hd }

/-- **A slot is handed out** by a call that links no block. -/
theorem Shared.handOut (h : s.Shared held t blocks frees) {p : ℕ} {pool : MemoryPool} {m : Memory}
    {t' : Territory Owner} {frees' : Fin 64 → List ℕ}
    (h' : Divided ⟨⟨Function.update s.process.pools.pool i pool, m⟩, s.process.owned,
      (p, slotSize i) :: (held ++ s.process.live)⟩ t' blocks frees') :
    (s.handOut k i (p, pool, m)).Shared held t' blocks frees' where
  divided := h'.perm (List.Perm.refl _) List.perm_middle.symm
  apart := h.apart
  blocks := h.blocks
  small r hr := by
    rcases List.mem_cons.mp hr with rfl | hr
    · exact slotSize_small i
    · exact h.small r hr
  sub := h.sub
  pending := h.pending.goto fun _ _ => Site.noConfusion

/-- The locked part of `nofree_solve`, where there is room. -/
theorem Shared.cut (h : s.Shared held t blocks frees)
    (hlt : (s.pool i).currentSlot < (s.pool i).lastSlot) :
    ∃ t', (s.handOut k i ((s.pool i).cutSlot s.mem)).Shared held t' blocks frees := by
  obtain ⟨t', h'⟩ := h.divided.take (slotSize_small i) (poolId_slotSize i _).symm hlt
  exact ⟨t', h.handOut h'⟩

/-- The locked part of `allocate`. -/
theorem Shared.pop (h : s.Shared held t blocks frees) (hfree : (s.pool i).freeSlot ≠ 0) :
    ∃ frees', (s.handOut k i ((s.pool i).popFree s.mem)).Shared held t blocks frees' := by
  obtain ⟨frees', h'⟩ := h.divided.reuse (slotSize_small i) (poolId_slotSize i _).symm hfree
  exact ⟨frees', h.handOut h'⟩

/-- **A thread gets a block.** -/
theorem Shared.obtainBlock (h : s.Shared held t blocks frees) {b : ℕ}
    (hb : Process.Fresh s.process.owned b blockSize) :
    ∃ t', (s.obtainBlock k i b).Shared ((b, blockSize) :: held) t' blocks frees := by
  obtain ⟨t', h'⟩ := h.divided.large (show blockSize > 512 by decide) hb
  have hpos : 0 < blockSize := by decide
  have hnot : (b, blockSize) ∉ held := fun hmem => by
    have := (hb.2.2 _ (h.sub hmem)).le_or_le hpos hpos
    dsimp only at this
    omega
  exact ⟨t', h', List.pairwise_cons.mpr ⟨hb.2.2, h.apart⟩,
    fun i b hmem => List.mem_cons_of_mem _ (h.blocks i b hmem), h.small,
    List.cons_subset_cons _ h.sub, h.pending.obtain hnot⟩

/-- **The locked part of `allocateBlock`**: the block becomes the pool's, and a slot is cut off. -/
theorem Shared.link (h : s.Shared held t blocks frees) {b : ℕ} (hk : s.site k = .link i b) :
    ∃ t' blocks', (s.handOut k i ((s.pool i).allocateBlock s.mem b)).Shared
      (held.erase (b, blockSize)) t' blocks' frees := by
  have hb := h.pending.held k i b hk
  have hperm := List.perm_cons_erase (h.sub hb)
  -- the thread gives its region up, and the block enters the pool
  obtain ⟨t₁, h₁⟩ := h.divided.giveLarge (show blockSize > 512 by decide)
    (List.mem_append_left _ hb)
  obtain ⟨⟨t₂, h₂⟩, hlt⟩ := h₁.enter_head i (h.fresh hb)
  have hself : Function.update s.process.pools.pool i ((s.pool i).enterBlock b) i
      = (s.pool i).enterBlock b := Function.update_self ..
  obtain ⟨t₃, h₃⟩ := h₂.take (slotSize_small i) (poolId_slotSize i _).symm
    (by dsimp only; rw [hself]; exact hlt)
  dsimp only at h₃
  rw [hself, Function.update_idem, List.erase_append_left _ hb] at h₃
  refine ⟨t₃, _, h₃.perm hperm.symm List.perm_middle.symm, h.apart, fun j c hc => ?_,
    fun r hr => ?_,
    fun r hr => h.sub (List.mem_of_mem_erase hr), h.pending.link hk⟩
  · by_cases hj : j = i
    · subst hj
      rw [Function.update_self] at hc
      rcases List.mem_cons.mp hc with rfl | hc
      · exact h.sub hb
      · exact h.blocks j c hc
    · rw [Function.update_of_ne hj] at hc
      exact h.blocks j c hc
  · rcases List.mem_cons.mp hr with rfl | hr
    · exact slotSize_small i
    · exact h.small r hr

/-- **What every step keeps**, where the space that was seen is still there. -/
def Kept (s : Threads ι) : Prop := ∃ held t blocks frees, s.Shared held t blocks frees

omit [DecidableEq ι] in
theorem kept_init (m : Memory) : (init ι m).Kept := by
  obtain ⟨t, blocks, frees, h⟩ := Process.kept_init m
  have hchain (i : Fin 64) : blocks i = [] := (h.pool i).blockChain.unique .nil
  refine ⟨[], t, blocks, frees, h, .nil, fun i b hb => ?_, fun _ hr => absurd hr List.not_mem_nil,
    List.nil_subset _, fun _ _ _ e => Site.noConfusion e, fun _ _ _ _ _ e => Site.noConfusion e⟩
  rw [hchain] at hb
  exact absurd hb List.not_mem_nil

/-- **One step keeps the division.** -/
theorem Kept.step {s' : Threads ι} {a : ι × Action} (h : s.Kept) (hroom : s.StillRoom a)
    (hs : Step s a s') : s'.Kept := by
  obtain ⟨held, t, blocks, frees, h⟩ := h
  cases hs with
  | allocate hk => exact ⟨_, _, _, _, h.goto fun _ _ => by split <;> exact Site.noConfusion⟩
  | pop hk hfree =>
    obtain ⟨frees', h'⟩ := h.pop hfree
    exact ⟨_, _, _, _, h'⟩
  | popNone hk hfree => exact ⟨_, _, _, _, h.goto fun _ _ => Site.noConfusion⟩
  | room hk => exact ⟨_, _, _, _, h.goto fun _ _ => by split <;> exact Site.noConfusion⟩
  | cut hk =>
    obtain ⟨t', h'⟩ := h.cut (hroom rfl _ hk)
    exact ⟨_, _, _, _, h'⟩
  | new hk hnew =>
    obtain ⟨t', h'⟩ := h.obtainBlock hnew
    exact ⟨_, _, _, _, h'⟩
  | link hk =>
    obtain ⟨t', blocks', h'⟩ := h.link hk
    exact ⟨_, _, _, _, h'⟩
  | deAllocate hk hp =>
    obtain ⟨frees', h'⟩ := h.takeBack hp
    exact ⟨_, _, _, _, h'⟩
  | write hk hm =>
    have hwrite := h.divided.write fun x hx hnot => hm x hx fun ⟨r, hr, hin⟩ =>
      hnot ⟨r, List.mem_append_right _ hr, hin⟩
    exact ⟨_, _, _, _, hwrite, h.apart, h.blocks, h.small, h.sub, h.pending⟩

omit [DecidableEq ι] in
/-- **A slot that is cut without space** does not end in the pool's block. -/
theorem Shared.overrun (h : s.Shared held t blocks frees) {b : ℕ} {bs : List ℕ}
    (hb : blocks i = b :: bs) (hge : (s.pool i).currentSlot ≥ (s.pool i).lastSlot) :
    ¬ (s.pool i).currentSlot + slotSize i ≤ b + blockSize := by
  have hbs : blockSize = 4096 := rfl
  have hpos := slotSize_pos i
  obtain ⟨hnil, -, -⟩ | ⟨b', bs', hb', hr⟩ := (h.divided.pool i).rest
  · exact absurd (hb.symm.trans hnil) (List.cons_ne_nil _ _)
  · obtain rfl : b = b' := (List.cons.inj (hb.symm.trans hb')).1
    have hlast : (s.pool i).lastSlot = b + blockSize - slotSize i + 1 := hr.lastSlot
    omega

/-! ## A call that is not interrupted -/

/-- `use_Memory` of a slot, as the sequential process performs it. -/
def useSlot (s : Process) (i : Fin 64) (new : ℕ) : Process :=
  ⟨(s.pools.useMemory (slotSize i) new).2, s.ownedAfter (slotSize i) new,
    ((s.pools.useMemory (slotSize i) new).1, slotSize i) :: s.live⟩

@[simp] theorem goto_goto (d d' : Site) : (s.goto k d).goto k d' = s.goto k d' := by
  rw [goto, goto, goto, Function.update_idem]

@[simp] theorem handOut_goto (d : Site) (r : ℕ × MemoryPool × Memory) :
    (s.goto k d).handOut k i r = s.handOut k i r := by
  rw [handOut, goto, handOut, Function.update_idem]

theorem goto_site (d : Site) : (s.goto k d).site k = d := Function.update_self ..

/-- What a thread's test of the free list finds. -/
theorem step_allocate_free (hk : s.site k = .idle) (hfree : (s.pool i).freeSlot ≠ 0) :
    Step s (k, .allocate i) (s.goto k (.pop i)) := by
  have h := Step.allocate (i := i) hk
  rwa [if_pos hfree] at h

theorem step_allocate_none (hk : s.site k = .idle) (hfree : (s.pool i).freeSlot = 0) :
    Step s (k, .allocate i) (s.goto k (.room i)) := by
  have h := Step.allocate (i := i) hk
  rwa [if_neg fun hne => hne hfree] at h

/-- What its test of the space left finds. -/
theorem step_room_full (hk : s.site k = .room i)
    (hfull : (s.pool i).currentSlot ≥ (s.pool i).lastSlot) :
    Step s (k, .room) (s.goto k (.full i)) := by
  have h := Step.room hk
  rwa [if_pos hfull] at h

theorem step_room_left (hk : s.site k = .room i)
    (hlt : (s.pool i).currentSlot < (s.pool i).lastSlot) :
    Step s (k, .room) (s.goto k (.cut i)) := by
  have h := Step.room hk
  rwa [if_neg (Nat.not_le.mpr hlt)] at h

/-- A step that cuts no slot needs no space. -/
theorem Step.guarded {s' : Threads ι} {a : ι × Action} (hs : Step s a s') (h : a.2 ≠ .cut) :
    guarded StillRoom Step s a s' := ⟨fun e => absurd e h, hs⟩

/-- The three ways of a call, taken by one thread without another in between. -/
theorem run_popFree (hk : s.site k = .idle) (hfree : (s.pool i).freeSlot ≠ 0) :
    Run (guarded StillRoom Step) s [(k, .allocate i), (k, .pop)]
      (s.handOut k i ((s.pool i).popFree s.mem)) := by
  have hpop := Step.pop (goto_site (s := s) (k := k) (.pop i)) hfree
  rw [handOut_goto] at hpop
  exact .cons ((step_allocate_free hk hfree).guarded Action.noConfusion)
    (.single (hpop.guarded Action.noConfusion))

theorem run_cutSlot (hk : s.site k = .idle) (hfree : (s.pool i).freeSlot = 0)
    (hlt : (s.pool i).currentSlot < (s.pool i).lastSlot) :
    Run (guarded StillRoom Step) s [(k, .allocate i), (k, .room), (k, .cut)]
      (s.handOut k i ((s.pool i).cutSlot s.mem)) := by
  have hroom := step_room_left (goto_site (s := s) (k := k) (.room i)) hlt
  rw [goto_goto] at hroom
  have hcut := Step.cut (goto_site (s := s) (k := k) (.cut i))
  rw [handOut_goto] at hcut
  have hstill : (s.goto k (.cut i)).StillRoom (k, .cut) := by
    intro _ j hj
    obtain rfl : i = j := Site.cut.inj ((goto_site _).symm.trans hj)
    exact hlt
  exact .cons ((step_allocate_none hk hfree).guarded Action.noConfusion)
    (.cons (hroom.guarded Action.noConfusion) (.single ⟨hstill, hcut⟩))

theorem run_allocateBlock {b : ℕ} (hk : s.site k = .idle) (hfree : (s.pool i).freeSlot = 0)
    (hfull : (s.pool i).currentSlot ≥ (s.pool i).lastSlot)
    (hb : Process.Fresh s.process.owned b blockSize) :
    Run (guarded StillRoom Step) s [(k, .allocate i), (k, .room), (k, .new b), (k, .link)]
      ((s.obtainBlock k i b).handOut k i ((s.pool i).allocateBlock s.mem b)) := by
  have hroom := step_room_full (goto_site (s := s) (k := k) (.room i)) hfull
  rw [goto_goto] at hroom
  have hnew := Step.new (goto_site (s := s) (k := k) (.full i)) hb
  have hlink := Step.link (s := (s.goto k (.full i)).obtainBlock k i b) (Function.update_self ..)
  have hsame : (s.goto k (.full i)).obtainBlock k i b = s.obtainBlock k i b := by
    rw [Threads.obtainBlock, goto, Threads.obtainBlock, Function.update_idem]
  rw [hsame] at hnew hlink
  exact .cons ((step_allocate_none hk hfree).guarded Action.noConfusion)
    (.cons (hroom.guarded Action.noConfusion)
      (.cons (hnew.guarded Action.noConfusion)
        (.single (hlink.guarded Action.noConfusion))))

/-- **A call that no other thread interrupts is the sequential one.** -/
theorem run_useSlot {P : Process} {site : ι → Site} {new : ℕ} (hk : site k = .idle)
    (hnew : (P.pools.pool i).needsBlock = true → Process.Fresh P.owned new blockSize) :
    ∃ as, Run (guarded StillRoom Step) ⟨P, site⟩ as ⟨useSlot P i new, site⟩ := by
  have hsite : Function.update site k .idle = site := by rw [← hk, Function.update_eq_self]
  have hpos : 1 ≤ slotSize i := Nat.le_trans (by decide) (slotSize_pos i).1
  have hi := (poolId_slotSize i (slotSize_small i)).symm
  rw [useSlot, Process.useMemory_small _ _ hpos (slotSize_small i) hi, Process.ownedAfter,
    Process.request_small _ hpos (slotSize_small i) hi, MemoryPool.allocate_eq]
  by_cases hfree : (P.pools.pool i).freeSlot = 0
  · rw [if_neg fun hne => hne hfree]
    by_cases hfull : (P.pools.pool i).currentSlot ≥ (P.pools.pool i).lastSlot
    · have hyes : (P.pools.pool i).needsBlock = true := by
        simp [MemoryPool.needsBlock, hfree, hfull]
      have r := run_allocateBlock (s := ⟨P, site⟩) hk hfree hfull (hnew hyes)
      rw [handOut, Threads.obtainBlock, Function.update_idem, hsite] at r
      rw [if_pos hfull, if_pos hyes]
      exact ⟨_, r⟩
    · have hlt := Nat.lt_of_not_le hfull
      have hno : ¬ (P.pools.pool i).needsBlock = true := by simp [MemoryPool.needsBlock, hlt]
      have r := run_cutSlot (s := ⟨P, site⟩) hk hfree hlt
      rw [handOut, hsite] at r
      rw [if_neg hfull, if_neg hno]
      exact ⟨_, r⟩
  · have hno : ¬ (P.pools.pool i).needsBlock = true := by simp [MemoryPool.needsBlock, hfree]
    have r := run_popFree (s := ⟨P, site⟩) hk hfree
    rw [handOut, hsite] at r
    rw [if_pos hfree, if_neg hno]
    exact ⟨_, r⟩

end Step

/-! ## The slots of all threads -/

section Slots

variable [DecidableEq ι]

/-- **The slots of the threads are their own**, in every run in which the space a thread saw is
still there when it cuts its slot. -/
theorem threads_safe_of_stillRoom {m : Memory} {as : List (ι × Action)}
    (r : Run (guarded StillRoom Step) (init ι m) as s) : s.Safe := by
  have hkept : s.Kept :=
    r.invariant (I := Kept) (fun _ _ _ h hs => h.step hs.1 hs.2) (kept_init m)
  obtain ⟨held, t, blocks, frees, h⟩ := hkept
  exact h.safe

/-- Two threads find the last pool empty, and each brings a block; one then cuts a second slot. -/
theorem threads_safe_of_stillRoom_two : ∃ as s,
    Run (guarded StillRoom Step) (init (Fin 2) fun _ => 0) as s ∧
    s.process.live = [(5120, 512), (4608, 512), (8704, 512)] ∧ s.Safe := by
  obtain ⟨as, s, r, hlive⟩ : ∃ as s, Run (guarded StillRoom Step) (init (Fin 2) fun _ => 0) as s ∧
      s.process.live = [(5120, 512), (4608, 512), (8704, 512)] := by
    refine ⟨_, _,
      .cons ((step_allocate_none (k := 0) (i := 63) rfl rfl).guarded Action.noConfusion)
      (.cons ((step_allocate_none (k := 1) (i := 63) rfl rfl).guarded Action.noConfusion)
      (.cons ((step_room_full (k := 0) (i := 63) rfl (by decide)).guarded Action.noConfusion)
      (.cons ((step_room_full (k := 1) (i := 63) rfl (by decide)).guarded Action.noConfusion)
      (.cons ((Step.new (k := 0) (i := 63) (b := 4096) rfl ?_).guarded Action.noConfusion)
      (.cons ((Step.new (k := 1) (i := 63) (b := 8192) rfl ?_).guarded Action.noConfusion)
      (.cons ((Step.link (k := 1) (i := 63) rfl).guarded Action.noConfusion)
      (.cons ((Step.link (k := 0) (i := 63) rfl).guarded Action.noConfusion)
      (run_cutSlot (k := 0) (i := 63) rfl rfl (by decide))))))))), by decide⟩
    · exact ⟨by decide, by decide, fun r hr => absurd hr List.not_mem_nil⟩
    · refine ⟨by decide, by decide, fun r hr x hx hx' hin => ?_⟩
      obtain rfl : r = (4096, 4096) := List.mem_singleton.mp hr
      dsimp only at hin hx
      omega
  exact ⟨as, s, r, hlive, threads_safe_of_stillRoom r⟩

/-- The process after `n` slots of 512 bytes, the first from a block at 4096. -/
def afterSlots : ℕ → Process
  | 0 => .init fun _ => 0
  | n + 1 => useSlot (afterSlots n) 63 4096

/-- One thread may take all slots of a block but the last. -/
theorem run_afterSlots : ∀ n ≤ 6, ∃ as, Run (guarded StillRoom Step) (init (Fin 2) fun _ => 0) as
    ⟨afterSlots n, fun _ => .idle⟩
  | 0, _ => ⟨[], .nil _⟩
  | n + 1, hn => by
    obtain ⟨as, r⟩ := run_afterSlots n (Nat.le_of_succ_le hn)
    have hnew : ((afterSlots n).pools.pool 63).needsBlock = true →
        Process.Fresh (afterSlots n).owned 4096 blockSize := fun hneeds => by
      rcases n with _ | n
      · exact ⟨by decide, by decide, fun r hr => absurd hr List.not_mem_nil⟩
      · have hno : ∀ n < 5, ((afterSlots (n + 1)).pools.pool 63).needsBlock = false := by decide
        exact absurd hneeds (by rw [hno n (by omega)]; exact Bool.false_ne_true)
    obtain ⟨bs, r'⟩ : ∃ bs, Run (guarded StillRoom Step) ⟨afterSlots n, fun _ : Fin 2 => .idle⟩ bs
        ⟨afterSlots (n + 1), fun _ => .idle⟩ := run_useSlot (k := 0) rfl hnew
    exact ⟨as ++ bs, r.append r'⟩

/-- **Two threads that see the last slot of a block both cut one**, and the second lies outside. -/
theorem second_slot_outside : ¬ ∀ (m : Memory) (as : List (Fin 2 × Action)) (s : Threads (Fin 2)),
    Run Step (init (Fin 2) m) as s → s.Safe := by
  intro hsafe
  obtain ⟨as, r⟩ := run_afterSlots 6 (Nat.le_refl _)
  have r' : ∃ bs s, Run Step ⟨afterSlots 6, fun _ : Fin 2 => .idle⟩ bs s ∧
      s.process.owned = [(4096, 4096)] ∧ (8192, 512) ∈ s.process.live :=
    ⟨_, _, .cons (step_allocate_none (k := 0) (i := 63) rfl rfl)
      (.cons (step_room_left (k := 0) (i := 63) rfl (by decide))
      (.cons (step_allocate_none (k := 1) (i := 63) rfl rfl)
      (.cons (step_room_left (k := 1) (i := 63) rfl (by decide))
      (.cons (Step.cut (k := 0) (i := 63) rfl)
      (.single (Step.cut (k := 1) (i := 63) rfl)))))), by decide, by decide⟩
  obtain ⟨bs, s, r', howned, hmem⟩ := r'
  have hrun := (r.mono fun _ _ _ h => h.2).append r'
  obtain ⟨b, hb, hle, hin⟩ := (hsafe _ _ s hrun).inBlock _ hmem
  rw [howned] at hb
  obtain rfl : b = 4096 := (Prod.mk.inj (List.mem_singleton.mp hb)).1
  exact absurd hin (by decide)

end Slots

end Threads

end WebServer.Memory
