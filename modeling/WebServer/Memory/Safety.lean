import WebServer.Memory.Division

/-!
# Memory/Safety — what a program gets from the pools is its own

In every run of a program that frees only what it has and writes only where it may, the regions it
has are apart from each other and from the link words of the blocks, and a small one lies in a block
of the pool for its size (`safe_of_run`).
-/

namespace WebServer.Memory

namespace Process

/-- The blocks of a pool, as its chain lists them. -/
def Blocks (s : Process) (i : Fin 64) (bs : List ℕ) : Prop :=
  s.pools.mem.Chain wordSize (s.pools.pool i).currentBlock bs

/-- **The regions of the program are its own.** -/
structure Safe (s : Process) : Prop where
  apart : s.live.Pairwise Apart
  chained (i : Fin 64) : ∃ bs, s.Blocks i bs
  links (r : ℕ × ℕ) : r ∈ s.live → ∀ i bs, s.Blocks i bs → ∀ b ∈ bs, Apart r (b, wordSize)
  inBlock (r : ℕ × ℕ) : r ∈ s.live → ∀ (h : ¬ r.2 > 512) (bs : List ℕ),
    s.Blocks (Pools.poolId r.2 h) bs → ∃ b ∈ bs, b ≤ r.1 ∧ r.1 + r.2 ≤ b + blockSize

/-- **What a run keeps.** -/
def Kept (s : Process) : Prop := ∃ t blocks frees, Divided s t blocks frees

theorem Kept.safe {s : Process} (h : s.Kept) : s.Safe := by
  obtain ⟨t, blocks, frees, h⟩ := h
  refine ⟨?_, fun i => ⟨_, (h.pool i).blockChain⟩, ?_, ?_⟩
  · have hne := List.pairwise_map.mp h.starts
    refine hne.imp_of_mem fun {r r'} hr hr' hrr' => ?_
    obtain ⟨u, hu, hform⟩ := h.holds_region hr
    obtain ⟨u', hu', hform'⟩ := h.holds_region hr'
    refine hu.apart hu' ?_
    rintro rfl
    rcases hform with rfl | ⟨_, rfl⟩ <;> rcases hform' with e | ⟨_, e⟩
    · exact hrr' (Owner.large.inj e)
    · exact Owner.noConfusion e
    · exact Owner.noConfusion e
    · exact hrr' (Owner.slot.inj e).2
  · intro r hr i bs hbs b hb
    obtain rfl := hbs.unique (h.pool i).blockChain
    obtain ⟨u, hu, hform⟩ := h.holds_region hr
    refine hu.apart ((h.pool i).link b hb) ?_
    rcases hform with rfl | ⟨_, rfl⟩ <;> exact Owner.noConfusion
  · intro r hr hs bs hbs
    obtain rfl := hbs.unique (h.pool _).blockChain
    have hslot := h.region r hr
    rw [IsRegion, dif_neg hs] at hslot
    obtain ⟨b, hb, hle, hin⟩ := hslot.block
    have := le_slotSize hs
    exact ⟨b, hb, hle, by omega⟩

theorem kept_init (m : Memory) : (init m).Kept := by
  refine ⟨fun _ => none, fun _ => [], fun _ => [], fun i => ?_, ?_, .nil, ?_, ?_, ?_⟩
  · exact ⟨slotSize_init i, .nil, .nil, fun _ h => absurd h List.not_mem_nil,
      fun _ h => absurd h List.not_mem_nil, .inl ⟨rfl, rfl, rfl⟩⟩
  · exact fun _ h => absurd h List.not_mem_nil
  · exact fun _ _ h => absurd h List.not_mem_nil
  · exact fun _ _ h => absurd h (by simp)
  · exact fun _ h => absurd h List.not_mem_nil

/-- What `use_Memory` does for a size that fits a slot. -/
theorem useMemory_small (P : Pools) {size : ℕ} (new : ℕ) (hsize : 1 ≤ size) (hs : ¬ size > 512)
    {i : Fin 64} (hi : i = Pools.poolId size hs) :
    P.useMemory size new = (((P.pool i).allocate P.mem new).1,
      ⟨Function.update P.pool i ((P.pool i).allocate P.mem new).2.1,
        ((P.pool i).allocate P.mem new).2.2⟩) := by
  rw [Pools.useMemory, if_neg (by omega), dif_neg hs, hi]

theorem request_small (P : Pools) {size : ℕ} (hsize : 1 ≤ size) (hs : ¬ size > 512) {i : Fin 64}
    (hi : i = Pools.poolId size hs) :
    P.request size = if (P.pool i).needsBlock then some blockSize else none := by
  rw [Pools.request, if_neg (by omega), dif_neg hs, hi]

/-- **`use_Memory` keeps the division**, and frees nothing. -/
theorem divided_use {s : Process} {t : Territory Owner} {blocks frees : Fin 64 → List ℕ}
    (h : Divided s t blocks frees) {size new : ℕ} (hsize : 1 ≤ size)
    (hnew : ∀ n, s.pools.request size = some n → Fresh s.owned new n) :
    ∃ t' blocks' frees', (∀ j, frees' j ⊆ frees j) ∧
      Divided ⟨(s.pools.useMemory size new).2, s.ownedAfter size new,
        ((s.pools.useMemory size new).1, size) :: s.live⟩ t' blocks' frees' := by
  have hrefl : ∀ j, frees j ⊆ frees j := fun _ => List.Subset.refl _
  by_cases hs : size > 512
  · have h0 : size ≠ 0 := by omega
    have hreq : s.pools.request size = some size := by rw [Pools.request, if_neg h0, dif_pos hs]
    obtain ⟨t', h'⟩ := h.large hs (hnew size hreq)
    rw [ownedAfter, hreq, Pools.useMemory, if_neg h0, dif_pos hs]
    exact ⟨t', blocks, frees, hrefl, h'⟩
  · obtain ⟨i, hi⟩ : ∃ i, i = Pools.poolId size hs := ⟨_, rfl⟩
    have hreq := request_small s.pools hsize hs hi
    rw [useMemory_small s.pools new hsize hs hi]
    unfold MemoryPool.allocate MemoryPool.nofreeSolve
    by_cases hfree : (s.pools.pool i).freeSlot ≠ 0
    · have hno : (s.pools.pool i).needsBlock = false := by simp [MemoryPool.needsBlock, hfree]
      obtain ⟨-, frees', hsub, h'⟩ := h.reuse_sub hs hi hfree
      rw [hno] at hreq
      rw [if_pos hfree, ownedAfter, hreq]
      exact ⟨t, blocks, frees', hsub, h'⟩
    · rw [if_neg hfree]
      by_cases hfull : (s.pools.pool i).currentSlot ≥ (s.pools.pool i).lastSlot
      · have hyes : (s.pools.pool i).needsBlock = true := by
          simpa [MemoryPool.needsBlock, hfull] using hfree
        rw [hyes] at hreq
        obtain ⟨⟨t', blocks', h'⟩, hlt⟩ := h.enter i (hnew _ hreq)
        have hself : Function.update s.pools.pool i ((s.pools.pool i).enterBlock new) i
            = (s.pools.pool i).enterBlock new := Function.update_self ..
        obtain ⟨t'', h''⟩ := h'.take hs hi (by dsimp only; rw [hself]; exact hlt)
        rw [if_pos hfull, ownedAfter, hreq]
        dsimp only at h''
        rw [hself, Function.update_idem] at h''
        exact ⟨t'', blocks', frees, hrefl, h''⟩
      · have hno : (s.pools.pool i).needsBlock = false := by
          simp [MemoryPool.needsBlock, Nat.lt_of_not_le hfull]
        rw [hno] at hreq
        obtain ⟨t', h'⟩ := h.take hs hi (Nat.lt_of_not_le hfull)
        rw [if_neg hfull, ownedAfter, hreq]
        exact ⟨t', blocks, frees, hrefl, h'⟩

theorem Kept.use {s : Process} (h : s.Kept) {size new : ℕ} (hsize : 1 ≤ size)
    (hnew : ∀ n, s.pools.request size = some n → Fresh s.owned new n) :
    Kept ⟨(s.pools.useMemory size new).2, s.ownedAfter size new,
      ((s.pools.useMemory size new).1, size) :: s.live⟩ := by
  obtain ⟨t, blocks, frees, h⟩ := h
  obtain ⟨t', blocks', frees', -, h'⟩ := divided_use h hsize hnew
  exact ⟨t', blocks', frees', h'⟩

/-- **`free_Memory` keeps the division.** -/
theorem Kept.free {s : Process} (h : s.Kept) {size p : ℕ} (hp : (p, size) ∈ s.live) :
    Kept ⟨s.pools.freeMemory size p, if size > 512 then s.owned.erase (p, size) else s.owned,
      s.live.erase (p, size)⟩ := by
  obtain ⟨t, blocks, frees, h⟩ := h
  by_cases hs : size > 512
  · obtain ⟨t', h'⟩ := h.giveLarge hs hp
    have hfree : s.pools.freeMemory size p = s.pools := by
      rw [Pools.freeMemory, dif_pos hs, ite_self]
    rw [if_pos hs, hfree]
    exact ⟨t', blocks, frees, h'⟩
  · obtain ⟨hp0, frees', h'⟩ := h.give hs rfl hp
    rw [if_neg hs, Pools.freeMemory, if_neg hp0, dif_neg hs, MemoryPool.deAllocate, if_pos hp0]
    exact ⟨t, blocks, frees', h'⟩

/-- **One step keeps the division.** -/
theorem Kept.step {s s' : Process} {c : Call} (h : s.Kept) (hs : Step s c s') : s'.Kept := by
  cases hs with
  | use hsize hnew => exact h.use hsize hnew
  | free hp => exact h.free hp
  | write hm =>
    obtain ⟨t, blocks, frees, h⟩ := h
    exact ⟨t, blocks, frees, h.write hm⟩

/-- **The regions of a program are its own**, in every run, whatever the memory held before and
wherever `operator new` puts the blocks. -/
theorem safe_of_run {m : Memory} {as : List Call} {s : Process} (r : Run Step (init m) as s) :
    s.Safe :=
  (r.invariant (I := Kept) (fun _ _ _ h hs => h.step hs) (kept_init m)).safe

/-- A process that has got five bytes, from a block at 4096. -/
def fiveBytes : Process :=
  ⟨((Pools.init fun _ => 0).useMemory 5 4096).2, [(4096, 4096)], [(4104, 5)]⟩

theorem step_fiveBytes : Step (init fun _ => 0) (.useMemory 5 4096) fiveBytes := by
  refine .use (by decide) fun n hn => ?_
  obtain rfl : blockSize = n := Option.some.inj hn
  exact ⟨by decide, by decide, fun _ h => absurd h List.not_mem_nil⟩

/-- Five bytes from the first pool and 600 from `operator new`; then the five are freed. -/
theorem safe_of_run_three : ∃ as s, Run Step (init fun _ => 0) as s ∧ as.length = 3 ∧
    s.live = [(8192, 600)] ∧ s.Safe := by
  have hlarge : Step fiveBytes (.useMemory 600 8192)
      ⟨fiveBytes.pools, [(8192, 600), (4096, 4096)], [(8192, 600), (4104, 5)]⟩ := by
    refine .use (by decide) fun n hn => ?_
    obtain rfl : 600 = n := Option.some.inj hn
    refine ⟨by decide, by decide, fun r hr x hx hx' hin => ?_⟩
    obtain rfl : r = (4096, 4096) := List.mem_singleton.mp hr
    dsimp only at hx hin
    omega
  have hlive : (4104, 5) ∈ [(8192, 600), (4104, 5)] := by decide
  have r := Run.cons step_fiveBytes (.cons hlarge (.single (.free hlive)))
  exact ⟨_, _, r, rfl, by decide, safe_of_run r⟩

end Process

end WebServer.Memory
