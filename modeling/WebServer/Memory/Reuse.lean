import WebServer.Memory.Safety

/-!
# Memory/Reuse — a pool grows only when all its slots are in use

A slot that is freed is handed out again before a new one is cut, and a new block is asked for only
when the current one is used up.  So a pool asks for a block just when the slots of its blocks are
all in use, and it never has a block more than the slots that were in use at one time needed
(`reused_of_run`).  How many slots a block has depends on where it lies.
-/

namespace WebServer.Memory

/-- **The slots of a block**: as many as fit behind its link word, from the first address that is
aligned. -/
def slotsIn (i : Fin 64) (b : ℕ) : ℕ :=
  (blockSize - wordSize - MemoryPool.padPointer (b + wordSize) (slotSize i)) / slotSize i

/-- The slots of all these blocks. -/
def slotsOf (i : Fin 64) : List ℕ → ℕ
  | [] => 0
  | b :: bs => slotsIn i b + slotsOf i bs

/-- The smallest slots, and the largest ones. -/
example : slotsIn 0 4096 = 511 ∧ slotsIn 63 4096 = 7 := by decide

/-- A region is a slot of this pool. -/
def inPool (i : Fin 64) (r : ℕ × ℕ) : Bool :=
  if h : r.2 > 512 then false else Pools.poolId r.2 h = i

theorem inPool_large {i : Fin 64} {p size : ℕ} (hs : size > 512) : inPool i (p, size) = false :=
  dif_pos hs

theorem inPool_small {i : Fin 64} {p size : ℕ} (hs : ¬ size > 512) :
    inPool i (p, size) = decide (Pools.poolId size hs = i) := dif_neg hs

/-! ## One pool -/

section Pool

variable {i : Fin 64} {pool : MemoryPool} {blocks : List ℕ} {b count n : ℕ}

/-- **The blocks of a pool are filled**: `count` slots were cut, all those behind the current block
among them, and these did not do for the `n` that were in use then. -/
def Filled (i : Fin 64) (pool : MemoryPool) (blocks : List ℕ) (count n : ℕ) : Prop :=
  match blocks with
  | [] => count = 0
  | b :: bs => slotsOf i bs < n ∧ ∃ k ≤ slotsIn i b, count = slotsOf i bs + k ∧
      pool.currentSlot = b + wordSize + MemoryPool.padPointer (b + wordSize) (slotSize i) +
        k * slotSize i

/-- **A block is used up** when its slots are cut. -/
theorem slotsIn_le_iff {k : ℕ} : b + blockSize - slotSize i + 1 ≤
      b + wordSize + MemoryPool.padPointer (b + wordSize) (slotSize i) + k * slotSize i ↔
    slotsIn i b ≤ k := by
  have hpos := slotSize_pos i
  have hbs : blockSize = 4096 := rfl
  have hw : wordSize = 8 := rfl
  have hpad : MemoryPool.padPointer (b + wordSize) (slotSize i) < slotSize i :=
    Nat.mod_lt _ (by omega)
  rw [slotsIn, ← Nat.lt_succ_iff (m := _ / _), Nat.div_lt_iff_lt_mul (by omega), Nat.succ_mul]
  omega

/-- **All slots are cut** just where the current block is used up. -/
theorem Filled.full_iff {t : Territory Owner} {m : Memory} {frees : List ℕ}
    (h : Filled i pool blocks count n) (hp : PoolDivided t m i pool blocks frees) :
    pool.lastSlot ≤ pool.currentSlot ↔ count = slotsOf i blocks := by
  rcases hp.rest with ⟨rfl, hcur, hlast⟩ | ⟨b, bs, rfl, hr⟩
  · exact iff_of_true (hlast.trans hcur.symm).le h
  · obtain ⟨-, k, hle, hcount, hcur⟩ := h
    rw [hr.lastSlot, hcur, slotsIn_le_iff, slotsOf, hcount]
    omega

/-- **No more slots are cut** than the blocks have. -/
theorem Filled.count_le (h : Filled i pool blocks count n) : count ≤ slotsOf i blocks := by
  cases blocks with
  | nil => exact h.le
  | cons b bs =>
    obtain ⟨-, k, hle, hcount, -⟩ := h
    rw [slotsOf, hcount]
    omega

/-- **A slot is cut** off a block that is not used up. -/
theorem Filled.advance {t : Territory Owner} {m : Memory} {frees : List ℕ}
    (h : Filled i pool blocks count n) (hp : PoolDivided t m i pool blocks frees)
    (hlt : pool.currentSlot < pool.lastSlot) : Filled i pool.advance blocks (count + 1) n := by
  have hfull : count ≠ slotsOf i blocks := mt (h.full_iff hp).mpr (Nat.not_le.mpr hlt)
  have hle := h.count_le
  cases blocks with
  | nil => exact absurd h hfull
  | cons b bs =>
    obtain ⟨hn, k, -, hcount, hcur⟩ := h
    rw [slotsOf] at hfull hle
    refine ⟨hn, k + 1, by omega, congrArg Nat.succ hcount, ?_⟩
    rw [MemoryPool.advance, hp.slotSize, slotSize_shift, hcur, Nat.succ_mul, Nat.add_assoc]

/-- **A new block**, when all slots of the others are in use, and one more is needed. -/
theorem Filled.enter (hcount : count = slotsOf i blocks) (hn : count < n)
    (hslot : pool.slotSize = slotSize i) (new : ℕ) :
    Filled i (pool.enterBlock new) (new :: blocks) count n := by
  refine ⟨hcount ▸ hn, 0, Nat.zero_le _, hcount, ?_⟩
  rw [Nat.zero_mul, Nat.add_zero, ← hslot]
  rfl

end Pool

/-! ## Runs -/

namespace Process

variable {s : Process} {t : Territory Owner} {blocks frees : Fin 64 → List ℕ} {i j : Fin 64} {n : ℕ}

/-- **The slots of a pool that are in use.** -/
def inUse (s : Process) (i : Fin 64) : ℕ := s.live.countP (inPool i)

/-- **What a run keeps** of a pool. -/
def KeptFilled (i : Fin 64) (n : ℕ) (s : Process) : Prop := ∃ t blocks frees,
  Divided s t blocks frees ∧
    Filled i (s.pools.pool i) (blocks i) (s.inUse i + (frees i).length) n

/-- **A free slot that is handed out** leaves its list. -/
theorem length_reuse (h : Divided s t blocks frees) {j : Fin 64} {live : List (ℕ × ℕ)}
    {frees' : Fin 64 → List ℕ} (hne : (s.pools.pool j).freeSlot ≠ 0)
    (h' : Divided ⟨⟨Function.update s.pools.pool j { s.pools.pool j with
      freeSlot := s.pools.mem.load (s.pools.pool j).freeSlot wordSize }, s.pools.mem⟩, s.owned,
      live⟩ t blocks frees') :
    (frees' i).length + (decide (j = i)).toNat = (frees i).length := by
  have hchain := (h.pool i).freeChain
  have hchain' := (h'.pool i).freeChain
  by_cases hj : j = i
  · subst hj
    dsimp only at hchain'
    rw [Function.update_self] at hchain'
    generalize (s.pools.pool j).freeSlot = p at hchain hchain' hne
    generalize frees j = ps at hchain
    cases hchain with
    | nil => exact absurd rfl hne
    | cons _ hrest =>
      rw [hchain'.unique hrest, List.length_cons, decide_eq_true rfl, Bool.toNat_true]
  · dsimp only at hchain'
    rw [Function.update_of_ne (Ne.symm hj)] at hchain'
    rw [hchain'.unique hchain, decide_eq_false hj, Bool.toNat_false, Nat.add_zero]

/-- What is in use when there is one region more. -/
theorem countP_cons_inPool {size p : ℕ} (hs : ¬ size > 512) (hj : j = Pools.poolId size hs)
    (live : List (ℕ × ℕ)) :
    ((p, size) :: live).countP (inPool i) = live.countP (inPool i) + (decide (j = i)).toNat := by
  rw [List.countP_cons, inPool_small hs, ← hj]
  cases decide (j = i) <;> rfl

section Use

variable {size new : ℕ} (hs : ¬ size > 512) (hj : j = Pools.poolId size hs)
  (h : Divided s t blocks frees)
  (hfilled : Filled i (s.pools.pool i) (blocks i) (s.inUse i + (frees i).length) n)

include hj h hfilled

/-- **A free slot is handed out**: it is in use now. -/
theorem KeptFilled.reuse (hfree : (s.pools.pool j).freeSlot ≠ 0) :
    KeptFilled i n ⟨⟨Function.update s.pools.pool j { s.pools.pool j with
      freeSlot := s.pools.mem.load (s.pools.pool j).freeSlot wordSize }, s.pools.mem⟩, s.owned,
      ((s.pools.pool j).freeSlot, size) :: s.live⟩ := by
  obtain ⟨-, frees', -, h'⟩ := h.reuse_sub hs hj hfree
  refine ⟨t, blocks, frees', h', ?_⟩
  have hlen := length_reuse (i := i) h hfree h'
  rw [inUse, countP_cons_inPool hs hj, Nat.add_assoc, Nat.add_comm _ (frees' i).length, hlen]
  by_cases hji : j = i
  · subst hji
    dsimp only
    rw [Function.update_self]
    exact hfilled
  · dsimp only
    rw [Function.update_of_ne (Ne.symm hji)]
    exact hfilled

/-- **A slot is cut off the current block.** -/
theorem KeptFilled.cut (hlt : (s.pools.pool j).currentSlot < (s.pools.pool j).lastSlot) :
    KeptFilled i n ⟨⟨Function.update s.pools.pool j (s.pools.pool j).advance, s.pools.mem⟩, s.owned,
      ((s.pools.pool j).currentSlot, size) :: s.live⟩ := by
  obtain ⟨t', h'⟩ := h.take hs hj hlt
  refine ⟨t', blocks, frees, h', ?_⟩
  rw [inUse, countP_cons_inPool hs hj]
  by_cases hji : j = i
  · subst hji
    dsimp only
    rw [Function.update_self, decide_eq_true rfl, Nat.add_right_comm]
    exact hfilled.advance (h.pool j) hlt
  · dsimp only
    rw [Function.update_of_ne (Ne.symm hji), decide_eq_false hji]
    exact hfilled

omit hj in
/-- **A new block comes to a pool** all of whose slots are in use. -/
theorem KeptFilled.enter (hnone : frees j = [])
    (hfull : (s.pools.pool j).lastSlot ≤ (s.pools.pool j).currentSlot)
    (hn : s.inUse i + (decide (j = i)).toNat ≤ n) (hnew : Fresh s.owned new blockSize) :
    KeptFilled i n ⟨⟨Function.update s.pools.pool j ((s.pools.pool j).enterBlock new),
      s.pools.mem.store new (s.pools.pool j).currentBlock wordSize⟩, (new, blockSize) :: s.owned,
      s.live⟩ := by
  obtain ⟨⟨t', h'⟩, -⟩ := h.enter_head j hnew
  refine ⟨t', _, frees, h', ?_⟩
  by_cases hji : j = i
  · subst hji
    have hall := (hfilled.full_iff (h.pool j)).mp hfull
    rw [decide_eq_true rfl, Bool.toNat_true] at hn
    dsimp only
    rw [Function.update_self, Function.update_self]
    refine .enter hall ?_ (h.pool j).slotSize new
    rwa [hnone, List.length_nil, Nat.add_zero]
  · dsimp only
    rw [Function.update_of_ne (Ne.symm hji), Function.update_of_ne (Ne.symm hji)]
    exact hfilled

end Use

/-- **`use_Memory` keeps the blocks filled**, if no more than `n` slots are in use then. -/
theorem KeptFilled.use (h : KeptFilled i n s) {size new : ℕ} (hsize : 1 ≤ size)
    (hnew : ∀ k, s.pools.request size = some k → Fresh s.owned new k)
    (hn : (((s.pools.useMemory size new).1, size) :: s.live).countP (inPool i) ≤ n) :
    KeptFilled i n ⟨(s.pools.useMemory size new).2, s.ownedAfter size new,
      ((s.pools.useMemory size new).1, size) :: s.live⟩ := by
  obtain ⟨t, blocks, frees, h, hfilled⟩ := h
  by_cases hs : size > 512
  · have h0 : size ≠ 0 := by omega
    have hreq : s.pools.request size = some size := by rw [Pools.request, if_neg h0, dif_pos hs]
    obtain ⟨t', h'⟩ := h.large hs (hnew size hreq)
    rw [ownedAfter, hreq, Pools.useMemory, if_neg h0, dif_pos hs]
    refine ⟨t', blocks, frees, h', ?_⟩
    rwa [inUse, List.countP_cons_of_neg (by simp [inPool_large hs])]
  · obtain ⟨j, hj⟩ : ∃ j, j = Pools.poolId size hs := ⟨_, rfl⟩
    have hreq := request_small s.pools hsize hs hj
    rw [countP_cons_inPool hs hj] at hn
    rw [useMemory_small s.pools new hsize hs hj]
    unfold MemoryPool.allocate MemoryPool.nofreeSolve
    by_cases hfree : (s.pools.pool j).freeSlot ≠ 0
    · have hno : (s.pools.pool j).needsBlock = false := by simp [MemoryPool.needsBlock, hfree]
      rw [hno] at hreq
      rw [if_pos hfree, ownedAfter, hreq]
      exact .reuse hs hj h hfilled hfree
    rw [if_neg hfree]
    by_cases hfull : (s.pools.pool j).currentSlot ≥ (s.pools.pool j).lastSlot
    · have hyes : (s.pools.pool j).needsBlock = true := by
        simpa [MemoryPool.needsBlock, hfull] using hfree
      rw [hyes] at hreq
      have hnone : frees j = [] := by
        have hchain := (h.pool j).freeChain
        rw [not_not.mp hfree] at hchain
        exact hchain.unique .nil
      obtain ⟨-, hlt⟩ := h.enter_head j (hnew _ hreq)
      obtain ⟨t', blocks', frees', h', hfilled'⟩ :=
        KeptFilled.enter h hfilled hnone hfull hn (hnew _ hreq)
      have hself : Function.update s.pools.pool j ((s.pools.pool j).enterBlock new) j
          = (s.pools.pool j).enterBlock new := Function.update_self ..
      have hcut := KeptFilled.cut hs hj h' hfilled' (by dsimp only; rw [hself]; exact hlt)
      rw [if_pos hfull, ownedAfter, hreq]
      dsimp only at hcut
      rwa [hself, Function.update_idem] at hcut
    · have hno : (s.pools.pool j).needsBlock = false := by
        simp [MemoryPool.needsBlock, Nat.lt_of_not_le hfull]
      rw [hno] at hreq
      rw [if_neg hfull, ownedAfter, hreq]
      exact .cut hs hj h hfilled (Nat.lt_of_not_le hfull)

/-- **`free_Memory` keeps the slots.** -/
theorem KeptFilled.free (h : KeptFilled i n s) {size p : ℕ} (hp : (p, size) ∈ s.live) :
    KeptFilled i n ⟨s.pools.freeMemory size p,
      if size > 512 then s.owned.erase (p, size) else s.owned, s.live.erase (p, size)⟩ := by
  obtain ⟨t, blocks, frees, h, hfilled⟩ := h
  have hcount : s.inUse i = (s.live.erase (p, size)).countP (inPool i) +
      if inPool i (p, size) then 1 else 0 := by
    rw [inUse, (List.perm_cons_erase hp).countP_eq, List.countP_cons]
  by_cases hs : size > 512
  · obtain ⟨t', h'⟩ := h.giveLarge hs hp
    rw [inPool_large hs] at hcount
    rw [hcount] at hfilled
    rw [if_pos hs, Pools.freeMemory, dif_pos hs, ite_self]
    exact ⟨t', blocks, frees, h', hfilled⟩
  · obtain ⟨j, hj⟩ : ∃ j, j = Pools.poolId size hs := ⟨_, rfl⟩
    obtain ⟨hp0, h'⟩ := h.give_head hs hj hp
    rw [inPool_small hs, ← hj] at hcount
    rw [if_neg hs, Pools.freeMemory, if_neg hp0, dif_neg hs, MemoryPool.deAllocate, if_pos hp0,
      ← hj]
    refine ⟨t, blocks, _, h', ?_⟩
    by_cases hji : j = i
    · subst hji
      dsimp only
      rw [Function.update_self, Function.update_self, inUse, List.length_cons, ← Nat.add_assoc,
        Nat.add_right_comm]
      rw [hcount, if_pos (decide_eq_true rfl)] at hfilled
      exact hfilled
    · dsimp only
      rw [Function.update_of_ne (Ne.symm hji), Function.update_of_ne (Ne.symm hji)]
      rw [hcount, if_neg (by simpa using hji)] at hfilled
      exact hfilled

theorem KeptFilled.step {s' : Process} {c : Call} (h : KeptFilled i n s) (hs : Step s c s')
    (hn : s'.inUse i ≤ n) : KeptFilled i n s' := by
  cases hs with
  | use hsize hnew => exact h.use hsize hnew hn
  | free hp => exact h.free hp
  | write hm =>
    obtain ⟨t, blocks, frees, h, hfilled⟩ := h
    exact ⟨t, blocks, frees, h.write hm, hfilled⟩

theorem keptFilled_init (m : Memory) (i : Fin 64) (n : ℕ) : KeptFilled i n (init m) := by
  obtain ⟨t, blocks, frees, h⟩ := kept_init m
  refine ⟨t, blocks, frees, h, ?_⟩
  rw [(h.pool i).blockChain.unique .nil, (h.pool i).freeChain.unique .nil]
  exact rfl

/-- **A pool asks for a block** just when all its slots are in use. -/
theorem KeptFilled.needsBlock_iff (h : Divided s t blocks frees)
    (hfilled : Filled i (s.pools.pool i) (blocks i) (s.inUse i + (frees i).length) n) :
    (s.pools.pool i).needsBlock = true ↔ s.inUse i = slotsOf i (blocks i) := by
  have hle := hfilled.count_le
  have hchain := (h.pool i).freeChain
  rw [MemoryPool.needsBlock, Bool.and_eq_true, decide_eq_true_eq, decide_eq_true_eq,
    hfilled.full_iff (h.pool i)]
  constructor
  · rintro ⟨hfree, hfull⟩
    rw [hfree] at hchain
    rwa [hchain.unique .nil] at hfull
  · intro hall
    have hnone : frees i = [] := List.length_eq_zero_iff.mp (by omega)
    rw [hnone] at hchain
    refine ⟨?_, by rw [hnone]; exact hall⟩
    generalize (s.pools.pool i).freeSlot = p at hchain
    cases hchain with
    | nil => rfl

/-- **Slots are used again** — in every run in which never more than `n` slots of a pool are in use
at a time, all its blocks but the newest one have fewer than `n` slots, so that none of them is one
too many; and `use_Memory` asks for another one just when the slots of those that it has are in
use. -/
theorem reused_of_run {m : Memory} {as : List Call} {bs : List ℕ}
    (r : Run (fun s c s' => Step s c s' ∧ s'.inUse i ≤ n) (init m) as s) (hbs : s.Blocks i bs) :
    (bs ≠ [] → slotsOf i bs.tail < n) ∧
      ∀ size, ∀ hs : ¬ size > 512, 1 ≤ size → Pools.poolId size hs = i →
        (s.pools.request size = some blockSize ↔ s.inUse i = slotsOf i bs) := by
  obtain ⟨t, blocks, frees, h, hfilled⟩ := r.invariant (I := KeptFilled i n)
    (fun _ _ _ h hs => h.step hs.1 hs.2) (keptFilled_init m i n)
  obtain rfl := hbs.unique (h.pool i).blockChain
  refine ⟨fun hne => ?_, fun size hs hsize hi => ?_⟩
  · cases hb : blocks i with
    | nil => exact absurd hb hne
    | cons b bs =>
      rw [hb] at hfilled
      exact hfilled.1
  · rw [request_small s.pools hsize hs hi.symm, ← KeptFilled.needsBlock_iff h hfilled]
    cases (s.pools.pool i).needsBlock <;> simp

/-- Five bytes, and the block that they are in. -/
theorem reused_fiveBytes : ∃ as bs,
    Run (fun s c s' => Step s c s' ∧ s'.inUse 0 ≤ 1) (init fun _ => 0) as fiveBytes ∧
      fiveBytes.Blocks 0 bs ∧ slotsOf 0 bs.tail < 1 ∧ fiveBytes.inUse 0 ≠ slotsOf 0 bs := by
  have r : Run (fun s c s' => Step s c s' ∧ s'.inUse 0 ≤ 1) (init fun _ => 0) _ fiveBytes :=
    .single ⟨step_fiveBytes, by decide⟩
  obtain ⟨bs, hbs⟩ := (safe_of_run (r.mono fun _ _ _ h => h.1)).chained 0
  obtain ⟨htail, hreq⟩ := reused_of_run r hbs
  have hne : bs ≠ [] := by
    rintro rfl
    have hchain : fiveBytes.pools.mem.Chain wordSize 4096 [] := hbs
    cases hchain
  refine ⟨_, bs, r, hbs, htail hne, mt (hreq 5 (by decide) (by decide) rfl).mpr ?_⟩
  exact Option.some_ne_none _ ∘ Eq.symm

end Process

end WebServer.Memory
