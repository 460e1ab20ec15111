import WebServer.Lib.ByteMemory
import WebServer.Lib.Territory
import WebServer.Lib.Run

/-!
# Memory/MemoryPool — pools of slots of one size

A pool cuts blocks of 4096 bytes into slots.  Its blocks are chained through their first word, its
free slots through the first word of the slot; both chains lie in the memory the pool hands out.
`useMemory` picks one of 64 pools by size and asks `operator new` for what does not fit a slot.
-/

namespace WebServer.Memory

/-- `BlockSize` -/
def blockSize : ℕ := 4096

/-- `sizeof(Slot*)` -/
def wordSize : ℕ := 8

/-! ## One pool -/

/-- **A memory pool**: the addresses it remembers; `0` is the null pointer. -/
structure MemoryPool where
  slotSize : ℕ
  currentBlock : ℕ
  currentSlot : ℕ
  lastSlot : ℕ
  freeSlot : ℕ

namespace MemoryPool

def init (size : ℕ) : MemoryPool := ⟨size, 0, 0, 0, 0⟩

/-- `padPointer`: `align - p` is computed modulo `2⁶⁴`. -/
def padPointer (p align : ℕ) : ℕ := (align + 2 ^ 64 - p) % 2 ^ 64 % align

/-- `currentSlot_ += slotSize_ >> 3`, in words. -/
def advance (pool : MemoryPool) : MemoryPool :=
  { pool with currentSlot := pool.currentSlot + (pool.slotSize >>> 3) * wordSize }

/-- A new block becomes the current one, its slots aligned to their size. -/
def enterBlock (pool : MemoryPool) (newBlock : ℕ) : MemoryPool :=
  let body := newBlock + wordSize
  { pool with
    currentBlock := newBlock
    currentSlot := body + padPointer body pool.slotSize
    lastSlot := newBlock + blockSize - pool.slotSize + 1 }

/-- **`allocateBlock`**, when `operator new` answers `newBlock`. -/
def allocateBlock (pool : MemoryPool) (m : Memory) (newBlock : ℕ) : ℕ × MemoryPool × Memory :=
  let entered := pool.enterBlock newBlock
  (entered.currentSlot, entered.advance, m.store newBlock pool.currentBlock wordSize)

/-- `nofree_solve` -/
def nofreeSolve (pool : MemoryPool) (m : Memory) (newBlock : ℕ) : ℕ × MemoryPool × Memory :=
  if pool.currentSlot ≥ pool.lastSlot then pool.allocateBlock m newBlock
  else (pool.currentSlot, pool.advance, m)

/-- **`allocate`** -/
def allocate (pool : MemoryPool) (m : Memory) (newBlock : ℕ) : ℕ × MemoryPool × Memory :=
  if pool.freeSlot ≠ 0 then
    (pool.freeSlot, { pool with freeSlot := m.load pool.freeSlot wordSize }, m)
  else pool.nofreeSolve m newBlock

/-- Whether `allocate` asks for a new block. -/
def needsBlock (pool : MemoryPool) : Bool := pool.freeSlot = 0 && pool.lastSlot ≤ pool.currentSlot

/-- **`deAllocate`** -/
def deAllocate (pool : MemoryPool) (m : Memory) (p : ℕ) : MemoryPool × Memory :=
  if p ≠ 0 then ({ pool with freeSlot := p }, m.store p pool.freeSlot wordSize) else (pool, m)

end MemoryPool

/-! ## All pools -/

/-- The pools, and the memory they live on. -/
structure Pools where
  pool : Fin 64 → MemoryPool
  mem : Memory

namespace Pools

/-- **`init_MemoryPool`**: slots of 8, 16, … 512 bytes. -/
def init (m : Memory) : Pools := ⟨fun i => .init (((i : ℕ) + 1) <<< 3), m⟩

/-- The pool for a size. -/
def poolId (size : ℕ) (h : ¬ size > 512) : Fin 64 := ⟨(size + 7) >>> 3 - 1, by
  rw [Nat.shiftRight_eq_div_pow]
  omega⟩

/-- **`use_Memory`**, when `operator new` answers `new`, if it is asked. -/
def useMemory (s : Pools) (size new : ℕ) : ℕ × Pools :=
  if size = 0 then (0, s)
  else if h : size > 512 then (new, s)
  else
    let (p, pool, m) := (s.pool (poolId size h)).allocate s.mem new
    (p, ⟨Function.update s.pool (poolId size h) pool, m⟩)

/-- The bytes `use_Memory` asks `operator new` for. -/
def request (s : Pools) (size : ℕ) : Option ℕ :=
  if size = 0 then none
  else if h : size > 512 then some size
  else if (s.pool (poolId size h)).needsBlock then some blockSize else none

/-- **`free_Memory`** -/
def freeMemory (s : Pools) (size p : ℕ) : Pools :=
  if p = 0 then s
  else if h : size > 512 then s
  else
    let (pool, m) := (s.pool (poolId size h)).deAllocate s.mem p
    ⟨Function.update s.pool (poolId size h) pool, m⟩

end Pools

/-! ## A program that uses the pools -/

/-- **The process**: the pools, the ranges that `operator new` has handed out, and the regions that
`use_Memory` has returned and that are not freed. -/
structure Process where
  pools : Pools
  owned : List (ℕ × ℕ)
  live : List (ℕ × ℕ)

/-- What the program does next. -/
inductive Call
  | useMemory (size new : ℕ)
  | freeMemory (size p : ℕ)
  | write (m : Memory)

namespace Process

/-- An address lies in one of these ranges. -/
def Within (rs : List (ℕ × ℕ)) (x : ℕ) : Prop := ∃ r ∈ rs, r.1 ≤ x ∧ x < r.1 + r.2

/-- **`operator new`**: a range that is apart from all that it has handed out. -/
def Fresh (owned : List (ℕ × ℕ)) (new n : ℕ) : Prop :=
  0 < new ∧ new + n ≤ 2 ^ 64 ∧ ∀ r ∈ owned, Apart (new, n) r

def init (m : Memory) : Process := ⟨.init m, [], []⟩

/-- The ranges handed out after a request. -/
def ownedAfter (s : Process) (size new : ℕ) : List (ℕ × ℕ) :=
  match s.pools.request size with
  | some n => (new, n) :: s.owned
  | none => s.owned

/-- **A step of the program.**  It frees what it has, and between two calls it writes where it may:
anywhere but in what the pools hold back. -/
inductive Step : Process → Call → Process → Prop
  | use {s : Process} {size new : ℕ} (hsize : 1 ≤ size)
      (hnew : ∀ n, s.pools.request size = some n → Fresh s.owned new n) :
      Step s (.useMemory size new) ⟨(s.pools.useMemory size new).2, s.ownedAfter size new,
        ((s.pools.useMemory size new).1, size) :: s.live⟩
  | free {s : Process} {size p : ℕ} (hp : (p, size) ∈ s.live) :
      Step s (.freeMemory size p) ⟨s.pools.freeMemory size p,
        if size > 512 then s.owned.erase (p, size) else s.owned, s.live.erase (p, size)⟩
  | write {s : Process} {m : Memory}
      (hm : ∀ x, Within s.owned x → ¬ Within s.live x → m x = s.pools.mem x) :
      Step s (.write m) ⟨⟨s.pools.pool, m⟩, s.owned, s.live⟩

end Process

end WebServer.Memory
