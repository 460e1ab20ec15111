import WebServer.Lib.Bytes
import WebServer.Lib.DList
import Mathlib.Data.Int.Notation
import Mathlib.Data.List.AList

/-!
# Cache/LFUCache — the page cache on its heap

A doubly linked list of frequencies, each with a doubly linked list of the keys used that often, and
two hash maps into them.  Keys and frequencies live on heaps of their own; `none` is a null or
dangling dereference, or a failed assertion.  Each list starts with a dummy node.
-/

namespace WebServer.Cache

/-- A pointer. -/
abbrev Ptr := Option ℕ

/-- A file name and the file's content. -/
structure Key where
  key : Bytes
  value : Bytes
  deriving DecidableEq

/-- **The keys of one frequency.** -/
structure KeyList where
  freq : Int32
  dummyhead : Ptr
  tail : Ptr
  deriving DecidableEq

/-- A map from file names to nodes. -/
abbrev PtrMap := AList fun _ : Bytes => Ptr

/-- **`LFUCache`**: the two heaps, the next address they hand out, and the members. -/
structure LFUCache where
  keys : Heap Key := fun _ => none
  freqs : Heap KeyList := fun _ => none
  fresh : ℕ := 0
  dummyhead : Ptr := none
  capacity : ℕ := 0
  kmap : PtrMap := ∅
  fmap : PtrMap := ∅

/-! ## `KeyList` -/

namespace KeyList

/-- `isEmpty` -/
def isEmpty (l : KeyList) : Bool := l.dummyhead = l.tail

/-- `getLast` -/
def getLast (l : KeyList) : Ptr := l.tail

/-- **`add`**: the node becomes the first one. -/
def add (l : KeyList) (node : Ptr) (h : Heap Key) : Option (KeyList × Heap Key) := do
  let d ← h.load l.dummyhead
  let l := if d.next = none then { l with tail := node } else l
  let h ← h.setPreOf d.next node
  let h ← h.setNext node d.next
  let h ← h.setPre node l.dummyhead
  let h ← h.setNext l.dummyhead node
  if l.isEmpty then none else some (l, h)

/-- **`del`** -/
def del (l : KeyList) (node : Ptr) (h : Heap Key) : Option (KeyList × Heap Key) := do
  let k ← h.load node
  let h ← h.setNext k.pre k.next
  if k.next = none then some ({ l with tail := k.pre }, h)
  else return (l, ← h.setPre k.next k.pre)

/-- **`destory`**: every node from the dummy on is given back; at most `fuel` of them. -/
def destory : ℕ → Ptr → Heap Key → Option (Heap Key)
  | _, none, h => some h
  | 0, some _, _ => none
  | fuel + 1, some a, h => do
    let k ← h.load (some a)
    destory fuel k.next (← h.free (some a))

end KeyList

/-! ## `LFUCache` -/

namespace LFUCache

/-- A new key node; its links are set by `add`. -/
def newKey (c : LFUCache) (k : Key) : Ptr × LFUCache :=
  (some c.fresh, { c with
    keys := Function.update c.keys c.fresh (some ⟨k, none, none⟩)
    fresh := c.fresh + 1 })

/-- A new frequency node with an initialised, empty list. -/
def newFreq (c : LFUCache) (freq : Int32) : Ptr × LFUCache :=
  (some c.fresh, { c with
    freqs := Function.update c.freqs c.fresh
      (some ⟨⟨freq, some (c.fresh + 1), some (c.fresh + 1)⟩, none, none⟩)
    keys := Function.update c.keys (c.fresh + 1) (some ⟨⟨[], []⟩, none, none⟩)
    fresh := c.fresh + 2 })

/-- `Initialize` and `Init`. -/
def init (capacity : ℕ) : LFUCache :=
  let (p, c) := newFreq { capacity := capacity } 0
  { c with dummyhead := p }

/-- Running an operation on the list of a frequency node. -/
def onList (c : LFUCache) (p : Ptr) (op : KeyList → Heap Key → Option (KeyList × Heap Key)) :
    Option LFUCache := do
  let f ← c.freqs.load p
  let (l, keys) ← op f.value c.keys
  return { c with keys := keys, freqs := ← c.freqs.setValue p l }

/-- Whether the list of a frequency node is empty. -/
def listIsEmpty (c : LFUCache) (p : Ptr) : Option Bool := (c.freqs.load p).map (·.value.isEmpty)

/-- **`Del`** -/
def del (c : LFUCache) (node : Ptr) : Option LFUCache := do
  let f ← c.freqs.load node
  let freqs ← c.freqs.setNext f.pre f.next
  let freqs ← freqs.setPreOf f.next f.pre
  let keys ← KeyList.destory c.fresh f.value.dummyhead c.keys
  return { c with keys := keys, freqs := ← freqs.free node }

/-- A new list for the next frequency, linked in behind `nowf`. -/
def insertFreq (c : LFUCache) (nowf : Ptr) (f : Node KeyList) : Option (Ptr × LFUCache) := do
  let (nxt, c) := c.newFreq (f.value.freq + 1)
  let freqs ← c.freqs.setPreOf f.next nxt
  let freqs ← freqs.setNext nxt f.next
  let freqs ← freqs.setNext nowf nxt
  let freqs ← freqs.setPre nxt nowf
  return (nxt, { c with freqs := freqs })

/-- The list for the frequency after `nowf`'s: the next one, if it is that one. -/
def nextFreq (c : LFUCache) (nowf : Ptr) : Option (Ptr × LFUCache) := do
  let f ← c.freqs.load nowf
  if f.next = none then c.insertFreq nowf f
  else
    let g ← c.freqs.load f.next
    if g.value.freq ≠ f.value.freq + 1 then c.insertFreq nowf f else some (f.next, c)

/-- **`AddFreq`** -/
def addFreq (c : LFUCache) (nowk nowf : Ptr) : Option LFUCache := do
  let (nxt, c) ← c.nextFreq nowf
  let k ← c.keys.load nowk
  let c := { c with fmap := c.fmap.insert k.value.key nxt }
  let c ← if nowf ≠ c.dummyhead then c.onList nowf (·.del nowk) else some c
  let c ← c.onList nxt (·.add nowk)
  if nowf ≠ c.dummyhead then if ← c.listIsEmpty nowf then c.del nowf else some c
  else some c

/-- **`Get`**: whether the key is cached, and `val` with its value appended. -/
def get (c : LFUCache) (key val : Bytes) : Option (Bool × Bytes × LFUCache) :=
  if c.capacity = 0 then some (false, val, c)
  else
    match c.fmap.lookup key with
    | none => some (false, val, c)
    | some nowf => do
      let nowk := (c.kmap.lookup key).join
      let k ← c.keys.load nowk
      return (true, val ++ k.value.value, ← c.addFreq nowk nowf)

/-- The last key of the smallest frequency is dropped. -/
def evict (c : LFUCache) : Option LFUCache := do
  let d ← c.freqs.load c.dummyhead
  let head := d.next
  let f ← c.freqs.load head
  let last := f.value.getLast
  let c ← c.onList head (·.del last)
  let k ← c.keys.load last
  let c := { c with
    kmap := c.kmap.erase k.value.key
    fmap := c.fmap.erase k.value.key
    keys := ← c.keys.free last }
  if ← c.listIsEmpty head then c.del head else some c

/-- Making room, in a cache that is full. -/
def room (c : LFUCache) : Option LFUCache :=
  if c.kmap.entries.length = c.capacity then c.evict else some c

/-- **`Set`** -/
def set (c : LFUCache) (key val : Bytes) : Option LFUCache :=
  if c.capacity = 0 then some c
  else do
    let c ← c.room
    let (nowk, c) := c.newKey ⟨key, val⟩
    let c ← c.addFreq nowk c.dummyhead
    let d ← c.freqs.load c.dummyhead
    return { c with kmap := c.kmap.insert key nowk, fmap := c.fmap.insert key d.next }

end LFUCache

end WebServer.Cache
