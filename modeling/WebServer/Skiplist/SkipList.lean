import WebServer.Lib.Chain
import Mathlib.Data.Int.Notation
import Mathlib.Order.Lattice

/-!
# Skiplist/SkipList — the list, and its three operations

A node carries an array of forward pointers, one a level.  The operations answer nothing where the
code would read through a null or dangling pointer or past the end of such an array.  Every new node
gets an address of its own.  `_elementCount` is an `int`, and wraps around where it leaves its
range.  `getRandomLevel` counts the coins that fall on one side before the first that does not, so
the number of these coins is an argument of an insertion.
-/

namespace WebServer.Skiplist

variable {K V : Type*}

/-! ## Nodes and their pointers -/

/-- `Node<K, V>` -/
structure Node (K V : Type*) where
  key : K
  value : V
  nodeLevel : ℕ
  forward : List (Option ℕ)

/-- `Node::Node` -/
def Node.new (k : K) (v : V) (level : ℕ) : Node K V := ⟨k, v, level, .replicate (level + 1) none⟩

/-- The nodes by their addresses. -/
abbrev Heap (K V : Type*) := ℕ → Option (Node K V)

namespace Heap

/-- `a->_forward[i]` -/
def forward (h : Heap K V) (i a : ℕ) : Option (Option ℕ) := (h a).bind fun n => n.forward[i]?

/-- `a->_forward[i] = p` -/
def setForward (h : Heap K V) (a i : ℕ) (p : Option ℕ) : Option (Heap K V) :=
  (h a).bind fun n =>
    if i < n.forward.length then
      some (Function.update h a (some { n with forward := n.forward.set i p }))
    else none

/-- `a->setValue(v)` -/
def setValue (h : Heap K V) (a : ℕ) (v : V) : Option (Heap K V) :=
  (h a).map fun n => Function.update h a (some { n with value := v })

/-- **The loop of an insertion** that links `n` in behind the nodes of `update`, level by level. -/
def splice (h : Heap K V) (n : ℕ) : ℕ → List ℕ → Option (Heap K V)
  | _, [] => some h
  | i, u :: update =>
    (h.forward i u).bind fun f => (h.setForward n i f).bind fun h₁ =>
      (h₁.setForward u i (some n)).bind fun h₂ => splice h₂ n (i + 1) update

/-- **The loop of a deletion** that takes `c` out behind the nodes of `update`, level by level; it
breaks at the first level where `c` is not next. -/
def unlink (h : Heap K V) (c : ℕ) : ℕ → List ℕ → Option (Heap K V)
  | _, [] => some h
  | i, u :: update =>
    (h.forward i u).bind fun f =>
      if f ≠ some c then some h
      else (h.forward i c).bind fun g => (h.setForward u i g).bind fun h₁ =>
        unlink h₁ c (i + 1) update

/-- **The loop that lowers `_curLevel`** over empty levels. -/
def lower (h : Heap K V) (header : ℕ) : ℕ → Option ℕ
  | 0 => some 0
  | n + 1 => (h.forward (n + 1) header).bind fun f =>
      if f = none then lower h header n else some (n + 1)

variable [LinearOrder K]

/-- `a->getKey() < key` -/
def isLess (h : Heap K V) (key : K) (a : ℕ) : Option Bool := (h a).map fun n => decide (n.key < key)

/-- `p != nullptr && p->getKey() == key` -/
def isAt (h : Heap K V) (key : K) : Option ℕ → Option Bool
  | none => some false
  | some a => (h a).map fun n => decide (n.key = key)

/-- **The search loops**: from level `i` down to level `0`, on at each level to the last node with a
smaller key.  The answer is the array `update`, up to level `i`. -/
def descend (h : Heap K V) (key : K) (fuel : ℕ) : ℕ → ℕ → Option (List ℕ)
  | 0, cur => (walk (h.forward 0) (h.isLess key) fuel cur).map fun c => [c]
  | i + 1, cur => (walk (h.forward (i + 1)) (h.isLess key) fuel cur).bind fun c =>
      (descend h key fuel i c).map (· ++ [c])

end Heap

/-! ## The list -/

/-- **`SkipList<K, V>`.**  No address from `fresh` on has been given out. -/
structure SkipList (K V : Type*) where
  maxLevel : ℕ
  curLevel : ℕ
  header : ℕ
  elementCount : Int32
  heap : Heap K V
  fresh : ℕ

namespace SkipList

/-- `SkipList::SkipList(int)`; the header's key and value are whatever `K k; V v;` makes them. -/
def new (k : K) (v : V) (maxLevel : ℕ) : SkipList K V where
  maxLevel := maxLevel
  curLevel := 0
  header := 0
  elementCount := 0
  heap := Function.update (fun _ => none) 0 (some (.new k v maxLevel))
  fresh := 1

/-- **`getRandomLevel`**, after so many coins. -/
def getRandomLevel (s : SkipList K V) (coins : ℕ) : ℕ :=
  if coins < s.maxLevel then coins else s.maxLevel

/-- `size` -/
def size (s : SkipList K V) : Int32 := s.elementCount

variable [LinearOrder K]

/-- What each operation starts with: `update`, and the node behind `update[0]`. -/
def locate (s : SkipList K V) (key : K) : Option (List ℕ × Option ℕ) :=
  (s.heap.descend key s.fresh s.curLevel s.header).bind fun update =>
    update.head?.bind fun last => (s.heap.forward 0 last).map fun cur => (update, cur)

/-- **`insertElement`.** -/
def insertElement (s : SkipList K V) (key : K) (value : V) (coins : ℕ) :
    Option (ℕ × SkipList K V) :=
  (s.locate key).bind fun (update, cur) => (s.heap.isAt key cur).bind fun there =>
    match there, cur with
    | true, some a => (s.heap.setValue a value).map fun heap => (1, { s with heap })
    | _, _ =>
      let randomLevel := s.getRandomLevel coins
      let update := update ++ .replicate (randomLevel - s.curLevel) s.header
      let heap := Function.update s.heap s.fresh (some (.new key value randomLevel))
      (Heap.splice heap s.fresh 0 (update.take (randomLevel + 1))).map fun heap =>
        (0, { s with
          curLevel := if randomLevel > s.curLevel then randomLevel else s.curLevel
          heap
          fresh := s.fresh + 1
          elementCount := s.elementCount + 1 })

/-- **`searchElement`**, with the value that its reference argument has before. -/
def searchElement (s : SkipList K V) (key : K) (value : V) : Option (Bool × V) :=
  (s.locate key).bind fun (_, cur) => (s.heap.isAt key cur).bind fun there =>
    match there, cur with
    | true, some a => (s.heap a).map fun n => (true, n.value)
    | _, _ => some (false, value)

/-- **`deleteElement`.** -/
def deleteElement (s : SkipList K V) (key : K) : Option (Bool × SkipList K V) :=
  (s.locate key).bind fun (update, cur) => (s.heap.isAt key cur).bind fun there =>
    match there, cur with
    | true, some a =>
      (s.heap.unlink a 0 update).bind fun heap =>
        let heap := Function.update heap a none
        (Heap.lower heap s.header s.curLevel).map fun curLevel =>
          (true, { s with heap, curLevel, elementCount := s.elementCount - 1 })
    | _, _ => some (false, s)

end SkipList

end WebServer.Skiplist
