import Mathlib.Data.List.Nodup
import Mathlib.Logic.Function.Basic

/-!
# Lib/DList — doubly linked lists in a heap

A heap maps addresses to nodes, a node carries a value and two links.  `Seg h p f xs q n` reads a
stretch of a doubly linked list off the heap: entered through `f` from the node `p`, it holds the
addresses and values `xs` and is left through `n` from the node `q`.  An edit is local: a stretch
survives what happens outside of its addresses (`Seg.frame`), stretches are cut and joined
(`seg_append`), and the node behind an edit only changes its backward link (`Seg.rehead`).
-/

/-- A node of a doubly linked list. -/
structure Node (α : Type*) where
  value : α
  pre : Option ℕ
  next : Option ℕ

/-- A heap of nodes; a null link is `none`. -/
abbrev Heap (α : Type*) := ℕ → Option (Node α)

namespace Heap

variable {α : Type*}

/-- Reading a node; `none` for a null or a dangling pointer. -/
def load (h : Heap α) (p : Option ℕ) : Option (Node α) := p.bind h

/-- Writing a node that is there. -/
def modify (h : Heap α) (p : Option ℕ) (f : Node α → Node α) : Option (Heap α) :=
  match p with
  | none => none
  | some a => (h a).map fun n => Function.update h a (some (f n))

/-- `p->setPre(q)` -/
def setPre (h : Heap α) (p q : Option ℕ) : Option (Heap α) :=
  h.modify p fun n => { n with pre := q }

/-- `if (p != nullptr) p->setPre(q)` -/
def setPreOf (h : Heap α) (p q : Option ℕ) : Option (Heap α) :=
  if p = none then some h else h.setPre p q

/-- `p->setNext(q)` -/
def setNext (h : Heap α) (p q : Option ℕ) : Option (Heap α) :=
  h.modify p fun n => { n with next := q }

/-- `p->getValue() = v` -/
def setValue (h : Heap α) (p : Option ℕ) (v : α) : Option (Heap α) :=
  h.modify p fun n => { n with value := v }

/-- Giving a node back. -/
def free (h : Heap α) (p : Option ℕ) : Option (Heap α) :=
  match p with
  | none => none
  | some a => (h a).map fun _ => Function.update h a none

@[simp] theorem load_some (h : Heap α) (a : ℕ) : h.load (some a) = h a := rfl

theorem setPre_some {h : Heap α} {a : ℕ} {n : Node α} (ha : h a = some n) (q : Option ℕ) :
    h.setPre (some a) q = some (Function.update h a (some { n with pre := q })) := by
  rw [setPre, modify, ha, Option.map_some]

theorem setNext_some {h : Heap α} {a : ℕ} {n : Node α} (ha : h a = some n) (q : Option ℕ) :
    h.setNext (some a) q = some (Function.update h a (some { n with next := q })) := by
  rw [setNext, modify, ha, Option.map_some]

theorem setValue_some {h : Heap α} {a : ℕ} {n : Node α} (ha : h a = some n) (v : α) :
    h.setValue (some a) v = some (Function.update h a (some { n with value := v })) := by
  rw [setValue, modify, ha, Option.map_some]

theorem free_some {h : Heap α} {a : ℕ} {n : Node α} (ha : h a = some n) :
    h.free (some a) = some (Function.update h a none) := by
  rw [free, ha, Option.map_some]

end Heap

/-! ## Stretches -/

/-- **A stretch of a doubly linked list.** -/
def Seg {α : Type*} (h : Heap α) (p : ℕ) (f : Option ℕ) : List (ℕ × α) → ℕ → Option ℕ → Prop
  | [], q, n => q = p ∧ f = n
  | (a, v) :: xs, q, n => f = some a ∧ ∃ m, h a = some ⟨v, some p, m⟩ ∧ Seg h a m xs q n

section Seg

variable {α : Type*} {h h' : Heap α} {p q r : ℕ} {f m n : Option ℕ} {xs ys : List (ℕ × α)}

@[simp] theorem seg_nil : Seg h p f [] q n ↔ q = p ∧ f = n := Iff.rfl

theorem seg_cons {a : ℕ} {v : α} : Seg h p f ((a, v) :: xs) q n ↔
    f = some a ∧ ∃ m, h a = some ⟨v, some p, m⟩ ∧ Seg h a m xs q n := Iff.rfl

/-- A stretch survives what happens outside of its addresses. -/
theorem Seg.frame (hs : Seg h p f xs q n) (heq : ∀ a ∈ xs.map Prod.fst, h' a = h a) :
    Seg h' p f xs q n := by
  induction xs generalizing p f with
  | nil => exact hs
  | cons x xs ih =>
    obtain ⟨hf, m, ha, hs⟩ := hs
    refine ⟨hf, m, (heq _ (List.mem_cons_self ..)).trans ha, ih hs fun a h => ?_⟩
    exact heq a (List.mem_cons_of_mem _ h)

/-- Cutting and joining. -/
theorem seg_append : Seg h p f (xs ++ ys) r n ↔ ∃ q m, Seg h p f xs q m ∧ Seg h q m ys r n := by
  induction xs generalizing p f with
  | nil =>
    constructor
    · exact fun hs => ⟨p, f, ⟨rfl, rfl⟩, hs⟩
    · rintro ⟨_, _, ⟨rfl, rfl⟩, hs⟩
      exact hs
  | cons x xs ih =>
    obtain ⟨a, v⟩ := x
    rw [List.cons_append, seg_cons]
    constructor
    · rintro ⟨hf, l, ha, hs⟩
      obtain ⟨q, m, h₁, h₂⟩ := ih.mp hs
      exact ⟨q, m, ⟨hf, l, ha, h₁⟩, h₂⟩
    · rintro ⟨q, m, ⟨hf, l, ha, h₁⟩, h₂⟩
      exact ⟨hf, l, ha, ih.mpr ⟨q, m, h₁, h₂⟩⟩

/-- Setting the backward link of the node a stretch is entered at, if there is one. -/
def Heap.relink (h : Heap α) (f : Option ℕ) (p : ℕ) : Heap α := (h.setPre f (some p)).getD h

theorem Heap.relink_some {a : ℕ} {x : Node α} (ha : h a = some x) (p : ℕ) :
    h.relink (some a) p = Function.update h a (some { x with pre := some p }) := by
  rw [Heap.relink, Heap.setPre_some ha, Option.getD_some]

theorem Heap.relink_of_ne {a : ℕ} (ha : f ≠ some a) : h.relink f p a = h a := by
  rcases f with _ | b
  · rfl
  · rcases hb : h b with _ | x
    · rw [Heap.relink, Heap.setPre, Heap.modify, hb, Option.map_none, Option.getD_none]
    · rw [Heap.relink_some hb]
      exact Function.update_of_ne (fun e => ha (congrArg some e.symm)) _ _

/-- **Entering a stretch from another node**: its first node's backward link is all that changes. -/
theorem Seg.rehead (hs : Seg h p f xs q none) (hd : (xs.map Prod.fst).Nodup) (p' : ℕ) :
    ∃ q', Seg (h.relink f p') p' f xs q' none ∧ (xs ≠ [] → q' = q) ∧ (xs = [] → q' = p') := by
  rcases xs with _ | ⟨⟨a, v⟩, xs⟩
  · obtain ⟨rfl, rfl⟩ := hs
    exact ⟨p', ⟨rfl, rfl⟩, fun h => absurd rfl h, fun _ => rfl⟩
  · obtain ⟨rfl, m, ha, hs⟩ := hs
    rw [List.map_cons, List.nodup_cons] at hd
    refine ⟨q, ⟨rfl, m, ?_, hs.frame fun b hb => ?_⟩, fun _ => rfl, fun h => by simp at h⟩
    · rw [Heap.relink_some ha, Function.update_self]
    · refine Heap.relink_of_ne fun e => hd.1 ?_
      rw [Option.some.inj e]
      exact hb

/-- What `setPre` on the first node of a stretch does. -/
theorem Seg.setPreOf (hs : Seg h p f xs q none) (p' : ℕ) :
    h.setPreOf f (some p') = some (h.relink f p') := by
  rcases xs with _ | ⟨⟨a, v⟩, xs⟩
  · obtain ⟨-, rfl⟩ := hs
    rfl
  · obtain ⟨rfl, m, ha, -⟩ := hs
    rw [Heap.setPreOf, if_neg (by simp), Heap.setPre_some ha, Heap.relink_some ha]

/-- A stretch that ends is entered through null just when it is empty. -/
theorem Seg.eq_none_iff (hs : Seg h p f xs q none) : f = none ↔ xs = [] := by
  rcases xs with _ | ⟨⟨a, v⟩, xs⟩
  · exact ⟨fun _ => rfl, fun _ => hs.2⟩
  · exact ⟨fun h => (by rw [hs.1] at h; simp at h), fun h => by simp at h⟩

/-- The node a stretch is entered at is on it. -/
theorem Seg.head_mem (hs : Seg h p f xs q none) {a : ℕ} (hf : f = some a) :
    a ∈ xs.map Prod.fst := by
  rcases xs with _ | ⟨⟨b, v⟩, xs⟩
  · exact absurd (hs.2.symm.trans hf) (by simp)
  · rw [← Option.some.inj (hs.1.symm.trans hf)]
    exact List.mem_cons_self ..

/-- Where a stretch is left from: its last node, or the node it was entered from. -/
theorem Seg.last (hs : Seg h p f xs q n) : q = ((p :: xs.map Prod.fst).getLast (by simp)) := by
  induction xs generalizing p f with
  | nil => exact hs.1
  | cons x xs ih =>
    obtain ⟨a, v⟩ := x
    obtain ⟨-, m, -, hs⟩ := hs
    rw [ih hs]
    exact (List.getLast_cons _).symm

/-- The nodes of a stretch carry its values. -/
theorem Seg.load (hs : Seg h p f xs q n) {a : ℕ} {v : α} (hx : (a, v) ∈ xs) :
    ∃ p' n', h a = some ⟨v, some p', n'⟩ := by
  obtain ⟨ys, zs, rfl⟩ := List.append_of_mem hx
  obtain ⟨q', m, -, -, n', ha, -⟩ := seg_append.mp hs
  exact ⟨q', n', ha⟩

/-- **A stretch that ends is read off in one way.** -/
theorem Seg.unique {r : ℕ} {ys : List (ℕ × α)} (hs : Seg h p f xs q none)
    (hs' : Seg h p f ys r none) : xs = ys := by
  induction xs generalizing p f ys with
  | nil =>
    obtain ⟨-, rfl⟩ := hs
    exact (hs'.eq_none_iff.mp rfl).symm
  | cons x xs ih =>
    obtain ⟨a, v⟩ := x
    obtain ⟨rfl, m, ha, hs⟩ := hs
    rcases ys with _ | ⟨⟨b, w⟩, ys⟩
    · exact absurd hs'.2 (by simp)
    · obtain ⟨hab, m', hb, hs'⟩ := hs'
      obtain rfl := Option.some.inj hab
      rw [ha, Option.some_inj, Node.mk.injEq] at hb
      obtain ⟨rfl, -, rfl⟩ := hb
      rw [ih hs hs']

/-- A stretch is left from the node it was entered from, or from one on it. -/
theorem Seg.last_mem (hs : Seg h p f xs q n) : q ∈ p :: xs.map Prod.fst := by
  rw [hs.last]
  exact List.getLast_mem _

end Seg

/-! ## Lists with a dummy head -/

/-- **A list behind a dummy node** `d` that carries `v`, left through `n` from the node `q`. -/
def Headed {α : Type*} (h : Heap α) (d : ℕ) (v : α) (xs : List (ℕ × α)) (q : ℕ) (n : Option ℕ) :
    Prop := ∃ p f, h d = some ⟨v, p, f⟩ ∧ Seg h d f xs q n

namespace Headed

variable {α : Type*} {h h' : Heap α} {d q m : ℕ} {v w : α} {f n : Option ℕ} {xs ys : List (ℕ × α)}

theorem frame (hs : Headed h d v xs q n) (heq : ∀ a ∈ d :: xs.map Prod.fst, h' a = h a) :
    Headed h' d v xs q n := by
  obtain ⟨p, f, hd, hs⟩ := hs
  exact ⟨p, f, (heq d (List.mem_cons_self ..)).trans hd,
    hs.frame fun a ha => heq a (List.mem_cons_of_mem _ ha)⟩

theorem append : Headed h d v (xs ++ ys) q n ↔ ∃ m f, Headed h d v xs m f ∧ Seg h m f ys q n := by
  constructor
  · rintro ⟨p, f, hd, hs⟩
    obtain ⟨m, f', h₁, h₂⟩ := seg_append.mp hs
    exact ⟨m, f', ⟨p, f, hd, h₁⟩, h₂⟩
  · rintro ⟨m, f', ⟨p, f, hd, h₁⟩, h₂⟩
    exact ⟨p, f, hd, seg_append.mpr ⟨m, f', h₁, h₂⟩⟩

theorem last (hs : Headed h d v xs q n) : q = (d :: xs.map Prod.fst).getLast (by simp) := by
  obtain ⟨p, f, -, hs⟩ := hs
  exact hs.last

theorem last_mem (hs : Headed h d v xs q n) : q ∈ d :: xs.map Prod.fst := by
  obtain ⟨p, f, -, hs⟩ := hs
  exact hs.last_mem

/-- **Leaving a list to another node**: the last node's forward link is all that changes. -/
theorem setNext (hs : Headed h d v xs q n) (hd : (d :: xs.map Prod.fst).Nodup) (n' : Option ℕ) :
    ∃ x, h q = some x ∧ x.next = n ∧
      Headed (Function.update h q (some { x with next := n' })) d v xs q n' := by
  rcases List.eq_nil_or_concat xs with rfl | ⟨ys, ⟨a, w⟩, rfl⟩
  · obtain ⟨p, f, hq, rfl, rfl⟩ := hs
    exact ⟨_, hq, rfl, p, n', Function.update_self .., rfl, rfl⟩
  · rw [List.concat_eq_append] at hs hd ⊢
    obtain ⟨m, f, h₁, rfl, n₁, ha, rfl, rfl⟩ := append.mp hs
    refine ⟨_, ha, rfl, append.mpr ⟨m, some q, h₁.frame fun b hb => ?_, rfl, n', ?_, rfl, rfl⟩⟩
    · refine Function.update_of_ne (fun e => ?_) _ _
      subst e
      rw [List.map_append, ← List.cons_append] at hd
      exact List.disjoint_of_nodup_append hd hb (List.mem_singleton_self _)
    · exact Function.update_self ..

/-- **Linking a node in** behind the first part of a list. -/
theorem link {a : ℕ} (hx : Headed h d v xs m f) (hy : Seg h m f ys q none)
    (hd : (a :: d :: (xs ++ ys).map Prod.fst).Nodup) {x : Node α} (hm : h m = some x)
    (ha' : h' a = some ⟨w, some m, f⟩) (hm' : h' m = some { x with next := some a })
    (heq : ∀ b, b ≠ a → b ≠ m → h' b = h.relink f a b) :
    ∃ q', Headed h' d v (xs ++ (a, w) :: ys) q' none ∧ (ys ≠ [] → q' = q) ∧ (ys = [] → q' = a) := by
  rw [List.nodup_cons, List.map_append, ← List.cons_append] at hd
  obtain ⟨hda, hd⟩ := hd
  have hdx := (List.nodup_append.mp hd).1
  have hdy := (List.nodup_append.mp hd).2.1
  have hdis := List.disjoint_of_nodup_append hd
  obtain ⟨x', hm₁, -, hx'⟩ := hx.setNext hdx (some a)
  obtain rfl : x = x' := Option.some.inj (hm.symm.trans hm₁)
  obtain ⟨q', hs', hq⟩ := hy.rehead hdy a
  have hf : ∀ b ∈ d :: xs.map Prod.fst, f ≠ some b := fun b hb e => hdis hb (hy.head_mem e)
  refine ⟨q', append.mpr ⟨m, some a, hx'.frame fun b hb => ?_, rfl, f, ha',
    hs'.frame fun b hb => ?_⟩,
    hq⟩
  · by_cases hbm : b = m
    · rw [hbm, Function.update_self, hm']
    · rw [Function.update_of_ne hbm, heq b (fun e => hda (e ▸ List.mem_append_left _ hb)) hbm,
        Heap.relink_of_ne (hf b hb)]
  · refine heq b (fun e => hda (e ▸ List.mem_append_right _ hb)) fun e => ?_
    exact hdis hx.last_mem (e ▸ hb)

/-- **Putting a node in** behind the first part of a list.  The node and the one in front of it may
be written in either order. -/
theorem insert {a : ℕ} {x : Node α} (hx : Headed h d v xs m f) (hy : Seg h m f ys q none)
    (hd : (a :: d :: (xs ++ ys).map Prod.fst).Nodup) (ha : h a = some x) : ∃ h₁ h₂ h₃ h₄ h',
      h.setPreOf f (some a) = some h₁ ∧ h₁.setNext (some a) f = some h₂ ∧
      h₂.setNext (some m) (some a) = some h₃ ∧ h₃.setPre (some a) (some m) = some h' ∧
      h₂.setPre (some a) (some m) = some h₄ ∧ h₄.setNext (some m) (some a) = some h' ∧
      (∃ q', Headed h' d v (xs ++ (a, x.value) :: ys) q' none ∧ (ys ≠ [] → q' = q) ∧
        (ys = [] → q' = a)) ∧
      ∀ b, b ∉ a :: d :: (xs ++ ys).map Prod.fst → h' b = h b := by
  have hd' := hd
  rw [List.nodup_cons, List.map_append, ← List.cons_append] at hd
  obtain ⟨hda, hd⟩ := hd
  have hdis := List.disjoint_of_nodup_append hd
  obtain ⟨y, hm, -, -⟩ := hx.setNext (List.nodup_append.mp hd).1 none
  have ham : a ≠ m := fun e => hda (List.mem_append_left _ (e ▸ hx.last_mem))
  have hfa : f ≠ some a := fun e => hda (List.mem_append_right _ (hy.head_mem e))
  have hfm : f ≠ some m := fun e => hdis hx.last_mem (hy.head_mem e)
  set h₁ := h.relink f a with hh₁
  set h₂ := Function.update h₁ a (some { x with next := f }) with hh₂
  set h₃ := Function.update h₂ m (some { y with next := some a }) with hh₃
  set h₄ := Function.update h₂ a (some { x with pre := some m, next := f }) with hh₄
  set h' := Function.update h₃ a (some { x with pre := some m, next := f }) with hh'
  have h₁a : h₁ a = some x := (Heap.relink_of_ne hfa).trans ha
  have h₂m : h₂ m = some y := by
    rw [hh₂, Function.update_of_ne ham.symm, hh₁, Heap.relink_of_ne hfm, hm]
  have h₃a : h₃ a = some { x with next := f } := by
    rw [hh₃, Function.update_of_ne ham, hh₂, Function.update_self]
  have h₄m : h₄ m = some y := (Function.update_of_ne ham.symm _ _).trans h₂m
  have hcomm : h' = Function.update h₄ m (some { y with next := some a }) :=
    Function.update_comm ham.symm _ _ _
  have hfar : ∀ b, b ≠ a → b ≠ m → h' b = h₁ b := by
    intro b hba hbm
    rw [hh', Function.update_of_ne hba, hh₃, Function.update_of_ne hbm, hh₂,
      Function.update_of_ne hba]
  refine ⟨h₁, h₂, h₃, h₄, h', hy.setPreOf a, Heap.setNext_some h₁a f, Heap.setNext_some h₂m _,
    Heap.setPre_some h₃a _, Heap.setPre_some (Function.update_self ..) _,
    hcomm ▸ Heap.setNext_some h₄m _, ?_, fun b hb => ?_⟩
  · exact hx.link hy hd' hm (Function.update_self ..) (by rw [hcomm, Function.update_self]) hfar
  · rw [List.mem_cons, not_or, List.map_append, ← List.cons_append, List.mem_append, not_or] at hb
    rw [hfar b hb.1 fun e => hb.2.1 (e ▸ hx.last_mem)]
    exact Heap.relink_of_ne fun e => hb.2.2 (hy.head_mem e)

/-- **Unlinking a node**: its neighbours are linked to each other. -/
theorem unlink {a : ℕ} (hs : Headed h d v (xs ++ (a, w) :: ys) q none)
    (hd : (d :: (xs ++ (a, w) :: ys).map Prod.fst).Nodup) : ∃ m n h₁ h₂,
      h a = some ⟨w, some m, n⟩ ∧ h.setNext (some m) n = some h₁ ∧
      h₁.setPreOf n (some m) = some h₂ ∧ (n = none ↔ ys = []) ∧
      Headed h₂ d v (xs ++ ys) (if ys = [] then m else q) none ∧
      ∀ b, b ∉ d :: (xs ++ ys).map Prod.fst → h₂ b = h b := by
  obtain ⟨m, f, hx, rfl, n, ha, hy⟩ := append.mp hs
  rw [List.map_append, List.map_cons, ← List.cons_append] at hd
  have hdx := (List.nodup_append.mp hd).1
  have hdy := (List.nodup_cons.mp (List.nodup_append.mp hd).2.1).2
  have hay := (List.nodup_cons.mp (List.nodup_append.mp hd).2.1).1
  have hdis := List.disjoint_of_nodup_append hd
  obtain ⟨x, hm, -, hx'⟩ := hx.setNext hdx n
  have hmy : m ∉ ys.map Prod.fst := fun h => hdis hx.last_mem (List.mem_cons_of_mem _ h)
  have hy' : Seg (Function.update h m (some { x with next := n })) a n ys q none := by
    refine hy.frame fun b hb => Function.update_of_ne (fun e => ?_) _ _
    exact hmy (e ▸ hb)
  obtain ⟨q', hs', hne, hnil⟩ := hy'.rehead hdy m
  have hn : ∀ b ∈ d :: xs.map Prod.fst, n ≠ some b :=
    fun b hb e => hdis hb (List.mem_cons_of_mem _ (hy.head_mem e))
  refine ⟨m, n, _, Heap.relink (Function.update h m (some { x with next := n })) n m, ha,
    Heap.setNext_some hm n, hy'.setPreOf m, hy.eq_none_iff, append.mpr ⟨m, n, ?_, ?_⟩, ?_⟩
  · exact hx'.frame fun b hb => Heap.relink_of_ne (hn b hb)
  · by_cases hys : ys = []
    · rw [if_pos hys]
      rwa [hnil hys] at hs'
    · rw [if_neg hys]
      rwa [hne hys] at hs'
  · intro b hb
    rw [List.map_append, ← List.cons_append, List.mem_append, not_or] at hb
    rw [Heap.relink_of_ne, Function.update_of_ne]
    · exact fun e => hb.1 (e ▸ hx.last_mem)
    · exact fun e => hb.2 (hy.head_mem e)

/-- **Writing a value** into a node of a list. -/
theorem setValue {a : ℕ} (hs : Headed h d v (xs ++ (a, w) :: ys) q n)
    (hd : (d :: (xs ++ (a, w) :: ys).map Prod.fst).Nodup) (w' : α) :
    ∃ h', h.setValue (some a) w' = some h' ∧ Headed h' d v (xs ++ (a, w') :: ys) q n ∧
      ∀ b, b ≠ a → h' b = h b := by
  obtain ⟨m, f, hx, rfl, n', ha, hy⟩ := append.mp hs
  rw [List.map_append, List.map_cons, ← List.cons_append] at hd
  have hay := (List.nodup_cons.mp (List.nodup_append.mp hd).2.1).1
  have hdis := List.disjoint_of_nodup_append hd
  refine ⟨_, Heap.setValue_some ha w', append.mpr ⟨m, some a, ?_, rfl, n', ?_, ?_⟩, ?_⟩
  · refine hx.frame fun b hb => Function.update_of_ne (fun e => ?_) _ _
    exact hdis hb (e ▸ List.mem_cons_self ..)
  · exact Function.update_self ..
  · refine hy.frame fun b hb => Function.update_of_ne (fun e => ?_) _ _
    exact hay (e ▸ hb)
  · exact fun b hb => Function.update_of_ne hb _ _

/-- **A list is read off in one way.** -/
theorem unique {r : ℕ} {ys : List (ℕ × α)} (hs : Headed h d v xs q none)
    (hs' : Headed h d w ys r none) : xs = ys := by
  obtain ⟨p, f, hd, hs⟩ := hs
  obtain ⟨p', f', hd', hs'⟩ := hs'
  rw [hd, Option.some_inj, Node.mk.injEq] at hd'
  obtain ⟨-, -, rfl⟩ := hd'
  exact hs.unique hs'

/-- The nodes of a list carry its values. -/
theorem load (hs : Headed h d v xs q n) {a : ℕ} (hx : (a, w) ∈ xs) :
    ∃ p n', h a = some ⟨w, some p, n'⟩ := by
  obtain ⟨p, f, -, hs⟩ := hs
  exact hs.load hx

end Headed
