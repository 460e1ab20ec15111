import Mathlib.Data.List.Sort
import Mathlib.Order.Defs.LinearOrder

/-!
# Lib/PriorityQueue — priority queues, and popping while a test holds

What `std::priority_queue` promises: `pop` takes out an element of least key, and which of several
such elements is not said.  `popWhile` takes elements out as long as the one at the top passes a
test; whatever it leaves has a key at least as large as some element that fails the test.
-/

/-- **A priority queue**, least key first.  `elems` lists its elements in any order. -/
class PriorityQueue (Q : Type*) {α : outParam (Type*)} {β : outParam (Type*)} [LE β]
    (key : outParam (α → β)) where
  empty : Q
  push : α → Q → Q
  pop : Q → Option (α × Q)
  elems : Q → List α
  elems_empty : elems empty = []
  push_perm (a : α) (q : Q) : (elems (push a q)).Perm (a :: elems q)
  pop_none (q : Q) : pop q = none → elems q = []
  pop_perm (a : α) (q q' : Q) : pop q = some (a, q') → (elems q).Perm (a :: elems q')
  pop_le (a : α) (q q' : Q) : pop q = some (a, q') → ∀ b ∈ elems q', key a ≤ key b

namespace PriorityQueue

variable {Q α β : Type*} {key : α → β} [LinearOrder β] [PriorityQueue Q key]

@[simp] theorem mem_push {a b : α} {q : Q} : b ∈ elems (push a q) ↔ b = a ∨ b ∈ elems q := by
  rw [(push_perm a q).mem_iff, List.mem_cons]

/-- At most `n` pops. -/
def popUpTo (p : α → Bool) : ℕ → Q → List α × Q
  | 0, q => ([], q)
  | n + 1, q =>
    match pop q with
    | none => ([], q)
    | some (a, q') => if p a then (a :: (popUpTo p n q').1, (popUpTo p n q').2) else ([], q)

/-- **Popping while the top passes a test**: what was popped, in order, and the rest. -/
def popWhile (p : α → Bool) (q : Q) : List α × Q := popUpTo p (elems q).length q

/-- What popping does: nothing is lost, what was popped passes the test, and every element that is
left is preceded by one that fails it. -/
structure Popped (key : α → β) (p : α → Bool) (before popped after : List α) : Prop where
  perm : before.Perm (popped ++ after)
  pass (a : α) : a ∈ popped → p a = true
  blocked (b : α) : b ∈ after → ∃ a ∈ after, p a = false ∧ key a ≤ key b

theorem popped_popUpTo (p : α → Bool) : ∀ (n : ℕ) (q : Q), (elems q).length ≤ n →
    Popped key p (elems q) (popUpTo p n q).1 (elems (popUpTo p n q).2)
  | 0, q, h => by
      have hnil : elems q = [] := List.length_eq_zero_iff.mp (Nat.le_zero.mp h)
      refine ⟨.refl _, fun a ha => absurd ha List.not_mem_nil, fun b hb => ?_⟩
      rw [popUpTo, hnil] at hb
      exact absurd hb List.not_mem_nil
  | n + 1, q, h => by
      rw [popUpTo]
      rcases hpop : pop q with _ | ⟨a, q'⟩
      · refine ⟨.refl _, fun a ha => absurd ha List.not_mem_nil, fun b hb => ?_⟩
        rw [pop_none q hpop] at hb
        exact absurd hb List.not_mem_nil
      · have hperm := pop_perm a q q' hpop
        dsimp only
        split
        · next hp =>
          have hlen : (elems q').length ≤ n := by
            have := hperm.length_eq
            rw [List.length_cons] at this
            omega
          have ih := popped_popUpTo p n q' hlen
          refine ⟨hperm.trans (ih.perm.cons a), fun b hb => ?_, ih.blocked⟩
          rcases List.mem_cons.mp hb with rfl | hb
          · exact hp
          · exact ih.pass b hb
        · next hp =>
          refine ⟨.refl _, fun b hb => absurd hb List.not_mem_nil, fun b hb => ?_⟩
          refine ⟨a, hperm.mem_iff.mpr (List.mem_cons_self ..), Bool.not_eq_true _ ▸ hp, ?_⟩
          rcases List.mem_cons.mp (hperm.mem_iff.mp hb) with rfl | hb
          · exact le_refl _
          · exact pop_le a q q' hpop b hb

/-- **`popWhile`, by what it does.** -/
theorem popped_popWhile (p : α → Bool) (q : Q) :
    Popped key p (elems q) (popWhile p q).1 (elems (popWhile p q).2) :=
  popped_popUpTo p _ q (Nat.le_refl _)

/-- An element that every popped one is told apart from stays. -/
theorem Popped.mem_after {p : α → Bool} {before popped after : List α}
    (h : Popped key p before popped after) {b : α} (hb : b ∈ before) (hp : p b = false) :
    b ∈ after := by
  refine (List.mem_append.mp (h.perm.mem_iff.mp hb)).resolve_left fun hpop => ?_
  rw [h.pass b hpop] at hp
  exact absurd hp (by decide)

theorem Popped.mem_before {p : α → Bool} {before popped after : List α}
    (h : Popped key p before popped after) {b : α} (hb : b ∈ after) : b ∈ before :=
  h.perm.mem_iff.mpr (List.mem_append_right _ hb)

end PriorityQueue

/-! ## An implementation -/

/-- **A sorted list**: a list together with its order. -/
def SortedList {α β : Type*} [LE β] (key : α → β) : Type _ :=
  { l : List α // l.Pairwise fun a b => key a ≤ key b }

namespace SortedList

variable {α β : Type*} [LinearOrder β] {key : α → β}

/-- An element goes before the first one whose key is larger. -/
def insert (a : α) (l : SortedList key) : SortedList key :=
  ⟨l.1.orderedInsert (fun a b => key a ≤ key b) a, by
    have : Std.Total fun a b => key a ≤ key b := ⟨fun a b => le_total _ _⟩
    have : IsTrans α fun a b => key a ≤ key b := ⟨fun _ _ _ => le_trans⟩
    exact l.2.orderedInsert a l.1⟩

/-- The first element, and the others. -/
def split : SortedList key → Option (α × SortedList key)
  | ⟨[], _⟩ => none
  | ⟨a :: l, h⟩ => some (a, ⟨l, (List.pairwise_cons.mp h).2⟩)

instance : PriorityQueue (SortedList key) key where
  empty := ⟨[], .nil⟩
  push := insert
  pop := split
  elems := Subtype.val
  elems_empty := rfl
  push_perm a l := List.perm_orderedInsert _ a l.1
  pop_none
    | ⟨[], _⟩, _ => rfl
    | ⟨_ :: _, _⟩, h => absurd h (by simp [split])
  pop_perm
    | _, ⟨[], _⟩, _, h => absurd h (by simp [split])
    | a, ⟨b :: l, hl⟩, q', h => by
        obtain ⟨rfl, rfl⟩ := Prod.mk.inj (Option.some.inj h)
        exact .refl _
  pop_le
    | _, ⟨[], _⟩, _, h => absurd h (by simp [split])
    | a, ⟨b :: l, hl⟩, q', h => by
        obtain ⟨rfl, rfl⟩ := Prod.mk.inj (Option.some.inj h)
        exact (List.pairwise_cons.mp hl).1

end SortedList
