import Mathlib.Data.List.Basic
import Mathlib.Data.List.Nodup

/-!
# Lib/Chain — singly linked chains

`next` reads the link of a cell: no answer where there is no cell, and no successor at the end of a
chain.  `Linked next a l` says that from `a` on the chain visits exactly the cells `l`.  A chain is
entered in its middle (`Linked.enter`), edited at one link (`Linked.insert`, `Linked.remove`), and
walked while the next cell passes a test (`walk_spec`).
-/

variable {α : Type*} {next next' : α → Option (Option α)} {a b c : α} {l xs ys : List α}

/-- **A chain**: from `a` on it visits the cells `l`, and ends. -/
def Linked (next : α → Option (Option α)) : α → List α → Prop
  | a, [] => next a = some none
  | a, b :: l => next a = some (some b) ∧ Linked next b l

namespace Linked

theorem next_eq (h : Linked next a l) : next a = some l.head? := by
  cases l with
  | nil => exact h
  | cons b l => exact h.1

theorem congr (h : Linked next a l) (heq : ∀ b ∈ a :: l, next' b = next b) : Linked next' a l := by
  induction l generalizing a with
  | nil => exact (heq a (List.mem_cons_self ..)).trans h
  | cons b l ih =>
    refine ⟨(heq a (List.mem_cons_self ..)).trans h.1, ih h.2 fun c hc => ?_⟩
    exact heq c (List.mem_cons_of_mem _ hc)

/-- The chain behind a first part. -/
theorem drop (h : Linked next a (xs ++ ys)) : Linked next (xs.getLastD a) ys := by
  induction xs generalizing a with
  | nil => exact h
  | cons x xs ih =>
    rw [List.getLastD_cons]
    exact ih h.2

/-- **Entering a chain** at a cell of its first part. -/
theorem enter (h : Linked next a (xs ++ ys)) (hb : b ∈ a :: xs) :
    ∃ zs, Linked next b (zs ++ ys) ∧ zs.getLastD b = xs.getLastD a ∧ List.Sublist zs xs := by
  induction xs generalizing a with
  | nil =>
    obtain rfl := List.mem_singleton.mp hb
    exact ⟨[], h, rfl, List.Sublist.refl _⟩
  | cons x xs ih =>
    obtain rfl | hb := List.mem_cons.mp hb
    · exact ⟨x :: xs, h, rfl, List.Sublist.refl _⟩
    · obtain ⟨zs, hzs, hlast, hsub⟩ := ih h.2 hb
      refine ⟨zs, hzs, ?_, hsub.trans (List.sublist_cons_self x xs)⟩
      rw [hlast, List.getLastD_cons]

end Linked

theorem getLastD_mem_cons (a : α) (xs : List α) : xs.getLastD a ∈ a :: xs := by
  induction xs generalizing a with
  | nil => exact List.mem_singleton_self a
  | cons x xs ih =>
    rw [List.getLastD_cons]
    exact List.mem_cons_of_mem _ (ih x)

namespace Linked

/-- **An insertion** behind a first part. -/
theorem insert {n : α} (h : Linked next a (xs ++ ys)) (hnodup : (a :: (xs ++ ys)).Nodup)
    (hu : next' (xs.getLastD a) = some (some n)) (hn : next' n = some ys.head?)
    (hframe : ∀ b ∈ a :: (xs ++ ys), b ≠ xs.getLastD a → next' b = next b) :
    Linked next' a (xs ++ n :: ys) := by
  induction xs generalizing a with
  | nil =>
    refine ⟨hu, ?_⟩
    cases ys with
    | nil => exact hn
    | cons y ys =>
      refine ⟨hn, h.2.congr fun b hb => hframe b (List.mem_cons_of_mem _ hb) ?_⟩
      rintro rfl
      exact (List.nodup_cons.mp hnodup).1 hb
  | cons x xs ih =>
    rw [List.getLastD_cons] at hu hframe
    obtain ⟨hna, hnodup⟩ := List.nodup_cons.mp hnodup
    have hne : a ≠ xs.getLastD x := by
      rintro rfl
      exact hna (List.mem_append_left ys (getLastD_mem_cons x xs))
    refine ⟨(hframe a (List.mem_cons_self ..) hne).trans h.1, ih h.2 hnodup hu fun b hb => ?_⟩
    exact hframe b (List.mem_cons_of_mem _ hb)

/-- **A removal** behind a first part. -/
theorem remove (h : Linked next a (xs ++ c :: ys)) (hnodup : (a :: (xs ++ c :: ys)).Nodup)
    (hu : next' (xs.getLastD a) = next c)
    (hframe : ∀ b ∈ a :: (xs ++ ys), b ≠ xs.getLastD a → next' b = next b) :
    Linked next' a (xs ++ ys) := by
  induction xs generalizing a with
  | nil =>
    obtain ⟨-, h⟩ := h
    cases ys with
    | nil => exact hu.trans h
    | cons y ys =>
      refine ⟨hu.trans h.1, h.2.congr fun b hb => hframe b (List.mem_cons_of_mem _ hb) ?_⟩
      rintro rfl
      exact (List.nodup_cons.mp hnodup).1 (List.mem_cons_of_mem _ hb)
  | cons x xs ih =>
    rw [List.getLastD_cons] at hu hframe
    obtain ⟨hna, hnodup⟩ := List.nodup_cons.mp hnodup
    have hne : a ≠ xs.getLastD x := by
      rintro rfl
      exact hna (List.mem_append_left (c :: ys) (getLastD_mem_cons x xs))
    refine ⟨(hframe a (List.mem_cons_self ..) hne).trans h.1, ih h.2 hnodup hu fun b hb => ?_⟩
    exact hframe b (List.mem_cons_of_mem _ hb)

end Linked

/-! ## Walking along a chain -/

/-- **A walk**: on to the next cell while there is one and it passes the test; at most `fuel - 1`
cells. -/
def walk (next : α → Option (Option α)) (test : α → Option Bool) : ℕ → α → Option α
  | 0, _ => none
  | fuel + 1, a =>
    match next a with
    | none => none
    | some none => some a
    | some (some b) => (test b).bind fun t => if t then walk next test fuel b else some a

/-- **A walk stops** at the last cell of the first part, if exactly that part passes the test. -/
theorem walk_spec {test : α → Option Bool} {fuel : ℕ} (h : Linked next a (xs ++ ys))
    (hxs : ∀ b ∈ xs, test b = some true) (hys : ∀ b ∈ ys.head?, test b = some false)
    (hfuel : xs.length < fuel) : walk next test fuel a = some (xs.getLastD a) := by
  induction xs generalizing a fuel with
  | nil =>
    obtain ⟨fuel, rfl⟩ : ∃ n, fuel = n + 1 := ⟨fuel - 1, by omega⟩
    rw [walk, h.next_eq]
    cases ys with
    | nil => rfl
    | cons y ys => exact congrArg (Option.bind · _) (hys y rfl)
  | cons x xs ih =>
    obtain ⟨fuel, rfl⟩ : ∃ n, fuel = n + 1 := ⟨fuel - 1, by omega⟩
    rw [walk, h.1, List.getLastD_cons]
    simp only [hxs x (List.mem_cons_self ..), Option.bind_some, if_true]
    refine ih h.2 (fun b hb => hxs b (List.mem_cons_of_mem _ hb)) ?_
    rw [List.length_cons] at hfuel
    omega
