import Mathlib.Data.Nat.ModEq
import Mathlib.Data.List.Basic

/-!
# Lib/RingBuffer — a queue in a circular array

A queue occupies consecutive cells of an array, from a head position on and around the end.
`RingBuffer.Holds` relates the cells to the queue; a push writes the cell after the last one, a pop
clears the first.
-/

namespace RingBuffer

variable {α : Type*} {cells : List (Option α)} {head : ℕ} {q : List α} {x : α}

/-- **The cells hold the queue** from `head` on. -/
structure Holds (cells : List (Option α)) (head : ℕ) (q : List α) : Prop where
  head_lt : head < cells.length
  length_le : q.length ≤ cells.length
  cell (i : ℕ) (x : α) : q[i]? = some x → cells[(head + i) % cells.length]? = some (some x)

theorem holds_nil (h : head < cells.length) : Holds cells head [] :=
  ⟨h, Nat.zero_le _, fun _ _ hx => absurd hx (by simp)⟩

/-- Different places of a queue are in different cells. -/
theorem index_inj {n i j : ℕ} (hi : i < n) (hj : j < n) (h : (head + i) % n = (head + j) % n) :
    i = j := by
  have := Nat.ModEq.add_left_cancel' head (show head + i ≡ head + j [MOD n] from h)
  rwa [Nat.ModEq, Nat.mod_eq_of_lt hi, Nat.mod_eq_of_lt hj] at this

theorem index_lt (h : Holds cells head q) (i : ℕ) : (head + i) % cells.length < cells.length :=
  Nat.mod_lt _ (Nat.zero_lt_of_lt h.head_lt)

/-- **A push.** -/
theorem Holds.push (h : Holds cells head q) (hlt : q.length < cells.length) (x : α) :
    Holds (cells.set ((head + q.length) % cells.length) (some x)) head (q ++ [x]) := by
  refine ⟨by rw [List.length_set]; exact h.head_lt, ?_, fun i y hy => ?_⟩
  · rw [List.length_set, List.length_append, List.length_singleton]
    exact hlt
  · rw [List.length_set]
    by_cases hi : i < q.length
    · rw [List.getElem?_append_left hi] at hy
      have hne : (head + q.length) % cells.length ≠ (head + i) % cells.length := fun e =>
        absurd (index_inj hlt (hi.trans hlt) e) (by omega)
      rw [List.getElem?_set_ne hne]
      exact h.cell i y hy
    · have hlen : i < (q ++ [x]).length := (List.getElem?_eq_some_iff.mp hy).1
      rw [List.length_append, List.length_singleton] at hlen
      obtain rfl : i = q.length := by omega
      rw [List.getElem?_concat_length] at hy
      rw [List.getElem?_set_self (index_lt h _), Option.some.inj hy]

/-- **A pop** finds the first of the queue, and leaves the rest. -/
theorem Holds.pop (h : Holds cells head (x :: q)) : cells[head]? = some (some x) ∧
    Holds (cells.set head none) ((head + 1) % cells.length) q := by
  have hfirst := h.cell 0 x rfl
  rw [Nat.add_zero, Nat.mod_eq_of_lt h.head_lt] at hfirst
  refine ⟨hfirst, ?_, ?_, fun i y hy => ?_⟩
  · rw [List.length_set]
    exact index_lt h 1
  · rw [List.length_set]
    exact (Nat.le_succ _).trans h.length_le
  · have hi : i + 1 < cells.length :=
      (Nat.succ_lt_succ (List.getElem?_eq_some_iff.mp hy).1).trans_le h.length_le
    have hne : head ≠ (head + (i + 1)) % cells.length := fun e => by
      have h0 : (head + 0) % cells.length = (head + (i + 1)) % cells.length := by
        rw [Nat.add_zero, Nat.mod_eq_of_lt h.head_lt]
        exact e
      exact absurd (index_inj (Nat.zero_lt_of_lt h.head_lt) hi h0) (by omega)
    rw [List.length_set, Nat.mod_add_mod, Nat.add_assoc, Nat.add_comm 1 i,
      List.getElem?_set_ne hne]
    exact h.cell (i + 1) y hy

end RingBuffer
