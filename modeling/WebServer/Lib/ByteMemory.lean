import Mathlib.Algebra.Group.Nat.Defs
import Mathlib.Logic.Function.Basic
import Mathlib.Data.List.Basic

/-!
# Lib/ByteMemory — bytes by address, and words in them

A word of `n` bytes is stored with its least byte first.  `Chain m p ps` reads a linked list off the
memory whose cells hold nothing but the address of the next one: the shape of an intrusive free
list.  A chain only depends on the bytes of its own cells (`Chain.frame`).
-/

/-- **A memory.** -/
abbrev Memory := ℕ → UInt8

namespace Memory

/-- The word of `n` bytes at an address. -/
def load (m : Memory) (a : ℕ) : ℕ → ℕ
  | 0 => 0
  | n + 1 => (m a).toNat + 256 * load m (a + 1) n

/-- Storing a word of `n` bytes. -/
def store (m : Memory) (a v : ℕ) : ℕ → Memory
  | 0 => m
  | n + 1 => Function.update (store m (a + 1) (v / 256) n) a (UInt8.ofNat v)

/-- A store leaves the other bytes. -/
theorem store_of_outside {m : Memory} {x : ℕ} : ∀ {n a v : ℕ}, x < a ∨ a + n ≤ x →
    m.store a v n x = m x
  | 0, _, _, _ => rfl
  | n + 1, a, v, h => by
      rw [store, Function.update_of_ne (by omega)]
      exact store_of_outside (by omega)

theorem load_congr {m m' : Memory} : ∀ {n a : ℕ}, (∀ x, a ≤ x → x < a + n → m' x = m x) →
    m'.load a n = m.load a n
  | 0, _, _ => rfl
  | n + 1, a, h => by
      rw [load, load, h a (Nat.le_refl _) (by omega),
        load_congr fun x hx hx' => h x (by omega) (by omega)]

/-- **What is stored is loaded**, if it fits the word. -/
theorem load_store_self {m : Memory} : ∀ {n a v : ℕ}, v < 256 ^ n → (m.store a v n).load a n = v
  | 0, _, v, h => by
      rw [load]
      omega
  | n + 1, a, v, h => by
      have hrest : (m.store a v (n + 1)).load (a + 1) n = v / 256 := by
        rw [← load_store_self (m := m) (n := n) (a := a + 1) (v := v / 256)
          (by rw [Nat.pow_succ] at h; omega)]
        refine load_congr fun x hx _ => ?_
        rw [store, Function.update_of_ne (by omega)]
      rw [load, hrest, store, Function.update_self, UInt8.toNat_ofNat']
      omega

/-! ## Chains -/

/-- **A chain of cells**, each holding the address of the next; it ends at address `0`. -/
inductive Chain (w : ℕ) (m : Memory) : ℕ → List ℕ → Prop
  | nil : Chain w m 0 []
  | cons {p : ℕ} {ps : List ℕ} (hp : p ≠ 0) (rest : Chain w m (m.load p w) ps) :
      Chain w m p (p :: ps)

namespace Chain

variable {w : ℕ} {m m' : Memory} {p : ℕ} {ps qs : List ℕ}

/-- **A chain depends on its own cells only.** -/
theorem frame (h : Chain w m p ps) (hm : ∀ q ∈ ps, ∀ x, q ≤ x → x < q + w → m' x = m x) :
    Chain w m' p ps := by
  induction h with
  | nil => exact .nil
  | cons hp rest ih =>
    refine .cons hp ?_
    rw [load_congr (hm _ (List.mem_cons_self ..))]
    exact ih fun q hq => hm q (List.mem_cons_of_mem _ hq)

/-- **A new first cell.** -/
theorem push (h : Chain w m p ps) {q : ℕ} (hq : q ≠ 0) (hfit : p < 256 ^ w)
    (hsep : ∀ r ∈ ps, r + w ≤ q ∨ q + w ≤ r) : Chain w (m.store q p w) q (q :: ps) := by
  refine .cons hq ?_
  rw [load_store_self hfit]
  refine h.frame fun r hr x hx hx' => store_of_outside ?_
  rcases hsep r hr with h | h <;> omega

theorem unique (h : Chain w m p ps) (h' : Chain w m p qs) : ps = qs := by
  induction h generalizing qs with
  | nil =>
    cases h' with
    | nil => rfl
    | cons hp _ => exact absurd rfl hp
  | cons hp _ ih =>
    cases h' with
    | nil => exact absurd rfl hp
    | cons _ rest => rw [ih rest]

/-- Every cell starts a chain, which is no longer. -/
theorem suffix (h : Chain w m p ps) {q : ℕ} (hq : q ∈ ps) : ∃ qs, Chain w m q qs ∧ qs <:+ ps := by
  induction h with
  | nil => exact absurd hq List.not_mem_nil
  | cons hp rest ih =>
    rcases List.mem_cons.mp hq with rfl | hq
    · exact ⟨_, .cons hp rest, List.suffix_refl _⟩
    · obtain ⟨qs, hqs, hsuf⟩ := ih hq
      exact ⟨qs, hqs, hsuf.trans (List.suffix_cons _ _)⟩

/-- **No cell comes twice.** -/
theorem nodup (h : Chain w m p ps) : ps.Nodup := by
  induction h with
  | nil => exact .nil
  | @cons p ps hp rest ih =>
    refine List.nodup_cons.mpr ⟨fun hmem => ?_, ih⟩
    obtain ⟨qs, hqs, hsuf⟩ := rest.suffix hmem
    have hlen := hsuf.length_le
    rw [hqs.unique (.cons hp rest), List.length_cons] at hlen
    omega

end Chain

end Memory
