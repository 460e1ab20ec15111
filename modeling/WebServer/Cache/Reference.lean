import WebServer.Cache.Lists
import Mathlib.Data.List.Perm.Basic

/-!
# Cache/Reference — what an LFU cache is for

The reference cache keeps each page with its use count and the time of its last use, in no
particular order; it evicts a page no other page precedes, by count and then by time.  `Timed` is
the same information arranged as the lists of the cache are: by count, and within a count by time
(`Tracks`).  On `Timed` lists the operations of both sides can be read.
-/

namespace WebServer.Cache

/-! ## The reference cache -/

/-- A cached page. -/
structure Entry where
  key : Bytes
  value : Bytes
  count : ℕ
  lastUse : ℕ
  deriving DecidableEq

/-- **The reference cache.** -/
structure Reference where
  capacity : ℕ
  entries : List Entry := []
  clock : ℕ := 0

namespace Reference

/-- `e` goes before `x`: it was used less often, or as often and less recently. -/
def Precedes (e x : Entry) : Prop := e.count < x.count ∨ (e.count = x.count ∧ e.lastUse < x.lastUse)

instance (e x : Entry) : Decidable (Precedes e x) := inferInstanceAs (Decidable (_ ∨ _))

/-- The page to evict: the one all others come after. -/
def victim (es : List Entry) : Option Entry :=
  es.find? fun e => ∀ x ∈ es, x ≠ e → Precedes e x

/-- The page of a name. -/
def find (r : Reference) (k : Bytes) : Option Entry := r.entries.find? (·.key = k)

/-- Using a page once more. -/
def use (k : Bytes) (now : ℕ) (e : Entry) : Entry :=
  if e.key = k then { e with count := e.count + 1, lastUse := now } else e

/-- A hit counts. -/
def touch (r : Reference) (k : Bytes) : Reference :=
  { r with entries := r.entries.map (use k r.clock), clock := r.clock + 1 }

/-- The pages left when room has been made. -/
def room (r : Reference) : List Entry :=
  if r.entries.length = r.capacity then
    match victim r.entries with
    | some e => r.entries.erase e
    | none => r.entries
  else r.entries

/-- A new page has been used once. -/
def add (r : Reference) (k v : Bytes) : Reference :=
  { r with entries := ⟨k, v, 1, r.clock⟩ :: r.room, clock := r.clock + 1 }

end Reference

/-! ## Lists with times -/

/-- Counts with their keys, each key with the time of its last use. -/
abbrev Timed := List (ℕ × List (Key × ℕ))

namespace Timed

/-- The lists of the cache. -/
def forget (T : Timed) : Lists := T.map fun x => (Int32.ofNat x.1, x.2.map Prod.fst)

/-- The pages of the reference. -/
def flat (T : Timed) : List Entry :=
  T.flatMap fun x => x.2.map fun a => ⟨a.1.key, a.1.value, x.1, a.2⟩

/-- A list in front, unless it is empty. -/
def keep (n : ℕ) (ks : List (Key × ℕ)) (T : Timed) : Timed := if ks = [] then T else (n, ks) :: T

/-- A key enters the list of count `n`. -/
def bump (n : ℕ) (a : Key × ℕ) : Timed → Timed
  | [] => [(n, [a])]
  | (g, ks) :: T => if g = n then (g, a :: ks) :: T else (n, [a]) :: (g, ks) :: T

/-- A hit. -/
def touch (k : Bytes) (now : ℕ) : Timed → Timed
  | [] => []
  | (n, ks) :: T =>
    match ks.find? (·.1.key = k) with
    | some a => keep n (ks.filter (·.1.key ≠ k)) (bump (n + 1) (a.1, now) T)
    | none => (n, ks) :: touch k now T

/-- The last key of the first list goes. -/
def evict : Timed → Timed
  | [] => []
  | (n, ks) :: T => keep n ks.dropLast T

/-- The names. -/
def names (T : Timed) : List Bytes := T.flat.map Entry.key

/-- **Counts increase, and times decrease within a count.** -/
structure Ordered (now : ℕ) (T : Timed) : Prop where
  sorted : T.Pairwise fun x y => x.1 < y.1
  recent : ∀ x ∈ T, x.2 ≠ [] ∧ x.2.Pairwise (fun a b => b.2 < a.2) ∧ ∀ a ∈ x.2, a.2 < now

/-- A lower bound on the counts. -/
def Above (m : ℕ) (T : Timed) : Prop := ∀ x ∈ T, m < x.1

theorem Ordered.tail {now n : ℕ} {ks : List (Key × ℕ)} {T : Timed}
    (h : Ordered now ((n, ks) :: T)) :
    Ordered now T ∧ Above n T :=
  ⟨⟨(List.pairwise_cons.mp h.sorted).2, fun x hx => h.recent x (List.mem_cons_of_mem _ hx)⟩,
    (List.pairwise_cons.mp h.sorted).1⟩

theorem Ordered.later {now : ℕ} {T : Timed} (h : Ordered now T) : Ordered (now + 1) T :=
  ⟨h.sorted, fun x hx => ⟨(h.recent x hx).1, (h.recent x hx).2.1, fun a ha =>
    ((h.recent x hx).2.2 a ha).trans (Nat.lt_succ_self _)⟩⟩

theorem Ordered.cons {now n : ℕ} {ks : List (Key × ℕ)} {T : Timed} (h : Ordered now T)
    (hn : Above n T) (hne : ks ≠ []) (hks : ks.Pairwise fun a b => b.2 < a.2)
    (hlt : ∀ a ∈ ks, a.2 < now) : Ordered now ((n, ks) :: T) := by
  refine ⟨List.pairwise_cons.mpr ⟨hn, h.sorted⟩, fun x hx => ?_⟩
  rcases List.mem_cons.mp hx with rfl | hx
  · exact ⟨hne, hks, hlt⟩
  · exact h.recent x hx

theorem Ordered.keep {now n : ℕ} {ks : List (Key × ℕ)} {T : Timed} (h : Ordered now T)
    (hn : Above n T) (hks : ks.Pairwise fun a b => b.2 < a.2) (hlt : ∀ a ∈ ks, a.2 < now) :
    Ordered now (keep n ks T) := by
  unfold Timed.keep
  split
  · exact h
  · next hne => exact h.cons hn hne hks hlt

theorem Above.keep {m n : ℕ} {ks : List (Key × ℕ)} {T : Timed} (hm : m < n) (h : Above m T) :
    Above m (keep n ks T) := by
  unfold Timed.keep
  split
  · exact h
  · exact fun x hx => (List.mem_cons.mp hx).elim (fun e => e ▸ hm) (h x)

/-- A key that has just been used enters the next list. -/
theorem Ordered.bump {now n : ℕ} {T : Timed} (h : Ordered now T) (hn : Above n T) (key : Key) :
    Ordered (now + 1) (bump (n + 1) (key, now) T) ∧ Above n (bump (n + 1) (key, now) T) := by
  rcases T with _ | ⟨⟨g, ks⟩, T⟩
  · refine ⟨⟨List.pairwise_singleton _ _, fun x hx => ?_⟩, fun x hx => ?_⟩
    · rw [Timed.bump, List.mem_singleton] at hx
      subst hx
      exact ⟨by simp, List.pairwise_singleton _ _, by simp⟩
    · rw [Timed.bump, List.mem_singleton] at hx
      subst hx
      exact Nat.lt_succ_self n
  · obtain ⟨hT, hg⟩ := h.tail
    obtain ⟨hne, hks, hlt⟩ := h.recent (g, ks) (List.mem_cons_self ..)
    have hng := hn (g, ks) (List.mem_cons_self ..)
    rw [Timed.bump]
    split
    · refine ⟨hT.later.cons hg (by simp) (List.pairwise_cons.mpr ⟨hlt, hks⟩) ?_, ?_⟩
      · intro a ha
        rcases List.mem_cons.mp ha with rfl | ha
        · exact Nat.lt_succ_self _
        · exact (hlt a ha).trans (Nat.lt_succ_self _)
      · intro x hx
        rcases List.mem_cons.mp hx with rfl | hx
        · exact hng
        · exact hn x (List.mem_cons_of_mem _ hx)
    · next hgn =>
      refine ⟨h.later.cons ?_ (by simp) (List.pairwise_singleton _ _) (by simp), ?_⟩
      · intro x hx
        rcases List.mem_cons.mp hx with rfl | hx
        · dsimp only at hng ⊢
          omega
        · have := hg x hx
          dsimp only at hng
          omega
      · intro x hx
        rcases List.mem_cons.mp hx with rfl | hx
        · exact Nat.lt_succ_self n
        · exact hn x hx

/-- **A hit keeps the order.** -/
theorem Ordered.touch {now : ℕ} {k : Bytes} : ∀ {T : Timed}, Ordered now T →
    Ordered (now + 1) (touch k now T) ∧ ∀ m, Above m T → Above m (touch k now T)
  | [], h => ⟨h.later, fun _ h => h⟩
  | (n, ks) :: T, h => by
      obtain ⟨hT, hn⟩ := h.tail
      obtain ⟨hne, hks, hlt⟩ := h.recent (n, ks) (List.mem_cons_self ..)
      have hlt' : ∀ a ∈ ks, a.2 < now + 1 := fun a ha => (hlt a ha).trans (Nat.lt_succ_self _)
      rw [Timed.touch]
      split
      · next a _ =>
        obtain ⟨hb, hab⟩ := hT.bump hn a.1
        refine ⟨hb.keep hab (hks.sublist List.filter_sublist) fun a ha =>
          hlt' a (List.mem_of_mem_filter ha), fun m hm => Above.keep ?_ fun x hx => ?_⟩
        · exact hm (n, ks) (List.mem_cons_self ..)
        · exact (hm (n, ks) (List.mem_cons_self ..)).trans (hab x hx)
      · obtain ⟨ht, hta⟩ := Ordered.touch (k := k) hT
        refine ⟨ht.cons (hta n hn) hne hks hlt', fun m hm x hx => ?_⟩
        rcases List.mem_cons.mp hx with rfl | hx
        · exact hm _ (List.mem_cons_self ..)
        · exact hta m (fun y hy => hm y (List.mem_cons_of_mem _ hy)) x hx

/-- Making room keeps the order. -/
theorem Ordered.evict {now : ℕ} {T : Timed} (h : Ordered now T) :
    Ordered now (evict T) ∧ ∀ m, Above m T → Above m (evict T) := by
  rcases T with _ | ⟨⟨n, ks⟩, T⟩
  · exact ⟨h, fun _ h => h⟩
  · obtain ⟨hT, hn⟩ := h.tail
    obtain ⟨-, hks, hlt⟩ := h.recent (n, ks) (List.mem_cons_self ..)
    refine ⟨hT.keep hn (hks.sublist (List.dropLast_sublist _)) fun a ha =>
      hlt a ((List.dropLast_sublist _).subset ha), fun m hm => Above.keep ?_ fun x hx => ?_⟩
    · exact hm (n, ks) (List.mem_cons_self ..)
    · exact hm x (List.mem_cons_of_mem _ hx)

end Timed

end WebServer.Cache
