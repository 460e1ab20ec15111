import WebServer.Skiplist.SkipList
import Mathlib.Data.List.Pairwise

/-!
# Skiplist/Towers — the list read off the heap, level by level

A `Cell` is a node as the list sees it: address, key, value and level.  The chain of level `i` runs
through the addresses of the cells that are at least that high, `tower cells i`.  Around a key the
cells split in those before and those not before it; the search loops stop at the last of the first
ones at each level (`descend_spec`), and an edit changes one pointer of that cell at each level
(`splice_spec`, `unlink_spec`).
-/

namespace WebServer.Skiplist

variable {K V : Type*}

/-! ## Cells and towers -/

/-- A node as the list sees it. -/
structure Cell (K V : Type*) where
  addr : ℕ
  key : K
  value : V
  level : ℕ

/-- The addresses of the cells that reach level `i`. -/
def tower (cells : List (Cell K V)) (i : ℕ) : List ℕ :=
  (cells.filter fun c => i ≤ c.level).map (·.addr)

section Tower

variable {c : Cell K V} {cells xs ys : List (Cell K V)} {i j a : ℕ}

theorem mem_tower : a ∈ tower cells i ↔ ∃ c ∈ cells, i ≤ c.level ∧ c.addr = a := by
  simp [tower, and_assoc]

theorem tower_append : tower (xs ++ ys) i = tower xs i ++ tower ys i := by
  rw [tower, List.filter_append, List.map_append]
  rfl

theorem tower_cons_of_le (h : i ≤ c.level) : tower (c :: cells) i = c.addr :: tower cells i := by
  simp [tower, h]

theorem tower_cons_of_lt (h : c.level < i) : tower (c :: cells) i = tower cells i := by
  simp [tower, h]

theorem tower_zero : tower cells 0 = cells.map (·.addr) := by
  rw [tower, List.filter_eq_self.mpr fun _ _ => decide_eq_true (Nat.zero_le _)]

theorem tower_sublist : List.Sublist (tower cells i) (cells.map (·.addr)) :=
  List.filter_sublist.map _

/-- A higher level visits fewer cells. -/
theorem tower_subset (h : i ≤ j) (ha : a ∈ tower cells j) : a ∈ tower cells i := by
  obtain ⟨c, hc, hj, rfl⟩ := mem_tower.mp ha
  exact mem_tower.mpr ⟨c, hc, Nat.le_trans h hj, rfl⟩

theorem tower_eq_nil (h : ∀ c ∈ cells, c.level < i) : tower cells i = [] := by
  rw [tower, List.map_eq_nil_iff, List.filter_eq_nil_iff]
  exact fun c hc => by simpa using h c hc

/-- The cell where the search stops at level `i`: the last one before the key, or the header. -/
def pred (header : ℕ) (lo : List (Cell K V)) (i : ℕ) : ℕ := (tower lo i).getLastD header

theorem pred_mem (header : ℕ) (lo : List (Cell K V)) (i : ℕ) :
    pred header lo i ∈ header :: tower lo i := getLastD_mem_cons _ _

theorem pred_of_lt {header : ℕ} {lo : List (Cell K V)} (h : ∀ c ∈ lo, c.level < i) :
    pred header lo i = header := by rw [pred, tower_eq_nil h, List.getLastD_nil]

end Tower

/-! ## Reading and writing nodes -/

/-- What an edit of pointers leaves of a node. -/
def Node.data (n : Node K V) : K × V × ℕ × ℕ := (n.key, n.value, n.nodeLevel, n.forward.length)

namespace Heap

/-- What an edit of pointers leaves of the node at an address. -/
def data (h : Heap K V) (a : ℕ) : Option (K × V × ℕ × ℕ) := (h a).map Node.data

variable {h : Heap K V} {a i : ℕ}

theorem data_eq_some {k : K} {v : V} {l m : ℕ} : h.data a = some (k, v, l, m) ↔
    ∃ n, h a = some n ∧ n.key = k ∧ n.value = v ∧ n.nodeLevel = l ∧ n.forward.length = m := by
  simp [data, Node.data]

/-- **One pointer is written**; it was there if the node is high enough. -/
theorem setForward_spec {k : K} {v : V} {l m : ℕ} (hd : h.data a = some (k, v, l, m)) (hi : i < m)
    (p : Option ℕ) : ∃ h', h.setForward a i p = some h' ∧ h'.forward i a = some p ∧
      (∀ j b, j ≠ i ∨ b ≠ a → h'.forward j b = h.forward j b) ∧ h'.data = h.data := by
  obtain ⟨n, ha, rfl, rfl, rfl, rfl⟩ := data_eq_some.mp hd
  refine ⟨Function.update h a (some { n with forward := n.forward.set i p }), ?_, ?_, ?_, ?_⟩
  · rw [setForward, ha, Option.bind_some, if_pos hi]
  · rw [forward, Function.update_self, Option.bind_some, List.getElem?_set_self hi]
  · intro j b hjb
    by_cases hb : b = a
    · have hj : j ≠ i := hjb.resolve_right (not_not.mpr hb)
      rw [hb, forward, forward, Function.update_self, ha, Option.bind_some, Option.bind_some,
        List.getElem?_set_ne hj.symm]
    · rw [forward, forward, Function.update_of_ne hb]
  · funext b
    by_cases hb : b = a
    · rw [hb, data, data, Function.update_self, ha, Option.map_some, Option.map_some, Node.data,
        Node.data, List.length_set]
    · rw [data, data, Function.update_of_ne hb]

/-- **A value is written.** -/
theorem setValue_spec {k : K} {v : V} {l m : ℕ} (hd : h.data a = some (k, v, l, m)) (w : V) :
    ∃ h', h.setValue a w = some h' ∧ h'.data a = some (k, w, l, m) ∧
      (∀ b, b ≠ a → h'.data b = h.data b) ∧ ∀ j b, h'.forward j b = h.forward j b := by
  obtain ⟨n, ha, rfl, rfl, rfl, rfl⟩ := data_eq_some.mp hd
  refine ⟨Function.update h a (some { n with value := w }), ?_, ?_, fun b hb => ?_, fun j b => ?_⟩
  · rw [setValue, ha, Option.map_some]
  · rw [data, Function.update_self, Option.map_some, Node.data]
  · rw [data, data, Function.update_of_ne hb]
  · by_cases hb : b = a
    · rw [hb, forward, forward, Function.update_self, ha, Option.bind_some, Option.bind_some]
    · rw [forward, forward, Function.update_of_ne hb]

/-- A node is put at an address that no chain visits, or taken away. -/
theorem forward_update_of_ne {x : Option (Node K V)} {j b : ℕ} (hb : b ≠ a) :
    Heap.forward (Function.update h a x) j b = h.forward j b := by
  rw [forward, forward, Function.update_of_ne hb]

theorem data_update_of_ne {x : Option (Node K V)} {b : ℕ} (hb : b ≠ a) :
    Heap.data (Function.update h a x) b = h.data b := by
  rw [data, data, Function.update_of_ne hb]

end Heap

/-! ## Around a key -/

/-- The cells before a key, and those not before it. -/
structure Around [LinearOrder K] (key : K) (lo hi : List (Cell K V)) : Prop where
  lo (c : Cell K V) : c ∈ lo → c.key < key
  hi (c : Cell K V) : c ∈ hi → key ≤ c.key

/-- **Sorted cells split** around every key. -/
theorem exists_around [LinearOrder K] {cells : List (Cell K V)}
    (h : cells.Pairwise (·.key < ·.key)) (key : K) :
    ∃ lo hi, cells = lo ++ hi ∧ Around key lo hi := by
  induction cells with
  | nil => exact ⟨[], [], rfl, nofun, nofun⟩
  | cons c cells ih =>
    obtain ⟨hc, h⟩ := List.pairwise_cons.mp h
    by_cases hk : c.key < key
    · obtain ⟨lo, hi, rfl, hlo, hhi⟩ := ih h
      refine ⟨c :: lo, hi, rfl, fun d hd => ?_, hhi⟩
      obtain rfl | hd := List.mem_cons.mp hd
      · exact hk
      · exact hlo d hd
    · refine ⟨[], c :: cells, rfl, nofun, fun d hd => ?_⟩
      obtain rfl | hd := List.mem_cons.mp hd
      · exact not_lt.mp hk
      · exact le_trans (not_lt.mp hk) (le_of_lt (hc d hd))

section Search

variable [LinearOrder K] {h : Heap K V} {key : K} {lo hi : List (Cell K V)} {header fuel : ℕ}

/-- The cells are in the heap. -/
def InHeap (h : Heap K V) (cells : List (Cell K V)) : Prop :=
  ∀ c ∈ cells, h.data c.addr = some (c.key, c.value, c.level, c.level + 1)

theorem InHeap.isLess {cells : List (Cell K V)} (hin : InHeap h cells) {c : Cell K V}
    (hc : c ∈ cells) : h.isLess key c.addr = some (decide (c.key < key)) := by
  obtain ⟨n, ha, hkey, -⟩ := Heap.data_eq_some.mp (hin c hc)
  rw [Heap.isLess, ha, Option.map_some, hkey]

/-- **One level of the search**, from any cell of that level before the key. -/
theorem walk_level (ar : Around key lo hi) (hin : InHeap h (lo ++ hi)) {i cur : ℕ}
    (hl : Linked (h.forward i) header (tower (lo ++ hi) i)) (hcur : cur ∈ header :: tower lo i)
    (hfuel : lo.length < fuel) :
    walk (h.forward i) (h.isLess key) fuel cur = some (pred header lo i) := by
  rw [tower_append] at hl
  obtain ⟨zs, hz, hlast, hsub⟩ := hl.enter hcur
  have hlen : zs.length < fuel := by
    have h₁ := hsub.length_le
    have h₂ : (tower lo i).length ≤ _ := tower_sublist.length_le
    rw [List.length_map] at h₂
    omega
  rw [pred, ← hlast]
  refine walk_spec hz (fun b hb => ?_) (fun b hb => ?_) hlen
  · obtain ⟨c, hc, -, rfl⟩ := mem_tower.mp (hsub.subset hb)
    rw [hin.isLess (List.mem_append_left _ hc), decide_eq_true (ar.lo c hc)]
  · obtain ⟨c, hc, -, rfl⟩ := mem_tower.mp (List.mem_of_mem_head? hb)
    rw [hin.isLess (List.mem_append_right _ hc), decide_eq_false (not_lt.mpr (ar.hi c hc))]

/-- **The search loops** find, at each level, the last cell before the key. -/
theorem descend_spec (ar : Around key lo hi) (hin : InHeap h (lo ++ hi)) {n : ℕ}
    (hl : ∀ i ≤ n, Linked (h.forward i) header (tower (lo ++ hi) i)) (hfuel : lo.length < fuel) :
    ∀ {i cur : ℕ}, i ≤ n → cur ∈ header :: tower lo i →
      h.descend key fuel i cur = some ((List.range (i + 1)).map (pred header lo)) := by
  intro i
  induction i with
  | zero =>
    intro cur hi hcur
    rw [Heap.descend, walk_level ar hin (hl 0 hi) hcur hfuel]
    rfl
  | succ i ih =>
    intro cur hi hcur
    have hmem : pred header lo (i + 1) ∈ header :: tower lo i := by
      obtain he | hm := List.mem_cons.mp (pred_mem header lo (i + 1))
      · rw [he]
        exact List.mem_cons_self ..
      · exact List.mem_cons_of_mem _ (tower_subset (Nat.le_succ i) hm)
    rw [Heap.descend, walk_level ar hin (hl _ hi) hcur hfuel, Option.bind_some,
      ih (Nat.le_of_succ_le hi) hmem, Option.map_some, List.range_succ (n := i + 1),
      List.map_append, List.map_singleton]

end Search

/-! ## Edits -/

/-- **The nodes are in their places**: the header, with its `m` pointers, and the cells. -/
structure Placed (h : Heap K V) (header m : ℕ) (cells : List (Cell K V)) : Prop where
  head : ∃ k v l, h.data header = some (k, v, l, m)
  inHeap : InHeap h cells
  nodup : (header :: cells.map (·.addr)).Nodup

section Edit

variable {h h' : Heap K V} {header m n r : ℕ} {cells lo hi : List (Cell K V)}

/-- Edits of pointers keep the nodes in their places. -/
theorem Placed.congr (hp : Placed h header m cells) (hd : h'.data = h.data) :
    Placed h' header m cells where
  head := by rw [hd]; exact hp.head
  inHeap := fun c hc => by rw [hd]; exact hp.inHeap c hc
  nodup := hp.nodup

/-- The node where the search stops at a level reaches that level. -/
theorem Placed.pred (hp : Placed h header m (lo ++ hi)) {i : ℕ} (hi : i < m) :
    ∃ k v l m', h.data (pred header lo i) = some (k, v, l, m') ∧ i < m' := by
  obtain he | hmem := List.mem_cons.mp (pred_mem header lo i)
  · obtain ⟨k, v, l, hd⟩ := hp.head
    exact ⟨k, v, l, m, by rw [he, hd], hi⟩
  · obtain ⟨c, hc, hl, he⟩ := mem_tower.mp hmem
    exact ⟨_, _, _, _, by rw [← he, hp.inHeap c (List.mem_append_left _ hc)], Nat.lt_succ_of_le hl⟩

theorem Placed.nodup_tower (hp : Placed h header m cells) (i : ℕ) :
    (header :: tower cells i).Nodup :=
  hp.nodup.sublist (tower_sublist.cons_cons header)

/-- **The loop of an insertion** links the new node in at each of its levels. -/
theorem splice_spec {k : K} {v : V} (hr : r < m) (hn : n ∉ header :: (lo ++ hi).map (·.addr)) :
    ∀ (d : ℕ) {i : ℕ} {h : Heap K V}, i + d = r + 1 → Placed h header m (lo ++ hi) →
      h.data n = some (k, v, r, r + 1) →
      (∀ j, i ≤ j → j ≤ r → Linked (h.forward j) header (tower (lo ++ hi) j)) →
      ∃ h', h.splice n i ((List.range' i d).map (Skiplist.pred header lo)) = some h' ∧
        h'.data = h.data ∧
        (∀ j, i ≤ j → j ≤ r → Linked (h'.forward j) header (tower lo j ++ n :: tower hi j)) ∧
        ∀ j b, j < i ∨ r < j → h'.forward j b = h.forward j b := by
  intro d
  induction d with
  | zero =>
    intro i h hid hp hnd hl
    exact ⟨h, rfl, rfl, fun j h₁ h₂ => by omega, fun _ _ _ => rfl⟩
  | succ d ih =>
    intro i h hid hp hnd hl
    have hli := hl i (Nat.le_refl _) (by omega)
    have hf : h.forward i (Skiplist.pred header lo i) = some (tower hi i).head? := by
      rw [tower_append] at hli
      exact hli.drop.next_eq
    obtain ⟨h₁, hs₁, hn₁, hother₁, hdata₁⟩ :=
      Heap.setForward_spec hnd (i := i) (by omega) (tower hi i).head?
    obtain ⟨k', v', l', m', hpd, him⟩ := (hp.congr hdata₁).pred (i := i) (by omega)
    obtain ⟨h₂, hs₂, hu₂, hother₂, hdata₂⟩ := Heap.setForward_spec hpd him (some n)
    have hne {b : ℕ} (hb : b ∈ header :: tower (lo ++ hi) i) : b ≠ n := by
      rintro rfl
      exact hn ((tower_sublist.cons_cons header).subset hb)
    have hpn : Skiplist.pred header lo i ≠ n := by
      refine hne ?_
      rw [tower_append, ← List.cons_append]
      exact List.mem_append_left _ (pred_mem header lo i)
    have hdata : h₂.data = h.data := hdata₂.trans hdata₁
    have hsame (j b : ℕ) (hj : j ≠ i) : h₂.forward j b = h.forward j b :=
      (hother₂ j b (.inl hj)).trans (hother₁ j b (.inl hj))
    obtain ⟨h', hs', hdata', hl', hother'⟩ := ih (i := i + 1) (h := h₂) (by omega) (hp.congr hdata)
      (by rw [hdata, hnd]) fun j h₁ h₂ => (hl j (by omega) h₂).congr fun b _ => hsame j b (by omega)
    refine ⟨h', ?_, hdata'.trans hdata, fun j hij hjr => ?_, fun j b hj => ?_⟩
    · rw [List.range'_succ, List.map_cons, Heap.splice, hf, Option.bind_some, hs₁,
        Option.bind_some, hs₂, Option.bind_some, hs']
    · obtain rfl | hlt := Nat.eq_or_lt_of_le hij
      · have hnodup := hp.nodup_tower i
        rw [tower_append] at hli hnodup
        refine (hli.insert hnodup hu₂ ?_ fun b hb hbp => ?_).congr fun b _ =>
          hother' i b (.inl (Nat.lt_succ_self i))
        · exact (hother₂ i n (.inr hpn.symm)).trans hn₁
        · rw [← tower_append] at hb
          exact (hother₂ i b (.inr hbp)).trans (hother₁ i b (.inr (hne hb)))
      · exact hl' j hlt hjr
    · exact (hother' j b (by omega)).trans (hsame j b (by omega))

/-- **The loop of a deletion** takes the node out at each of its levels. -/
theorem unlink_spec {c : Cell K V} (hnm : n < m) :
    ∀ (d : ℕ) {i : ℕ} {h : Heap K V}, i + d = n + 1 → Placed h header m (lo ++ c :: hi) →
      (∀ j, i ≤ j → j ≤ n → Linked (h.forward j) header (tower (lo ++ c :: hi) j)) →
      ∃ h', h.unlink c.addr i ((List.range' i d).map (Skiplist.pred header lo)) = some h' ∧
        h'.data = h.data ∧
        (∀ j, i ≤ j → j ≤ n → Linked (h'.forward j) header (tower (lo ++ hi) j)) ∧
        ∀ j b, j < i ∨ n < j → h'.forward j b = h.forward j b := by
  intro d
  induction d with
  | zero =>
    intro i h hid hp hl
    exact ⟨h, rfl, rfl, fun j h₁ h₂ => by omega, fun _ _ _ => rfl⟩
  | succ d ih =>
    intro i h hid hp hl
    have hli := hl i (Nat.le_refl _) (by omega)
    rw [tower_append] at hli
    have hf := hli.drop.next_eq
    rw [List.range'_succ, List.map_cons, Heap.unlink]
    by_cases hc : i ≤ c.level
    · rw [tower_cons_of_le hc] at hli hf
      have hg : h.forward i c.addr = some (tower hi i).head? := hli.drop.2.next_eq
      obtain ⟨k', v', l', m', hpd, him⟩ := hp.pred (i := i) (by omega)
      obtain ⟨h₁, hs₁, hu₁, hother₁, hdata₁⟩ := Heap.setForward_spec hpd him (tower hi i).head?
      have hsame (j b : ℕ) (hj : j ≠ i) : h₁.forward j b = h.forward j b := hother₁ j b (.inl hj)
      obtain ⟨h', hs', hdata', hl', hother'⟩ := ih (i := i + 1) (h := h₁) (by omega)
        (hp.congr hdata₁) fun j h₁ h₂ => (hl j (by omega) h₂).congr fun b _ => hsame j b (by omega)
      refine ⟨h', ?_, hdata'.trans hdata₁, fun j hij hjn => ?_, fun j b hj => ?_⟩
      · rw [Skiplist.pred, hf, Option.bind_some, List.head?_cons,
          if_neg (not_not.mpr rfl), hg, Option.bind_some]
        rw [Skiplist.pred] at hs₁
        rw [hs₁, Option.bind_some, hs']
      · obtain rfl | hlt := Nat.eq_or_lt_of_le hij
        · have hnodup := hp.nodup_tower i
          rw [tower_append, tower_cons_of_le hc] at hnodup
          rw [tower_append]
          refine (hli.remove hnodup (hu₁.trans hg.symm) fun b hb hbp => ?_).congr fun b _ =>
            hother' i b (.inl (Nat.lt_succ_self i))
          exact hother₁ i b (.inr hbp)
        · exact hl' j hlt hjn
      · exact (hother' j b (by omega)).trans (hsame j b (by omega))
    · have hlt : c.level < i := Nat.lt_of_not_le hc
      rw [tower_cons_of_lt hlt] at hf
      have hne : (tower hi i).head? ≠ some c.addr := by
        intro he
        have hmem := tower_sublist.subset (List.mem_of_mem_head? he)
        have hnodup := (List.nodup_cons.mp hp.nodup).2
        rw [List.map_append, List.map_cons, List.nodup_append, List.nodup_cons] at hnodup
        exact hnodup.2.1.1 hmem
      rw [Skiplist.pred, hf, Option.bind_some, if_pos hne]
      refine ⟨h, rfl, rfl, fun j hij hjn => ?_, fun _ _ _ => rfl⟩
      have := hl j hij hjn
      rwa [tower_append, tower_cons_of_lt (Nat.lt_of_lt_of_le hlt hij), ← tower_append] at this

/-- **The loop that lowers `_curLevel`** stops at the highest level that is not empty. -/
theorem lower_spec : ∀ {n : ℕ}, (∀ i ≤ n, Linked (h.forward i) header (tower cells i)) →
    (∀ c ∈ cells, c.level ≤ n) → ∃ t, h.lower header n = some t ∧ t ≤ n ∧
      (∀ c ∈ cells, c.level ≤ t) ∧ (t = 0 ∨ ∃ c ∈ cells, c.level = t) := by
  intro n
  induction n with
  | zero => exact fun _ hc => ⟨0, rfl, (Nat.le_refl _), hc, .inl rfl⟩
  | succ n ih =>
    intro hl hc
    rw [Heap.lower, (hl (n + 1) (Nat.le_refl _)).next_eq, Option.bind_some]
    by_cases hnil : tower cells (n + 1) = []
    · rw [hnil, List.head?_nil, if_pos rfl]
      have hc' : ∀ c ∈ cells, c.level ≤ n := fun c hmem => by
        by_contra hlt
        have : c.addr ∈ tower cells (n + 1) := mem_tower.mpr ⟨c, hmem, by omega, rfl⟩
        rw [hnil] at this
        exact List.not_mem_nil this
      obtain ⟨t, ht, hle, hct, htop⟩ := ih (fun i hi => hl i (Nat.le_succ_of_le hi)) hc'
      exact ⟨t, ht, Nat.le_succ_of_le hle, hct, htop⟩
    · obtain ⟨a, l, ha⟩ := List.exists_cons_of_ne_nil hnil
      rw [ha, List.head?_cons, if_neg (Option.some_ne_none a)]
      have hmem : a ∈ tower cells (n + 1) := by rw [ha]; exact List.mem_cons_self ..
      obtain ⟨c, hcm, hle, -⟩ := mem_tower.mp hmem
      exact ⟨n + 1, rfl, (Nat.le_refl _), hc, .inr ⟨c, hcm, Nat.le_antisymm (hc c hcm) hle⟩⟩

end Edit

end WebServer.Skiplist
