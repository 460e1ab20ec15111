import WebServer.Skiplist.Towers
import Mathlib.Data.List.Perm.Subperm

/-!
# Skiplist/Represent — the cells that a list holds

`Repr s cells` ties a list to its cells: the nodes are in the heap, the chain of each level runs
through the nodes that reach it, the keys increase.  Every operation keeps it, whatever level a new
node gets.
-/

namespace WebServer.Skiplist

variable {K V : Type*}

/-! ## The cells of a list -/

/-- **The list holds these cells.** -/
structure Repr [LinearOrder K] (s : SkipList K V) (cells : List (Cell K V)) : Prop where
  placed : Placed s.heap s.header (s.maxLevel + 1) cells
  linked (i : ℕ) : i ≤ s.maxLevel → Linked (s.heap.forward i) s.header (tower cells i)
  sorted : cells.Pairwise (·.key < ·.key)
  below (c : Cell K V) : c ∈ cells → c.level ≤ s.curLevel
  top : s.curLevel = 0 ∨ ∃ c ∈ cells, c.level = s.curLevel
  le_max : s.curLevel ≤ s.maxLevel
  fresh (a : ℕ) : a ∈ s.header :: cells.map (·.addr) → a < s.fresh
  count : s.elementCount = Int32.ofNat cells.length

section Cells

variable [LinearOrder K] {s : SkipList K V} {cells lo hi : List (Cell K V)} {key : K} {c : Cell K V}

omit [LinearOrder K] in
theorem heap_new (k : K) (v : V) (m : ℕ) : (SkipList.new k v m).heap 0 = some (.new k v m) := by
  change (Function.update (fun _ => none) 0 (some (Node.new k v m)) : Heap K V) 0 = _
  rw [Function.update_self]

/-- The empty list. -/
theorem repr_new (k : K) (v : V) (maxLevel : ℕ) : Repr (.new k v maxLevel) [] where
  placed := by
    refine ⟨⟨k, v, maxLevel, ?_⟩, nofun, List.nodup_singleton _⟩
    exact Heap.data_eq_some.mpr ⟨_, heap_new k v maxLevel, rfl, rfl, rfl, List.length_replicate⟩
  linked i hi := by
    change ((SkipList.new k v maxLevel).heap 0).bind _ = some none
    have hi : i < maxLevel + 1 := Nat.lt_succ_of_le hi
    rw [heap_new, Option.bind_some, Node.new, List.getElem?_replicate, if_pos hi]
  sorted := .nil
  below := nofun
  top := .inl rfl
  le_max := Nat.zero_le _
  fresh a ha := by
    obtain rfl := List.mem_singleton.mp ha
    exact Nat.one_pos
  count := rfl

/-- The loops have fuel: every cell has its own address. -/
theorem Repr.length_lt (hr : Repr s cells) : cells.length < s.fresh := by
  have h := (List.subperm_of_subset hr.placed.nodup fun a ha =>
    List.mem_range.mpr (hr.fresh a ha)).length_le
  rwa [List.length_cons, List.length_map, List.length_range] at h

/-- **What each operation starts with.** -/
theorem locate_spec (hr : Repr s (lo ++ hi)) (ar : Around key lo hi) :
    s.locate key =
      some ((List.range (s.curLevel + 1)).map (pred s.header lo), hi.head?.map (·.addr)) := by
  have hfuel : lo.length < s.fresh := by
    have := hr.length_lt
    rw [List.length_append] at this
    omega
  have hlast : s.heap.forward 0 (pred s.header lo 0) = some (hi.head?.map (·.addr)) := by
    have h := hr.linked 0 (Nat.zero_le _)
    rw [tower_append] at h
    rw [pred, h.drop.next_eq, tower_zero, List.head?_map]
  rw [SkipList.locate, descend_spec ar hr.placed.inHeap hr.linked hfuel hr.le_max
    (List.mem_cons_self ..), Option.bind_some, List.range_succ_eq_map, List.map_cons,
    List.head?_cons, Option.bind_some, hlast, Option.map_some]

/-- The node behind the search has the key, or the key is not in the list. -/
theorem isAt_spec (hr : Repr s (lo ++ hi)) :
    s.heap.isAt key (hi.head?.map (·.addr))
      = some (hi.head?.any fun c => decide (c.key = key)) := by
  cases hi with
  | nil => rfl
  | cons c hi =>
    obtain ⟨n, hn, hkey, -⟩ :=
      Heap.data_eq_some.mp (hr.placed.inHeap c (List.mem_append_right _ (List.mem_cons_self ..)))
    rw [List.head?_cons, Option.map_some, Heap.isAt, hn, Option.map_some, hkey, Option.any_some]

/-- The search for a key that is in the list ends at its node. -/
theorem locate_self (hr : Repr s (lo ++ c :: hi)) (ar : Around c.key lo (c :: hi)) :
    s.locate c.key =
      some ((List.range (s.curLevel + 1)).map (pred s.header lo), some c.addr) := by
  rw [locate_spec hr ar, List.head?_cons, Option.map_some]

theorem isAt_self (hr : Repr s (lo ++ c :: hi)) : s.heap.isAt c.key (some c.addr) = some true := by
  have h : s.heap.isAt c.key _ = _ := isAt_spec hr
  rwa [List.head?_cons, Option.any_some, decide_eq_true rfl, Option.map_some] at h

omit [LinearOrder K] in
/-- The address of a cell is its own. -/
theorem Placed.addr_notMem {h : Heap K V} {header m : ℕ} (p : Placed h header m (lo ++ c :: hi)) :
    c.addr ∉ header :: (lo ++ hi).map (·.addr) ∧ (header :: (lo ++ hi).map (·.addr)).Nodup := by
  have hnodup := p.nodup
  rwa [List.map_append, List.map_cons, ← List.cons_append, List.nodup_middle, List.nodup_cons,
    List.cons_append, ← List.map_append] at hnodup

omit [LinearOrder K] in
/-- A value plays no part in the levels. -/
theorem tower_value (v : V) (i : ℕ) :
    tower (lo ++ { c with value := v } :: hi) i = tower (lo ++ c :: hi) i := by
  rw [tower_append, tower_append]
  by_cases hi' : i ≤ c.level
  · rw [tower_cons_of_le hi', tower_cons_of_le (c := { c with value := v }) hi']
  · have hlt : c.level < i := Nat.lt_of_not_le hi'
    rw [tower_cons_of_lt hlt, tower_cons_of_lt (c := { c with value := v }) hlt]

/-- Around a key that is in the list, and around one that is not. -/
theorem around_cases (hs : (lo ++ hi).Pairwise (·.key < ·.key)) (ar : Around key lo hi) :
    (∃ c hi', hi = c :: hi' ∧ c.key = key) ∨
      ((hi.head?.any fun c => decide (c.key = key)) = false ∧ ∀ c ∈ lo ++ hi, c.key ≠ key) := by
  have hlo (c : Cell K V) (hc : c ∈ lo) : c.key ≠ key := ne_of_lt (ar.lo c hc)
  cases hi with
  | nil => exact .inr ⟨rfl, by simpa using hlo⟩
  | cons c hi =>
    by_cases hk : c.key = key
    · exact .inl ⟨c, hi, rfl, hk⟩
    · refine .inr ⟨by rw [List.head?_cons, Option.any_some, decide_eq_false hk], fun d hd => ?_⟩
      obtain hd | hd := List.mem_append.mp hd
      · exact hlo d hd
      · obtain rfl | hd := List.mem_cons.mp hd
        · exact hk
        · have hlt := (List.pairwise_cons.mp (List.pairwise_append.mp hs).2.1).1 d hd
          exact ne_of_gt (lt_of_le_of_lt (ar.hi c (List.mem_cons_self ..)) hlt)

/-! ## Insertion -/

omit [LinearOrder K] in
/-- `update`, filled up with the header, up to the level of the new node. -/
theorem take_update {header m r : ℕ} (h : ∀ c ∈ lo, c.level ≤ m) :
    ((List.range (m + 1)).map (pred header lo) ++ List.replicate (r - m) header).take (r + 1)
      = (List.range' 0 (r + 1)).map (pred header lo) := by
  have hrep : List.replicate (r - m) header
      = (List.range' (m + 1) (r - m)).map (pred header lo) := by
    refine (List.eq_replicate_iff.mpr ⟨by rw [List.length_map, List.length_range'], ?_⟩).symm
    intro a ha
    obtain ⟨i, hi, rfl⟩ := List.mem_map.mp ha
    obtain ⟨hm, -⟩ := List.mem_range'_1.mp hi
    exact pred_of_lt fun c hc => by have := h c hc; omega
  have hcat : List.range' 0 (m + 1) ++ List.range' (m + 1) (r - m)
      = List.range' 0 (m + 1 + (r - m)) := by
    have := List.range'_append_1 (s := 0) (m := m + 1) (n := r - m)
    rwa [Nat.zero_add] at this
  have hsplit : List.range' 0 (m + 1 + (r - m))
      = List.range' 0 (r + 1) ++ List.range' (r + 1) (m - r) := by
    have := List.range'_append_1 (s := 0) (m := r + 1) (n := m - r)
    rw [Nat.zero_add] at this
    rw [this]
    congr 1
    omega
  rw [hrep, List.range_eq_range', ← List.map_append, hcat, hsplit, ← List.map_take,
    List.take_left' List.length_range']

omit [LinearOrder K] in
theorem getRandomLevel_le (s : SkipList K V) (coins : ℕ) : s.getRandomLevel coins ≤ s.maxLevel := by
  rw [SkipList.getRandomLevel]
  split <;> omega

/-- **A node at a new address is linked in** at all its levels. -/
theorem link_new (hr : Repr s (lo ++ hi)) (key : K) (v : V) {r : ℕ} (hrm : r ≤ s.maxLevel) :
    ∃ h' : Heap K V, Heap.splice (Function.update s.heap s.fresh (some (.new key v r))) s.fresh 0
        ((List.range' 0 (r + 1)).map (pred s.header lo)) = some h' ∧
      Placed h' s.header (s.maxLevel + 1) (lo ++ ⟨s.fresh, key, v, r⟩ :: hi) ∧
      ∀ j ≤ s.maxLevel,
        Linked (h'.forward j) s.header (tower (lo ++ ⟨s.fresh, key, v, r⟩ :: hi) j) := by
  have hn : s.fresh ∉ s.header :: (lo ++ hi).map (·.addr) := fun hmem =>
    Nat.lt_irrefl _ (hr.fresh _ hmem)
  obtain ⟨h₀, hh₀⟩ : ∃ h₀ : Heap K V,
      h₀ = Function.update s.heap s.fresh (some (.new key v r)) := ⟨_, rfl⟩
  have hsame {a : ℕ} (ha : a ∈ s.header :: (lo ++ hi).map (·.addr)) :
      h₀.data a = s.heap.data a ∧ ∀ j, h₀.forward j a = s.heap.forward j a := by
    have hne : a ≠ s.fresh := Nat.ne_of_lt (hr.fresh a ha)
    rw [hh₀]
    exact ⟨Heap.data_update_of_ne hne, fun j => Heap.forward_update_of_ne hne⟩
  have hnode : h₀.data s.fresh = some (key, v, r, r + 1) := by
    rw [hh₀, Heap.data, Function.update_self, Option.map_some, Node.data, Node.new,
      List.length_replicate]
  have hp₀ : Placed h₀ s.header (s.maxLevel + 1) (lo ++ hi) := by
    refine ⟨?_, fun c hc => ?_, hr.placed.nodup⟩
    · obtain ⟨k', v', l', hd⟩ := hr.placed.head
      exact ⟨k', v', l', by rw [(hsame (List.mem_cons_self ..)).1, hd]⟩
    · rw [(hsame (List.mem_cons_of_mem _ (List.mem_map_of_mem hc))).1, hr.placed.inHeap c hc]
  have hl₀ (j : ℕ) (hj : j ≤ s.maxLevel) : Linked (h₀.forward j) s.header (tower (lo ++ hi) j) :=
    (hr.linked j hj).congr fun b hb => (hsame ((tower_sublist.cons_cons _).subset hb)).2 j
  obtain ⟨h', hs', hdata, hlink, hother⟩ := splice_spec (r := r) (Nat.lt_succ_of_le hrm) hn (r + 1)
    (i := 0) (Nat.zero_add _) hp₀ hnode fun j _ hj => hl₀ j (Nat.le_trans hj hrm)
  rw [← hh₀]
  refine ⟨h', hs', ⟨(hp₀.congr hdata).head, fun c hc => ?_, ?_⟩, fun j hj => ?_⟩
  · obtain hc | hc := List.mem_append.mp hc
    · exact (hp₀.congr hdata).inHeap c (List.mem_append_left _ hc)
    · obtain rfl | hc := List.mem_cons.mp hc
      · rw [hdata, hnode]
      · exact (hp₀.congr hdata).inHeap c (List.mem_append_right _ hc)
  · rw [List.map_append, List.map_cons, ← List.cons_append]
    refine List.nodup_middle.mpr (List.nodup_cons.mpr ⟨?_, ?_⟩)
    · rwa [List.map_append, ← List.cons_append] at hn
    · have := hr.placed.nodup
      rwa [List.map_append, ← List.cons_append] at this
  · rw [tower_append]
    by_cases hjr : j ≤ r
    · rw [tower_cons_of_le (c := ⟨s.fresh, key, v, r⟩) hjr]
      exact hlink j (Nat.zero_le j) hjr
    · have hlt : r < j := Nat.lt_of_not_le hjr
      rw [tower_cons_of_lt (c := ⟨s.fresh, key, v, r⟩) hlt, ← tower_append]
      exact (hl₀ j hj).congr fun b _ => hother j b (.inr hlt)

/-- Cells around a new key stay sorted with it. -/
theorem sorted_insert (hs : (lo ++ hi).Pairwise (·.key < ·.key)) (ar : Around c.key lo hi)
    (hne : ∀ d ∈ lo ++ hi, d.key ≠ c.key) : (lo ++ c :: hi).Pairwise (·.key < ·.key) := by
  obtain ⟨hlo, hhi, hlh⟩ := List.pairwise_append.mp hs
  have hgt (d : Cell K V) (hd : d ∈ hi) : c.key < d.key :=
    lt_of_le_of_ne (ar.hi d hd) (hne d (List.mem_append_right _ hd)).symm
  refine List.pairwise_append.mpr ⟨hlo, List.pairwise_cons.mpr ⟨hgt, hhi⟩, fun a ha b hb => ?_⟩
  obtain rfl | hb := List.mem_cons.mp hb
  · exact ar.lo a ha
  · exact hlh a ha b hb

/-- **A key that is not in the list** gets a node of its own. -/
theorem insert_new (hr : Repr s (lo ++ hi)) (ar : Around key lo hi) (v : V) (coins : ℕ)
    (habs : (hi.head?.any fun c => decide (c.key = key)) = false)
    (hne : ∀ c ∈ lo ++ hi, c.key ≠ key) :
    ∃ s', s.insertElement key v coins = some (0, s') ∧ s'.maxLevel = s.maxLevel ∧
      Repr s' (lo ++ ⟨s.fresh, key, v, s.getRandomLevel coins⟩ :: hi) := by
  have hrm := getRandomLevel_le s coins
  obtain ⟨h', hs', hplaced, hlinked⟩ := link_new hr key v hrm
  have hrun : s.insertElement key v coins = some (0, { s with
      curLevel := if s.getRandomLevel coins > s.curLevel then s.getRandomLevel coins else s.curLevel
      heap := h'
      fresh := s.fresh + 1
      elementCount := s.elementCount + 1 }) := by
    rw [SkipList.insertElement, locate_spec hr ar, Option.bind_some]
    dsimp only
    rw [isAt_spec hr, habs, Option.bind_some]
    dsimp only
    rw [take_update fun c hc => hr.below c (List.mem_append_left _ hc), hs', Option.map_some]
  refine ⟨_, hrun, rfl, hplaced, hlinked, sorted_insert hr.sorted ar hne, ?_, ?_, ?_, ?_, ?_⟩
  · intro d hd
    obtain rfl | hd := List.mem_cons.mp (List.perm_middle.mem_iff.mp hd)
    · dsimp only
      split <;> omega
    · have := hr.below d hd
      dsimp only
      split <;> omega
  · dsimp only
    by_cases hr' : s.getRandomLevel coins > s.curLevel
    · rw [if_pos hr']
      exact .inr ⟨_, List.mem_append_right _ (List.mem_cons_self ..), rfl⟩
    · rw [if_neg hr']
      refine hr.top.imp_right fun ⟨d, hd, he⟩ => ⟨d, ?_, he⟩
      exact List.perm_middle.mem_iff.mpr (List.mem_cons_of_mem _ hd)
  · have := hr.le_max
    dsimp only
    split <;> omega
  · intro a ha
    rw [((List.perm_middle.map _).cons _).mem_iff, List.map_cons, List.mem_cons,
      List.mem_cons] at ha
    obtain rfl | rfl | ha := ha
    · exact Nat.lt_succ_of_lt (hr.fresh _ (List.mem_cons_self ..))
    · exact Nat.lt_succ_self _
    · exact Nat.lt_succ_of_lt (hr.fresh a (List.mem_cons_of_mem _ ha))
  · change s.elementCount + 1 = _
    rw [hr.count, List.perm_middle.length_eq, List.length_cons, Int32.ofNat_add]
    rfl

/-! ## Overwriting -/

/-- **A key that is in the list** gets another value. -/
theorem insert_old (hr : Repr s (lo ++ c :: hi)) (ar : Around c.key lo (c :: hi)) (v : V)
    (coins : ℕ) : ∃ s', s.insertElement c.key v coins = some (1, s') ∧ s'.maxLevel = s.maxLevel ∧
      Repr s' (lo ++ { c with value := v } :: hi) := by
  have hmem : c ∈ lo ++ c :: hi := List.mem_append_right _ (List.mem_cons_self ..)
  obtain ⟨h', hset, hself, hother, hfwd⟩ := Heap.setValue_spec (hr.placed.inHeap c hmem) v
  have hrun : s.insertElement c.key v coins = some (1, { s with heap := h' }) := by
    rw [SkipList.insertElement, locate_self hr ar, Option.bind_some]
    dsimp only
    rw [isAt_self hr, Option.bind_some]
    dsimp only
    rw [hset, Option.map_some]
  obtain ⟨cells', hcells'⟩ : ∃ cells', cells' = lo ++ { c with value := v } :: hi := ⟨_, rfl⟩
  have haddr : cells'.map (·.addr) = (lo ++ c :: hi).map (·.addr) := by
    rw [hcells', List.map_append, List.map_append, List.map_cons, List.map_cons]
  obtain ⟨hown, -⟩ := hr.placed.addr_notMem
  have hkeys : cells'.map (·.key) = (lo ++ c :: hi).map (·.key) := by
    rw [hcells', List.map_append, List.map_append, List.map_cons, List.map_cons]
  rw [← hcells']
  refine ⟨_, hrun, rfl, ⟨?_, fun d hd => ?_, ?_⟩, fun i hi' => ?_, ?_, ?_, ?_, hr.le_max, ?_, ?_⟩
  · obtain ⟨k, w, l, hd⟩ := hr.placed.head
    refine ⟨k, w, l, (hother _ ?_).trans hd⟩
    exact fun he => hown (he ▸ List.mem_cons_self ..)
  · rw [hcells'] at hd
    obtain rfl | hd := List.mem_cons.mp (List.perm_middle.mem_iff.mp hd)
    · exact hself
    · refine (hother _ fun he => hown ?_).trans (hr.placed.inHeap d ?_)
      · exact he ▸ List.mem_cons_of_mem _ (List.mem_map_of_mem hd)
      · exact List.perm_middle.mem_iff.mpr (List.mem_cons_of_mem _ hd)
  · rw [haddr]
    exact hr.placed.nodup
  · rw [hcells', tower_value]
    exact (hr.linked i hi').congr fun b _ => hfwd i b
  · have hs := hr.sorted
    rwa [← List.pairwise_map, ← hkeys, List.pairwise_map] at hs
  · intro d hd
    rw [hcells'] at hd
    obtain rfl | hd := List.mem_cons.mp (List.perm_middle.mem_iff.mp hd)
    · exact hr.below c hmem
    · exact hr.below d (List.perm_middle.mem_iff.mpr (List.mem_cons_of_mem _ hd))
  · refine hr.top.imp_right fun ⟨d, hd, he⟩ => ?_
    rw [hcells']
    obtain rfl | hd := List.mem_cons.mp (List.perm_middle.mem_iff.mp hd)
    · exact ⟨_, List.mem_append_right _ (List.mem_cons_self ..), he⟩
    · exact ⟨d, List.perm_middle.mem_iff.mpr (List.mem_cons_of_mem _ hd), he⟩
  · rw [haddr]
    exact hr.fresh
  · refine hr.count.trans ?_
    rw [← List.length_map (·.addr), ← haddr, List.length_map]

/-! ## Search and deletion -/

/-- **A search** finds the value of a key that is in the list. -/
theorem search_old (hr : Repr s (lo ++ c :: hi)) (ar : Around c.key lo (c :: hi)) (v : V) :
    s.searchElement c.key v = some (true, c.value) := by
  have hmem : c ∈ lo ++ c :: hi := List.mem_append_right _ (List.mem_cons_self ..)
  obtain ⟨n, hn, -, hval, -⟩ := Heap.data_eq_some.mp (hr.placed.inHeap c hmem)
  rw [SkipList.searchElement, locate_self hr ar, Option.bind_some]
  dsimp only
  rw [isAt_self hr, Option.bind_some]
  dsimp only
  rw [hn, Option.map_some, hval]

theorem search_new (hr : Repr s (lo ++ hi)) (ar : Around key lo hi) (v : V)
    (habs : (hi.head?.any fun c => decide (c.key = key)) = false) :
    s.searchElement key v = some (false, v) := by
  rw [SkipList.searchElement, locate_spec hr ar, Option.bind_some]
  dsimp only
  rw [isAt_spec hr, habs, Option.bind_some]

theorem delete_new (hr : Repr s (lo ++ hi)) (ar : Around key lo hi)
    (habs : (hi.head?.any fun c => decide (c.key = key)) = false) :
    s.deleteElement key = some (false, s) := by
  rw [SkipList.deleteElement, locate_spec hr ar, Option.bind_some]
  dsimp only
  rw [isAt_spec hr, habs, Option.bind_some]

/-- **A key that is in the list** loses its node, and the list its empty levels. -/
theorem delete_old (hr : Repr s (lo ++ c :: hi)) (ar : Around c.key lo (c :: hi)) :
    ∃ s', s.deleteElement c.key = some (true, s') ∧ s'.maxLevel = s.maxLevel ∧
      Repr s' (lo ++ hi) := by
  have hmem : c ∈ lo ++ c :: hi := List.mem_append_right _ (List.mem_cons_self ..)
  have hsub {d : Cell K V} (hd : d ∈ lo ++ hi) : d ∈ lo ++ c :: hi :=
    List.perm_middle.mem_iff.mpr (List.mem_cons_of_mem _ hd)
  have hcm : s.curLevel < s.maxLevel + 1 := Nat.lt_succ_of_le hr.le_max
  obtain ⟨h₁, hs₁, hdata, hlink, hother⟩ := unlink_spec hcm (s.curLevel + 1) (i := 0)
    (Nat.zero_add _) hr.placed fun j _ hj => hr.linked j (Nat.le_trans hj hr.le_max)
  obtain ⟨h₂, hh₂⟩ : ∃ h₂ : Heap K V, h₂ = Function.update h₁ c.addr none := ⟨_, rfl⟩
  obtain ⟨hown, hnodup⟩ := hr.placed.addr_notMem
  have hsame {a : ℕ} (ha : a ∈ s.header :: (lo ++ hi).map (·.addr)) :
      h₂.data a = s.heap.data a ∧ ∀ j, h₂.forward j a = h₁.forward j a := by
    have hne : a ≠ c.addr := fun he => hown (he ▸ ha)
    rw [hh₂]
    exact ⟨(Heap.data_update_of_ne hne).trans (congrFun hdata a),
      fun j => Heap.forward_update_of_ne hne⟩
  have hlinked (j : ℕ) (hj : j ≤ s.maxLevel) :
      Linked (h₂.forward j) s.header (tower (lo ++ hi) j) := by
    have hl₁ : Linked (h₁.forward j) s.header (tower (lo ++ hi) j) := by
      by_cases hjc : j ≤ s.curLevel
      · exact hlink j (Nat.zero_le j) hjc
      · have hlt : c.level < j := Nat.lt_of_le_of_lt (hr.below c hmem) (Nat.lt_of_not_le hjc)
        have hl := hr.linked j hj
        rw [tower_append, tower_cons_of_lt hlt, ← tower_append] at hl
        exact hl.congr fun b _ => hother j b (.inr (Nat.lt_of_not_le hjc))
    exact hl₁.congr fun b hb => (hsame ((tower_sublist.cons_cons _).subset hb)).2 j
  obtain ⟨t, ht, hle, hbelow, htop⟩ := lower_spec (n := s.curLevel)
    (fun i hi' => hlinked i (Nat.le_trans hi' hr.le_max)) fun d hd => hr.below d (hsub hd)
  have hrun : s.deleteElement c.key = some (true, { s with
      heap := h₂, curLevel := t, elementCount := s.elementCount - 1 }) := by
    rw [SkipList.deleteElement, locate_self hr ar, Option.bind_some]
    dsimp only
    rw [isAt_self hr, Option.bind_some]
    dsimp only
    rw [List.range_eq_range', hs₁, Option.bind_some, ← hh₂, ht, Option.map_some]
  refine ⟨_, hrun, rfl, ⟨?_, fun d hd => ?_, hnodup⟩, hlinked, ?_, hbelow, htop,
    Nat.le_trans hle hr.le_max, fun a ha => ?_, ?_⟩
  · obtain ⟨k, w, l, hd⟩ := hr.placed.head
    exact ⟨k, w, l, (hsame (List.mem_cons_self ..)).1.trans hd⟩
  · rw [(hsame (List.mem_cons_of_mem _ (List.mem_map_of_mem hd))).1, hr.placed.inHeap d (hsub hd)]
  · exact hr.sorted.sublist ((List.sublist_cons_self c hi).append_left lo)
  · refine hr.fresh a ?_
    obtain rfl | ha := List.mem_cons.mp ha
    · exact List.mem_cons_self ..
    · obtain ⟨d, hd, rfl⟩ := List.mem_map.mp ha
      exact List.mem_cons_of_mem _ (List.mem_map_of_mem (hsub hd))
  · change s.elementCount - 1 = _
    rw [hr.count, List.perm_middle.length_eq, List.length_cons,
      ← Nat.add_sub_cancel (lo ++ hi).length 1, Int32.ofNat_sub _ _ (Nat.le_add_left ..),
      Nat.add_sub_cancel]
    rfl

end Cells

end WebServer.Skiplist
