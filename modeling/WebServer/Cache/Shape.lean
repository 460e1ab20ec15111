import WebServer.Cache.LFUCache

/-!
# Cache/Shape — the lists a cache's heaps hold

A `Bucket` is a frequency node with its list of key nodes.  `Shape c d v L` reads the buckets `L`
off the heaps of `c`; each operation on the lists is one edit of `L`.  What the lists mean is not
looked at here, a bucket may be empty and a key may stand in several.
-/

namespace WebServer.Cache

/-- **A frequency node and its keys**, with the addresses of the two nodes it consists of. -/
structure Bucket where
  addr : ℕ
  freq : Int32
  dummy : ℕ
  keys : List (ℕ × Key)

namespace Bucket

/-- The addresses of a bucket's key nodes. -/
def addrs (b : Bucket) : List ℕ := b.dummy :: b.keys.map Prod.fst

/-- The `KeyList` of a bucket. -/
def list (b : Bucket) : KeyList :=
  ⟨b.freq, some b.dummy, some ((b.dummy :: b.keys.map Prod.fst).getLast (by simp))⟩

/-- A bucket as a node of the list of frequencies. -/
def entry (b : Bucket) : ℕ × KeyList := (b.addr, b.list)

/-- Other keys in the same bucket. -/
def withKeys (b : Bucket) (keys : List (ℕ × Key)) : Bucket := { b with keys := keys }

@[simp] theorem withKeys_keys (b : Bucket) (ks : List (ℕ × Key)) : (b.withKeys ks).keys = ks := rfl

@[simp] theorem withKeys_addr (b : Bucket) (ks : List (ℕ × Key)) : (b.withKeys ks).addr = b.addr :=
  rfl

@[simp] theorem withKeys_freq (b : Bucket) (ks : List (ℕ × Key)) : (b.withKeys ks).freq = b.freq :=
  rfl

@[simp] theorem withKeys_dummy (b : Bucket) (ks : List (ℕ × Key)) :
    (b.withKeys ks).dummy = b.dummy := rfl

end Bucket

/-- A bucket's keys, on the heap of key nodes. -/
def Holds (h : Heap Key) (b : Bucket) : Prop := ∃ v q, Headed h b.dummy v b.keys q none

theorem Holds.frame {h h' : Heap Key} {b : Bucket} (hb : Holds h b)
    (heq : ∀ a ∈ b.addrs, h' a = h a) : Holds h' b := by
  obtain ⟨v, q, hb⟩ := hb
  exact ⟨v, q, hb.frame heq⟩

theorem Bucket.list_tail {h : Heap Key} {b : Bucket} {v : Key} {q : ℕ}
    (hb : Headed h b.dummy v b.keys q none) : b.list.tail = some q := congrArg some hb.last.symm

/-- `isEmpty` tells whether there are keys. -/
theorem Bucket.isEmpty_list {b : Bucket} (hd : b.addrs.Nodup) :
    b.list.isEmpty = true ↔ b.keys = [] := by
  rw [KeyList.isEmpty, decide_eq_true_eq, Bucket.list, Option.some_inj]
  constructor
  · intro he
    by_contra hne
    refine (List.nodup_cons.mp hd).1 ?_
    rw [he, List.getLast_cons (by simpa using hne)]
    exact List.getLast_mem _
  · intro he
    simp [he]

/-! ## The operations of a `KeyList` -/

/-- A list is a bucket's when its three fields are. -/
theorem Bucket.eq_list {b : Bucket} {l : KeyList} (hf : l.freq = b.freq)
    (hd : l.dummyhead = some b.dummy) (ht : l.tail = b.list.tail) : l = b.list := by
  obtain ⟨f, d, t⟩ := l
  rw [Bucket.list, KeyList.mk.injEq]
  exact ⟨hf, hd, ht⟩

/-- **`add` puts a node in front.** -/
theorem KeyList.add_spec {h : Heap Key} {b : Bucket} (hb : Holds h b) {a : ℕ} {x : Node Key}
    (hd : (a :: b.addrs).Nodup) (ha : h a = some x) : ∃ h',
      b.list.add (some a) h = some ((b.withKeys ((a, x.value) :: b.keys)).list, h') ∧
      Holds h' (b.withKeys ((a, x.value) :: b.keys)) ∧ ∀ c, c ∉ a :: b.addrs → h' c = h c := by
  obtain ⟨v, q, hb⟩ := hb
  have htail := Bucket.list_tail hb
  obtain ⟨p, f, hdum, hs⟩ := hb
  have hx : Headed h b.dummy v [] b.dummy f := ⟨p, f, hdum, rfl, rfl⟩
  obtain ⟨h₁, h₂, -, h₃, h', e₁, e₂, -, -, e₃, e₄, ⟨q', hq', hne, hnil⟩, hfar⟩ :=
    hx.insert hs hd ha
  set b' := b.withKeys ((a, x.value) :: b.keys)
  have hlast : b'.list.tail = some q' := Bucket.list_tail (b := b') hq'
  have hl : (if f = none then { b.list with tail := some a } else b.list) = b'.list := by
    split
    · next hf => exact Bucket.eq_list rfl rfl (by rw [hlast, hnil (hs.eq_none_iff.mp hf)])
    · next hf =>
      refine Bucket.eq_list rfl rfl (htail.trans ?_)
      rw [hlast, hne fun e => hf (hs.eq_none_iff.mpr e)]
  have hempty : b'.list.isEmpty = false := by
    have hd' : b'.addrs.Nodup := (List.Perm.swap b.dummy a _).nodup_iff.mp hd
    exact Bool.eq_false_iff.mpr fun e => List.cons_ne_nil _ _ ((Bucket.isEmpty_list hd').mp e)
  refine ⟨h', ?_, ⟨v, q', hq'⟩, hfar⟩
  have hload : h.load b.list.dummyhead = some ⟨v, p, f⟩ := hdum
  have hdummy : b'.list.dummyhead = some b.dummy := rfl
  simp only [KeyList.add, Option.bind_eq_bind, hload, e₁, Option.bind_some, e₂, hl, hdummy, e₃, e₄,
    hempty, Bool.false_eq_true, if_false]

/-- **`del` takes a node out.**  The node itself stays where it is. -/
theorem KeyList.del_spec {h : Heap Key} {b : Bucket} (hb : Holds h b) (hd : b.addrs.Nodup)
    {xs ys : List (ℕ × Key)} {a : ℕ} {k : Key} (hk : b.keys = xs ++ (a, k) :: ys) : ∃ h',
      b.list.del (some a) h = some ((b.withKeys (xs ++ ys)).list, h') ∧
      Holds h' (b.withKeys (xs ++ ys)) ∧ (∃ p n, h' a = some ⟨k, p, n⟩) ∧
      ∀ c, c ∉ b.addrs → h' c = h c := by
  obtain ⟨v, q, hb⟩ := hb
  have htail := Bucket.list_tail hb
  rw [Bucket.addrs, hk] at hd
  rw [hk] at hb
  obtain ⟨m, n, h₁, h₂, ha, e₁, e₂, hn, hb', heq⟩ := hb.unlink hd
  have hlast : (b.withKeys (xs ++ ys)).list.tail = some (if ys = [] then m else q) :=
    Bucket.list_tail (b := b.withKeys (xs ++ ys)) hb'
  have hl : (if n = none then { b.list with tail := some m } else b.list)
      = (b.withKeys (xs ++ ys)).list := by
    split
    · next hf => exact Bucket.eq_list rfl rfl (by rw [hlast, if_pos (hn.mp hf)])
    · next hf =>
      exact Bucket.eq_list rfl rfl (by rw [hlast, if_neg fun e => hf (hn.mpr e)]; exact htail)
  have hother : ∀ c, c ∉ b.dummy :: (xs ++ ys).map Prod.fst → h₂ c = h c := heq
  refine ⟨h₂, ?_, ⟨v, _, hb'⟩, ⟨some m, n, ?_⟩, fun c hc => hother c fun e => hc ?_⟩
  · have hload : h.load (some a) = some ⟨k, some m, n⟩ := ha
    simp only [KeyList.del, Option.bind_eq_bind, hload, Option.bind_some, e₁]
    rw [← hl]
    rw [Heap.setPreOf] at e₂
    split at e₂
    · next hf =>
      rw [if_pos hf, if_pos hf, ← Option.some.inj e₂]
    · next hf =>
      rw [if_neg hf, if_neg hf, e₂]
      rfl
  · rw [hother a, ha]
    rw [List.map_append, List.map_cons] at hd
    rw [List.map_append]
    grind
  · rw [Bucket.addrs, hk]
    grind

/-- **`destory` gives back every node from the dummy on.** -/
theorem KeyList.destory_spec {h : Heap Key} {d : ℕ} {v : Key} {q fuel : ℕ}
    (hs : Headed h d v [] q none)
    (hf : 0 < fuel) : KeyList.destory fuel (some d) h = some (Function.update h d none) := by
  obtain ⟨p, f, hd, -, rfl⟩ := hs
  obtain ⟨fuel, rfl⟩ := Nat.exists_eq_succ_of_ne_zero hf.ne'
  have hload : h.load (some d) = some ⟨v, p, none⟩ := hd
  simp only [KeyList.destory, Option.bind_eq_bind, hload, Option.bind_some, Heap.free_some hd]

/-! ## The operations of the cache, on its buckets -/

/-- **The buckets of a cache**, behind the dummy node `d` that carries `v`. -/
structure Shape (c : LFUCache) (d : ℕ) (v : KeyList) (L : List Bucket) : Prop where
  dummyhead : c.dummyhead = some d
  headed : ∃ q, Headed c.freqs d v (L.map Bucket.entry) q none
  nodup : (d :: L.map Bucket.addr).Nodup
  holds : ∀ b ∈ L, Holds c.keys b
  nodupKeys : (L.flatMap Bucket.addrs).Nodup
  lt_fresh : ∀ a ∈ d :: L.map Bucket.addr, a < c.fresh
  key_lt_fresh : ∀ a ∈ L.flatMap Bucket.addrs, a < c.fresh

/-- A key node that is on none of the lists. -/
structure Detached (c : LFUCache) (L : List Bucket) (a : ℕ) (k : Key) : Prop where
  node : ∃ p n, c.keys a = some ⟨k, p, n⟩
  notMem : a ∉ L.flatMap Bucket.addrs
  lt_fresh : a < c.fresh

/-- Two caches with the same maps. -/
structure SameMaps (c c' : LFUCache) : Prop where
  capacity : c'.capacity = c.capacity
  kmap : c'.kmap = c.kmap
  fmap : c'.fmap = c.fmap

theorem SameMaps.trans {c c' c'' : LFUCache} (a : SameMaps c c') (b : SameMaps c' c'') :
    SameMaps c c'' :=
  ⟨b.capacity.trans a.capacity, b.kmap.trans a.kmap, b.fmap.trans a.fmap⟩

theorem map_entry_fst (L : List Bucket) :
    (L.map Bucket.entry).map Prod.fst = L.map Bucket.addr := by
  rw [List.map_map]
  rfl

namespace Shape

variable {c : LFUCache} {d : ℕ} {v : KeyList} {L L₁ L₂ : List Bucket} {b : Bucket}

/-- The node of a bucket. -/
theorem load (s : Shape c d v L) (hb : b ∈ L) : ∃ p n, c.freqs b.addr = some ⟨b.list, p, n⟩ := by
  obtain ⟨q, hq⟩ := s.headed
  obtain ⟨p, n, h⟩ := hq.load (List.mem_map_of_mem hb)
  exact ⟨some p, n, h⟩

/-- **The heaps determine the buckets.** -/
theorem unique {d' : ℕ} {v' : KeyList} {L' : List Bucket} (s : Shape c d v L)
    (s' : Shape c d' v' L') : L = L' := by
  have same : ∀ L L' : List Bucket, (∀ b ∈ L, Holds c.keys b) → (∀ b ∈ L', Holds c.keys b) →
      L.map Bucket.entry = L'.map Bucket.entry → L = L' := by
    intro L
    induction L with
    | nil => exact fun L' _ _ h => (List.map_eq_nil_iff.mp h.symm).symm
    | cons b L ih =>
      intro L' hL hL' h
      rcases L' with _ | ⟨b', L'⟩
      · simp at h
      · rw [List.map_cons, List.map_cons, List.cons.injEq] at h
        obtain ⟨he, h⟩ := h
        obtain ⟨w, q, hb⟩ := hL b (List.mem_cons_self ..)
        obtain ⟨w', q', hb'⟩ := hL' b' (List.mem_cons_self ..)
        rcases b with ⟨addr, freq, dummy, keys⟩
        rcases b' with ⟨addr', freq', dummy', keys'⟩
        simp only [Bucket.entry, Bucket.list, Prod.mk.injEq, KeyList.mk.injEq, Option.some_inj]
          at he
        obtain ⟨rfl, rfl, rfl, -⟩ := he
        obtain rfl : keys = keys' := hb.unique hb'
        rw [ih L' (fun e he => hL e (List.mem_cons_of_mem _ he))
          (fun e he => hL' e (List.mem_cons_of_mem _ he)) h]
  obtain rfl : d = d' := Option.some.inj (s.dummyhead.symm.trans s'.dummyhead)
  obtain ⟨q, hq⟩ := s.headed
  obtain ⟨q', hq'⟩ := s'.headed
  exact same L L' s.holds s'.holds (hq.unique hq')

/-- **An operation on the list of one bucket.** -/
theorem onList {b' : Bucket} (s : Shape c d v (L₁ ++ b :: L₂))
    (op : KeyList → Heap Key → Option (KeyList × Heap Key))
    {ks : Heap Key} (hop : op b.list c.keys = some (b'.list, ks)) (hb' : Holds ks b')
    (hframe : ∀ x ∈ (L₁ ++ L₂).flatMap Bucket.addrs, ks x = c.keys x)
    (hnd : ((L₁ ++ b' :: L₂).flatMap Bucket.addrs).Nodup) (hlt : ∀ x ∈ b'.addrs, x < c.fresh)
    (haddr : b'.addr = b.addr) :
    ∃ c', c.onList (some b.addr) op = some c' ∧ Shape c' d v (L₁ ++ b' :: L₂) ∧ SameMaps c c' ∧
      c'.keys = ks ∧ c'.fresh = c.fresh := by
  obtain ⟨p, n, hload⟩ := s.load (List.mem_append_right _ (List.mem_cons_self ..))
  obtain ⟨q, hq⟩ := s.headed
  have hfst : (L₁ ++ b' :: L₂).map Bucket.addr = (L₁ ++ b :: L₂).map Bucket.addr := by
    rw [List.map_append, List.map_append, List.map_cons, List.map_cons, haddr]
  have hnodup := s.nodup
  rw [← map_entry_fst, List.map_append, List.map_cons] at hnodup
  rw [List.map_append, List.map_cons] at hq
  obtain ⟨fs, hset, hq', -⟩ := Headed.setValue hq hnodup b'.list
  refine ⟨{ c with keys := ks, freqs := fs }, ?_,
    ⟨s.dummyhead, ⟨q, ?_⟩, hfst ▸ s.nodup, ?_, hnd, ?_, ?_⟩, ⟨rfl, rfl, rfl⟩, rfl, rfl⟩
  · have hl : c.freqs.load (some b.addr) = some ⟨b.list, p, n⟩ := hload
    have hs : c.freqs.setValue (some b.addr) b'.list = some fs := hset
    simp only [LFUCache.onList, Option.bind_eq_bind, hl, Option.bind_some, hop, hs]
    rfl
  · have he : b'.entry = (b.addr, b'.list) := congrArg (·, b'.list) haddr
    rw [List.map_append, List.map_cons, he]
    exact hq'
  · intro e he
    rcases List.mem_append.mp he with he | he
    · refine (s.holds e (List.mem_append_left _ he)).frame fun x hx => hframe x ?_
      exact List.mem_flatMap.mpr ⟨e, List.mem_append_left _ he, hx⟩
    · rcases List.mem_cons.mp he with rfl | he
      · exact hb'
      · refine (s.holds e (by simp [he])).frame fun x hx => hframe x ?_
        exact List.mem_flatMap.mpr ⟨e, List.mem_append_right _ he, hx⟩
  · rw [hfst]
    exact s.lt_fresh
  · intro x hx
    obtain ⟨e, he, hxe⟩ := List.mem_flatMap.mp hx
    rcases List.mem_append.mp he with he | he
    · exact s.key_lt_fresh x (List.mem_flatMap.mpr ⟨e, List.mem_append_left _ he, hxe⟩)
    · rcases List.mem_cons.mp he with rfl | he
      · exact hlt x hxe
      · exact s.key_lt_fresh x (List.mem_flatMap.mpr ⟨e, by simp [he], hxe⟩)

/-- **A key leaves its bucket.** -/
theorem onList_del (s : Shape c d v (L₁ ++ b :: L₂)) {xs ys : List (ℕ × Key)} {a : ℕ} {k : Key}
    (hk : b.keys = xs ++ (a, k) :: ys) : ∃ c',
      c.onList (some b.addr) (·.del (some a)) = some c' ∧
      Shape c' d v (L₁ ++ b.withKeys (xs ++ ys) :: L₂) ∧ SameMaps c c' ∧
      Detached c' (L₁ ++ b.withKeys (xs ++ ys) :: L₂) a k := by
  have hmem : b ∈ L₁ ++ b :: L₂ := List.mem_append_right _ (List.mem_cons_self ..)
  have hnd := s.nodupKeys
  rw [List.flatMap_append, List.flatMap_cons] at hnd
  have hb : b.addrs.Nodup := (List.nodup_append.mp (List.nodup_append.mp hnd).2.1).1
  obtain ⟨ks, hop, hb', hnode, hframe⟩ := KeyList.del_spec (s.holds b hmem) hb hk
  have haddrs : b.addrs = b.dummy :: (xs.map Prod.fst ++ a :: ys.map Prod.fst) := by
    rw [Bucket.addrs, hk, List.map_append, List.map_cons]
  have haddrs' : (b.withKeys (xs ++ ys)).addrs
    = b.dummy :: (xs.map Prod.fst ++ ys.map Prod.fst) := by
    rw [Bucket.addrs, Bucket.withKeys_keys, Bucket.withKeys_dummy, List.map_append]
  have hframe' : ∀ x ∈ (L₁ ++ L₂).flatMap Bucket.addrs, ks x = c.keys x := by
    intro x hx
    refine hframe x fun e => ?_
    rw [List.flatMap_append] at hx
    grind
  rw [haddrs] at hnd
  have hnd' : ((L₁ ++ b.withKeys (xs ++ ys) :: L₂).flatMap Bucket.addrs).Nodup := by
    rw [List.flatMap_append, List.flatMap_cons, haddrs']
    grind
  have hlt : ∀ x ∈ b.addrs, x < c.fresh := fun x hx =>
    s.key_lt_fresh x (List.mem_flatMap.mpr ⟨b, hmem, hx⟩)
  rw [haddrs] at hlt
  have hlt' : ∀ x ∈ (b.withKeys (xs ++ ys)).addrs, x < c.fresh := by
    rw [haddrs']
    exact fun x hx => hlt x (by grind)
  obtain ⟨c', hon, s', hm, rfl, hfresh⟩ := s.onList (·.del (some a)) hop hb' hframe' hnd' hlt' rfl
  refine ⟨c', hon, s', hm, hnode, ?_, hfresh ▸ hlt a (by simp)⟩
  rw [List.flatMap_append, List.flatMap_cons, haddrs']
  grind

/-- **A key enters a bucket**, in front. -/
theorem onList_add (s : Shape c d v (L₁ ++ b :: L₂)) {a : ℕ} {k : Key}
    (hd : Detached c (L₁ ++ b :: L₂) a k) : ∃ c',
      c.onList (some b.addr) (·.add (some a)) = some c' ∧
      Shape c' d v (L₁ ++ b.withKeys ((a, k) :: b.keys) :: L₂) ∧ SameMaps c c' := by
  have hmem : b ∈ L₁ ++ b :: L₂ := List.mem_append_right _ (List.mem_cons_self ..)
  have hnd := s.nodupKeys
  have hna := hd.notMem
  rw [List.flatMap_append, List.flatMap_cons] at hnd hna
  have hb : b.addrs.Nodup := (List.nodup_append.mp (List.nodup_append.mp hnd).2.1).1
  obtain ⟨p, n, hnode⟩ := hd.node
  obtain ⟨ks, hop, hb', hframe⟩ := KeyList.add_spec (s.holds b hmem)
    (List.nodup_cons.mpr ⟨by grind, hb⟩) hnode
  have haddrs' : (b.withKeys ((a, k) :: b.keys)).addrs = b.dummy :: a :: b.keys.map Prod.fst := rfl
  have hframe' : ∀ x ∈ (L₁ ++ L₂).flatMap Bucket.addrs, ks x = c.keys x := by
    intro x hx
    refine hframe x fun e => ?_
    rw [List.flatMap_append] at hx
    grind
  have hnd' : ((L₁ ++ b.withKeys ((a, k) :: b.keys) :: L₂).flatMap Bucket.addrs).Nodup := by
    rw [List.flatMap_append, List.flatMap_cons, haddrs']
    rw [Bucket.addrs] at hnd hna
    grind
  have hlt : ∀ x ∈ (b.withKeys ((a, k) :: b.keys)).addrs, x < c.fresh := by
    intro x hx
    have : x = a ∨ x ∈ b.addrs := by
      rw [haddrs'] at hx
      rw [Bucket.addrs]
      grind
    rcases this with rfl | hxb
    · exact hd.lt_fresh
    · exact s.key_lt_fresh x (List.mem_flatMap.mpr ⟨b, hmem, hxb⟩)
  obtain ⟨c', hon, s', hm, -, -⟩ := s.onList (·.add (some a)) hop hb' hframe' hnd' hlt rfl
  exact ⟨c', hon, s', hm⟩

/-- **An emptied bucket goes.** -/
theorem del (s : Shape c d v (L₁ ++ b :: L₂)) (hk : b.keys = []) : ∃ c',
    c.del (some b.addr) = some c' ∧ Shape c' d v (L₁ ++ L₂) ∧ SameMaps c c' := by
  have hmem : b ∈ L₁ ++ b :: L₂ := List.mem_append_right _ (List.mem_cons_self ..)
  have hsub : ∀ e ∈ L₁ ++ L₂, e ∈ L₁ ++ b :: L₂ := fun e he =>
    (List.mem_append.mp he).elim (List.mem_append_left _) fun h =>
      List.mem_append_right _ (List.mem_cons_of_mem _ h)
  obtain ⟨q, hq⟩ := s.headed
  have hnodup := s.nodup
  rw [← map_entry_fst, List.map_append, List.map_cons] at hnodup
  rw [List.map_append, List.map_cons] at hq
  obtain ⟨m, n, h₁, h₂, ha, e₁, e₂, -, hq', hfar⟩ := hq.unlink hnodup
  have hb₂ : h₂ b.addr = some ⟨b.list, some m, n⟩ := by
    rw [hfar b.addr, ha]
    rw [List.map_append, List.map_cons] at hnodup
    rw [List.map_append]
    have : b.entry.1 = b.addr := rfl
    grind
  obtain ⟨w, q₀, hdum⟩ := s.holds b hmem
  rw [hk] at hdum
  have hfresh : 0 < c.fresh := lt_of_le_of_lt (Nat.zero_le d) (s.lt_fresh d (List.mem_cons_self ..))
  have hdes := KeyList.destory_spec hdum hfresh
  have hnd := s.nodupKeys
  have hdd : ∀ x ∈ (L₁ ++ L₂).flatMap Bucket.addrs, x ≠ b.dummy := by
    intro x hx e
    rw [List.flatMap_append, List.flatMap_cons, Bucket.addrs, hk] at hnd
    rw [List.flatMap_append] at hx
    grind
  refine ⟨{ c with
      keys := Function.update c.keys b.dummy none
      freqs := Function.update h₂ b.addr none }, ?_,
    ⟨s.dummyhead, ⟨if L₂.map Bucket.entry = [] then m else q, ?_⟩, ?_, ?_, ?_, ?_, ?_⟩,
    ⟨rfl, rfl, rfl⟩⟩
  · have hl : c.freqs.load (some b.addr) = some ⟨b.list, some m, n⟩ := ha
    have hd' : KeyList.destory c.fresh b.list.dummyhead c.keys
        = some (Function.update c.keys b.dummy none) := hdes
    simp only [LFUCache.del, Option.bind_eq_bind, hl, Option.bind_some, e₁, e₂, hd',
      Heap.free_some hb₂]
    rfl
  · rw [List.map_append]
    refine hq'.frame fun x hx => Function.update_of_ne (fun e => ?_) _ _
    rw [List.map_append, List.map_cons] at hnodup
    rw [List.map_append] at hx
    have : b.entry.1 = b.addr := rfl
    grind
  · have := s.nodup
    rw [List.map_append, List.map_cons] at this
    rw [List.map_append]
    grind
  · intro e he
    refine (s.holds e (hsub e he)).frame fun x hx => Function.update_of_ne ?_ _ _
    exact hdd x (List.mem_flatMap.mpr ⟨e, he, hx⟩)
  · rw [List.flatMap_append, List.flatMap_cons] at hnd
    rw [List.flatMap_append]
    grind
  · intro x hx
    refine s.lt_fresh x ?_
    rw [List.map_append, List.map_cons]
    rw [List.map_append] at hx
    grind
  · intro x hx
    obtain ⟨e, he, hxe⟩ := List.mem_flatMap.mp hx
    exact s.key_lt_fresh x (List.mem_flatMap.mpr ⟨e, hsub e he, hxe⟩)

/-- **A new bucket** behind a first part of the list, whose last node is `m`. -/
theorem insertFreq (s : Shape c d v (L₁ ++ L₂)) {m : ℕ} {x : Node KeyList}
    (hm : m = (d :: L₁.map Bucket.addr).getLast (by simp)) (hx : c.freqs m = some x) : ∃ c',
      c.insertFreq (some m) x = some (some c.fresh, c') ∧
      Shape c' d v (L₁ ++ ⟨c.fresh, x.value.freq + 1, c.fresh + 1, []⟩ :: L₂) ∧ SameMaps c c' ∧
      c'.fresh = c.fresh + 2 ∧ ∀ a, a < c.fresh → c'.keys a = c.keys a := by
  obtain ⟨q, hq⟩ := s.headed
  have hA : ∀ a ∈ d :: (L₁ ++ L₂).map Bucket.addr, a ≠ c.fresh := fun a ha =>
    (s.lt_fresh a ha).ne
  have hK : ∀ a ∈ (L₁ ++ L₂).flatMap Bucket.addrs, a ≠ c.fresh + 1 := fun a ha =>
    ((s.key_lt_fresh a ha).trans (Nat.lt_succ_self _)).ne
  have hnodup : (c.fresh :: d :: (L₁ ++ L₂).map Bucket.addr).Nodup :=
    List.nodup_cons.mpr ⟨fun h => hA _ h rfl, s.nodup⟩
  rw [← map_entry_fst, List.map_append] at hA hnodup
  rw [List.map_append] at hq
  set g : Bucket := ⟨c.fresh, x.value.freq + 1, c.fresh + 1, []⟩
  set h₀ : Heap KeyList := Function.update c.freqs c.fresh (some ⟨g.list, none, none⟩)
  have hq₀ : Headed h₀ d v (L₁.map Bucket.entry ++ L₂.map Bucket.entry) q none :=
    hq.frame fun a ha => Function.update_of_ne (hA a ha) _ _
  obtain ⟨m', f, hd₁, hs₂⟩ := Headed.append.mp hq₀
  obtain rfl : m = m' := by rw [hm, hd₁.last, map_entry_fst]
  have hxf : x.next = f := by
    have hdx := (List.nodup_cons.mp hnodup).2
    rw [List.map_append, ← List.cons_append] at hA hdx
    obtain ⟨x', hx', hf, -⟩ := hd₁.setNext (List.nodup_append.mp hdx).1 none
    have hx₀ : h₀ m = some x :=
      (Function.update_of_ne (hA m (List.mem_append_left _ hd₁.last_mem)) _ _).trans hx
    rw [Option.some.inj (hx₀.symm.trans hx'), hf]
  obtain ⟨h₁, h₂, h₃, -, h₄, e₁, e₂, e₃, e₄, -, -, ⟨q', hq', -, -⟩, -⟩ :=
    hd₁.insert hs₂ hnodup (Function.update_self c.fresh (some ⟨g.list, none, none⟩) c.freqs)
  rw [← hxf] at e₁ e₂
  refine ⟨{ c with
      keys := Function.update c.keys (c.fresh + 1) (some ⟨⟨[], []⟩, none, none⟩)
      freqs := h₄
      fresh := c.fresh + 2 }, ?_, ⟨s.dummyhead, ⟨q', ?_⟩, ?_, ?_, ?_, ?_, ?_⟩, ⟨rfl, rfl, rfl⟩, rfl,
    fun a ha => Function.update_of_ne (ha.trans (Nat.lt_succ_self _)).ne _ _⟩
  · have hc : c.newFreq (x.value.freq + 1) = (some c.fresh, { c with
        keys := Function.update c.keys (c.fresh + 1) (some ⟨⟨[], []⟩, none, none⟩)
        freqs := h₀
        fresh := c.fresh + 2 }) := rfl
    simp only [LFUCache.insertFreq, hc, Option.bind_eq_bind, e₁, Option.bind_some, e₂, e₃, e₄]
    rfl
  · rw [List.map_append, List.map_cons]
    exact hq'
  · rw [← map_entry_fst, List.map_append, List.map_cons, List.map_append, List.map_cons,
      ← List.cons_append]
    have : g.entry.1 = c.fresh := rfl
    grind
  · intro e he
    rcases List.mem_append.mp he with he | he
    · refine (s.holds e (List.mem_append_left _ he)).frame fun a ha => Function.update_of_ne ?_ _ _
      exact hK a (List.mem_flatMap.mpr ⟨e, List.mem_append_left _ he, ha⟩)
    · rcases List.mem_cons.mp he with rfl | he
      · exact ⟨⟨[], []⟩, c.fresh + 1, none, none, Function.update_self .., rfl, rfl⟩
      · refine (s.holds e (List.mem_append_right _ he)).frame fun a ha =>
          Function.update_of_ne ?_ _ _
        exact hK a (List.mem_flatMap.mpr ⟨e, List.mem_append_right _ he, ha⟩)
  · have hnd := s.nodupKeys
    have hga : g.addrs = [c.fresh + 1] := rfl
    rw [List.flatMap_append] at hnd hK
    rw [List.flatMap_append, List.flatMap_cons, hga]
    grind
  · intro a ha
    have := s.lt_fresh a
    rw [List.map_append] at this
    rw [List.map_append, List.map_cons] at ha
    have hga : g.addr = c.fresh := rfl
    change a < c.fresh + 2
    grind
  · intro a ha
    have := s.key_lt_fresh a
    have hga : g.addrs = [c.fresh + 1] := rfl
    rw [List.flatMap_append] at this
    rw [List.flatMap_append, List.flatMap_cons, hga] at ha
    change a < c.fresh + 2
    grind

end Shape

end WebServer.Cache
