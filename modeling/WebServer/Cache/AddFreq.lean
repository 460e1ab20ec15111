import WebServer.Cache.Shape

/-!
# Cache/AddFreq — moving a key to the next frequency

`AddFreq` finds or makes the bucket of the next frequency (`Next`), moves the key there and drops
the bucket it came from when that is empty (`Shape.addFreq_hit`).  A new key comes from the dummy
node (`Shape.addFreq_new`), and room is made for it at the end of the first bucket (`Shape.evict`).
-/

namespace WebServer.Cache

/-- **The bucket for frequency `f + 1`** in front of `L₂`: its first one if it has that frequency,
and a new, empty one otherwise. -/
inductive Next (f : Int32) : List Bucket → Bucket → List Bucket → Prop
  | reuse {g : Bucket} {L : List Bucket} (hf : g.freq = f + 1) : Next f (g :: L) g L
  | insert {g : Bucket} {L : List Bucket} (hf : g.freq = f + 1) (hk : g.keys = [])
      (hL : ∀ b ∈ L.head?, b.freq ≠ f + 1) : Next f L g L

/-- What is left of a bucket with these keys. -/
def remaining (b : Bucket) (keys : List (ℕ × Key)) : List Bucket :=
  if keys = [] then [] else [b.withKeys keys]

/-- The maps are not part of what it is to be off the lists. -/
theorem Detached.maps {c : LFUCache} {L : List Bucket} {a : ℕ} {k : Key} (hd : Detached c L a k)
    (kmap fmap : PtrMap) : Detached { c with kmap := kmap, fmap := fmap } L a k :=
  ⟨hd.node, hd.notMem, hd.lt_fresh⟩

namespace Shape

variable {c : LFUCache} {d : ℕ} {v : KeyList} {L L₁ L₂ : List Bucket} {b : Bucket}

/-- The maps are not part of the shape. -/
theorem maps (s : Shape c d v L) (kmap fmap : PtrMap) :
    Shape { c with kmap := kmap, fmap := fmap } d v L :=
  ⟨s.dummyhead, s.headed, s.nodup, s.holds, s.nodupKeys, s.lt_fresh, s.key_lt_fresh⟩

/-- **`AddFreq` finds or makes the next bucket.** -/
theorem nextFreq (s : Shape c d v (L₁ ++ L₂)) {m : ℕ} {x : Node KeyList}
    (hm : m = (d :: L₁.map Bucket.addr).getLast (by simp)) (hx : c.freqs m = some x) :
    ∃ c' g L₂', c.nextFreq (some m) = some (some g.addr, c') ∧ Shape c' d v (L₁ ++ g :: L₂') ∧
      Next x.value.freq L₂ g L₂' ∧ SameMaps c c' ∧
      ∀ a k, Detached c (L₁ ++ L₂) a k → Detached c' (L₁ ++ g :: L₂') a k := by
  have hload : c.freqs.load (some m) = some x := hx
  obtain ⟨q, hq⟩ := s.headed
  rw [List.map_append] at hq
  obtain ⟨m', f, hd₁, hs₂⟩ := Headed.append.mp hq
  obtain rfl : m = m' := by rw [hm, hd₁.last, map_entry_fst]
  have hnodup := s.nodup
  rw [List.map_append, ← List.cons_append] at hnodup
  have hnd₁ := (List.nodup_append.mp hnodup).1
  rw [← map_entry_fst] at hnd₁
  obtain ⟨x', hx', hf, -⟩ := hd₁.setNext hnd₁ none
  obtain rfl : x = x' := Option.some.inj (hx.symm.trans hx')
  have insert : ∀ _ : ∀ b ∈ L₂.head?, b.freq ≠ x.value.freq + 1,
      c.nextFreq (some m) = c.insertFreq (some m) x → ∃ c' g L₂',
      c.nextFreq (some m) = some (some g.addr, c') ∧ Shape c' d v (L₁ ++ g :: L₂') ∧
      Next x.value.freq L₂ g L₂' ∧ SameMaps c c' ∧
      ∀ a k, Detached c (L₁ ++ L₂) a k → Detached c' (L₁ ++ g :: L₂') a k := by
    intro hL he
    obtain ⟨c', hins, s', hmaps, hfresh, hkeys⟩ := s.insertFreq hm hx
    refine ⟨c', ⟨c.fresh, x.value.freq + 1, c.fresh + 1, []⟩, L₂, he.trans hins, s',
      .insert rfl rfl hL, hmaps, fun a k hd => ⟨?_, ?_, ?_⟩⟩
    · rw [hkeys a hd.lt_fresh]
      exact hd.node
    · have hna := hd.notMem
      have hlt := hd.lt_fresh
      rw [List.flatMap_append] at hna
      rw [List.flatMap_append, List.flatMap_cons, Bucket.addrs]
      grind
    · have := hd.lt_fresh
      omega
  rcases L₂ with _ | ⟨g, L₂⟩
  · obtain ⟨-, rfl⟩ := hs₂
    refine insert (by simp) ?_
    simp only [LFUCache.nextFreq, Option.bind_eq_bind, hload, Option.bind_some]
    rw [if_pos hf]
  · obtain ⟨rfl, n, hg, -⟩ := hs₂
    have hgload : c.freqs.load x.next = some ⟨g.list, some m, n⟩ := by rw [hf]; exact hg
    have hne : x.next ≠ none := by rw [hf]; simp
    by_cases hfreq : g.freq = x.value.freq + 1
    · refine ⟨c, g, L₂, ?_, s, .reuse hfreq, ⟨rfl, rfl, rfl⟩, fun a k hd => hd⟩
      simp only [LFUCache.nextFreq, Option.bind_eq_bind, hload, Option.bind_some]
      rw [if_neg hne, hgload, Option.bind_some, hf]
      exact if_neg fun h => h hfreq
    · refine insert (by simpa using hfreq) ?_
      simp only [LFUCache.nextFreq, Option.bind_eq_bind, hload, Option.bind_some]
      rw [if_neg hne, hgload, Option.bind_some]
      exact if_pos hfreq

/-- Whether a bucket's list is empty, as the cache sees it. -/
theorem listIsEmpty (s : Shape c d v (L₁ ++ b :: L₂)) :
    c.listIsEmpty (some b.addr) = some (decide (b.keys = [])) := by
  have hmem : b ∈ L₁ ++ b :: L₂ := List.mem_append_right _ (List.mem_cons_self ..)
  obtain ⟨p, n, hload⟩ := s.load hmem
  have hnd := s.nodupKeys
  rw [List.flatMap_append, List.flatMap_cons] at hnd
  have hb : b.addrs.Nodup := (List.nodup_append.mp (List.nodup_append.mp hnd).2.1).1
  rw [LFUCache.listIsEmpty, Heap.load_some, hload, Option.map_some]
  refine congrArg some ?_
  rw [Bool.eq_iff_iff, decide_eq_true_eq]
  exact Bucket.isEmpty_list hb

/-- **`AddFreq` of a new node**, from the dummy node on. -/
theorem addFreq_new (s : Shape c d v L) {a : ℕ} {k : Key} (hd : Detached c L a k) :
    ∃ c' g L', c.addFreq (some a) (some d) = some c' ∧
      Shape c' d v (g.withKeys ((a, k) :: g.keys) :: L') ∧ Next v.freq L g L' ∧
      SameMaps { c with fmap := c.fmap.insert k.key (some g.addr) } c' := by
  obtain ⟨q, p, f, hdum, -⟩ := s.headed
  have s₀ : Shape c d v ([] ++ L) := s
  obtain ⟨c₁, g, L', hnext, s₁, hn, hm₁, hdet⟩ := s₀.nextFreq rfl hdum
  have hdet₁ := hdet a k hd
  obtain ⟨pk, nk, hk⟩ := hdet₁.node
  have s₂ := s₁.maps c₁.kmap (c₁.fmap.insert k.key (some g.addr))
  obtain ⟨c₃, hadd, s₃, hm₃⟩ := s₂.onList_add (hdet₁.maps _ _)
  refine ⟨c₃, g, L', ?_, s₃, hn, hm₃.capacity.trans hm₁.capacity, hm₃.kmap.trans hm₁.kmap, ?_⟩
  · have hnext' : c.nextFreq (some d) = some (some g.addr, c₁) := hnext
    have hkload : c₁.keys.load (some a) = some ⟨k, pk, nk⟩ := hk
    have hd₁ : ¬ some d ≠ c₁.dummyhead := fun h => h s₁.dummyhead.symm
    have hd₃ : ¬ some d ≠ c₃.dummyhead := fun h => h s₃.dummyhead.symm
    simp only [LFUCache.addFreq, Option.bind_eq_bind, hnext', Option.bind_some, hkload, if_neg hd₁]
    rw [hadd, Option.bind_some, if_neg hd₃]
  · rw [hm₃.fmap, ← hm₁.fmap]

/-- **`AddFreq` of a cached key**: it moves from its bucket to the next one. -/
theorem addFreq_hit (s : Shape c d v (L₁ ++ b :: L₂)) {xs ys : List (ℕ × Key)} {a : ℕ} {k : Key}
    (hk : b.keys = xs ++ (a, k) :: ys) : ∃ c' g L₂',
      c.addFreq (some a) (some b.addr) = some c' ∧
      Shape c' d v (L₁ ++ remaining b (xs ++ ys) ++ g.withKeys ((a, k) :: g.keys) :: L₂') ∧
      Next b.freq L₂ g L₂' ∧
      SameMaps { c with fmap := c.fmap.insert k.key (some g.addr) } c' := by
  have hmem : b ∈ L₁ ++ b :: L₂ := List.mem_append_right _ (List.mem_cons_self ..)
  obtain ⟨p, f, hb⟩ := s.load hmem
  have hbne : b.addr ≠ d := by
    have := s.nodup
    rw [List.map_append, List.map_cons] at this
    grind
  have s₀ : Shape c d v ((L₁ ++ [b]) ++ L₂) := by rwa [List.append_assoc]
  have hlast : b.addr = (d :: (L₁ ++ [b]).map Bucket.addr).getLast (by simp) := by simp
  obtain ⟨c₁, g, L₂', hnext, s₁, hn, hm₁, -⟩ := s₀.nextFreq hlast hb
  rw [List.append_assoc, List.singleton_append] at s₁
  obtain ⟨pk, nk, hkey⟩ : ∃ pk nk, c₁.keys a = some ⟨k, pk, nk⟩ := by
    obtain ⟨v₀, q₀, hq₀⟩ := s₁.holds b (List.mem_append_right _ (List.mem_cons_self ..))
    obtain ⟨pk, nk, hk'⟩ := hq₀.load (show (a, k) ∈ b.keys by rw [hk]; simp)
    exact ⟨some pk, nk, hk'⟩
  have s₂ := s₁.maps c₁.kmap (c₁.fmap.insert k.key (some g.addr))
  obtain ⟨c₃, hdel, s₃, hm₃, hdet⟩ := s₂.onList_del hk
  have hassoc : L₁ ++ b.withKeys (xs ++ ys) :: g :: L₂'
      = (L₁ ++ [b.withKeys (xs ++ ys)]) ++ g :: L₂' := by simp
  rw [hassoc] at s₃ hdet
  obtain ⟨c₄, hadd, s₄, hm₄⟩ := s₃.onList_add hdet
  rw [List.append_assoc, List.singleton_append] at s₄
  have hne : some b.addr ≠ c₁.dummyhead := by
    rw [s₁.dummyhead]
    simpa using hbne
  have hmaps : SameMaps { c with fmap := c.fmap.insert k.key (some g.addr) } c₄ := by
    refine ⟨?_, ?_, ?_⟩
    · rw [hm₄.capacity, hm₃.capacity, hm₁.capacity]
    · rw [hm₄.kmap, hm₃.kmap, hm₁.kmap]
    · rw [hm₄.fmap, hm₃.fmap, hm₁.fmap]
  have hcode : c.addFreq (some a) (some b.addr) =
      if xs ++ ys = [] then c₄.del (some b.addr) else some c₄ := by
    have hkload : c₁.keys.load (some a) = some ⟨k, pk, nk⟩ := hkey
    have hempty : c₄.listIsEmpty (some b.addr) = some (decide (xs ++ ys = [])) := s₄.listIsEmpty
    have hne₄ : some b.addr ≠ c₄.dummyhead := by rw [s₄.dummyhead, ← s₁.dummyhead]; exact hne
    simp only [LFUCache.addFreq, Option.bind_eq_bind, hnext, Option.bind_some, hkload, if_pos hne]
    rw [hdel, Option.bind_some, hadd, Option.bind_some, if_pos hne₄, hempty, Option.bind_some]
    simp only [decide_eq_true_eq]
  rw [hcode, remaining]
  by_cases hrest : xs ++ ys = []
  · obtain ⟨c₅, hdel₅, s₅, hm₅⟩ := s₄.del hrest
    rw [if_pos hrest, if_pos hrest, List.append_nil]
    exact ⟨c₅, g, L₂', hdel₅, s₅, hn, hmaps.trans hm₅⟩
  · rw [if_neg hrest, if_neg hrest]
    refine ⟨c₄, g, L₂', rfl, ?_, hn, hmaps⟩
    rwa [List.append_assoc, List.singleton_append]

/-- A new key node. -/
theorem newKey (s : Shape c d v L) (k : Key) : ∃ c', c.newKey k = (some c.fresh, c') ∧
    Shape c' d v L ∧ Detached c' L c.fresh k ∧ SameMaps c c' := by
  have hK : ∀ a ∈ L.flatMap Bucket.addrs, a ≠ c.fresh := fun a ha => (s.key_lt_fresh a ha).ne
  refine ⟨_, rfl, ⟨s.dummyhead, s.headed, s.nodup, fun e he => ?_, s.nodupKeys, ?_, ?_⟩,
    ⟨⟨none, none, Function.update_self ..⟩, fun h => hK _ h rfl, Nat.lt_succ_self _⟩,
      ⟨rfl, rfl, rfl⟩⟩
  · refine (s.holds e he).frame fun a ha => Function.update_of_ne ?_ _ _
    exact hK a (List.mem_flatMap.mpr ⟨e, he, ha⟩)
  · exact fun a ha => (s.lt_fresh a ha).trans (Nat.lt_succ_self _)
  · exact fun a ha => (s.key_lt_fresh a ha).trans (Nat.lt_succ_self _)

/-- Giving back a node that is on none of the lists. -/
theorem freeKey (s : Shape c d v L) {a : ℕ} {k : Key} (hd : Detached c L a k) :
    ∃ ks, c.keys.free (some a) = some ks ∧ Shape { c with keys := ks } d v L := by
  obtain ⟨p, n, ha⟩ := hd.node
  refine ⟨_, Heap.free_some ha, s.dummyhead, s.headed, s.nodup, fun e he => ?_, s.nodupKeys,
    s.lt_fresh, s.key_lt_fresh⟩
  refine (s.holds e he).frame fun x hx => Function.update_of_ne (fun h => hd.notMem ?_) _ _
  exact List.mem_flatMap.mpr ⟨e, he, h ▸ hx⟩

/-- **Making room** drops the last key of the first bucket. -/
theorem evict (s : Shape c d v (b :: L)) {xs : List (ℕ × Key)} {a : ℕ} {k : Key}
    (hk : b.keys = xs ++ [(a, k)]) : ∃ c', c.evict = some c' ∧
      Shape c' d v (remaining b xs ++ L) ∧
      SameMaps { c with kmap := c.kmap.erase k.key, fmap := c.fmap.erase k.key } c' := by
  obtain ⟨q, p, f, hdum, hs⟩ := s.headed
  obtain ⟨rfl, n, hb, -⟩ := hs
  have s₀ : Shape c d v ([] ++ b :: L) := s
  have hk' : b.keys = xs ++ (a, k) :: [] := hk
  obtain ⟨c₁, hdel, s₁, hm₁, hdet₁⟩ := s₀.onList_del hk'
  rw [List.append_nil, List.nil_append] at s₁ hdet₁
  obtain ⟨pk, nk, hnode⟩ := hdet₁.node
  have s₂ := s₁.maps (c₁.kmap.erase k.key) (c₁.fmap.erase k.key)
  obtain ⟨ks, hfree, s₃⟩ := s₂.freeKey (hdet₁.maps _ _)
  obtain ⟨c₂, hc₂⟩ : ∃ c₂ : LFUCache, c₂ = { c₁ with
      keys := ks, kmap := c₁.kmap.erase k.key, fmap := c₁.fmap.erase k.key } := ⟨_, rfl⟩
  have s₄ : Shape c₂ d v ([] ++ b.withKeys xs :: L) := by
    rw [hc₂]
    exact s₃
  have hempty : c₂.listIsEmpty (some b.addr) = some (decide (xs = [])) := s₄.listIsEmpty
  have hmaps : SameMaps { c with kmap := c.kmap.erase k.key, fmap := c.fmap.erase k.key } c₂ := by
    rw [hc₂, ← hm₁.kmap, ← hm₁.fmap]
    exact ⟨hm₁.capacity, rfl, rfl⟩
  have htail : b.list.getLast = some a := by
    rw [KeyList.getLast, Bucket.list]
    simp [hk]
  have hcode : c.evict = if xs = [] then c₂.del (some b.addr) else some c₂ := by
    have hdload : c.freqs.load c.dummyhead = some ⟨v, p, some b.addr⟩ := by
      rw [s.dummyhead]
      exact hdum
    have hbload : c.freqs.load (some b.addr) = some ⟨b.list, some d, n⟩ := hb
    have hkload : c₁.keys.load (some a) = some ⟨k, pk, nk⟩ := hnode
    have hfree' : c₁.keys.free (some a) = some ks := hfree
    simp only [LFUCache.evict, Option.bind_eq_bind, hdload, Option.bind_some, hbload, htail, hdel,
      hkload, hfree']
    rw [← hc₂, hempty, Option.bind_some]
    simp only [decide_eq_true_eq]
  rw [hcode, remaining]
  by_cases hrest : xs = []
  · obtain ⟨c₅, hdel₅, s₅, hm₅⟩ := s₄.del hrest
    rw [if_pos hrest, if_pos hrest]
    exact ⟨c₅, hdel₅, s₅, hmaps.trans hm₅⟩
  · rw [if_neg hrest, if_neg hrest]
    exact ⟨c₂, rfl, s₄, hmaps⟩

/-- **`Set`**, once room has been made. -/
theorem set {c₁ : LFUCache} (s : Shape c₁ d v L) (hcap : c.capacity ≠ 0)
    (hroom : c.room = some c₁) (key : Key) : ∃ c' g L', c.set key.key key.value = some c' ∧
      Shape c' d v (g.withKeys ((c₁.fresh, key) :: g.keys) :: L') ∧ Next v.freq L g L' ∧
      SameMaps { c₁ with
        kmap := c₁.kmap.insert key.key (some c₁.fresh)
        fmap := (c₁.fmap.insert key.key (some g.addr)).insert key.key (some g.addr) } c' := by
  obtain ⟨c₂, hnew, s₂, hdet, hm₂⟩ := s.newKey key
  obtain ⟨c₃, g, L', hadd, s₃, hn, hm₃⟩ := s₂.addFreq_new hdet
  obtain ⟨q, p, f, hdum, hs⟩ := s₃.headed
  obtain ⟨rfl, -⟩ := hs
  refine ⟨{ c₃ with
    kmap := c₃.kmap.insert key.key (some c₁.fresh)
    fmap := c₃.fmap.insert key.key (some g.addr) }, g, L', ?_, s₃.maps _ _, hn, ?_⟩
  · have hload : c₃.freqs.load (some d) = some ⟨v, p, some g.addr⟩ := hdum
    rw [LFUCache.set, if_neg hcap]
    simp only [Option.bind_eq_bind, hroom, Option.bind_some, hnew, s₂.dummyhead, hadd,
      s₃.dummyhead, hload]
    rfl
  · rw [hm₃.kmap, hm₃.fmap]
    refine ⟨hm₃.capacity.trans hm₂.capacity, ?_, ?_⟩
    · rw [← hm₂.kmap]
    · rw [← hm₂.fmap]

end Shape

end WebServer.Cache
