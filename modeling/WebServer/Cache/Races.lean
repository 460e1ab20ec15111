import WebServer.Cache.Concurrent
import Mathlib.Data.List.Perm.Subperm

/-!
# Cache/Races — what is left of the page cache when loops race

Nothing keeps two event loops from setting the same page, and then a name stands on two nodes
although the maps know one of them.  Whatever the loops do, no `Get` and no `Set` breaks off and a
hit answers a content that the page was set to (`sound_of_run`).  But the bound is gone: from a race
on, the cache can come to hold more pages than its capacity, and then it never drops one again
(`overfull_of_race`).
-/

namespace WebServer.Cache

/-! ## The maps of a cache with stray nodes -/

/-- **The maps name places**: of each name they know nothing, or a node and the bucket that it is
in.  Other nodes may carry the name as well. -/
def Loose (kmap fmap : PtrMap) (P : List (Bytes × ℕ × ℕ)) : Prop :=
  ∀ k, (kmap.lookup k = none ∧ fmap.lookup k = none) ∨
    ∃ a f, (k, a, f) ∈ P ∧ kmap.lookup k = some (some a) ∧ fmap.lookup k = some (some f)

namespace Loose

variable {kmap fmap : PtrMap} {P R : List (Bytes × ℕ × ℕ)} {k : Bytes} {a f f' : ℕ}

theorem perm (h : Loose kmap fmap P) (hp : P.Perm R) : Loose kmap fmap R := fun k =>
  (h k).imp_right fun ⟨a, f, hmem, hk, hf⟩ => ⟨a, f, hp.mem_iff.mp hmem, hk, hf⟩

/-- What the maps say of a name that is not touched. -/
theorem other (h : Loose kmap fmap ((k, a, f) :: R)) {kmap' fmap' : PtrMap} {k' : Bytes}
    (hk : k' ≠ k) (hkmap : kmap'.lookup k' = kmap.lookup k')
    (hfmap : fmap'.lookup k' = fmap.lookup k') :
    (kmap'.lookup k' = none ∧ fmap'.lookup k' = none) ∨
      ∃ a f, (k', a, f) ∈ R ∧ kmap'.lookup k' = some (some a) ∧
        fmap'.lookup k' = some (some f) := by
  rw [hkmap, hfmap]
  refine (h k').imp_right fun ⟨a', f', hmem, hk', hf'⟩ => ⟨a', f', ?_, hk', hf'⟩
  refine (List.mem_cons.mp hmem).resolve_left fun e => hk ?_
  exact (Prod.mk.inj e).1

/-- The node that the maps know changes its bucket. -/
theorem move (h : Loose kmap fmap ((k, a, f) :: R)) (hk : kmap.lookup k = some (some a)) :
    Loose kmap (fmap.insert k (some f')) ((k, a, f') :: R) := by
  intro k'
  by_cases hkk : k' = k
  · subst hkk
    exact .inr ⟨a, f', List.mem_cons_self, hk, AList.lookup_insert _⟩
  · refine (h.other hkk rfl (AList.lookup_insert_ne hkk)).imp_right ?_
    exact fun ⟨a, f, hmem, hk⟩ => ⟨a, f, List.mem_cons_of_mem _ hmem, hk⟩

/-- A new node, whether or not the name has one. -/
theorem insert (h : Loose kmap fmap R) :
    Loose (kmap.insert k (some a)) (fmap.insert k (some f)) ((k, a, f) :: R) := by
  intro k'
  by_cases hkk : k' = k
  · subst hkk
    exact .inr ⟨a, f, List.mem_cons_self, AList.lookup_insert _, AList.lookup_insert _⟩
  · rw [AList.lookup_insert_ne hkk, AList.lookup_insert_ne hkk]
    exact (h k').imp_right fun ⟨a, f, hmem, hk⟩ => ⟨a, f, List.mem_cons_of_mem _ hmem, hk⟩

/-- A node goes, and its name with it. -/
theorem erase (h : Loose kmap fmap ((k, a, f) :: R)) :
    Loose (kmap.erase k) (fmap.erase k) R := by
  intro k'
  by_cases hkk : k' = k
  · subst hkk
    exact .inl ⟨AList.lookup_erase _ _, AList.lookup_erase _ _⟩
  · exact h.other hkk (AList.lookup_erase_ne hkk) (AList.lookup_erase_ne hkk)

/-- A name that `kmap_` has is on a node. -/
theorem mem_names (h : Loose kmap fmap P) (hk : k ∈ kmap) : k ∈ P.map Prod.fst := by
  rcases h k with ⟨hnone, -⟩ | ⟨a, f, hmem, -, -⟩
  · exact absurd hk (AList.lookup_eq_none.mp hnone)
  · exact List.mem_map.mpr ⟨_, hmem, rfl⟩

end Loose

theorem Lists.entries_append (M M' : Lists) : (M ++ M').entries = M.entries ++ M'.entries :=
  List.flatMap_append

/-- A key leaves its bucket and enters the next one. -/
theorem entries_moved {b g : Bucket} {xs ys : List (ℕ × Key)} {a : ℕ} {k : Key}
    (hk : b.keys = xs ++ (a, k) :: ys) {L₂ L₂' : List Bucket} (hn : Next b.freq L₂ g L₂')
    (L₁ : List Bucket) :
    (view (L₁ ++ remaining b (xs ++ ys) ++ g.withKeys ((a, k) :: g.keys) :: L₂')).entries.Perm
      (view (L₁ ++ b :: L₂)).entries := by
  have hb : (view (b :: L₂)).entries = b.keys.map Prod.snd ++ (view L₂).entries := rfl
  rw [List.append_assoc, view_append L₁, view_append L₁ (b :: L₂), view_remaining_append, hn.view,
    Lists.entries_append, Lists.entries_append, Lists.entries_keep, Lists.entries_bump, hb, hk]
  simp only [List.map_append, List.map_cons, List.append_assoc, List.cons_append]
  refine List.Perm.append_left _ (List.Perm.append_left _ ?_)
  exact List.perm_middle

/-- **The lists of a cache that loops race on.** -/
structure Stray (c : LFUCache) (M : Lists) : Prop where
  buckets : ∃ d v L, Shape c d v L ∧ v.freq = 0 ∧ view L = M ∧ (∀ b ∈ L, b.keys ≠ []) ∧
    Loose c.kmap c.fmap (places L)

namespace Stray

variable {c : LFUCache} {M : Lists}

theorem init (capacity : ℕ) : Stray (LFUCache.init capacity) [] := by
  obtain ⟨d, v, L, s, hv, hL, hne, -⟩ := (Repr.init capacity).buckets
  exact ⟨d, v, L, s, hv, hL, hne, fun _ => .inl ⟨rfl, rfl⟩⟩

/-- **A hit answers the content of a node that carries the name**, and moves this node. -/
theorem get_hit (r : Stray c M) (hcap : c.capacity ≠ 0) {k : Bytes} {p : Ptr}
    (hk : c.fmap.lookup k = some p) (val : Bytes) : ∃ key c' M',
      key ∈ M.entries ∧ key.key = k ∧ c.get k val = some (true, val ++ key.value, c') ∧
        Stray c' M' ∧ M'.entries.Perm M.entries ∧ c'.capacity = c.capacity ∧ c'.kmap = c.kmap := by
  obtain ⟨d, v, L, s, hv, rfl, hne, h⟩ := r.buckets
  obtain ⟨a, f, hplace, hkm, hf⟩ := (h k).resolve_left fun e => by rw [hk] at e; simp at e
  obtain ⟨b, hb, hmem⟩ := List.mem_flatMap.mp hplace
  obtain ⟨⟨a', key⟩, hakey, e⟩ := List.mem_map.mp hmem
  obtain ⟨rfl, rfl, rfl⟩ : key.key = k ∧ a' = a ∧ b.addr = f := by simpa using e
  obtain ⟨L₁, L₂, rfl⟩ := List.append_of_mem hb
  obtain ⟨xs, ys, hbk⟩ := List.append_of_mem hakey
  obtain ⟨c', g, L₂', hget, s', hn, hm⟩ := s.get_hit hcap hbk hf hkm val
  refine ⟨key, c', _, ?_, rfl, hget, ⟨d, v, _, s', hv, rfl, ?_, ?_⟩, ?_, hm.capacity, hm.kmap⟩
  · exact List.mem_flatMap.mpr ⟨_, List.mem_map_of_mem hb, List.mem_map_of_mem hakey⟩
  · exact hn.keys_ne_nil_moved hne
  · rw [hm.kmap, hm.fmap]
    exact ((h.perm (places_out hbk L₁ L₂)).move hkm).perm (places_in hn L₁ _ a' key).symm
  · exact entries_moved hbk hn L₁

/-- **The key that makes room**: the last one of the first list goes, and its name from the maps. -/
theorem evict (r : Stray c M) (hM : M ≠ []) : ∃ f ks key M' c', M = (f, ks ++ [key]) :: M' ∧
    c.evict = some c' ∧ Stray c' (Lists.keep f ks M') ∧ c'.capacity = c.capacity ∧
      c'.kmap = c.kmap.erase key.key := by
  obtain ⟨d, v, L, s, hv, rfl, hne, h⟩ := r.buckets
  rcases L with _ | ⟨b, L⟩
  · exact absurd rfl hM
  · have hbk := hne b List.mem_cons_self
    obtain ⟨xs, ⟨a, k⟩, hk⟩ := (List.eq_nil_or_concat b.keys).resolve_left hbk
    rw [List.concat_eq_append] at hk
    obtain ⟨c', hev, s', hm⟩ := s.evict hk
    refine ⟨b.freq, xs.map Prod.snd, k, view L, c', ?_, hev,
      ⟨d, v, _, s', hv, view_remaining_append b xs L, ?_, ?_⟩, hm.capacity, hm.kmap⟩
    · change (b.freq, b.keys.map Prod.snd) :: view L = _
      rw [hk, List.map_append]
      rfl
    · intro e he
      rcases List.mem_append.mp he with he | he
      · exact keys_ne_nil_remaining b xs e he
      · exact hne e (List.mem_cons_of_mem _ he)
    · rw [hm.kmap, hm.fmap]
      exact (h.perm (places_last hk L)).erase

/-- **Making room** in a cache that is full. -/
theorem room_of_full (r : Stray c M) (hcap : c.capacity ≠ 0)
    (hfull : c.kmap.entries.length = c.capacity) : ∃ f ks key M' c', M = (f, ks ++ [key]) :: M' ∧
      c.room = some c' ∧ Stray c' (Lists.keep f ks M') ∧ c'.capacity = c.capacity ∧
        c'.kmap = c.kmap.erase key.key := by
  rw [LFUCache.room, if_pos hfull]
  refine r.evict fun hM => hcap ?_
  obtain ⟨d, v, L, s, -, hL, -, h⟩ := r.buckets
  -- a name of `kmap_` is on a node, so a cache without nodes is not full
  have hnil : c.kmap.keys = [] := by
    refine List.eq_nil_iff_forall_not_mem.mpr fun k hk => ?_
    have hmem := h.mem_names (k := k) hk
    rw [← names_view, hL, hM] at hmem
    exact List.not_mem_nil hmem
  rw [← hfull]
  have hlength := congrArg List.length hnil
  rwa [AList.keys, List.keys, List.length_map] at hlength

theorem room_of_not_full (hfull : c.kmap.entries.length ≠ c.capacity) : c.room = some c := by
  rw [LFUCache.room, if_neg hfull]

/-- `Set` makes room first, and there is nothing new in the lists then. -/
theorem room (r : Stray c M) (hcap : c.capacity ≠ 0) : ∃ c' M', c.room = some c' ∧ Stray c' M' ∧
    c'.capacity = c.capacity ∧ M'.entries ⊆ M.entries := by
  by_cases hfull : c.kmap.entries.length = c.capacity
  · obtain ⟨f, ks, key, M', c', rfl, hroom, r', hc, -⟩ := r.room_of_full hcap hfull
    refine ⟨c', _, hroom, r', hc, ?_⟩
    rw [Lists.entries_keep, Lists.entries_cons, List.append_assoc]
    exact List.append_subset.mpr ⟨List.subset_append_left _ _,
      List.Subset.trans (List.subset_append_right _ _) (List.subset_append_right _ _)⟩
  · exact ⟨c, M, room_of_not_full hfull, r, rfl, List.Subset.refl _⟩

/-- **A new node**, whatever the maps know of its name. -/
theorem set (r : Stray c M) {c₀ : LFUCache} (hcap : c₀.capacity ≠ 0) (hroom : c₀.room = some c)
    (key : Key) : ∃ c', c₀.set key.key key.value = some c' ∧ Stray c' (Lists.bump 1 key M) ∧
      c'.capacity = c.capacity ∧ ∃ p, c'.kmap = c.kmap.insert key.key p := by
  obtain ⟨d, v, L, s, hv, hL, hne, h⟩ := r.buckets
  obtain ⟨c', g, L', hset, s', hn, hm⟩ := s.set hcap hroom key
  refine ⟨c', hset, ⟨d, v, _, s', hv, ?_, ?_, ?_⟩, hm.capacity, _, hm.kmap⟩
  · rw [hn.view, hv, hL]
    rfl
  · intro e he
    rcases List.mem_cons.mp he with rfl | he
    · simp
    · exact hn.keys_ne_nil hne e he
  · rw [hn.places, hm.kmap, hm.fmap]
    exact h.insert.move (AList.lookup_insert _)

/-- The maps know the same names. -/
theorem lookup_eq_none_iff (r : Stray c M) {k : Bytes} : c.fmap.lookup k = none ↔ k ∉ c.kmap := by
  obtain ⟨d, v, L, s, -, -, -, h⟩ := r.buckets
  rw [← AList.lookup_eq_none]
  rcases h k with ⟨hk, hf⟩ | ⟨a, f, -, hk, hf⟩
  · rw [hk, hf]
  · rw [hk, hf]
    simp

/-- **What `Get` can do**: it misses and changes nothing, or it answers a content of the lists and
keeps what they hold. -/
theorem get_cases (r : Stray c M) (k val : Bytes) :
    c.get k val = some (false, val, c) ∨
      ∃ key c' M', key ∈ M.entries ∧ key.key = k ∧ c.get k val = some (true, val ++ key.value, c') ∧
        Stray c' M' ∧ M'.entries.Perm M.entries ∧ c'.capacity = c.capacity ∧ c'.kmap = c.kmap := by
  by_cases hcap : c.capacity = 0
  · exact .inl (by rw [LFUCache.get, if_pos hcap])
  · rcases hf : c.fmap.lookup k with _ | p
    · exact .inl (LFUCache.get_of_lookup hf val)
    · exact .inr (r.get_hit hcap hf val)

/-- **What `Set` can do**: nothing without a cache; else nothing but the new key gets on the
lists. -/
theorem set_cases (r : Stray c M) (key : Key) :
    (c.capacity = 0 ∧ c.set key.key key.value = some c) ∨
      ∃ c' M', c.set key.key key.value = some c' ∧ Stray c' M' ∧ c'.capacity = c.capacity ∧
        ∀ e ∈ M'.entries, e = key ∨ e ∈ M.entries := by
  by_cases hcap : c.capacity = 0
  · exact .inl ⟨hcap, by rw [LFUCache.set, if_pos hcap]⟩
  · obtain ⟨c₁, M₁, hroom, r₁, hc₁, hsub⟩ := r.room hcap
    obtain ⟨c', hset, r', hc', -⟩ := r₁.set hcap hroom key
    refine .inr ⟨c', _, hset, r', hc'.trans hc₁, fun e he => ?_⟩
    rw [Lists.entries_bump] at he
    exact (List.mem_cons.mp he).imp_right fun h => hsub h

end Stray

/-! ## Every interleaving -/

/-- **A page was set to a content** in the course of a run. -/
def WasSet {ι : Type*} [DecidableEq ι] (s₀ : Server ι) (as : List (ι × Action)) (s : Server ι)
    (key : Key) : Prop :=
  ∃ bs i cs t t', as = bs ++ (i, .set key.value) :: cs ∧ Run Step s₀ bs t ∧
    t.missed i = some key.key ∧ Step t (i, .set key.value) t' ∧ Run Step t' cs s

section Runs

variable {ι : Type*} [DecidableEq ι] {s₀ s t : Server ι} {as : List (ι × Action)}
  {a : ι × Action} {key : Key}

theorem WasSet.step (h : WasSet s₀ as s key) (hs : Step s a t) :
    WasSet s₀ (as ++ [a]) t key := by
  obtain ⟨bs, i, cs, t₁, t₂, rfl, hbefore, hmissed, hset, hafter⟩ := h
  refine ⟨bs, i, cs ++ [a], t₁, t₂, ?_, hbefore, hmissed, hset, hafter.append (.single hs)⟩
  rw [List.append_assoc, List.cons_append]

/-- **What a run keeps**: each key on the lists was set. -/
def Tracked (s₀ : Server ι) (as : List (ι × Action)) (s : Server ι) : Prop :=
  ∃ M, Stray s.cache M ∧ s.cache.capacity = s₀.cache.capacity ∧
    ∀ key ∈ M.entries, WasSet s₀ as s key

theorem Tracked.step (h : Tracked s₀ as s) (r : Run Step s₀ as s) (hs : Step s a t) :
    Tracked s₀ (as ++ [a]) t := by
  obtain ⟨M, hM, hcap, hset⟩ := h
  have hsame : t.cache = s.cache → Step s a t → Tracked s₀ (as ++ [a]) t := fun e hs =>
    ⟨M, e ▸ hM, e ▸ hcap, fun key hkey => (hset key hkey).step hs⟩
  cases hs with
  | @hit i k val c hi hg =>
    obtain hmiss | ⟨key, c', M', -, -, hget, hM', hperm, hc, -⟩ := hM.get_cases k []
    · rw [hmiss] at hg
      simp at hg
    · obtain ⟨-, rfl⟩ : _ ∧ c' = c := by simpa [hget] using hg
      exact ⟨M', hM', hc.trans hcap, fun key hkey =>
        (hset key (hperm.mem_iff.mp hkey)).step (.hit hi hg)⟩
  | @miss i k val c hi hg =>
    obtain hmiss | ⟨key, c', M', -, -, hget, -⟩ := hM.get_cases k []
    · obtain ⟨-, rfl⟩ : _ ∧ s.cache = c := by simpa [hmiss] using hg
      exact hsame rfl (.miss hi hg)
    · rw [hget] at hg
      simp at hg
  | @set i k v c hi hs =>
    obtain ⟨-, hnone⟩ | ⟨c', M', hset', hM', hc, hsub⟩ := hM.set_cases ⟨k, v⟩
    · obtain rfl : s.cache = c := Option.some.inj (hnone.symm.trans hs)
      exact hsame rfl (.set hi hs)
    · obtain rfl : c' = c := Option.some.inj (hset'.symm.trans hs)
      refine ⟨M', hM', hc.trans hcap, fun e he => ?_⟩
      rcases hsub e he with rfl | hmem
      · exact ⟨as, i, [], s, _, rfl, r, hi, .set hi hs, .nil _⟩
      · exact (hset e hmem).step (.set hi hs)
  | giveUp hi => exact hsame rfl (.giveUp hi)

/-- **No loop ever breaks the cache**: whatever any number of loops do, in any order, no `Get` and
no `Set` breaks off, and a hit answers a content that the page was set to before. -/
theorem sound_of_run {capacity : ℕ} (r : Run Step (Server.init ι capacity) as s) (k v : Bytes) :
    (s.cache.get k v).isSome ∧ (s.cache.set k v).isSome ∧
      ∀ content c, s.cache.get k [] = some (true, content, c) →
        WasSet (Server.init ι capacity) as s ⟨k, content⟩ := by
  have hinit : Tracked (Server.init ι capacity) [] (Server.init ι capacity) :=
    ⟨[], Stray.init capacity, rfl, fun _ h => absurd h List.not_mem_nil⟩
  obtain ⟨M, hM, -, hset⟩ : Tracked (Server.init ι capacity) as s :=
    Run.history (fun _ _ _ _ r h hs => h.step r hs) (.nil _) hinit r
  refine ⟨?_, ?_, fun content c hg => ?_⟩
  · obtain hmiss | ⟨_, _, _, -, -, hget, -⟩ := hM.get_cases k v
    · rw [hmiss, Option.isSome_some]
    · rw [hget, Option.isSome_some]
  · obtain ⟨-, hnone⟩ | ⟨_, _, hset', -⟩ := hM.set_cases ⟨k, v⟩
    · rw [hnone, Option.isSome_some]
    · rw [hset', Option.isSome_some]
  · obtain hmiss | ⟨key, c', M', hkey, rfl, hget, -⟩ := hM.get_cases k []
    · rw [hmiss] at hg
      simp at hg
    · obtain ⟨rfl, -⟩ : key.value = content ∧ _ := by simpa [hget] using hg
      exact hset key hkey

end Runs

/-! ## A cache that holds too many pages -/

/-- The number of pages the maps know. -/
def size (c : LFUCache) : ℕ := c.kmap.entries.length

theorem size_eq_keys (c : LFUCache) : size c = c.kmap.keys.length := by
  rw [size, AList.keys, List.keys, List.length_map]

theorem size_mono {c c' : LFUCache} (h : ∀ k ∈ c.kmap, k ∈ c'.kmap) : size c ≤ size c' := by
  rw [size_eq_keys, size_eq_keys]
  exact (List.subperm_of_subset c.kmap.keys_nodup h).length_le

/-- **A cache that holds too many pages**: `kmap_.size() == capacity_` will never be seen again. -/
structure Overfull (c : LFUCache) : Prop where
  stray : ∃ M, Stray c M
  lt : c.capacity < size c

section Runs

variable {ι : Type*} [DecidableEq ι] {s t : Server ι} {as : List (ι × Action)} {a : ι × Action}

/-- **One step drops nothing** from a cache that holds too many pages. -/
theorem Overfull.step (h : Overfull s.cache) (hs : Step s a t) : Overfull t.cache ∧
    t.cache.capacity = s.cache.capacity ∧ ∀ k ∈ s.cache.kmap, k ∈ t.cache.kmap := by
  obtain ⟨⟨M, hM⟩, hlt⟩ := h
  have hsame : t.cache = s.cache → Overfull t.cache ∧ t.cache.capacity = s.cache.capacity ∧
      ∀ k ∈ s.cache.kmap, k ∈ t.cache.kmap := fun e => by
    rw [e]
    exact ⟨⟨⟨M, hM⟩, hlt⟩, rfl, fun _ hk => hk⟩
  cases hs with
  | @hit i k val c hi hg =>
    obtain hmiss | ⟨key, c', M', -, -, hget, hM', -, hc, hk⟩ := hM.get_cases k []
    · rw [hmiss] at hg
      simp at hg
    · obtain ⟨-, rfl⟩ : _ ∧ c' = c := by simpa [hget] using hg
      refine ⟨⟨⟨M', hM'⟩, ?_⟩, hc, fun k hmem => hk ▸ hmem⟩
      rwa [hc, size, hk]
  | @miss i k val c hi hg =>
    obtain hmiss | ⟨key, c', M', -, -, hget, -⟩ := hM.get_cases k []
    · obtain ⟨-, rfl⟩ : _ ∧ s.cache = c := by simpa [hmiss] using hg
      exact hsame rfl
    · rw [hget] at hg
      simp at hg
  | @set i k v c hi hs =>
    by_cases hcap : s.cache.capacity = 0
    · rw [LFUCache.set, if_pos hcap] at hs
      obtain rfl := Option.some.inj hs
      exact hsame rfl
    · obtain ⟨c', hset, hM', hc, p, hk⟩ := hM.set hcap (Stray.room_of_not_full hlt.ne') ⟨k, v⟩
      obtain rfl : c' = c := Option.some.inj (hset.symm.trans hs)
      have hsub : ∀ k' ∈ s.cache.kmap, k' ∈ c'.kmap := fun k' hmem => by
        rw [hk, AList.mem_insert]
        exact .inr hmem
      refine ⟨⟨⟨_, hM'⟩, ?_⟩, hc, hsub⟩
      rw [hc]
      exact hlt.trans_le (size_mono hsub)
  | giveUp hi => exact hsame rfl

theorem Overfull.run (h : Overfull s.cache) (r : Run Step s as t) : Overfull t.cache ∧
    t.cache.capacity = s.cache.capacity ∧ ∀ k ∈ s.cache.kmap, k ∈ t.cache.kmap := by
  induction r with
  | nil => exact ⟨h, rfl, fun _ hk => hk⟩
  | cons hs _ ih =>
    obtain ⟨h', hcap, hsub⟩ := h.step hs
    obtain ⟨h'', hcap', hsub'⟩ := ih h'
    exact ⟨h'', hcap'.trans hcap, fun k hk => hsub' k (hsub k hk)⟩

/-- **What is set stays** in a cache that holds too many pages. -/
theorem Overfull.mem_of_wasSet (h : Overfull s.cache) (hcap : s.cache.capacity ≠ 0) {key : Key}
    (hset : WasSet s as t key) : key.key ∈ t.cache.kmap := by
  obtain ⟨bs, i, cs, t₁, t₂, -, hbefore, hmissed, hstep, hafter⟩ := hset
  obtain ⟨h₁, hcap₁, -⟩ := h.run hbefore
  obtain ⟨h₂, -, -⟩ := h₁.step hstep
  refine (h₂.run hafter).2.2 _ ?_
  cases hstep with
  | @set _ k _ c hi hs =>
    obtain rfl : k = key.key := Option.some.inj (hi.symm.trans hmissed)
    obtain ⟨⟨M, hM⟩, hlt⟩ := h₁
    obtain ⟨c', hset, -, -, p, hk⟩ :=
      hM.set (by rwa [hcap₁]) (Stray.room_of_not_full hlt.ne') key
    obtain rfl : c' = c := Option.some.inj (hset.symm.trans hs)
    rw [hk, AList.mem_insert]
    exact .inl rfl

end Runs

/-! ## The race -/

/-- A file whose content is empty. -/
def blank (name : Bytes) : Key := ⟨name, []⟩

/-- **Loops between requests**, and a cache that has been filled: the names on its nodes, the last
one first, and the names that its maps know. -/
structure Filled (capacity : ℕ) (s : Server ℕ) (nodes cached : List Bytes) : Prop where
  missed : s.missed = fun _ => none
  capacity : s.cache.capacity = capacity
  stray : Stray s.cache [(1, nodes.map blank)]
  mem (k : Bytes) : k ∈ s.cache.kmap ↔ k ∈ cached
  nodup : cached.Nodup

namespace Filled

variable {capacity : ℕ} {s : Server ℕ} {nodes cached : List Bytes} {k x : Bytes}

theorem size_eq (h : Filled capacity s nodes cached) : size s.cache = cached.length := by
  rw [size_eq_keys]
  exact ((List.perm_ext_iff_of_nodup s.cache.kmap.keys_nodup h.nodup).mpr h.mem).length_eq

/-- **A page is fetched**, once room has been made for it. -/
theorem fetch (h : Filled capacity s nodes cached) (hcap : capacity ≠ 0) (hk : k ∉ cached)
    {c : LFUCache} {nodes' cached' : List Bytes} (hroom : s.cache.room = some c)
    (hM : Stray c [(1, nodes'.map blank)]) (hc : c.capacity = capacity)
    (hcached : ∀ k, k ∈ c.kmap ↔ k ∈ cached') (hnodup : (k :: cached').Nodup) :
    ∃ s', Run (guarded SetsUncached Step) s [(0, .get k), (0, .set [])] s' ∧
      Filled capacity s' (k :: nodes') (k :: cached') := by
  have hmiss : s.cache.get k [] = some (false, [], s.cache) :=
    LFUCache.get_of_lookup (h.stray.lookup_eq_none_iff.mpr fun e => hk ((h.mem k).mp e)) []
  obtain ⟨c', hset, hM', hc', p, hk'⟩ := hM.set (by rwa [h.capacity]) hroom (blank k)
  refine ⟨⟨c', fun _ => none⟩, .cons ⟨trivial, .miss (by rw [h.missed]) hmiss⟩
    (.single ⟨fun k' hk' c' hc' => ?_, ?_⟩), rfl, hc'.trans hc, hM', fun k' => ?_, hnodup⟩
  · -- the name is on no node that is left
    have hself : s.note 0 (some k) 0 = some k := Function.update_self (f := s.missed) ..
    obtain rfl : k = k' := Option.some.inj (hself.symm.trans hk')
    obtain rfl : c = c' := Option.some.inj (hroom.symm.trans hc')
    exact fun hmem => (List.nodup_cons.mp hnodup).1 ((hcached k).mp hmem)
  · have hself : s.note 0 (some k) 0 = some k := Function.update_self (f := s.missed) ..
    have hstep := Step.set (s := ⟨s.cache, s.note 0 (some k)⟩) (i := 0) (k := k) hself hset
    have hnote : Server.note ⟨s.cache, s.note 0 (some k)⟩ 0 none = fun _ => none := by
      rw [Server.note, Server.note, Function.update_idem, h.missed, Function.update_eq_self]
    rwa [hnote] at hstep
  · change k' ∈ c'.kmap ↔ _
    rw [hk', AList.mem_insert, hcached, List.mem_cons]
    rfl

/-- The cache is not full. -/
theorem fetch_more (h : Filled capacity s nodes cached) (hcap : capacity ≠ 0) (hk : k ∉ cached)
    (hfull : cached.length ≠ capacity) :
    ∃ s', Run (guarded SetsUncached Step) s [(0, .get k), (0, .set [])] s' ∧
      Filled capacity s' (k :: nodes) (k :: cached) :=
  h.fetch hcap hk (Stray.room_of_not_full (by rwa [← size, h.size_eq, h.capacity])) h.stray
    h.capacity h.mem (List.nodup_cons.mpr ⟨hk, h.nodup⟩)

/-- **The cache is full**: the last node goes, and its name. -/
theorem fetch_full (h : Filled capacity s (nodes ++ [x]) cached) (cached' : List Bytes)
    (hnodes : nodes ≠ []) (hcap : capacity ≠ 0) (hk : k ∉ cached) (hfull : cached.length = capacity)
    (hcached : ∀ k', k' ∈ cached' ↔ k' ≠ x ∧ k' ∈ cached)
    (hnodup : cached'.Nodup) :
    ∃ s', Run (guarded SetsUncached Step) s [(0, .get k), (0, .set [])] s' ∧
      Filled capacity s' (k :: nodes) (k :: cached') := by
  obtain ⟨f, ks, key, M', c, hM, hroom, hstray, hc, hkmap⟩ := h.stray.room_of_full
    (by rwa [h.capacity]) (by rw [← size, h.size_eq, h.capacity, hfull])
  obtain ⟨⟨rfl, hks⟩, rfl⟩ := List.cons.inj hM |>.imp_left Prod.mk.inj
  rw [List.map_append] at hks
  obtain ⟨rfl, hkey⟩ := List.append_inj' hks rfl
  obtain rfl : blank x = key := List.singleton_inj.mp hkey
  rw [Lists.keep, if_neg (by simpa using hnodes)] at hstray
  refine h.fetch hcap hk hroom hstray (hc.trans h.capacity) (fun k' => ?_)
    (List.nodup_cons.mpr ⟨fun e => hk ((hcached k).mp e).2, hnodup⟩)
  rw [hkmap, AList.mem_erase, hcached, h.mem]
  rfl

end Filled

/-- **A race for a page**: two loops miss it, and both set it. -/
def race (x : Bytes) : List (ℕ × Action) :=
  [(0, .get x), (1, .get x), (0, .set []), (1, .set [])]

theorem exists_raced {capacity : ℕ} (hcap : 2 ≤ capacity) (x : Bytes) : ∃ s,
    Run Step (Server.init ℕ capacity) (race x) s ∧ Filled capacity s [x, x] [x] := by
  have h₀ := Stray.init capacity
  have hmiss : (LFUCache.init capacity).get x [] = some (false, [], LFUCache.init capacity) :=
    LFUCache.get_of_lookup rfl []
  have hroom : (LFUCache.init capacity).room = some (LFUCache.init capacity) :=
    Stray.room_of_not_full (by change 0 ≠ capacity; omega)
  obtain ⟨c₁, hset₁, h₁, hc₁, p₁, hk₁⟩ := h₀.set (by change capacity ≠ 0; omega) hroom (blank x)
  have hmem₁ : ∀ k, k ∈ c₁.kmap ↔ k ∈ [x] := fun k => by
    rw [hk₁, AList.mem_insert, List.mem_singleton]
    exact or_iff_left (AList.notMem_empty k)
  have hsize : size c₁ = 1 := by
    rw [size_eq_keys]
    exact ((List.perm_ext_iff_of_nodup c₁.kmap.keys_nodup (List.nodup_singleton x)).mpr
      hmem₁).length_eq
  have hcap₁ : c₁.capacity = capacity := hc₁
  have hroom₁ : c₁.room = some c₁ := Stray.room_of_not_full (by rw [← size, hsize, hcap₁]; omega)
  obtain ⟨c₂, hset₂, h₂, hc₂, p₂, hk₂⟩ := h₁.set (by omega) hroom₁ (blank x)
  refine ⟨⟨c₂, fun _ => none⟩,
    .cons (.miss rfl hmiss) (.cons (.miss rfl hmiss) (.cons (.set (k := x) rfl hset₁)
      (.single ?_))), rfl, hc₂.trans hcap₁, h₂, fun k => ?_, List.nodup_singleton x⟩
  · have hnote : Server.note ⟨c₁, Server.note ⟨LFUCache.init capacity, Server.note
        ⟨LFUCache.init capacity, Server.note (Server.init ℕ capacity) 0 (some x)⟩ 1 (some x)⟩ 0
          none⟩ 1 none = fun _ => none := by
      funext i
      simp only [Server.note, Function.update_apply, Server.init]
      split_ifs <;> rfl
    rw [← hnote]
    exact .set (k := x) rfl hset₂
  · rw [hk₂, AList.mem_insert, hmem₁, List.mem_singleton]
    exact or_self_iff

/-- Names that are told apart by their lengths. -/
def name (n : ℕ) : Bytes := List.replicate n 0

/-- So many names that are longer than `x`, the last one first. -/
def names (x : Bytes) : ℕ → List Bytes
  | 0 => []
  | n + 1 => name (x.length + n + 1) :: names x n

section Names

variable {x k : Bytes}

theorem mem_names : ∀ {n : ℕ}, k ∈ names x n → x.length < k.length ∧ k.length ≤ x.length + n
  | 0, h => absurd h List.not_mem_nil
  | n + 1, h => by
      rcases List.mem_cons.mp h with rfl | h
      · rw [name, List.length_replicate]
        omega
      · have := mem_names h
        omega

theorem length_names (x : Bytes) : ∀ n : ℕ, (names x n).length = n
  | 0 => rfl
  | n + 1 => congrArg (· + 1) (length_names x n)

/-- A name that is longer yet. -/
theorem name_notMem_names {m n : ℕ} (h : x.length + n < m) : name m ∉ names x n := fun hmem => by
  have := mem_names hmem
  rw [name, List.length_replicate] at this
  omega

theorem self_notMem_names (n : ℕ) : x ∉ names x n := fun hmem =>
  absurd (mem_names hmem).1 (by omega)

theorem name_ne_self {n : ℕ} (h : x.length < n) : name n ≠ x := fun he => by
  have := congrArg List.length he
  rw [name, List.length_replicate] at this
  omega

end Names

/-- **After a race the cache fills up**, with one node too many. -/
theorem exists_filled {capacity : ℕ} {x : Bytes} {s : Server ℕ} (h : Filled capacity s [x, x] [x]) :
    ∀ n < capacity, ∃ as t, Run (guarded SetsUncached Step) s as t ∧
      Filled capacity t (names x n ++ [x, x]) (names x n ++ [x])
  | 0, _ => ⟨[], s, .nil s, h⟩
  | n + 1, hn => by
      obtain ⟨as, t, r, h⟩ := exists_filled h n (by omega)
      have hnew : name (x.length + n + 1) ∉ names x n ++ [x] := by
        rw [List.mem_append, List.mem_singleton]
        exact not_or.mpr ⟨name_notMem_names (by omega), name_ne_self (by omega)⟩
      obtain ⟨t', r', h'⟩ := h.fetch_more (by omega) hnew (by
        rw [List.length_append, length_names, List.length_singleton]
        omega)
      exact ⟨_, t', r.append r', h'⟩

/-- **A race undoes the bound.**  Whatever the capacity is, from two on: once two loops have raced
for a page, the cache can come to hold more pages than that, with no race more.  From there on no
loop, in no order of steps, makes it drop a page, and every page that is set comes on top of the
others. -/
theorem overfull_of_race {capacity : ℕ} (hcap : 2 ≤ capacity) (x : Bytes) : ∃ s₀ as s,
    Run Step (Server.init ℕ capacity) (race x) s₀ ∧ Run (guarded SetsUncached Step) s₀ as s ∧
      capacity < size s.cache ∧
      ∀ bs t, Run Step s bs t → size s.cache ≤ size t.cache ∧
        (∀ k ∈ s.cache.kmap, k ∈ t.cache.kmap) ∧
          ∀ key, WasSet s bs t key → key.key ∈ t.cache.kmap := by
  obtain ⟨s₀, r₀, h₀⟩ := exists_raced hcap x
  obtain ⟨as, s, r, h⟩ := exists_filled h₀ (capacity - 1) (by omega)
  have hlength := length_names x (capacity - 1)
  have hnodup := (List.nodup_append.mp h.nodup).1
  -- the older of the two nodes of the name goes, and takes the name off the maps
  have h₁ : Filled capacity s ((names x (capacity - 1) ++ [x]) ++ [x])
      (names x (capacity - 1) ++ [x]) := by
    rw [List.append_assoc]
    exact h
  have hnew₁ : name (x.length + capacity) ∉ names x (capacity - 1) ++ [x] := by
    rw [List.mem_append, List.mem_singleton]
    exact not_or.mpr ⟨name_notMem_names (by omega), name_ne_self (by omega)⟩
  obtain ⟨s₁, r₁, h₁⟩ := h₁.fetch_full (names x (capacity - 1)) (by simp) (by omega) hnew₁
    (by rw [List.length_append, hlength, List.length_singleton]; omega)
    (fun k' => by
      rw [List.mem_append, List.mem_singleton]
      exact ⟨fun hk => ⟨fun e => self_notMem_names _ (e ▸ hk), .inl hk⟩,
        fun hk => hk.2.resolve_right hk.1⟩)
    hnodup
  -- the other one goes next, and what made the cache full stays on the maps
  have hself : x ∉ name (x.length + capacity) :: names x (capacity - 1) := fun hmem =>
    (List.mem_cons.mp hmem).elim (fun e => name_ne_self (by omega) e.symm) (self_notMem_names _)
  have hnew₂ : name (x.length + capacity + 1) ∉
      name (x.length + capacity) :: names x (capacity - 1) := fun hmem => by
    rcases List.mem_cons.mp hmem with e | hmem
    · have := congrArg List.length e
      rw [name, name, List.length_replicate, List.length_replicate] at this
      omega
    · exact name_notMem_names (by omega) hmem
  rw [← List.cons_append] at h₁
  obtain ⟨s₂, r₂, h₂⟩ := h₁.fetch_full (name (x.length + capacity) :: names x (capacity - 1))
    (by simp) (by omega) hnew₂ (by rw [List.length_cons, hlength]; omega)
    (fun k' => ⟨fun hk => ⟨fun e => hself (e ▸ hk), hk⟩, And.right⟩) h₁.nodup
  have hsize : size s₂.cache = capacity + 1 := by
    rw [h₂.size_eq, List.length_cons, List.length_cons, hlength]
    omega
  have hover : Overfull s₂.cache := ⟨⟨_, h₂.stray⟩, by rw [h₂.capacity]; omega⟩
  refine ⟨s₀, _, s₂, r₀, r.append (r₁.append r₂), by omega, fun bs t rt => ?_⟩
  obtain ⟨-, -, hsub⟩ := hover.run rt
  have hcap₂ : s₂.cache.capacity ≠ 0 := by
    rw [h₂.capacity]
    omega
  exact ⟨size_mono hsub, hsub, fun key hset => hover.mem_of_wasSet hcap₂ hset⟩

theorem overfull_of_race_two : ∃ s₀ as s,
    Run Step (Server.init ℕ 2) (race (text "index.html")) s₀ ∧
      Run (guarded SetsUncached Step) s₀ as s ∧ 2 < size s.cache ∧
      ∀ bs t, Run Step s bs t → size s.cache ≤ size t.cache ∧
        (∀ k ∈ s.cache.kmap, k ∈ t.cache.kmap) ∧
          ∀ key, WasSet s bs t key → key.key ∈ t.cache.kmap :=
  overfull_of_race le_rfl (text "index.html")

/-- Two loops have raced for a page, and the cache still answers. -/
theorem sound_of_race : ∃ as s, Run Step (Server.init ℕ 10) as s ∧
    text "index.html" ∈ s.cache.kmap ∧ (s.cache.get (text "index.html") []).isSome ∧
      (s.cache.set (text "index.html") []).isSome ∧
        ∀ content c, s.cache.get (text "index.html") [] = some (true, content, c) →
          WasSet (Server.init ℕ 10) as s ⟨text "index.html", content⟩ := by
  have hcap : 2 ≤ 10 := by decide
  obtain ⟨s, r, h⟩ := exists_raced hcap (text "index.html")
  exact ⟨_, s, r, (h.mem _).mpr (List.mem_singleton_self _), sound_of_run r _ _⟩

end WebServer.Cache
