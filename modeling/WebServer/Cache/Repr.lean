import WebServer.Cache.Lists

/-!
# Cache/Repr — the representation invariant

`Repr c M` ties a cache to the lists it holds: the heaps hold buckets that read as `M`, none of them
empty, and the two maps name exactly the nodes the lists hold.  `Get` and `Set` keep it, and on `M`
they are `Lists.touch` and `Lists.add` (`Repr.get_hit`, `Repr.set`), as long as no name is set that
stays cached.
-/

namespace WebServer.Cache

/-- A map that names these addresses. -/
def MapsTo (m : PtrMap) (R : List (Bytes × ℕ)) : Prop :=
  ∀ k p, m.lookup k = some p ↔ ∃ a, (k, a) ∈ R ∧ p = some a

namespace MapsTo

variable {m : PtrMap} {R R' : List (Bytes × ℕ)} {k : Bytes} {a : ℕ}

theorem perm (h : MapsTo m R) (hp : R.Perm R') : MapsTo m R' := fun k p => by
  rw [h k p]
  exact exists_congr fun a => and_congr_left' hp.mem_iff

theorem mem_iff (h : MapsTo m R) : k ∈ m ↔ k ∈ R.map Prod.fst := by
  rw [← AList.lookup_isSome, Option.isSome_iff_exists, List.mem_map]
  constructor
  · rintro ⟨p, hp⟩
    obtain ⟨a, ha, -⟩ := (h k p).mp hp
    exact ⟨(k, a), ha, rfl⟩
  · rintro ⟨⟨_, a⟩, ha, rfl⟩
    exact ⟨some a, (h _ _).mpr ⟨a, ha, rfl⟩⟩

/-- A map has one entry for each name. -/
theorem length (h : MapsTo m R) (hd : (R.map Prod.fst).Nodup) : m.entries.length = R.length := by
  have hp : m.keys.Perm (R.map Prod.fst) :=
    (List.perm_ext_iff_of_nodup m.keys_nodup hd).mpr fun k => by
      rw [← h.mem_iff]
      exact Iff.rfl
  have := hp.length_eq
  rwa [List.length_map, AList.keys, List.keys, List.length_map] at this

/-- Writing an entry, whether or not the name has one. -/
theorem insert (h : MapsTo m R) (hR : ∀ k' b, k' ≠ k → ((k', b) ∈ R ↔ (k', b) ∈ R'))
    (hk : k ∉ R'.map Prod.fst) : MapsTo (m.insert k (some a)) ((k, a) :: R') := by
  intro k' p
  by_cases hkk : k' = k
  · subst hkk
    rw [AList.lookup_insert, Option.some_inj]
    constructor
    · rintro rfl
      exact ⟨a, List.mem_cons_self .., rfl⟩
    · rintro ⟨b, hb, rfl⟩
      rcases List.mem_cons.mp hb with hb | hb
      · rw [Prod.mk.injEq] at hb
        rw [hb.2]
      · exact absurd (List.mem_map_of_mem (f := Prod.fst) hb) hk
  · rw [AList.lookup_insert_ne hkk, h k' p]
    refine exists_congr fun b => and_congr_left' ?_
    rw [hR k' b hkk, List.mem_cons]
    refine ⟨Or.inr, fun hb => hb.resolve_left fun e => hkk ?_⟩
    rw [Prod.mk.injEq] at e
    exact e.1

theorem erase (h : MapsTo m ((k, a) :: R)) (hk : k ∉ R.map Prod.fst) : MapsTo (m.erase k) R := by
  intro k' p
  by_cases hkk : k' = k
  · subst hkk
    rw [AList.lookup_erase]
    constructor
    · exact fun e => absurd e (by simp)
    · rintro ⟨b, hb, -⟩
      exact absurd (List.mem_map_of_mem (f := Prod.fst) hb) hk
  · rw [AList.lookup_erase_ne hkk, h k' p]
    refine exists_congr fun b => and_congr_left' ?_
    rw [List.mem_cons]
    refine ⟨fun hb => hb.resolve_left fun e => hkk ?_, Or.inr⟩
    rw [Prod.mk.injEq] at e
    exact e.1

end MapsTo

/-- The addresses of the key nodes, by name. -/
def nodesOf (P : List (Bytes × ℕ × ℕ)) : List (Bytes × ℕ) := P.map fun x => (x.1, x.2.1)

/-- The addresses of the buckets, by name. -/
def bucketsOf (P : List (Bytes × ℕ × ℕ)) : List (Bytes × ℕ) := P.map fun x => (x.1, x.2.2)

/-- **The two maps name the places of the keys**, each name once. -/
structure Coherent (kmap fmap : PtrMap) (P : List (Bytes × ℕ × ℕ)) : Prop where
  nodup : (P.map Prod.fst).Nodup
  kmap : MapsTo kmap (nodesOf P)
  fmap : MapsTo fmap (bucketsOf P)

namespace Coherent

variable {kmap fmap : PtrMap} {P R : List (Bytes × ℕ × ℕ)} {k : Bytes} {a f f' : ℕ}

theorem map_nodesOf (P : List (Bytes × ℕ × ℕ)) : (nodesOf P).map Prod.fst = P.map Prod.fst := by
  rw [nodesOf, List.map_map]
  rfl

theorem map_bucketsOf (P : List (Bytes × ℕ × ℕ)) :
    (bucketsOf P).map Prod.fst = P.map Prod.fst := by
  rw [bucketsOf, List.map_map]
  rfl

theorem perm (h : Coherent kmap fmap P) (hp : P.Perm R) : Coherent kmap fmap R :=
  ⟨(hp.map _).nodup_iff.mp h.nodup, h.kmap.perm (hp.map _), h.fmap.perm (hp.map _)⟩

theorem notMem (h : Coherent kmap fmap ((k, a, f) :: R)) : k ∉ R.map Prod.fst :=
  (List.nodup_cons.mp h.nodup).1

/-- A key changes its bucket. -/
theorem move (h : Coherent kmap fmap ((k, a, f) :: R)) :
    Coherent kmap (fmap.insert k (some f')) ((k, a, f') :: R) := by
  refine ⟨h.nodup, h.kmap, h.fmap.insert (fun k' b hk => ?_) ?_⟩
  · change (k', b) ∈ (k, f) :: bucketsOf R ↔ _
    rw [List.mem_cons]
    refine ⟨fun hb => hb.resolve_left fun e => hk ?_, Or.inr⟩
    rw [Prod.mk.injEq] at e
    exact e.1
  · change k ∉ (bucketsOf R).map Prod.fst
    rw [map_bucketsOf]
    exact h.notMem

/-- A new key. -/
theorem insert (h : Coherent kmap fmap R) (hk : k ∉ R.map Prod.fst) :
    Coherent (kmap.insert k (some a)) (fmap.insert k (some f)) ((k, a, f) :: R) := by
  refine ⟨List.nodup_cons.mpr ⟨hk, h.nodup⟩, ?_, ?_⟩
  · refine h.kmap.insert (fun _ _ _ => Iff.rfl) ?_
    change k ∉ (nodesOf R).map Prod.fst
    rwa [map_nodesOf]
  · refine h.fmap.insert (fun _ _ _ => Iff.rfl) ?_
    change k ∉ (bucketsOf R).map Prod.fst
    rwa [map_bucketsOf]

/-- A key goes. -/
theorem erase (h : Coherent kmap fmap ((k, a, f) :: R)) :
    Coherent (kmap.erase k) (fmap.erase k) R := by
  refine ⟨(List.nodup_cons.mp h.nodup).2, h.kmap.erase ?_, h.fmap.erase ?_⟩
  · change k ∉ (nodesOf R).map Prod.fst
    rw [map_nodesOf]
    exact h.notMem
  · change k ∉ (bucketsOf R).map Prod.fst
    rw [map_bucketsOf]
    exact h.notMem

end Coherent

/-! ## The invariant -/

/-- **The lists a cache holds.** -/
structure Repr (c : LFUCache) (M : Lists) : Prop where
  buckets : ∃ d v L, Shape c d v L ∧ v.freq = 0 ∧ view L = M ∧ (∀ b ∈ L, b.keys ≠ []) ∧
    Coherent c.kmap c.fmap (places L)

/-- **A miss changes nothing.** -/
theorem LFUCache.get_of_lookup {c : LFUCache} {k : Bytes} (hk : c.fmap.lookup k = none)
    (val : Bytes) : c.get k val = some (false, val, c) := by
  unfold LFUCache.get
  split
  · rfl
  · rw [hk]

/-- **A hit**: the value is appended, and the key moves to the next bucket. -/
theorem Shape.get_hit {c : LFUCache} {d : ℕ} {v : KeyList} {L₁ L₂ : List Bucket} {b : Bucket}
    {xs ys : List (ℕ × Key)} {a : ℕ} {key : Key} (s : Shape c d v (L₁ ++ b :: L₂))
    (hcap : c.capacity ≠ 0) (hbk : b.keys = xs ++ (a, key) :: ys)
    (hf : c.fmap.lookup key.key = some (some b.addr))
    (hkm : c.kmap.lookup key.key = some (some a)) (val : Bytes) : ∃ c' g L₂',
      c.get key.key val = some (true, val ++ key.value, c') ∧
      Shape c' d v (L₁ ++ remaining b (xs ++ ys) ++ g.withKeys ((a, key) :: g.keys) :: L₂') ∧
      Next b.freq L₂ g L₂' ∧
      SameMaps { c with fmap := c.fmap.insert key.key (some g.addr) } c' := by
  have hb : b ∈ L₁ ++ b :: L₂ := List.mem_append_right _ (List.mem_cons_self ..)
  have hakey : (a, key) ∈ b.keys := by
    rw [hbk]
    exact List.mem_append_right _ (List.mem_cons_self ..)
  obtain ⟨v₀, q₀, hq₀⟩ := s.holds b hb
  obtain ⟨pk, nk, hnode⟩ := hq₀.load hakey
  have hload : c.keys.load (some a) = some ⟨key, some pk, nk⟩ := hnode
  obtain ⟨c', g, L₂', hadd, s', hn, hm⟩ := s.addFreq_hit hbk
  refine ⟨c', g, L₂', ?_, s', hn, hm⟩
  rw [LFUCache.get, if_neg hcap, hf]
  simp only [Option.bind_eq_bind, hkm, Option.join_some, hload, Option.bind_some, hadd]
  rfl

namespace Repr

variable {c : LFUCache} {M : Lists}

theorem names_nodup (r : Repr c M) : M.names.Nodup := by
  obtain ⟨d, v, L, s, -, rfl, -, h⟩ := r.buckets
  rw [names_view]
  exact h.nodup

/-- The names of the lists are the names of `kmap_`. -/
theorem mem_kmap (r : Repr c M) (k : Bytes) :
    k ∈ c.kmap ↔ k ∈ M.names := by
  obtain ⟨d, v, L, s, -, rfl, -, h⟩ := r.buckets
  rw [h.kmap.mem_iff, Coherent.map_nodesOf, names_view]

/-- `kmap_.size()` -/
theorem length_kmap (r : Repr c M) : c.kmap.entries.length = M.entries.length := by
  obtain ⟨d, v, L, s, -, rfl, -, h⟩ := r.buckets
  have hl := congrArg List.length (names_view L)
  rw [Lists.names, List.length_map, List.length_map] at hl
  rw [h.kmap.length (by rw [Coherent.map_nodesOf]; exact h.nodup), hl, nodesOf, List.length_map]

/-- A list is never empty. -/
theorem ne_nil (r : Repr c M) : ∀ x ∈ M, x.2 ≠ [] := by
  obtain ⟨d, v, L, s, -, rfl, hne, -⟩ := r.buckets
  intro x hx
  obtain ⟨b, hb, rfl⟩ := List.mem_map.mp hx
  simpa using hne b hb

/-- A fresh cache is empty. -/
theorem init (capacity : ℕ) : Repr (LFUCache.init capacity) [] := by
  refine ⟨0, ⟨0, some 1, some 1⟩, [], ⟨rfl, ⟨0, none, none, rfl, rfl, rfl⟩, ?_, ?_, ?_, ?_, ?_⟩,
    rfl,
    rfl, ?_, ?_, ?_, ?_⟩
  · simp
  · simp
  · simp
  · intro a ha
    rw [List.map_nil, List.mem_singleton] at ha
    rw [ha]
    exact Nat.succ_pos 1
  · simp
  · simp
  · simp [places]
  · intro k p
    simp [nodesOf, places, LFUCache.init, LFUCache.newFreq]
  · intro k p
    simp [bucketsOf, places, LFUCache.init, LFUCache.newFreq]

theorem get_miss (r : Repr c M) {k : Bytes} (hk : M.find k = none) (val : Bytes) :
    c.get k val = some (false, val, c) := by
  obtain ⟨d, v, L, s, -, rfl, -, h⟩ := r.buckets
  refine LFUCache.get_of_lookup ?_ val
  rw [AList.lookup_eq_none, h.fmap.mem_iff, Coherent.map_bucketsOf, ← names_view]
  exact Lists.find_eq_none.mp hk

/-- **A hit appends the value and moves the key.** -/
theorem get_hit (r : Repr c M) (hcap : c.capacity ≠ 0) {k : Bytes} {key : Key}
    (hk : M.find k = some key) (val : Bytes) : ∃ c',
      c.get k val = some (true, val ++ key.value, c') ∧ Repr c' (M.touch k) ∧
      c'.capacity = c.capacity := by
  obtain ⟨d, v, L, s, hv, rfl, hne, h⟩ := r.buckets
  obtain rfl : key.key = k := by simpa using List.find?_some hk
  obtain ⟨x, hx, hkx⟩ := List.mem_flatMap.mp (List.mem_of_find?_eq_some hk)
  obtain ⟨b, hb, rfl⟩ := List.mem_map.mp hx
  obtain ⟨⟨a, key⟩, hakey, rfl⟩ := List.mem_map.mp hkx
  have hplace : (key.key, a, b.addr) ∈ places L :=
    List.mem_flatMap.mpr ⟨b, hb, List.mem_map.mpr ⟨(a, key), hakey, rfl⟩⟩
  have hf : c.fmap.lookup key.key = some (some b.addr) :=
    (h.fmap _ _).mpr ⟨b.addr, List.mem_map.mpr ⟨_, hplace, rfl⟩, rfl⟩
  have hkm : c.kmap.lookup key.key = some (some a) :=
    (h.kmap _ _).mpr ⟨a, List.mem_map.mpr ⟨_, hplace, rfl⟩, rfl⟩
  obtain ⟨L₁, L₂, rfl⟩ := List.append_of_mem hb
  obtain ⟨xs, ys, hbk⟩ := List.append_of_mem hakey
  obtain ⟨c', g, L₂', hget, s', hn, hm⟩ := s.get_hit hcap hbk hf hkm val
  have hnd : (view (L₁ ++ b :: L₂)).names.Nodup := by
    rw [names_view]
    exact h.nodup
  refine ⟨c', hget, ⟨d, v, _, s', hv, ?_, ?_, ?_⟩, hm.capacity⟩
  · rw [touch_view hbk L₁ hnd, List.append_assoc, view_append, view_remaining_append, hn.view]
  · exact hn.keys_ne_nil_moved hne
  · rw [hm.kmap, hm.fmap]
    exact ((h.perm (places_out hbk L₁ L₂)).move).perm (places_in hn L₁ _ a key).symm

/-- **Making room** drops the key the lists drop. -/
theorem evict (r : Repr c M) (hM : M ≠ []) : ∃ c', c.evict = some c' ∧ Repr c' M.evict ∧
    c'.capacity = c.capacity := by
  obtain ⟨d, v, L, s, hv, rfl, hne, h⟩ := r.buckets
  rcases L with _ | ⟨b, L⟩
  · exact absurd rfl hM
  · have hbk := hne b (List.mem_cons_self ..)
    obtain ⟨xs, ⟨a, k⟩, hk⟩ := (List.eq_nil_or_concat b.keys).resolve_left hbk
    rw [List.concat_eq_append] at hk
    obtain ⟨c', hev, s', hm⟩ := s.evict hk
    refine ⟨c', hev, ⟨d, v, _, s', hv, ?_, ?_, ?_⟩, hm.capacity⟩
    · rw [view_remaining_append]
      change _ = Lists.keep b.freq (b.keys.map Prod.snd).dropLast (view L)
      rw [hk, List.map_append, List.map_singleton, List.dropLast_concat]
    · intro e he
      rcases List.mem_append.mp he with he | he
      · exact keys_ne_nil_remaining b xs e he
      · exact hne e (List.mem_cons_of_mem _ he)
    · rw [hm.kmap, hm.fmap]
      exact (h.perm (places_last hk L)).erase

/-- `Set` makes room first. -/
theorem room (r : Repr c M) (hcap : c.capacity ≠ 0) : ∃ c',
    c.room = some c' ∧ Repr c' (M.room c.capacity) ∧ c'.capacity = c.capacity := by
  rw [LFUCache.room, r.length_kmap, Lists.room]
  split
  · next hfull => exact r.evict fun h => hcap (by rw [← hfull, h]; rfl)
  · exact ⟨c, rfl, r, rfl⟩

/-- **A new key**, after making room for it. -/
theorem set (r : Repr c M) (hcap : c.capacity ≠ 0) (key : Key)
    (hk : key.key ∉ (M.room c.capacity).names) : ∃ c',
      c.set key.key key.value = some c' ∧ Repr c' (M.add c.capacity key) ∧
      c'.capacity = c.capacity := by
  obtain ⟨c₁, hroom, r₁, hcap₁⟩ := r.room hcap
  obtain ⟨d, v, L, s, hv, hL, hne, h⟩ := r₁.buckets
  obtain ⟨c', g, L', hset, s', hn, hm⟩ := s.set hcap hroom key
  have hk' : key.key ∉ (places L).map Prod.fst := by rwa [← names_view, hL]
  refine ⟨c', hset, ⟨d, v, _, s', hv, ?_, ?_, ?_⟩, hm.capacity.trans hcap₁⟩
  · rw [hn.view, hv, hL]
    rfl
  · intro e he
    rcases List.mem_cons.mp he with rfl | he
    · simp
    · exact hn.keys_ne_nil hne e he
  · rw [hn.places, hm.kmap, hm.fmap]
    exact (h.insert hk').move

end Repr

end WebServer.Cache
