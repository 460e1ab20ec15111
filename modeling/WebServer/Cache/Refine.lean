import WebServer.Cache.Reference
import WebServer.Cache.Repr

/-!
# Cache/Refine — the page cache is an LFU cache

The lists of the cache are the pages of the reference, arranged (`Tracks`).  Each `Get` and `Set` of
the cache is the step of the reference, and so is every sequence of them (`run_eq_reference`), while
no page is hit so often that its frequency leaves the range of an `int`.  That takes `2³¹ - 1` hits:
after exactly so many, the lists are out of order (`not_increasing_of_max_hits`).
-/

namespace WebServer.Cache

namespace Timed

/-! ## The operations on lists with times -/

theorem ofNat_inj {m n : ℕ} (hm : m < 2 ^ 31) (hn : n < 2 ^ 31) :
    Int32.ofNat m = Int32.ofNat n ↔ m = n := by
  rw [← Int32.toInt_inj, Int32.toInt_ofNat_of_lt hm, Int32.toInt_ofNat_of_lt hn]
  exact Int.ofNat_inj

theorem forget_keep (n : ℕ) (ks : List (Key × ℕ)) (T : Timed) :
    forget (keep n ks T) = Lists.keep (Int32.ofNat n) (ks.map Prod.fst) (forget T) := by
  unfold keep Lists.keep
  by_cases h : ks = []
  · rw [if_pos h, if_pos (by rw [h]; rfl)]
  · rw [if_neg h, if_neg (by simpa using h)]
    rfl

theorem forget_bump {n : ℕ} {T : Timed} (hn : n < 2 ^ 31) (hT : ∀ x ∈ T, x.1 < 2 ^ 31)
    (a : Key × ℕ) : forget (bump n a T) = Lists.bump (Int32.ofNat n) a.1 (forget T) := by
  rcases T with _ | ⟨⟨g, ks⟩, T⟩
  · rfl
  · have hg := ofNat_inj (hT (g, ks) (List.mem_cons_self ..)) hn
    change _ = Lists.bump _ _ ((Int32.ofNat g, ks.map Prod.fst) :: forget T)
    rw [bump, Lists.bump]
    by_cases h : g = n
    · rw [if_pos h, if_pos (hg.mpr h)]
      rfl
    · rw [if_neg h, if_neg fun e => h (hg.mp e)]
      rfl

theorem forget_touch {k : Bytes} {now : ℕ} : ∀ {T : Timed}, (∀ x ∈ T, x.1 < 2 ^ 31) →
    (∀ x ∈ T, ∀ a ∈ x.2, a.1.key = k → x.1 + 1 < 2 ^ 31) →
    forget (touch k now T) = (forget T).touch k
  | [], _, _ => rfl
  | (n, ks) :: T, hT, hk => by
      have hT' : ∀ x ∈ T, x.1 < 2 ^ 31 := fun x hx => hT x (List.mem_cons_of_mem _ hx)
      have hfind : (ks.map Prod.fst).find? (·.key = k)
          = (ks.find? (·.1.key = k)).map Prod.fst := List.find?_map
      have hfilter : (ks.map Prod.fst).filter (·.key ≠ k)
          = (ks.filter (·.1.key ≠ k)).map Prod.fst := List.filter_map
      change _ = Lists.touch k ((Int32.ofNat n, ks.map Prod.fst) :: forget T)
      rw [touch, Lists.touch, hfind, hfilter]
      split
      · next a ha =>
        have hka : a.1.key = k := by simpa using List.find?_some ha
        have hn := hk (n, ks) (List.mem_cons_self ..) a (List.mem_of_find?_eq_some ha) hka
        rw [ha, forget_keep, forget_bump hn hT', Int32.ofNat_add]
        rfl
      · next ha =>
        rw [ha]
        change _ :: forget (touch k now T) = _
        rw [forget_touch hT' fun x hx => hk x (List.mem_cons_of_mem _ hx)]
        rfl

theorem forget_evict (T : Timed) : forget (evict T) = (forget T).evict := by
  rcases T with _ | ⟨⟨n, ks⟩, T⟩
  · rfl
  · change _ = Lists.evict ((Int32.ofNat n, ks.map Prod.fst) :: forget T)
    rw [evict, Lists.evict, forget_keep, List.map_dropLast]

theorem flat_cons (n : ℕ) (ks : List (Key × ℕ)) (T : Timed) : flat ((n, ks) :: T)
    = (ks.map fun a => (⟨a.1.key, a.1.value, n, a.2⟩ : Entry)) ++ flat T := rfl

theorem flat_keep (n : ℕ) (ks : List (Key × ℕ)) (T : Timed) :
    flat (keep n ks T) = flat ((n, ks) :: T) := by
  unfold keep
  split
  · next h => rw [h]; rfl
  · rfl

theorem flat_bump (n : ℕ) (a : Key × ℕ) (T : Timed) :
    flat (bump n a T) = ⟨a.1.key, a.1.value, n, a.2⟩ :: flat T := by
  rcases T with _ | ⟨⟨g, ks⟩, T⟩
  · rfl
  · rw [bump]
    split
    · next h => rw [h]; rfl
    · rfl

/-- Using a page that is not there. -/
theorem map_use_of_notMem {k : Bytes} {now : ℕ} {es : List Entry} (h : k ∉ es.map Entry.key) :
    es.map (Reference.use k now) = es := by
  refine (List.map_congr_left fun e he => if_neg fun hk => h ?_).trans es.map_id
  rw [← hk]
  exact List.mem_map_of_mem he

/-- **A hit on lists with times is a hit of the reference.** -/
theorem flat_touch {k : Bytes} {now : ℕ} : ∀ {T : Timed}, T.names.Nodup →
    (flat (touch k now T)).Perm ((flat T).map (Reference.use k now))
  | [], _ => .refl _
  | (n, ks) :: T, hd => by
      rw [names, flat_cons, List.map_append] at hd
      obtain ⟨hks, hT, -⟩ := List.nodup_append.mp hd
      have hdis := List.disjoint_of_nodup_append hd
      rw [flat_cons, List.map_append, touch]
      split
      · next a ha =>
        obtain rfl : a.1.key = k := by simpa using List.find?_some ha
        obtain ⟨xs, ys, rfl⟩ := List.append_of_mem (List.mem_of_find?_eq_some ha)
        have hks' : ((xs ++ a :: ys).map fun b => b.1.key).Nodup := by rwa [List.map_map] at hks
        have hu : Reference.use a.1.key now ⟨a.1.key, a.1.value, n, a.2⟩
            = ⟨a.1.key, a.1.value, n + 1, now⟩ := if_pos rfl
        have hT' : a.1.key ∉ (flat T).map Entry.key := fun h => hdis (by simp) h
        have hx : ∀ zs : List (Key × ℕ), (∀ b ∈ zs, b.1.key ≠ a.1.key) →
            (zs.map fun b => (⟨b.1.key, b.1.value, n, b.2⟩ : Entry)).map (Reference.use a.1.key now)
              = zs.map fun b => ⟨b.1.key, b.1.value, n, b.2⟩ := by
          intro zs hzs
          refine map_use_of_notMem fun h => ?_
          rw [List.map_map, List.mem_map] at h
          obtain ⟨b, hb, he⟩ := h
          exact hzs b hb he
        have hxs : ∀ b ∈ xs, b.1.key ≠ a.1.key := by
          rw [List.map_append, List.map_cons] at hks'
          intro b hb he
          have := List.mem_map_of_mem (f := fun b : Key × ℕ => b.1.key) hb
          grind
        have hys : ∀ b ∈ ys, b.1.key ≠ a.1.key := by
          rw [List.map_append, List.map_cons] at hks'
          intro b hb he
          have := List.mem_map_of_mem (f := fun b : Key × ℕ => b.1.key) hb
          grind
        rw [(find_filter_of_nodup hks').2, flat_keep, flat_cons, flat_bump, map_use_of_notMem hT']
        simp only [List.map_append, List.map_cons, hu, hx xs hxs, hx ys hys, List.append_assoc,
          List.cons_append]
        exact List.perm_middle.append_left _
      · next ha =>
        have hn : k ∉ (ks.map fun a => (⟨a.1.key, a.1.value, n, a.2⟩ : Entry)).map Entry.key := by
          rw [List.map_map, List.mem_map]
          rintro ⟨a, hmem, rfl⟩
          exact List.find?_eq_none.mp ha a hmem (by simp)
        rw [map_use_of_notMem hn, flat_cons]
        exact (flat_touch hT).append_left _

/-- Making room, on lists with times. -/
theorem flat_evict (n : ℕ) (ks : List (Key × ℕ)) (a : Key × ℕ) (T : Timed) :
    (flat ((n, ks ++ [a]) :: T)).Perm
      (⟨a.1.key, a.1.value, n, a.2⟩ :: flat (evict ((n, ks ++ [a]) :: T))) := by
  rw [evict, List.dropLast_concat, flat_keep, flat_cons, flat_cons, List.map_append,
    List.append_assoc]
  exact List.perm_middle

/-- The keys of the lists are the pages. -/
theorem entries_forget (T : Timed) :
    (forget T).entries = T.flat.map fun e => (⟨e.key, e.value⟩ : Key) := by
  rw [Lists.entries, forget, flat, List.flatMap_map, List.map_flatMap]
  refine List.flatMap_congr fun x _ => ?_
  rw [List.map_map]
  exact List.map_congr_left fun a _ => rfl

theorem names_forget (T : Timed) : (forget T).names = T.names := by
  rw [Lists.names, entries_forget, List.map_map]
  rfl

theorem mem_flat {T : Timed} {e : Entry} :
    e ∈ T.flat ↔ ∃ x ∈ T, ∃ a ∈ x.2, (⟨a.1.key, a.1.value, x.1, a.2⟩ : Entry) = e := by
  rw [flat, List.mem_flatMap]
  exact exists_congr fun x => and_congr_right fun _ => List.mem_map

/-- **The last key of the first list is the page all others come after.** -/
theorem precedes_of_ordered {now n : ℕ} {ks : List (Key × ℕ)} {a : Key × ℕ} {T : Timed}
    (h : Ordered now ((n, ks ++ [a]) :: T)) : ∀ x ∈ flat ((n, ks ++ [a]) :: T),
    x ≠ ⟨a.1.key, a.1.value, n, a.2⟩ → Reference.Precedes ⟨a.1.key, a.1.value, n, a.2⟩ x := by
  intro x hx hne
  rw [flat_cons, List.mem_append, List.map_append, List.mem_append] at hx
  rcases hx with (hx | hx) | hx
  · obtain ⟨b, hb, rfl⟩ := List.mem_map.mp hx
    refine Or.inr ⟨rfl, ?_⟩
    have hp := (h.recent _ (List.mem_cons_self ..)).2.1
    exact (List.pairwise_append.mp hp).2.2 b hb a (List.mem_singleton_self a)
  · exact absurd (List.mem_singleton.mp hx) hne
  · obtain ⟨y, hy, b, -, rfl⟩ := mem_flat.mp hx
    exact Or.inl (h.tail.2 y hy)

end Timed

/-! ## The reference, arranged -/

theorem Reference.Precedes.asymm {e x : Entry} (h : Precedes e x) : ¬ Precedes x e := by
  rintro h'
  rcases h with h | ⟨h₁, h₂⟩ <;> rcases h' with h' | ⟨h₃, h₄⟩ <;> omega

/-- The victim is the page all others come after. -/
theorem Reference.victim_eq {es : List Entry} {e : Entry} (he : e ∈ es)
    (h : ∀ x ∈ es, x ≠ e → Precedes e x) : victim es = some e := by
  rcases hv : victim es with _ | x
  · exact absurd (decide_eq_true h) (List.find?_eq_none.mp hv e he)
  · have hx : ∀ y ∈ es, y ≠ x → Precedes x y := by simpa using List.find?_some hv
    by_cases hxe : e = x
    · rw [hxe]
    · exact absurd (hx e he hxe)
        (h x (List.mem_of_find?_eq_some hv) (Ne.symm hxe)).asymm

/-- **Lists with times that hold the pages of the reference.** -/
structure Tracks (r : Reference) (T : Timed) : Prop where
  entries : r.entries.Perm T.flat
  ordered : T.Ordered r.clock
  above : T.Above 0
  nodup : T.names.Nodup

namespace Tracks

variable {r : Reference} {T : Timed}

/-- Both sides find the same pages. -/
theorem find_eq (h : Tracks r T) (k : Bytes) :
    T.forget.find k = (r.find k).map fun e => ⟨e.key, e.value⟩ := by
  rw [Lists.find, Timed.entries_forget, List.find?_map]
  have hnd : (r.entries.map Entry.key).Nodup := (h.entries.map _).nodup_iff.mpr h.nodup
  have hf : T.flat.find? (·.key = k) = r.entries.find? (·.key = k) := by
    rcases hr : r.entries.find? (·.key = k) with _ | e
    · refine (List.find?_eq_none.mpr fun x hx => ?_).trans hr.symm
      exact List.find?_eq_none.mp hr x (h.entries.mem_iff.mpr hx)
    · have he := h.entries.mem_iff.mp (List.mem_of_find?_eq_some hr)
      obtain rfl : e.key = k := by simpa using List.find?_some hr
      obtain ⟨xs, ys, hT⟩ := List.append_of_mem he
      have := h.nodup
      rw [Timed.names, hT] at this
      rw [hT, hr]
      exact (find_filter_of_nodup this).1
  exact congrArg (Option.map fun e : Entry => (⟨e.key, e.value⟩ : Key)) hf

theorem find_eq_none (h : Tracks r T) {k : Bytes} : r.find k = none ↔ T.forget.find k = none := by
  rw [h.find_eq, Option.map_eq_none_iff]

theorem length_eq (h : Tracks r T) : T.forget.entries.length = r.entries.length := by
  rw [Timed.entries_forget, List.length_map, h.entries.length_eq]

/-- **A hit.** -/
theorem touch (h : Tracks r T) (k : Bytes) : Tracks (r.touch k) (T.touch k r.clock) := by
  have hp : (T.touch k r.clock).flat.Perm (T.flat.map (Reference.use k r.clock)) :=
    Timed.flat_touch h.nodup
  refine ⟨(h.entries.map _).trans hp.symm, h.ordered.touch.1, h.ordered.touch.2 0 h.above, ?_⟩
  have hn : (T.flat.map (Reference.use k r.clock)).map Entry.key = T.names := by
    rw [List.map_map]
    refine List.map_congr_left fun e _ => ?_
    change (Reference.use k r.clock e).key = e.key
    unfold Reference.use
    split <;> rfl
  rw [Timed.names, (hp.map _).nodup_iff, hn]
  exact h.nodup

/-- **Making room** drops the same page. -/
theorem room (h : Tracks r T) (hcap : r.capacity ≠ 0) :
    ∃ T', Tracks { r with entries := r.room } T' ∧
    T'.forget = T.forget.room r.capacity := by
  rw [Lists.room, h.length_eq]
  unfold Reference.room
  by_cases hfull : r.entries.length = r.capacity
  · rw [if_pos hfull, if_pos hfull]
    rcases T with _ | ⟨⟨n, ks⟩, T⟩
    · have := h.entries.length_eq
      rw [hfull] at this
      exact absurd this hcap
    · obtain ⟨hne, -, -⟩ := h.ordered.recent (n, ks) (List.mem_cons_self ..)
      obtain ⟨ks, a, rfl⟩ := (List.eq_nil_or_concat ks).resolve_left hne
      rw [List.concat_eq_append] at h ⊢
      have hflat := Timed.flat_evict n ks a T
      have hmem : (⟨a.1.key, a.1.value, n, a.2⟩ : Entry) ∈ r.entries :=
        (h.entries.trans hflat).mem_iff.mpr (List.mem_cons_self ..)
      have hv := Reference.victim_eq hmem fun x hx =>
        Timed.precedes_of_ordered h.ordered x (h.entries.mem_iff.mp hx)
      rw [hv]
      refine ⟨Timed.evict ((n, ks ++ [a]) :: T),
        ⟨?_, h.ordered.evict.1, h.ordered.evict.2 0 h.above, ?_⟩,
        Timed.forget_evict _⟩
      · have := (h.entries.trans hflat).erase ⟨a.1.key, a.1.value, n, a.2⟩
        rwa [List.erase_cons_head] at this
      · have := (hflat.map Entry.key).nodup_iff.mp h.nodup
        exact (List.nodup_cons.mp this).2
  · rw [if_neg hfull, if_neg hfull]
    exact ⟨T, h, rfl⟩

/-- Counts of pages are counts of lists. -/
theorem count_lt (h : Tracks r T) {b : ℕ} (hb : ∀ e ∈ r.entries, e.count < b) :
    ∀ x ∈ T, x.1 < b := by
  intro x hx
  obtain ⟨a, ha⟩ := List.exists_mem_of_ne_nil _ (h.ordered.recent x hx).1
  exact hb _ (h.entries.mem_iff.mpr (Timed.mem_flat.mpr ⟨x, hx, a, ha, rfl⟩))

theorem mem_room {e : Entry} (he : e ∈ r.room) : e ∈ r.entries := by
  unfold Reference.room at he
  split at he
  · split at he
    · exact List.mem_of_mem_erase he
    · exact he
  · exact he

/-- **A new page.** -/
theorem add (h : Tracks r T) (hcap : r.capacity ≠ 0) (hb : ∀ e ∈ r.entries, e.count < 2 ^ 31)
    {k : Bytes} (hk : r.find k = none) (v : Bytes) : ∃ T', Tracks (r.add k v) T' ∧
      T'.forget = T.forget.add r.capacity ⟨k, v⟩ := by
  obtain ⟨T₁, h₁, hf⟩ := h.room hcap
  have hflat := Timed.flat_bump 1 (⟨k, v⟩, r.clock) T₁
  have hk₁ : k ∉ T₁.names := by
    intro hm
    obtain ⟨e, he, hke⟩ := List.mem_map.mp hm
    have := mem_room (h₁.entries.mem_iff.mpr he)
    exact List.find?_eq_none.mp hk e this (by simpa using hke)
  refine ⟨T₁.bump 1 (⟨k, v⟩, r.clock), ⟨?_, (h₁.ordered.bump h₁.above ⟨k, v⟩).1,
    (h₁.ordered.bump h₁.above ⟨k, v⟩).2, ?_⟩, ?_⟩
  · rw [hflat]
    exact h₁.entries.cons _
  · rw [Timed.names, hflat]
    exact List.nodup_cons.mpr ⟨hk₁, h₁.nodup⟩
  · have hT₁ := h₁.count_lt fun e he => hb e (mem_room he)
    rw [Timed.forget_bump (by decide) hT₁, hf]
    rfl

end Tracks

/-! ## Sequences of operations -/

/-- An operation, `get` with the output string so far. -/
inductive Op
  | get (key output : Bytes)
  | set (key value : Bytes)

/-- What an operation answers: `Get` whether it hit and the output string, `Set` nothing. -/
abbrev Result := Option (Bool × Bytes)

namespace Op

/-- An operation of the cache. -/
def onCache (c : LFUCache) : Op → Option (Result × LFUCache)
  | get k out => (c.get k out).map fun (hit, out, c) => (some (hit, out), c)
  | set k v => (c.set k v).map fun c => (none, c)

/-- An operation of the reference. -/
def onReference (r : Reference) : Op → Result × Reference
  | get k out =>
    match r.find k with
    | none => (some (false, out), r)
    | some e => (some (true, out ++ e.value), r.touch k)
  | set k v => (none, r.add k v)

/-- `BuildResponse` sets only pages that are not cached. -/
def Allowed (r : Reference) : Op → Prop
  | get _ _ => True
  | set k _ => r.find k = none

/-- Whether an operation hits a page. -/
def hits (k : Bytes) (r : Reference) : Op → ℕ
  | get k' _ => if k' = k ∧ r.find k ≠ none then 1 else 0
  | set _ _ => 0

end Op

/-- **The cache, through a sequence of operations**, with its answers. -/
def runCache : LFUCache → List Op → Option (List Result × LFUCache)
  | c, [] => some ([], c)
  | c, o :: os => do
    let (a, c) ← o.onCache c
    let (as, c) ← runCache c os
    return (a :: as, c)

/-- **The reference, through a sequence of operations**, with its answers. -/
def runReference : Reference → List Op → List Result × Reference
  | r, [] => ([], r)
  | r, o :: os =>
    let (a, r) := o.onReference r
    let (as, r) := runReference r os
    (a :: as, r)

/-- Each operation of a sequence is allowed where it stands. -/
def AllAllowed : Reference → List Op → Prop
  | _, [] => True
  | r, o :: os => o.Allowed r ∧ AllAllowed (o.onReference r).2 os

/-- How often a page is hit in a sequence. -/
def hits (k : Bytes) : Reference → List Op → ℕ
  | _, [] => 0
  | r, o :: os => o.hits k r + hits k (o.onReference r).2 os

/-- **The frequencies strictly increase, and no list is empty.** -/
def Increasing (c : LFUCache) : Prop := ∃ d v L, Shape c d v L ∧
  L.Pairwise (fun a b => a.freq < b.freq) ∧ ∀ b ∈ L, b.keys ≠ []

/-- The cache holds the pages of the reference. -/
structure Simulates (c : LFUCache) (r : Reference) : Prop where
  lists : ∃ T, Tracks r T ∧ Repr c T.forget
  capacity : c.capacity = r.capacity

namespace Simulates

variable {c : LFUCache} {r : Reference}

/-- **One operation.** -/
theorem step (h : Simulates c r) (hcap : r.capacity ≠ 0) {o : Op} (ho : o.Allowed r)
    (hb : ∀ e ∈ r.entries, e.count + o.hits e.key r < 2 ^ 31) : ∃ c',
      o.onCache c = some ((o.onReference r).1, c') ∧ Simulates c' (o.onReference r).2 := by
  obtain ⟨⟨T, ht, hr⟩, hc⟩ := h
  have hcap' : c.capacity ≠ 0 := hc ▸ hcap
  have hb' : ∀ e ∈ r.entries, e.count < 2 ^ 31 := fun e he =>
    lt_of_le_of_lt (Nat.le_add_right _ _) (hb e he)
  rcases o with ⟨k, out⟩ | ⟨k, v⟩
  · rw [Op.onCache, Op.onReference]
    rcases hk : r.find k with _ | e
    · rw [hr.get_miss (ht.find_eq_none.mp hk)]
      exact ⟨c, rfl, ⟨T, ht, hr⟩, hc⟩
    · have hT : ∀ x ∈ T, ∀ a ∈ x.2, a.1.key = k → x.1 + 1 < 2 ^ 31 := by
        intro x hx a ha hka
        have := hb _ (ht.entries.mem_iff.mpr (Timed.mem_flat.mpr ⟨x, hx, a, ha, rfl⟩))
        rwa [Op.hits, if_pos ⟨hka.symm, by rw [hka, hk]; simp⟩] at this
      have hfind : T.forget.find k = some ⟨e.key, e.value⟩ := by rw [ht.find_eq, hk]; rfl
      obtain ⟨c', hg, hr', hc'⟩ := hr.get_hit hcap' hfind out
      rw [← Timed.forget_touch (ht.count_lt hb') hT] at hr'
      rw [hg]
      exact ⟨c', rfl, ⟨_, ht.touch k, hr'⟩, hc'.trans hc⟩
  · obtain ⟨T', ht', hf⟩ := ht.add hcap hb' ho v
    have hk : (⟨k, v⟩ : Key).key ∉ (T.forget.room c.capacity).names := by
      have hn := ht'.nodup
      rw [← Timed.names_forget, hf, Lists.names, Lists.add, Lists.entries_bump, List.map_cons] at hn
      rw [hc]
      exact (List.nodup_cons.mp hn).1
    obtain ⟨c', hs, hr', hc'⟩ := hr.set hcap' ⟨k, v⟩ hk
    rw [hc, ← hf] at hr'
    rw [Op.onCache, hs]
    exact ⟨c', rfl, ⟨T', ht', hr'⟩, hc'.trans hc⟩

/-- The lists of a simulating cache. -/
theorem increasing (h : Simulates c r) (hb : ∀ e ∈ r.entries, e.count < 2 ^ 31) : Increasing c := by
  obtain ⟨⟨T, ht, hr⟩, -⟩ := h
  obtain ⟨d, v, L, s, -, hL, hne, -⟩ := hr.buckets
  refine ⟨d, v, L, s, ?_, hne⟩
  have hfreq : L.map Bucket.freq = T.map fun x => Int32.ofNat x.1 := by
    have := congrArg (List.map Prod.fst) hL
    rwa [view, Timed.forget, List.map_map, List.map_map] at this
  have hT : (T.map fun x => Int32.ofNat x.1).Pairwise (· < ·) := by
    rw [List.pairwise_map]
    refine ht.ordered.sorted.imp_of_mem fun hx hy hxy => ?_
    exact (Int32.ofNat_lt_iff_lt (ht.count_lt hb _ hx) (ht.count_lt hb _ hy)).mpr hxy
  rwa [← hfreq, List.pairwise_map] at hT

/-- The counts after one operation, in terms of the hits still to come. -/
theorem count_step {n : Bytes → ℕ} (hn : ∀ k, 1 + n k < 2 ^ 31) (o : Op)
    (hb : ∀ e ∈ r.entries, e.count + (o.hits e.key r + n e.key) < 2 ^ 31) :
    ∀ e ∈ (o.onReference r).2.entries, e.count + n e.key < 2 ^ 31 := by
  rcases o with ⟨k, out⟩ | ⟨k, v⟩
  · rw [Op.onReference]
    split
    · intro e he
      have := hb e he
      omega
    · next x hk =>
      intro e he
      obtain ⟨y, hy, rfl⟩ := List.mem_map.mp he
      have := hb y hy
      unfold Reference.use
      split
      · next hyk =>
        rw [Op.hits, if_pos ⟨hyk.symm, by rw [hyk, hk]; simp⟩] at this
        dsimp only
        omega
      · omega
  · intro e he
    rcases List.mem_cons.mp he with rfl | he
    · exact hn k
    · have := hb e (Tracks.mem_room he)
      omega

/-- **A sequence of operations.** -/
theorem run : ∀ {c : LFUCache} {r : Reference} (os : List Op), Simulates c r → r.capacity ≠ 0 →
    AllAllowed r os → (∀ k, 1 + hits k r os < 2 ^ 31) →
    (∀ e ∈ r.entries, e.count + hits e.key r os < 2 ^ 31) → ∃ c',
      runCache c os = some ((runReference r os).1, c') ∧ Simulates c' (runReference r os).2 ∧
      Increasing c'
  | c, r, [], h, _, _, _, hb => ⟨c, rfl, h, h.increasing hb⟩
  | c, r, o :: os, h, hcap, ⟨ho, hos⟩, hn, hb => by
      have hn' : ∀ k, 1 + hits k (o.onReference r).2 os < 2 ^ 31 := by
        intro k
        have := hn k
        rw [hits] at this
        omega
      obtain ⟨c₁, h₁, hs₁⟩ := h.step hcap ho fun e he => by
        have := hb e he
        rw [hits] at this
        omega
      have hcap₁ : (o.onReference r).2.capacity ≠ 0 := by
        rcases o with ⟨k, out⟩ | ⟨k, v⟩
        · rw [Op.onReference]
          split <;> exact hcap
        · exact hcap
      obtain ⟨c', h', hs', hi'⟩ := run os hs₁ hcap₁ hos hn' (count_step hn' o hb)
      refine ⟨c', ?_, hs', hi'⟩
      simp only [runCache, Option.bind_eq_bind, h₁, Option.bind_some, h']
      rfl

end Simulates

/-- **The page cache is the LFU cache**: while each page is hit fewer than `2³¹ - 1` times, every
sequence of operations gets the answers of the reference cache, and the frequency lists stay
strictly increasing and non-empty. -/
theorem run_eq_reference {capacity : ℕ} (hcap : 1 ≤ capacity) (os : List Op)
    (ho : AllAllowed { capacity := capacity } os)
    (hh : ∀ k, hits k { capacity := capacity } os < 2 ^ 31 - 1) : ∃ c,
      runCache (LFUCache.init capacity) os
        = some ((runReference { capacity := capacity } os).1, c) ∧ Increasing c := by
  have hs : Simulates (LFUCache.init capacity) { capacity := capacity } :=
    ⟨⟨[], ⟨.refl _, ⟨.nil, by simp⟩, by simp [Timed.Above], by simp [Timed.names, Timed.flat]⟩,
      Repr.init capacity⟩, rfl⟩
  have hn : ∀ k, 1 + hits k { capacity := capacity } os < 2 ^ 31 := fun k => by
    have := hh k
    omega
  obtain ⟨c, hrun, -, hi⟩ := hs.run os (Nat.one_le_iff_ne_zero.mp hcap) ho hn (by simp)
  exact ⟨c, hrun, hi⟩

/-- Two pages are set, and one of them is read back. -/
theorem run_eq_reference_three : ∃ c, runCache (LFUCache.init 2)
      [.set (text "a") (text "1"), .set (text "b") (text "2"), .get (text "a") (text "header")]
      = some ([none, none, some (true, text "header1")], c) ∧ Increasing c :=
  run_eq_reference (by decide) _ ⟨rfl, rfl, trivial, trivial⟩ fun k => by
    simp only [hits, Op.hits]
    split <;> decide

/-! ## The last hit -/

/-- `n` more hits of the only page of the last frequency. -/
theorem repr_replicate_get {j k : Key} (hjk : j.key ≠ k.key) : ∀ (n : ℕ) {c : LFUCache} {f : Int32},
    Repr c [(1, [j]), (f, [k])] → c.capacity ≠ 0 → ∃ as c',
      runCache c (List.replicate n (.get k.key [])) = some (as, c') ∧
      Repr c' [(1, [j]), (f + Int32.ofNat n, [k])]
  | 0, c, f, hr, _ => ⟨[], c, rfl, by simpa using hr⟩
  | n + 1, c, f, hr, hcap => by
      have hfind : Lists.find [(1, [j]), (f, [k])] k.key = some k := by
        simp [Lists.find, Lists.entries, hjk]
      have htouch : Lists.touch k.key [(1, [j]), (f, [k])] = [(1, [j]), (f + 1, [k])] := by
        simp [Lists.touch, Lists.keep, Lists.bump, hjk]
      obtain ⟨c₁, hg, hr₁, hc₁⟩ := hr.get_hit hcap hfind []
      rw [htouch] at hr₁
      obtain ⟨as, c', hrun, hr'⟩ := repr_replicate_get hjk n hr₁ (by rwa [hc₁])
      refine ⟨some (true, [] ++ k.value) :: as, c', ?_, ?_⟩
      · have ho : Op.onCache c (.get k.key []) = some (some (true, [] ++ k.value), c₁) := by
          rw [Op.onCache, hg]
          rfl
        simp only [List.replicate_succ, runCache, Option.bind_eq_bind, ho, Option.bind_some, hrun]
        rfl
      · have : f + 1 + Int32.ofNat n = f + Int32.ofNat (n + 1) := by
          rw [Int32.add_assoc, Nat.add_comm n 1, Int32.ofNat_add]
          rfl
        rwa [this] at hr'

/-- Getting a page is always allowed. -/
theorem allAllowed_replicate (k : Bytes) : ∀ (n : ℕ) (r : Reference),
    AllAllowed r (List.replicate n (.get k []))
  | 0, _ => trivial
  | n + 1, _ => ⟨trivial, allAllowed_replicate k n _⟩

theorem hits_replicate_le (k k' : Bytes) : ∀ (n : ℕ) (r : Reference),
    hits k' r (List.replicate n (.get k [])) ≤ n
  | 0, _ => le_rfl
  | n + 1, r => by
      have := hits_replicate_le k k' n (Op.onReference r (.get k [])).2
      rw [List.replicate_succ, hits, Op.hits]
      split <;> omega

/-- Two pages, and `n` hits of the second one. -/
def hitSecond (n : ℕ) : List Op :=
  .set (text "a") [] :: .set (text "b") [] :: List.replicate n (.get (text "b") [])

theorem repr_hitSecond (n : ℕ) :
    ∃ as c, runCache (LFUCache.init 2) (hitSecond (n + 1)) = some (as, c) ∧
    Repr c [(1, [⟨text "a", []⟩]), (2 + Int32.ofNat n, [⟨text "b", []⟩])] := by
  obtain ⟨c₁, hs₁, hr₁, hc₁⟩ := (Repr.init 2).set (by decide) ⟨text "a", []⟩ (by decide)
  have hk : (⟨text "b", []⟩ : Key).key ∉ (Lists.room c₁.capacity
      [((1 : Int32), [(⟨text "a", []⟩ : Key)])]).names := by
    rw [hc₁]
    decide
  obtain ⟨c₂, hs₂, hr₂, hc₂⟩ := hr₁.set (by rw [hc₁]; decide) ⟨text "b", []⟩ hk
  have hlists : Lists.add c₁.capacity ⟨text "b", []⟩ [((1 : Int32), [(⟨text "a", []⟩ : Key)])]
      = [(1, [⟨text "b", []⟩, ⟨text "a", []⟩])] := by
    rw [hc₁]
    decide
  change Repr c₂ (Lists.add c₁.capacity ⟨text "b", []⟩ [((1 : Int32), [(⟨text "a", []⟩ : Key)])])
    at hr₂
  rw [hlists] at hr₂
  have hcap₂ : c₂.capacity ≠ 0 := by rw [hc₂, hc₁]; decide
  obtain ⟨c₃, hg₃, hr₃, hc₃⟩ := hr₂.get_hit (k := text "b") hcap₂ rfl []
  have htouch : Lists.touch (text "b") [((1 : Int32), [(⟨text "b", []⟩ : Key), ⟨text "a", []⟩])]
      = [(1, [⟨text "a", []⟩]), (2, [⟨text "b", []⟩])] := by decide
  rw [htouch] at hr₃
  obtain ⟨as, c, hrun, hr⟩ := repr_replicate_get (by decide) n hr₃ (by rwa [hc₃])
  refine ⟨none :: none :: some (true, [] ++ []) :: as, c, ?_, hr⟩
  have ho₁ : Op.onCache (LFUCache.init 2) (.set (text "a") []) = some (none, c₁) := by
    rw [Op.onCache, hs₁]
    rfl
  have ho₂ : Op.onCache c₁ (.set (text "b") []) = some (none, c₂) := by
    rw [Op.onCache, hs₂]
    rfl
  have ho₃ : Op.onCache c₂ (.get (text "b") []) = some (some (true, [] ++ []), c₃) := by
    rw [Op.onCache, hg₃]
    rfl
  simp only [hitSecond, List.replicate_succ, runCache, Option.bind_eq_bind, ho₁, Option.bind_some,
    ho₂, ho₃, hrun]
  rfl

/-- **`2³¹ - 1` hits of one page put the lists out of order**: its frequency has become negative. -/
theorem not_increasing_of_max_hits : ∃ os, AllAllowed { capacity := 2 } os ∧
    (∀ k, hits k { capacity := 2 } os < 2 ^ 31) ∧
    ∃ as c, runCache (LFUCache.init 2) os = some (as, c) ∧ ¬ Increasing c := by
  obtain ⟨n, hn⟩ : ∃ n, n = 2 ^ 31 - 2 := ⟨_, rfl⟩
  obtain ⟨as, c, hrun, hr⟩ := repr_hitSecond n
  refine ⟨hitSecond (n + 1), ⟨rfl, rfl, allAllowed_replicate _ _ _⟩, fun k => ?_, as, c, hrun, ?_⟩
  · have hle := hits_replicate_le (text "b") k (n + 1)
    have hh : hits k { capacity := 2 } (hitSecond (n + 1)) ≤ n + 1 := by
      rw [hitSecond, hits, hits, Op.hits, Op.hits, Nat.zero_add, Nat.zero_add]
      exact hle _
    omega
  · rintro ⟨d, v, L, s, hL, -⟩
    obtain ⟨d', v', L', s', -, hview, -, -⟩ := hr.buckets
    obtain rfl := s.unique s'
    have hfreq : (L.map Bucket.freq) = [1, 2 + Int32.ofNat n] := by
      have := congrArg (List.map Prod.fst) hview
      rwa [view, List.map_map] at this
    have hp : (L.map Bucket.freq).Pairwise (· < ·) := List.pairwise_map.mpr hL
    rw [hfreq, hn] at hp
    exact absurd hp (by decide)

end WebServer.Cache
