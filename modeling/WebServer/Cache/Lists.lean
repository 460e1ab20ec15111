import WebServer.Cache.AddFreq

/-!
# Cache/Lists — the lists without their addresses

Read off the heap, a cache is a list of frequencies with the keys of each, the most recently used
one first.  `Lists.touch`, `Lists.add` and `Lists.evict` are `AddFreq`, the insertion and the
eviction of `Set` on these lists.
-/

namespace WebServer.Cache

/-- **The frequencies and their keys.** -/
abbrev Lists := List (Int32 × List Key)

namespace Lists

/-- The keys of all lists. -/
def entries (M : Lists) : List Key := M.flatMap Prod.snd

/-- The names that are cached. -/
def names (M : Lists) : List Bytes := M.entries.map Key.key

/-- The key of a name. -/
def find (M : Lists) (k : Bytes) : Option Key := M.entries.find? (·.key = k)

/-- A list in front, unless it is empty. -/
def keep (f : Int32) (ks : List Key) (M : Lists) : Lists := if ks = [] then M else (f, ks) :: M

/-- A key enters the list of frequency `f`, which is the first one or is made. -/
def bump (f : Int32) (key : Key) : Lists → Lists
  | [] => [(f, [key])]
  | (g, ks) :: M => if g = f then (g, key :: ks) :: M else (f, [key]) :: (g, ks) :: M

/-- **A hit**: the key moves to the next frequency. -/
def touch (k : Bytes) : Lists → Lists
  | [] => []
  | (f, ks) :: M =>
    match ks.find? (·.key = k) with
    | some key => keep f (ks.filter (·.key ≠ k)) (bump (f + 1) key M)
    | none => (f, ks) :: touch k M

/-- **The last key of the first list** goes. -/
def evict : Lists → Lists
  | [] => []
  | (f, ks) :: M => keep f ks.dropLast M

/-- Making room in a cache of this capacity. -/
def room (capacity : ℕ) (M : Lists) : Lists := if M.entries.length = capacity then M.evict else M

/-- **A new key.** -/
def add (capacity : ℕ) (key : Key) (M : Lists) : Lists := bump 1 key (M.room capacity)

@[simp] theorem entries_cons (f : Int32) (ks : List Key) (M : Lists) :
    entries ((f, ks) :: M) = ks ++ entries M := rfl

@[simp] theorem entries_keep (f : Int32) (ks : List Key) (M : Lists) :
    entries (keep f ks M) = ks ++ entries M := by
  unfold keep
  split
  · next h => rw [h]; rfl
  · rfl

theorem entries_bump (f : Int32) (key : Key) : ∀ M : Lists,
    (bump f key M).entries = key :: M.entries
  | [] => rfl
  | (g, ks) :: M => by
      rw [bump]
      split <;> rfl

theorem find_eq_none {M : Lists} {k : Bytes} : M.find k = none ↔ k ∉ M.names := by
  rw [find, List.find?_eq_none, names, List.mem_map]
  constructor
  · rintro h ⟨key, hm, rfl⟩
    exact h key hm (by simp)
  · intro h key hm hk
    exact h ⟨key, hm, by simpa using hk⟩

/-- A name that is cached has a key. -/
theorem exists_find {M : Lists} {k : Bytes} (h : k ∈ M.names) : ∃ key, M.find k = some key ∧
    key ∈ M.entries ∧ key.key = k := by
  rcases hf : M.find k with _ | key
  · exact absurd h (find_eq_none.mp hf)
  · exact ⟨key, rfl, List.mem_of_find?_eq_some hf, by simpa using List.find?_some hf⟩

/-- Making room only drops keys. -/
theorem room_subset (capacity : ℕ) (M : Lists) : (M.room capacity).entries ⊆ M.entries := by
  have hevict : M.evict.entries ⊆ M.entries := by
    rcases M with _ | ⟨⟨f, ks⟩, M⟩
    · exact List.Subset.refl _
    · rw [evict, entries_keep, entries_cons]
      intro key hkey
      rw [List.mem_append] at hkey ⊢
      exact hkey.imp_left fun h => List.dropLast_subset ks h
  unfold room
  split
  · exact hevict
  · exact List.Subset.refl _

end Lists

/-! ## The lists of buckets -/

/-- What a list of buckets says, without the addresses. -/
def view (L : List Bucket) : Lists := L.map fun b => (b.freq, b.keys.map Prod.snd)

/-- Each name, with the addresses of its node and of its bucket. -/
def places (L : List Bucket) : List (Bytes × ℕ × ℕ) :=
  L.flatMap fun b => b.keys.map fun e => (e.2.key, e.1, b.addr)

theorem view_append (L₁ L₂ : List Bucket) : view (L₁ ++ L₂) = view L₁ ++ view L₂ :=
  List.map_append

theorem places_append (L₁ L₂ : List Bucket) : places (L₁ ++ L₂) = places L₁ ++ places L₂ :=
  List.flatMap_append

theorem places_cons (b : Bucket) (L : List Bucket) :
    places (b :: L) = (b.keys.map fun e => (e.2.key, e.1, b.addr)) ++ places L := rfl

theorem places_remaining (b : Bucket) (ks : List (ℕ × Key)) :
    places (remaining b ks) = ks.map fun e => (e.2.key, e.1, b.addr) := by
  unfold remaining
  split
  · next h => rw [h]; rfl
  · exact List.append_nil _

theorem view_remaining_append (b : Bucket) (ks : List (ℕ × Key)) (L : List Bucket) :
    view (remaining b ks ++ L) = Lists.keep b.freq (ks.map Prod.snd) (view L) := by
  rw [view_append, remaining, Lists.keep]
  by_cases h : ks = []
  · rw [if_pos h, if_pos (by rw [h]; rfl)]
    rfl
  · rw [if_neg h, if_neg (by simpa using h)]
    rfl

/-- The names of a list of buckets. -/
theorem names_view (L : List Bucket) : (view L).names = (places L).map Prod.fst := by
  rw [Lists.names, Lists.entries, view, places, List.flatMap_map, List.map_flatMap,
    List.map_flatMap]
  refine List.flatMap_congr fun b _ => ?_
  rw [List.map_map, List.map_map]
  rfl

/-- A key enters the bucket for the next frequency. -/
theorem Next.view {f : Int32} {L L' : List Bucket} {g : Bucket} (hn : Next f L g L') (a : ℕ)
    (k : Key) : Cache.view (g.withKeys ((a, k) :: g.keys) :: L')
      = Lists.bump (f + 1) k (Cache.view L) := by
  cases hn with
  | reuse hf =>
    refine Eq.symm ?_
    change Lists.bump (f + 1) k ((g.freq, g.keys.map Prod.snd) :: _) = _
    rw [Lists.bump, if_pos hf]
    rfl
  | insert hf hk hL =>
    rcases L with _ | ⟨b, L⟩
    · change [(g.freq, k :: g.keys.map Prod.snd)] = [(f + 1, [k])]
      rw [hf, hk]
      rfl
    · change (g.freq, k :: g.keys.map Prod.snd) :: _ = Lists.bump (f + 1) k ((b.freq, _) :: _)
      rw [Lists.bump, if_neg (hL b rfl), hf, hk]
      rfl

theorem Next.places {f : Int32} {L L' : List Bucket} {g : Bucket} (hn : Next f L g L') (a : ℕ)
    (k : Key) : Cache.places (g.withKeys ((a, k) :: g.keys) :: L')
      = (k.key, a, g.addr) :: Cache.places L := by
  cases hn with
  | reuse hf => rfl
  | insert hf hk hL =>
    rw [places_cons, Bucket.withKeys_keys, hk]
    rfl

theorem Next.keys_ne_nil {f : Int32} {L L' : List Bucket} {g : Bucket} (hn : Next f L g L')
    (hL : ∀ b ∈ L, b.keys ≠ []) : ∀ b ∈ L', b.keys ≠ [] := by
  cases hn with
  | reuse hf => exact fun b hb => hL b (List.mem_cons_of_mem _ hb)
  | insert hf hk h => exact hL

theorem keys_ne_nil_remaining (b : Bucket) (ks : List (ℕ × Key)) :
    ∀ e ∈ remaining b ks, e.keys ≠ [] := by
  intro e he
  unfold remaining at he
  split at he
  · simp at he
  · next h =>
    rw [List.mem_singleton] at he
    rw [he]
    exact h

/-- **No bucket is empty** when a key has moved to the next one. -/
theorem Next.keys_ne_nil_moved {b g : Bucket} {L₁ L₂ L₂' : List Bucket} (hn : Next b.freq L₂ g L₂')
    (hne : ∀ e ∈ L₁ ++ b :: L₂, e.keys ≠ []) {ks : List (ℕ × Key)} {key : ℕ × Key} :
    ∀ e ∈ L₁ ++ remaining b ks ++ g.withKeys (key :: g.keys) :: L₂', e.keys ≠ [] := by
  intro e he
  rcases List.mem_append.mp he with he | he
  · rcases List.mem_append.mp he with he | he
    · exact hne e (List.mem_append_left _ he)
    · exact keys_ne_nil_remaining b _ e he
  · rcases List.mem_cons.mp he with rfl | he
    · exact List.cons_ne_nil _ _
    · have hafter : ∀ e ∈ L₂, e.keys ≠ [] := fun e he =>
        hne e (List.mem_append_right _ (List.mem_cons_of_mem _ he))
      exact hn.keys_ne_nil hafter e he

/-- The place of a key that leaves its bucket. -/
theorem places_out {b : Bucket} {xs ys : List (ℕ × Key)} {a : ℕ} {k : Key}
    (hk : b.keys = xs ++ (a, k) :: ys) (L₁ L₂ : List Bucket) :
    (places (L₁ ++ b :: L₂)).Perm
      ((k.key, a, b.addr) :: (places (L₁ ++ remaining b (xs ++ ys)) ++ places L₂)) := by
  rw [places_append, places_cons, hk, places_append, places_remaining]
  simp only [List.map_append, List.map_cons, List.append_assoc, List.cons_append]
  rw [← List.append_assoc]
  refine List.perm_middle.trans ?_
  rw [List.append_assoc]

/-- The place of a key that enters the next bucket. -/
theorem places_in {f : Int32} {L₂ L₂' : List Bucket} {g : Bucket} (hn : Next f L₂ g L₂')
    (L₁ R : List Bucket) (a : ℕ) (k : Key) :
    (places (L₁ ++ R ++ g.withKeys ((a, k) :: g.keys) :: L₂')).Perm
      ((k.key, a, g.addr) :: (places (L₁ ++ R) ++ places L₂)) := by
  rw [places_append, hn.places]
  exact List.perm_middle

/-- The place of the last key of the first bucket. -/
theorem places_last {b : Bucket} {xs : List (ℕ × Key)} {a : ℕ} {k : Key}
    (hk : b.keys = xs ++ [(a, k)]) (L : List Bucket) :
    (places (b :: L)).Perm ((k.key, a, b.addr) :: places (remaining b xs ++ L)) := by
  have hperm := places_out hk [] L
  rwa [List.append_nil, List.nil_append, List.nil_append, ← places_append] at hperm

/-- An element among elements of other names. -/
theorem find_filter_of_nodup {α : Type*} {f : α → Bytes} {xs ys : List α} {a : α}
    (hd : ((xs ++ a :: ys).map f).Nodup) :
    (xs ++ a :: ys).find? (f · = f a) = some a ∧
      (xs ++ a :: ys).filter (f · ≠ f a) = xs ++ ys := by
  rw [List.map_append, List.map_cons] at hd
  have hx : ∀ e ∈ xs, f e ≠ f a := by
    intro e he h
    have := List.mem_map_of_mem (f := f) he
    grind
  have hy : ∀ e ∈ ys, f e ≠ f a := by
    intro e he h
    have := List.mem_map_of_mem (f := f) he
    grind
  constructor
  · rw [List.find?_append, List.find?_eq_none.mpr (by simpa using hx)]
    simp
  · rw [List.filter_append, List.filter_cons_of_neg (by simp),
      List.filter_eq_self.mpr (by simpa using hx), List.filter_eq_self.mpr (by simpa using hy)]

/-- A hit keeps the keys. -/
theorem Lists.touch_perm {k : Bytes} : ∀ M : Lists, M.names.Nodup →
    (M.touch k).entries.Perm M.entries
  | [], _ => .refl _
  | (f, ks) :: M, hd => by
      rw [Lists.names, Lists.entries_cons, List.map_append] at hd
      rw [Lists.touch, Lists.entries_cons]
      split
      · next key hkey =>
        obtain rfl : key.key = k := by simpa using List.find?_some hkey
        obtain ⟨xs, ys, rfl⟩ := List.append_of_mem (List.mem_of_find?_eq_some hkey)
        rw [(find_filter_of_nodup (List.nodup_append.mp hd).1).2, Lists.entries_keep,
          Lists.entries_bump, List.append_assoc, List.append_assoc, List.cons_append,
          ← List.append_assoc]
        refine List.perm_middle.trans ?_
        rw [List.append_assoc]
        exact List.perm_middle.symm
      · rw [Lists.entries_cons]
        exact (Lists.touch_perm M (List.nodup_append.mp hd).2.1).append_left ks

/-- Making room drops one key. -/
theorem Lists.length_evict {M : Lists} (hM : M ≠ []) (hne : ∀ x ∈ M, x.2 ≠ []) :
    M.evict.entries.length + 1 = M.entries.length := by
  rcases M with _ | ⟨⟨f, ks⟩, M⟩
  · exact absurd rfl hM
  · have hks := List.length_pos_iff.mpr (hne (f, ks) (List.mem_cons_self ..))
    rw [Lists.evict, Lists.entries_keep, Lists.entries_cons, List.length_append, List.length_append,
      List.length_dropLast]
    dsimp only at hks
    omega

/-- A new key fits. -/
theorem Lists.length_add_le {M : Lists} {capacity : ℕ} (hcap : capacity ≠ 0)
    (hne : ∀ x ∈ M, x.2 ≠ []) (hM : M.entries.length ≤ capacity) (key : Key) :
    (M.add capacity key).entries.length ≤ capacity := by
  rw [Lists.add, Lists.entries_bump, List.length_cons, Lists.room]
  split
  · next hfull =>
    have := Lists.length_evict (fun h => hcap (by rw [← hfull, h]; rfl)) hne
    omega
  · omega

/-- **A hit, on the lists.** -/
theorem touch_view {b : Bucket} {xs ys : List (ℕ × Key)} {a : ℕ} {k : Key} {L₂ : List Bucket}
    (hk : b.keys = xs ++ (a, k) :: ys) : ∀ L₁ : List Bucket,
    (view (L₁ ++ b :: L₂)).names.Nodup → (view (L₁ ++ b :: L₂)).touch k.key
      = view L₁ ++ Lists.keep b.freq ((xs ++ ys).map Prod.snd)
        (Lists.bump (b.freq + 1) k (view L₂))
  | [], hd => by
      have hks : b.keys.map Prod.snd = xs.map Prod.snd ++ k :: ys.map Prod.snd := by
        rw [hk, List.map_append, List.map_cons]
      have hd' : ((xs.map Prod.snd ++ k :: ys.map Prod.snd).map Key.key).Nodup := by
        rw [← hks]
        change (Lists.entries ((b.freq, b.keys.map Prod.snd) :: view L₂)).map Key.key |>.Nodup at hd
        rw [Lists.entries_cons, List.map_append] at hd
        exact (List.nodup_append.mp hd).1
      obtain ⟨hfind, hfilter⟩ := find_filter_of_nodup hd'
      change Lists.touch k.key ((b.freq, b.keys.map Prod.snd) :: view L₂) = _
      rw [Lists.touch, hks, hfind]
      dsimp only
      rw [hfilter, List.map_append]
      rfl
  | e :: L₁, hd => by
      have hne : (e.keys.map Prod.snd).find? (·.key = k.key) = none := by
        rw [List.find?_eq_none]
        intro key hkey h
        change (Lists.entries ((e.freq, e.keys.map Prod.snd) :: view (L₁ ++ b :: L₂))).map
          Key.key |>.Nodup at hd
        rw [Lists.entries_cons, List.map_append] at hd
        refine List.disjoint_of_nodup_append hd (List.mem_map_of_mem hkey) ?_
        rw [of_decide_eq_true h]
        refine List.mem_map_of_mem (List.mem_flatMap.mpr ⟨(b.freq, b.keys.map Prod.snd), ?_, ?_⟩)
        · rw [view_append]
          exact List.mem_append_right _ (List.mem_cons_self ..)
        · rw [hk]
          simp
      have hd' : (view (L₁ ++ b :: L₂)).names.Nodup := by
        change (Lists.entries ((e.freq, e.keys.map Prod.snd) :: view (L₁ ++ b :: L₂))).map
          Key.key |>.Nodup at hd
        rw [Lists.entries_cons, List.map_append] at hd
        exact (List.nodup_append.mp hd).2.1
      change Lists.touch k.key ((e.freq, e.keys.map Prod.snd) :: view (L₁ ++ b :: L₂)) = _
      rw [Lists.touch, hne]
      dsimp only
      rw [touch_view hk L₁ hd']
      rfl

end WebServer.Cache
