import WebServer.Cache.Repr
import WebServer.Lib.Run

/-!
# Cache/Concurrent — the page cache under several event loops

`BuildResponse` looks a page up with one `Get` and, when that misses, fills it in with a later
`Set`; each of the two runs under `mutex_`.  Two loops can miss the same page and then both set it,
and the second `Set` puts a second node for the page on the lists (`not_consistent_set`).  Every run
that never sets a page which is still cached keeps the cache consistent (`consistent_of_run`).
-/

namespace WebServer.Cache

/-! ## The system -/

/-- The event loops and the cache they share: a loop that missed a page remembers which. -/
structure Server (ι : Type*) where
  cache : LFUCache
  missed : ι → Option Bytes

/-- What a loop does next. -/
inductive Action
  | get (key : Bytes)
  | set (value : Bytes)
  | giveUp

/-- A loop misses no page, or another one. -/
def Server.note {ι : Type*} [DecidableEq ι] (s : Server ι) (i : ι) (k : Option Bytes) :
    ι → Option Bytes := Function.update s.missed i k

/-- **One atomic step of one loop.**  A file that cannot be read is not cached (`giveUp`). -/
inductive Step {ι : Type*} [DecidableEq ι] : Server ι → ι × Action → Server ι → Prop
  | hit {s : Server ι} {i : ι} {k val : Bytes} {c : LFUCache} (hi : s.missed i = none)
      (hg : s.cache.get k [] = some (true, val, c)) : Step s (i, .get k) ⟨c, s.missed⟩
  | miss {s : Server ι} {i : ι} {k val : Bytes} {c : LFUCache} (hi : s.missed i = none)
      (hg : s.cache.get k [] = some (false, val, c)) :
      Step s (i, .get k) ⟨c, s.note i (some k)⟩
  | set {s : Server ι} {i : ι} {k v : Bytes} {c : LFUCache} (hi : s.missed i = some k)
      (hs : s.cache.set k v = some c) : Step s (i, .set v) ⟨c, s.note i none⟩
  | giveUp {s : Server ι} {i : ι} {k : Bytes} (hi : s.missed i = some k) :
      Step s (i, .giveUp) ⟨s.cache, s.note i none⟩

/-- A server whose loops are all between requests. -/
def Server.init (ι : Type*) (capacity : ℕ) : Server ι := ⟨LFUCache.init capacity, fun _ => none⟩

/-- **The cache is consistent**: each name is on one node, the maps name the nodes and their lists,
and there are not more nodes than the capacity allows. -/
def Consistent (c : LFUCache) : Prop := ∃ d v L, Shape c d v L ∧
  Coherent c.kmap c.fmap (places L) ∧ (places L).length ≤ c.capacity

/-- The condition: a page that is set is not cached any more once room has been made for it. -/
def SetsUncached {ι : Type*} (s : Server ι) (a : ι × Action) : Prop :=
  match a.2 with
  | .set _ => ∀ k, s.missed a.1 = some k → ∀ c, s.cache.room = some c → k ∉ c.kmap
  | _ => True

/-! ## Runs that set no cached page -/

theorem length_places (L : List Bucket) : (places L).length = (view L).entries.length := by
  have := congrArg List.length (names_view L)
  rwa [Lists.names, List.length_map, List.length_map, eq_comm] at this

/-- What a run keeps: the representation invariant, and the bound. -/
def Kept (capacity : ℕ) (c : LFUCache) : Prop :=
  ∃ M, Repr c M ∧ M.entries.length ≤ capacity ∧ c.capacity = capacity

theorem Kept.consistent {capacity : ℕ} {c : LFUCache} (h : Kept capacity c) : Consistent c := by
  obtain ⟨M, r, hM, hc⟩ := h
  obtain ⟨d, v, L, s, -, rfl, -, hcoh⟩ := r.buckets
  refine ⟨d, v, L, s, hcoh, ?_⟩
  rw [length_places, hc]
  exact hM

theorem Kept.get {capacity : ℕ} (hcap : 1 ≤ capacity) {c c' : LFUCache} (h : Kept capacity c)
    {k v v' : Bytes} {b : Bool} (hg : c.get k v = some (b, v', c')) : Kept capacity c' := by
  obtain ⟨M, r, hM, hc⟩ := h
  rcases hk : M.find k with _ | key
  · rw [r.get_miss hk] at hg
    obtain ⟨-, -, rfl⟩ : _ ∧ _ ∧ c = c' := by simpa using hg
    exact ⟨M, r, hM, hc⟩
  · obtain ⟨c₁, hg₁, r₁, hc₁⟩ := r.get_hit (by omega) hk v
    rw [hg₁] at hg
    obtain ⟨-, -, rfl⟩ : _ ∧ _ ∧ c₁ = c' := by simpa using hg
    refine ⟨_, r₁, ?_, hc₁.trans hc⟩
    rw [(Lists.touch_perm M r.names_nodup).length_eq]
    exact hM

theorem Kept.set {capacity : ℕ} (hcap : 1 ≤ capacity) {c c' : LFUCache} (h : Kept capacity c)
    {k v : Bytes} (hk : ∀ c₁, c.room = some c₁ → k ∉ c₁.kmap) (hs : c.set k v = some c') :
    Kept capacity c' := by
  obtain ⟨M, r, hM, hc⟩ := h
  have hcap' : c.capacity ≠ 0 := by omega
  obtain ⟨c₁, hroom, r₁, -⟩ := r.room hcap'
  have hk' : (⟨k, v⟩ : Key).key ∉ (M.room c.capacity).names := fun e =>
    hk c₁ hroom ((r₁.mem_kmap k).mpr e)
  obtain ⟨c₂, hs₂, r₂, hc₂⟩ := r.set hcap' ⟨k, v⟩ hk'
  obtain rfl : c₂ = c' := Option.some.inj (hs₂.symm.trans hs)
  refine ⟨_, r₂, ?_, hc₂.trans hc⟩
  rw [hc]
  exact Lists.length_add_le (by omega) r.ne_nil hM _

/-- **One step that sets no cached page keeps the cache.** -/
theorem Kept.step {ι : Type*} [DecidableEq ι] {capacity : ℕ} (hcap : 1 ≤ capacity)
    {s s' : Server ι} {a : ι × Action} (h : Kept capacity s.cache)
    (hs : guarded SetsUncached Step s a s') : Kept capacity s'.cache := by
  obtain ⟨hok, hs⟩ := hs
  cases hs with
  | hit hi hg => exact h.get hcap hg
  | miss hi hg => exact h.get hcap hg
  | set hi hs => exact h.set hcap (hok _ hi) hs
  | giveUp hi => exact h

theorem kept_init (capacity : ℕ) : Kept capacity (LFUCache.init capacity) :=
  ⟨[], Repr.init capacity, Nat.zero_le _, rfl⟩

/-- No `Get` breaks off. -/
theorem Kept.get_isSome {capacity : ℕ} (hcap : 1 ≤ capacity) {c : LFUCache} (h : Kept capacity c)
    (k v : Bytes) : (c.get k v).isSome := by
  obtain ⟨M, r, hM, hc⟩ := h
  rcases hk : M.find k with _ | key
  · rw [r.get_miss hk, Option.isSome_some]
  · obtain ⟨c₁, hg₁, -, -⟩ := r.get_hit (by omega) hk v
    rw [hg₁, Option.isSome_some]

/-- **The cache stays consistent** in every interleaving of any number of loops that never sets a
page which is cached once room has been made for it, and no `Get` of any page breaks off. -/
theorem consistent_of_run {ι : Type*} [DecidableEq ι] {capacity : ℕ} (hcap : 1 ≤ capacity)
    {as : List (ι × Action)} {s : Server ι}
    (r : Run (guarded SetsUncached Step) (Server.init ι capacity) as s) :
    Consistent s.cache ∧ ∀ k v, (s.cache.get k v).isSome := by
  have h : Kept capacity s.cache := r.invariant (I := fun s => Kept capacity s.cache)
    (fun _ _ _ h hs => h.step hcap hs) (kept_init capacity)
  exact ⟨h.consistent, h.get_isSome hcap⟩

/-! ## A run that sets a cached page -/

/-- **Setting a page that is still cached breaks the cache**: the name is on two nodes. -/
theorem Kept.not_consistent_set {capacity : ℕ} (hcap : 1 ≤ capacity) {c : LFUCache}
    (h : Kept capacity c) {k : Bytes} (v : Bytes) (hk : ∀ c₁, c.room = some c₁ → k ∈ c₁.kmap) :
    ∃ c', c.set k v = some c' ∧ ¬ Consistent c' := by
  obtain ⟨M, r, hM, hc⟩ := h
  have hcap' : c.capacity ≠ 0 := by omega
  obtain ⟨c₁, hroom, r₁, -⟩ := r.room hcap'
  have hk₁ := hk c₁ hroom
  obtain ⟨d, w, L, s, -, -, -, hcoh⟩ := r₁.buckets
  rw [hcoh.kmap.mem_iff, Coherent.map_nodesOf] at hk₁
  obtain ⟨c', g, L', hset, s', hn, -⟩ := s.set hcap' hroom ⟨k, v⟩
  refine ⟨c', hset, ?_⟩
  rintro ⟨d', v', L'', s'', hcoh'', -⟩
  rw [← s'.unique s'', hn.places] at hcoh''
  exact hcoh''.notMem hk₁

/-- Two loops miss a page one after the other, and both set it. -/
theorem not_consistent_of_two_misses : ∃ as s,
    Run Step (Server.init ℕ 10) as s ∧ ¬ Consistent s.cache := by
  have r₀ := Repr.init 10
  have hmiss := r₀.get_miss (k := text "index.html") rfl []
  obtain ⟨c₁, hset, r₁, hc₁⟩ := r₀.set (by decide) ⟨text "index.html", text "1"⟩ (by decide)
  have hroom : ∀ c, c₁.room = some c → text "index.html" ∈ c.kmap := by
    intro c hc
    obtain ⟨c', hroom, r', -⟩ := r₁.room (by rw [hc₁]; decide)
    obtain rfl := Option.some.inj (hroom.symm.trans hc)
    rw [r'.mem_kmap, hc₁]
    decide
  have h₁ : Kept 10 c₁ := ⟨_, r₁, by decide, hc₁⟩
  obtain ⟨c₂, hset₂, hbad⟩ := h₁.not_consistent_set (by decide) (text "1") hroom
  refine ⟨[(0, .get (text "index.html")), (1, .get (text "index.html")), (0, .set (text "1")),
    (1, .set (text "1"))], _, .cons (.miss rfl hmiss) (.cons (.miss rfl hmiss)
    (.cons (.set ?_ hset) (.cons (.set ?_ hset₂) (.nil _)))), hbad⟩
  · rfl
  · rfl

/-- Two loops at once: one misses a page, the other misses another one, both set theirs, and the
second finds what the first has set. -/
theorem consistent_of_run_two_loops : ∃ s : Server ℕ, ∃ as,
    Run (guarded SetsUncached Step) (Server.init ℕ 10) as s ∧
      as.map Prod.fst = [0, 1, 0, 1, 1] ∧ Consistent s.cache ∧
        ∀ k v, (s.cache.get k v).isSome := by
  have hnew {c : LFUCache} {M : Lists} {k : Bytes} (h : Repr c M) (hcap : c.capacity ≠ 0)
      (hk : k ∉ (M.room c.capacity).names) : ∀ k', some k = some k' → ∀ c', c.room = some c' →
        k' ∉ c'.kmap := by
    intro k' hk' c' hc
    obtain ⟨c₁, hroom, r', -⟩ := h.room hcap
    obtain rfl := Option.some.inj (hroom.symm.trans hc)
    rwa [r'.mem_kmap, ← Option.some.inj hk']
  have r₀ := Repr.init 10
  have hmiss₀ := r₀.get_miss (k := text "index.html") rfl []
  have hmiss₁ := r₀.get_miss (k := text "a.html") rfl []
  obtain ⟨c₁, hset₁, r₁, hc₁⟩ := r₀.set (by decide) ⟨text "index.html", text "1"⟩ (by decide)
  have hcap₁ : c₁.capacity ≠ 0 := by rw [hc₁]; decide
  have hnew₁ : text "a.html" ∉ ((Lists.add (LFUCache.init 10).capacity
      ⟨text "index.html", text "1"⟩ []).room c₁.capacity).names := by
    rw [hc₁]
    decide
  obtain ⟨c₂, hset₂, r₂, hc₂⟩ := r₁.set hcap₁ ⟨text "a.html", text "2"⟩ hnew₁
  obtain ⟨c₃, hget, -, -⟩ := r₂.get_hit (k := text "index.html") (by rw [hc₂]; exact hcap₁)
    (by rw [hc₁]; rfl) []
  have r : Run (guarded SetsUncached Step) (Server.init ℕ 10)
      [(0, .get (text "index.html")), (1, .get (text "a.html")), (0, .set (text "1")),
        (1, .set (text "2")), (1, .get (text "index.html"))] ⟨c₃, _⟩ :=
    .cons ⟨trivial, .miss rfl hmiss₀⟩ (.cons ⟨trivial, .miss rfl hmiss₁⟩
      (.cons ⟨hnew r₀ (by decide) (by decide), .set rfl hset₁⟩
        (.cons ⟨hnew r₁ hcap₁ hnew₁, .set rfl hset₂⟩ (.single ⟨trivial, .hit rfl hget⟩))))
  exact ⟨_, _, r, rfl, consistent_of_run (by decide) r⟩

end WebServer.Cache
