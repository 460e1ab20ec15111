import WebServer.Http.Answer
import WebServer.Cache.Repr

/-!
# Http/Framing — the length a page announces

A page is a block of header lines and a body.  The length in the header is the size `stat` reports
now; a body from the cache has the size the file had when it was cached.  `framedAt_iff` says when
the two agree, and `all_framed_iff` carries it through any sequence of requests.
-/

/-! ## Decimal numbers -/

/-- A digit is a byte from `0` to `9`. -/
theorem digit_of_mem_decimal {n : ℕ} {b : UInt8} (hb : b ∈ decimal n) : 48 ≤ b ∧ b ≤ 57 := by
  obtain ⟨c, hc, rfl⟩ := List.mem_map.mp hb
  have hd := Nat.isDigit_of_mem_toDigits (by decide) (by decide) hc
  rw [Char.isDigit, Bool.and_eq_true, decide_eq_true_eq, decide_eq_true_eq] at hd
  obtain ⟨h₁, h₂⟩ := hd
  have h₁' : 48 ≤ c.toNat := h₁
  have h₂' : c.toNat ≤ 57 := h₂
  have hc : c.toUInt8.toNat = c.toNat := by
    change c.toNat % 2 ^ 8 = c.toNat
    omega
  rw [UInt8.le_iff_toNat_le, UInt8.le_iff_toNat_le, hc]
  exact ⟨h₁', h₂'⟩

/-- **A number is known by its digits.** -/
theorem decimal_inj {m n : ℕ} (h : decimal m = decimal n) : m = n := by
  have back : ∀ k, (decimal k).map (fun b => Char.ofNat b.toNat) = Nat.toDigits 10 k := by
    intro k
    rw [decimal, List.map_map]
    refine (List.map_congr_left fun c hc => ?_).trans (List.map_id _)
    have hd := Nat.isDigit_of_mem_toDigits (by decide) (by decide) hc
    rw [Char.isDigit, Bool.and_eq_true, decide_eq_true_eq, decide_eq_true_eq] at hd
    have h₂ : c.toNat ≤ 57 := hd.2
    have hn : c.toUInt8.toNat = c.toNat := by
      change c.toNat % 2 ^ 8 = c.toNat
      omega
    change Char.ofNat c.toUInt8.toNat = c
    rw [hn, Char.ofNat_toNat]
  rw [← Nat.ofDigitChars_ten_toDigits (n := m), ← Nat.ofDigitChars_ten_toDigits (n := n), ← back m,
    ← back n, h]

namespace WebServer.Http

/-! ## Blocks of lines -/

/-- **Header lines, and the blank line that ends them.** -/
def block (lines : List Bytes) : Bytes := lines.flatMap (· ++ crlf) ++ crlf

/-- A line that a block can hold. -/
def IsLine (l : Bytes) : Prop := l ≠ [] ∧ Chr.cr ∉ l

instance (l : Bytes) : Decidable (IsLine l) := inferInstanceAs (Decidable (_ ∧ _))

/-- **A response announces the length of its body.** -/
def Framed (response : Bytes) : Prop := ∃ lines body, response = block lines ++ body ∧
  (∀ l ∈ lines, IsLine l) ∧ text "Content-Length: " ++ decimal body.length ∈ lines

theorem block_cons (l : Bytes) (ls : List Bytes) : block (l :: ls) = l ++ (crlf ++ block ls) := by
  rw [block, List.flatMap_cons, List.append_assoc, List.append_assoc]
  rfl

/-- **A response falls into its header and its body in one way.** -/
theorem block_inj : ∀ {ls ls' : List Bytes} {b b' : Bytes}, (∀ l ∈ ls, IsLine l) →
    (∀ l ∈ ls', IsLine l) → block ls ++ b = block ls' ++ b' → ls = ls' ∧ b = b'
  | [], [], b, b', _, _, h => ⟨rfl, List.append_cancel_left h⟩
  | [], l :: ls, b, b', _, hl, h => by
      obtain ⟨hne, hcr⟩ := hl l (List.mem_cons_self ..)
      rcases l with _ | ⟨c, l⟩
      · exact absurd rfl hne
      · rw [block_cons] at h
        have : Chr.cr = c := (List.cons.inj h).1
        exact absurd (this ▸ List.mem_cons_self ..) hcr
  | l :: ls, [], b, b', hl, _, h => by
      obtain ⟨hne, hcr⟩ := hl l (List.mem_cons_self ..)
      rcases l with _ | ⟨c, l⟩
      · exact absurd rfl hne
      · rw [block_cons] at h
        have : c = Chr.cr := (List.cons.inj h).1
        exact absurd (this ▸ List.mem_cons_self ..) hcr
  | l :: ls, l' :: ls', b, b', hl, hl', h => by
      rw [block_cons, block_cons, List.append_assoc, List.append_assoc] at h
      have hcr : l ++ Chr.cr :: (Chr.lf :: (block ls ++ b))
          = l' ++ Chr.cr :: (Chr.lf :: (block ls' ++ b')) := by
        rw [List.append_assoc, List.append_assoc] at h
        exact h
      obtain ⟨rfl, hlf⟩ := append_cons_inj (hl l (List.mem_cons_self ..)).2
        (hl' l' (List.mem_cons_self ..)).2 hcr
      obtain ⟨rfl, rfl⟩ := block_inj (fun x hx => hl x (List.mem_cons_of_mem _ hx))
        (fun x hx => hl' x (List.mem_cons_of_mem _ hx)) (List.cons.inj hlf).2
      exact ⟨rfl, rfl⟩

/-! ## The header of a page -/

/-- The header lines of a page. -/
def pageLines (keepAlive : Bool) (fileType : Bytes) (size : ℕ) : List Bytes :=
  text "HTTP/1.1 200 OK" ::
    ((if keepAlive then [text "Connection: Keep-Alive",
      text "Keep-Alive: timeout=" ++ decimal kDefaultKeepAliveTime] else [])
    ++ [text "Content-Type: " ++ fileType, text "Content-Length: " ++ decimal size,
      text "Server: lawson's web server"])

theorem block_pageLines (keepAlive : Bool) (fileType : Bytes) (size : ℕ) :
    headerStart keepAlive ++ headerRest fileType size
      = block (pageLines keepAlive fileType size) := by
  cases keepAlive <;>
    simp only [headerStart, headerRest, pageLines, block, List.flatMap_cons, List.flatMap_append,
      List.flatMap_nil, List.append_assoc, List.nil_append, List.append_nil, if_true,
      Bool.false_eq_true, if_false]

/-- What a table answers stands in it. -/
theorem exists_mem_of_lookup {k v : Bytes} : ∀ {table : List (Bytes × Bytes)},
    table.lookup k = some v → ∃ x ∈ table, x.2 = v
  | [], h => absurd h (by simp)
  | (k', v') :: table, h => by
      rw [List.lookup_cons] at h
      split at h
      · exact ⟨_, List.mem_cons_self .., Option.some.inj h⟩
      · obtain ⟨x, hx, hv⟩ := exists_mem_of_lookup h
        exact ⟨x, List.mem_cons_of_mem _ hx, hv⟩

/-- No mime type holds a carriage return. -/
theorem cr_notMem_getMime (type : Bytes) : Chr.cr ∉ getMime type := by
  have hall : ∀ x ∈ mimeMap, Chr.cr ∉ x.2 := by decide
  unfold getMime
  split
  · next mime h =>
    obtain ⟨x, hx, rfl⟩ := exists_mem_of_lookup h
    exact hall x hx
  · decide

theorem cr_notMem_decimal (n : ℕ) : Chr.cr ∉ decimal n := fun h =>
  absurd (digit_of_mem_decimal h).1 (by decide)

/-- A name, and a value without a carriage return, make a line. -/
theorem isLine_append {a b : Bytes} (ha : IsLine a) (hb : Chr.cr ∉ b) : IsLine (a ++ b) := by
  refine ⟨fun h => ha.1 (List.append_eq_nil_iff.mp h).1, fun h => ?_⟩
  exact (List.mem_append.mp h).elim ha.2 hb

theorem isLine_of_mem_pageLines {keepAlive : Bool} {fileName l : Bytes} {size : ℕ}
    (h : l ∈ pageLines keepAlive (fileTypeOf fileName) size) : IsLine l := by
  have hmime : Chr.cr ∉ fileTypeOf fileName := by
    unfold fileTypeOf
    split <;> exact cr_notMem_getMime _
  rw [pageLines, List.mem_cons, List.mem_append, List.mem_cons, List.mem_cons,
    List.mem_singleton] at h
  rcases h with rfl | h | rfl | rfl | rfl
  · exact by decide
  · cases keepAlive
    · exact absurd h (List.not_mem_nil)
    · rw [if_pos rfl, List.mem_cons, List.mem_singleton] at h
      rcases h with rfl | rfl
      · exact by decide
      · exact isLine_append (by decide) (cr_notMem_decimal _)
  · exact isLine_append (by decide) hmime
  · exact isLine_append (by decide) (cr_notMem_decimal _)
  · exact by decide

/-- The only length among the header lines is the size. -/
theorem length_mem_pageLines {keepAlive : Bool} {fileType : Bytes} {n size : ℕ} :
    text "Content-Length: " ++ decimal n ∈ pageLines keepAlive fileType size ↔ n = size := by
  have differ : ∀ {a b x y : Bytes} (i : ℕ), i < a.length → i < b.length → a[i]? ≠ b[i]? →
      a ++ x ≠ b ++ y := by
    intro a b x y i ha hb hne h
    have := congrArg (·[i]?) h
    rw [List.getElem?_append_left ha, List.getElem?_append_left hb] at this
    exact hne this
  constructor
  · intro h
    rw [pageLines, List.mem_cons, List.mem_append, List.mem_cons, List.mem_cons,
      List.mem_singleton] at h
    rcases h with h | h | h | h | h
    · rw [← List.append_nil (text "HTTP/1.1 200 OK")] at h
      exact absurd h (differ 0 (by decide) (by decide +kernel) (by decide +kernel))
    · cases keepAlive
      · exact absurd h (List.not_mem_nil)
      · rw [if_pos rfl, List.mem_cons, List.mem_singleton] at h
        rcases h with h | h
        · rw [← List.append_nil (text "Connection: Keep-Alive")] at h
          exact absurd h (differ 3 (by decide) (by decide +kernel) (by decide +kernel))
        · exact absurd h (differ 0 (by decide) (by decide +kernel) (by decide +kernel))
    · exact absurd h (differ 8 (by decide) (by decide +kernel) (by decide +kernel))
    · exact decimal_inj (List.append_cancel_left h)
    · rw [← List.append_nil (text "Server: lawson's web server")] at h
      exact absurd h (differ 0 (by decide) (by decide +kernel) (by decide +kernel))
  · rintro rfl
    rw [pageLines, List.mem_cons, List.mem_append, List.mem_cons, List.mem_cons]
    exact .inr (.inr (.inr (.inl rfl)))

/-- **A page is framed when its body has the size in its header.** -/
theorem framed_page_iff (c : HttpConnection) (file : FileNode) (body : Bytes) :
    Framed (pageHeader c file ++ body) ↔ body.length = file.stSize := by
  rw [pageHeader, block_pageLines]
  constructor
  · rintro ⟨lines, body', h, hl, hlen⟩
    obtain ⟨rfl, rfl⟩ := block_inj (fun _ => isLine_of_mem_pageLines) hl h
    exact length_mem_pageLines.mp hlen
  · intro h
    exact ⟨_, body, rfl, fun _ => isLine_of_mem_pageLines, length_mem_pageLines.mpr h⟩

/-! ## One request -/

section Request

variable {κ : Type*} [PageCache κ] (files : FileSystem)

/-- **Every page that a `BuildResponse` produces is framed**, as it stands in the write buffer. -/
def FramedAt (h : Handler κ) : Prop := ∀ a, .produced a ∈ (buildResponse files h).2.log →
  a.kind = .page → Framed a.response ∧
    (buildResponse files h).2.conn.writeBuffer = h.conn.writeBuffer ++ a.response

/-- A cached body has the size of its file. -/
def HitFits (h : Handler κ) : Prop := h.conn.fileName ≠ text "echo" →
  ∀ file, files (cString h.conn.path) = some file →
  ∀ value cache, PageCache.get h.cache h.conn.path = some (some value, cache) →
    value.length = file.stSize

/-- A hit is answered with the cached value. -/
theorem buildResponse_hit {h : Handler κ} {file : FileNode} {value : Bytes} {cache : κ}
    (hm : h.conn.method = .get) (he : h.conn.fileName ≠ text "echo")
    (hf : files (cString h.conn.path) = some file)
    (hg : PageCache.get h.cache h.conn.path = some (some value, cache)) :
    (buildResponse files h).2.log = h.log ++ [.produced (pageAnswer h.conn file value)] := by
  obtain ⟨h', d, hb⟩ := buildResponse_page files (by rw [hm]; decide) he hf
  rw [hb, serveHeader, if_neg (by rw [d.method, hm]; decide), serveBody, d.cache, d.fileName, hg]
  simp only [appendBody, Handler.setCache_log, Handler.produce_log, Handler.update_log,
    Handler.update_conn, d.log, d.method, d.fileName, d.requestHeaders]
  rfl

/-- The echo page is no page of a file. -/
theorem framedAt_echo {h : Handler κ} (hm : h.conn.method = .get)
    (he : h.conn.fileName = text "echo") (hlog : h.log = []) : FramedAt files h := by
  intro a ha hk
  rw [buildResponse, if_neg (by rw [hm]; decide), if_pos he, serveEcho, Handler.produce_log,
    Handler.update_log, Handler.update_log, hlog, List.nil_append, List.mem_singleton] at ha
  obtain rfl := OutEvent.produced.inj ha
  exact AnswerKind.noConfusion hk

/-- **The pages of one request are framed exactly when a cached body fits its file.** -/
theorem framedAt_iff {h : Handler κ} (hm : h.conn.method = .get) (hlog : h.log = []) :
    FramedAt files h ↔ HitFits files h := by
  constructor
  · intro hframed he file hf value cache hg
    have hhit := buildResponse_hit files hm he hf hg
    have := hframed (pageAnswer h.conn file value) (by rw [hhit]; simp) rfl
    exact (framed_page_iff h.conn file value).mp this.1
  · intro hfits
    by_cases he : h.conn.fileName = text "echo"
    · exact framedAt_echo files hm he hlog
    · have hans := buildResponse_answered files h
      unfold FramedAt
      generalize buildResponse files h = r at hans ⊢
      intro a ha hk
      cases hans with
      | @page _ file body hf hb hl hw hx =>
        rw [hl, hlog, List.nil_append, List.mem_singleton] at ha
        obtain rfl := OutEvent.produced.inj ha
        refine ⟨(framed_page_iff h.conn file body).mpr ?_, hw⟩
        cases hb with
        | head hh => exact absurd (hm.symm.trans hh) (by decide)
        | cached _ hg => exact hfits he file hf _ _ hg
        | mapped _ _ hc => exact FileNode.length_of_mmap hc
      | echo hl hw hx =>
        rw [hl, hlog, List.nil_append, List.mem_singleton] at ha
        obtain rfl := OutEvent.produced.inj ha
        exact AnswerKind.noConfusion hk
      | refused hkind hpre hl hx =>
        rw [hl, hlog, List.nil_append, List.mem_cons, List.mem_singleton] at ha
        obtain rfl := OutEvent.produced.inj (ha.resolve_right (by simp))
        exact absurd (hkind.symm.trans hk) (by decide)
      | broken hl hx =>
        rw [hl, hlog] at ha
        exact absurd ha (List.not_mem_nil)

/-! ## The cache between requests -/

/-- **What an answer does to the cache.** -/
inductive CacheAfter (h : Handler κ) : κ → Prop
  | same : CacheAfter h h.cache
  | looked {v : Option Bytes} {cache : κ}
      (hg : PageCache.get h.cache h.conn.path = some (v, cache)) : CacheAfter h cache
  | filled {file : FileNode} {content : Bytes} {cache cache' : κ}
      (hf : files (cString h.conn.path) = some file) (hc : file.mmap = some content)
      (hg : PageCache.get h.cache h.conn.path = some (none, cache))
      (hs : PageCache.set cache h.conn.path content = some cache') : CacheAfter h cache'

theorem HeaderDone.cacheAfter {h h' : Handler κ} {file : FileNode} (d : HeaderDone h h' file)
    (hf : files (cString h.conn.path) = some file) (header : Bytes) :
    CacheAfter files h (Http.serveHeader h' header file).2.cache := by
  have hsame : CacheAfter files h h'.cache := d.cache ▸ .same
  have hget : PageCache.get h'.cache h'.conn.fileName = PageCache.get h.cache h.conn.path := by
    rw [d.cache, d.fileName]
  unfold Http.serveHeader serveBody
  split
  · exact hsame
  · split
    · exact hsame
    · next hg => exact .looked (hget.symm.trans hg)
    · next cache hg =>
      have hlooked : CacheAfter files h cache := .looked (hget.symm.trans hg)
      unfold serveFile
      split
      · exact hlooked
      · split
        · exact hlooked
        · next content hc =>
          split
          · exact hlooked
          · next cache' hs =>
            refine .filled hf hc (hget.symm.trans hg) ?_
            rw [← d.fileName]
            exact hs

theorem buildResponse_cache (h : Handler κ) :
    CacheAfter files h (buildResponse files h).2.cache := by
  by_cases hm : h.conn.method = .post
  · rw [buildResponse, if_pos hm]
    exact .same
  · by_cases he : h.conn.fileName = text "echo"
    · rw [buildResponse, if_neg hm, if_pos he]
      exact .same
    · rcases hf : files (cString h.conn.path) with _ | file
      · obtain ⟨f, hb⟩ := buildResponse_forbidden files hm he hf
        rw [hb]
        exact .same
      · obtain ⟨h', d, hb⟩ := buildResponse_page files hm he hf
        rw [hb]
        exact d.cacheAfter files hf _

end Request

end WebServer.Http

/-! ## The page cache, seen from a request -/

namespace WebServer.Cache.Repr

variable {c : LFUCache} {M : Lists} {k : Bytes} {key : Key}

theorem pageGet_miss (r : Repr c M) (hk : M.find k = none) :
    Http.PageCache.get c k = some (none, c) := by
  change (c.get k []).map _ = _
  rw [r.get_miss hk]
  rfl

theorem pageGet_hit (r : Repr c M) (hcap : c.capacity ≠ 0) (hk : M.find k = some key) : ∃ c',
    Http.PageCache.get c k = some (some key.value, c') ∧ Repr c' (M.touch k) ∧
      c'.capacity = c.capacity := by
  obtain ⟨c', hg, hr, hc⟩ := r.get_hit hcap hk []
  refine ⟨c', ?_, hr, hc⟩
  change (c.get k []).map _ = _
  rw [hg]
  rfl

end WebServer.Cache.Repr

namespace WebServer.Http

open Cache Utility

/-! ## Any sequence of requests -/

/-- A `GET`, on any connection, and the files as they are when it is served. -/
structure PageRequest where
  files : FileSystem
  conn : HttpConnection
  writes : List WriteResult
  isGet : conn.method = .get

/-- The server between requests: the page cache, and the size each page had when it was last looked
for on disk. -/
structure PageServer where
  cache : Cache.LFUCache
  sizeRead : Bytes → ℕ

namespace PageServer

def init (capacity : ℕ) : PageServer := ⟨Cache.LFUCache.init capacity, fun _ => 0⟩

/-- What `BuildResponse` runs on when it serves the request. -/
def handler (s : PageServer) (r : PageRequest) : Handler Cache.LFUCache where
  conn := r.conn
  cache := s.cache
  writes := r.writes

/-- The size of the requested file, noted unless the page is cached. -/
def noteSize (s : PageServer) (r : PageRequest) : Bytes → ℕ :=
  if r.conn.path ∈ s.cache.kmap then s.sizeRead
  else Function.update s.sizeRead r.conn.path (((r.files (cString r.conn.path)).map
    FileNode.stSize).getD 0)

/-- Serving one request. -/
def serve (s : PageServer) (r : PageRequest) : PageServer :=
  ⟨(buildResponse r.files (s.handler r)).2.cache, s.noteSize r⟩

/-- The condition: a page that is cached has the size on disk that it had when it was read. -/
def NotResized (s : PageServer) (r : PageRequest) : Prop := r.conn.fileName ≠ text "echo" →
  r.conn.path ∈ s.cache.kmap → ∀ file, r.files (cString r.conn.path) = some file →
    file.stSize = s.sizeRead r.conn.path

/-- **What requests keep**: a cached value has the size its page had when it was read. -/
structure Kept (s : PageServer) : Prop where
  sizes : ∃ M, Cache.Repr s.cache M ∧ (s.cache.capacity = 0 → M = []) ∧
    ∀ key ∈ M.entries, key.value.length = s.sizeRead key.key

theorem Kept.init (capacity : ℕ) : Kept (init capacity) :=
  ⟨[], Cache.Repr.init capacity, fun _ => rfl, fun _ h => absurd h List.not_mem_nil⟩

/-- The server keeps its promise while it serves one more request. -/
theorem Kept.serve {s : PageServer} (h : Kept s) (r : PageRequest) : Kept (s.serve r) := by
  obtain ⟨M, hr, h0, hM⟩ := h.sizes
  have hcache := buildResponse_cache r.files (s.handler r)
  unfold PageServer.serve
  generalize (buildResponse r.files (s.handler r)).2.cache = c at hcache ⊢
  by_cases hk : r.conn.path ∈ M.names
  · obtain ⟨key, hfind, hkey, -⟩ := Lists.exists_find hk
    have hcap : s.cache.capacity ≠ 0 := fun e => by
      rw [h0 e] at hkey
      exact absurd hkey List.not_mem_nil
    obtain ⟨c', hg, hr', hc'⟩ := hr.pageGet_hit hcap hfind
    have hnote : s.noteSize r = s.sizeRead := if_pos ((hr.mem_kmap _).mpr hk)
    have hperm := Lists.touch_perm (k := r.conn.path) M hr.names_nodup
    rw [hnote]
    cases hcache with
    | same => exact ⟨M, hr, h0, hM⟩
    | looked hg' =>
      obtain ⟨-, rfl⟩ := Prod.mk.inj (Option.some.inj (hg.symm.trans hg'))
      exact ⟨_, hr', fun e => absurd (hc'.symm.trans e) hcap,
        fun k hk => hM k (hperm.mem_iff.mp hk)⟩
    | filled hf hc hg' hs =>
      exact absurd (Prod.mk.inj (Option.some.inj (hg.symm.trans hg'))).1 (by simp)
  · have hg := hr.pageGet_miss (Lists.find_eq_none.mpr hk)
    have hne : ∀ key ∈ M.entries, key.key ≠ r.conn.path := fun key hkey e =>
      hk (e ▸ List.mem_map_of_mem hkey)
    have hM' : ∀ key ∈ M.entries, key.value.length = s.noteSize r key.key := by
      intro key hkey
      rw [noteSize, if_neg fun e => hk ((hr.mem_kmap _).mp e), Function.update_of_ne (hne key hkey)]
      exact hM key hkey
    cases hcache with
    | same => exact ⟨M, hr, h0, hM'⟩
    | looked hg' =>
      obtain ⟨-, rfl⟩ := Prod.mk.inj (Option.some.inj (hg.symm.trans hg'))
      exact ⟨M, hr, h0, hM'⟩
    | @filled file content _ _ hf hc hg' hs =>
      obtain ⟨-, rfl⟩ := Prod.mk.inj (Option.some.inj (hg.symm.trans hg'))
      by_cases hcap : s.cache.capacity = 0
      · obtain rfl : s.cache = c := by
          change s.cache.set _ _ = some c at hs
          rw [LFUCache.set, if_pos hcap] at hs
          exact Option.some.inj hs
        exact ⟨M, hr, h0, hM'⟩
      · have hroom := Lists.room_subset s.cache.capacity M
        obtain ⟨c', hs', hr', hc'⟩ := hr.set hcap ⟨r.conn.path, content⟩ fun e => by
          obtain ⟨key, hkey, hk'⟩ := List.mem_map.mp e
          exact hne key (hroom hkey) hk'
        obtain rfl : c' = c := Option.some.inj (hs'.symm.trans hs)
        refine ⟨_, hr', fun e => absurd (hc'.symm.trans e) hcap, ?_⟩
        intro key hkey
        rw [Lists.add, Lists.entries_bump, List.mem_cons] at hkey
        rcases hkey with rfl | hkey
        · have hnote : s.noteSize r r.conn.path = file.stSize := by
            have hf' : r.files (cString r.conn.path) = some file := hf
            rw [noteSize, if_neg fun e => hk ((hr.mem_kmap _).mp e), Function.update_self, hf']
            rfl
          exact (FileNode.length_of_mmap hc).trans hnote.symm
        · exact hM' key (hroom hkey)

/-- **One request's pages are framed exactly when its file was not resized** since it was cached. -/
theorem Kept.framedAt_iff {s : PageServer} (h : Kept s) (r : PageRequest) :
    FramedAt r.files (s.handler r) ↔ s.NotResized r := by
  obtain ⟨M, hr, h0, hM⟩ := h.sizes
  rw [Http.framedAt_iff r.files r.isGet rfl]
  constructor
  · intro hfits he hk file hf
    obtain ⟨key, hfind, hkey, hname⟩ := Lists.exists_find ((hr.mem_kmap _).mp hk)
    have hcap : s.cache.capacity ≠ 0 := fun e => by
      rw [h0 e] at hkey
      exact absurd hkey List.not_mem_nil
    obtain ⟨c', hg, -, -⟩ := hr.pageGet_hit hcap hfind
    rw [← hname, ← hM key hkey]
    exact (hfits he file hf _ _ hg).symm
  · intro hsize he file hf value cache hg
    by_cases hk : r.conn.path ∈ M.names
    · obtain ⟨key, hfind, hkey, hname⟩ := Lists.exists_find hk
      have hcap : s.cache.capacity ≠ 0 := fun e => by
        rw [h0 e] at hkey
        exact absurd hkey List.not_mem_nil
      obtain ⟨c', hg', -, -⟩ := hr.pageGet_hit hcap hfind
      obtain ⟨e, -⟩ := Prod.mk.inj (Option.some.inj (hg'.symm.trans hg))
      rw [← Option.some.inj e, hM key hkey, hname]
      exact (hsize he ((hr.mem_kmap _).mpr hk) file hf).symm
    · have hg' := hr.pageGet_miss (Lists.find_eq_none.mpr hk)
      exact absurd (Prod.mk.inj (Option.some.inj (hg'.symm.trans hg))).1 (by simp)

/-- The server after a sequence of requests. -/
def after (capacity : ℕ) (rs : List PageRequest) : PageServer := rs.foldl serve (init capacity)

theorem kept_after (capacity : ℕ) (rs : List PageRequest) : Kept (after capacity rs) := by
  have hfold : ∀ (rs : List PageRequest) (s : PageServer), Kept s → Kept (rs.foldl serve s) := by
    intro rs
    induction rs with
    | nil => exact fun s h => h
    | cons r rs ih => exact fun s h => ih _ (h.serve r)
  exact hfold rs _ (.init capacity)

/-- **The framing law, over any sequence of requests and file changes**: every page is framed
exactly when no request finds its page in the cache and its file resized. -/
theorem all_framed_iff (capacity : ℕ) (rs : List PageRequest) :
    (∀ rs' r, rs' ++ [r] <+: rs → FramedAt r.files ((after capacity rs').handler r)) ↔
      ∀ rs' r, rs' ++ [r] <+: rs → (after capacity rs').NotResized r :=
  forall₃_congr fun rs' r _ => (kept_after capacity rs').framedAt_iff r

/-- A `GET` of `/x`, when the file holds these bytes. -/
def getX (content : Bytes) : PageRequest where
  files path := if path = text "/pages/x" then some ⟨.regular content, true⟩ else none
  conn := { resourceDir := text "/pages/", fileName := text "x", method := .get }
  writes := []
  isGet := rfl

/-- **A file that grows while it is cached** is announced with its new length and served with its
old bytes. -/
theorem not_framed_of_grown : ¬ ∀ rs' r, rs' ++ [r] <+: [getX (text "a"), getX (text "ab")] →
    FramedAt r.files ((after 10 rs').handler r) := by
  intro h
  have hframed := h [getX (text "a")] (getX (text "ab")) (List.prefix_refl _)
  have hpath : cString (getX (text "ab")).conn.path = text "/pages/x" := by decide
  have hfile : (getX (text "ab")).files (cString (getX (text "ab")).conn.path)
      = some ⟨.regular (text "ab"), true⟩ := by
    rw [hpath]
    simp only [getX, if_true]
  have hsize := ((kept_after 10 _).framedAt_iff _).mp hframed (by decide)
    (by decide)
    _ hfile
  exact absurd hsize (by decide)

end PageServer

end WebServer.Http
