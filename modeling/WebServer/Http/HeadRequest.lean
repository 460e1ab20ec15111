import WebServer.Http.Framing

/-!
# Http/HeadRequest — a `HEAD` next to the `GET` of the same name

`BuildResponse` answers a `HEAD` as soon as `stat` has found the file; a `GET` has yet to open and
map it, unless it is cached.  So the two agree except on a file that is there and can be neither
(`headAgrees_iff`).
-/

namespace WebServer.Http

/-! ## The header block of a response -/

/-- **The status line and the header block**: a response up to its first empty line. -/
def headerPart : Bytes → Bytes
  | [] => []
  | c :: s => if (crlf ++ crlf).isPrefixOf (c :: s) then crlf ++ crlf else c :: headerPart s

theorem headerPart_append {l : Bytes} (hl : Chr.cr ∉ l) (s : Bytes) :
    headerPart (l ++ s) = l ++ headerPart s := by
  induction l with
  | nil => rfl
  | cons c l ih =>
    obtain ⟨hc, hl⟩ := not_or.mp fun h => hl (List.mem_cons.mpr h)
    have hne : (Chr.cr == c) = false := beq_eq_false_iff_ne.mpr hc
    rw [List.cons_append, headerPart, if_neg, ih hl, List.cons_append]
    simp [List.isPrefixOf, hne]

/-- **The lines of a block are its header**, whatever the body. -/
theorem headerPart_block (body : Bytes) : ∀ {ls : List Bytes}, ls ≠ [] → (∀ l ∈ ls, IsLine l) →
    headerPart (block ls ++ body) = block ls
  | [l], _, hls => by
      have hl := (hls l (List.mem_cons_self ..)).2
      rw [block_cons, List.append_assoc, headerPart_append hl]
      rfl
  | l :: l' :: ls, _, hls => by
      obtain ⟨hl, hls⟩ := List.forall_mem_cons.mp hls
      obtain ⟨c, m, hm⟩ := List.exists_cons_of_ne_nil (hls l' (List.mem_cons_self ..)).1
      have hc : Chr.cr ≠ c := by
        rintro rfl
        exact (hls l' (List.mem_cons_self ..)).2 (hm ▸ List.mem_cons_self ..)
      have ih := headerPart_block body (List.cons_ne_nil l' ls) hls
      have hcrlf : headerPart (crlf ++ (block (l' :: ls) ++ body))
          = crlf ++ headerPart (block (l' :: ls) ++ body) := by
        have hlf : Chr.cr ≠ Chr.lf := by decide
        rw [block_cons, hm]
        simp [headerPart, List.isPrefixOf, hc, hlf]
      rw [block_cons, List.append_assoc, List.append_assoc, headerPart_append hl.2, hcrlf, ih]

/-- The header lines of an error answer. -/
def errorLines (errorCode : ℕ) (errorMessage : Bytes) : List Bytes :=
  [text "HTTP/1.1 " ++ decimal errorCode ++ (text " " ++ errorMessage),
    text "Content-Type: text/html",
    text "Connection: Close",
    text "Content-Length: " ++ decimal (errorBody errorCode (text " " ++ errorMessage)).length,
    text "Server: lawson's tiny webserver"]

theorem errorResponse_eq (n : ℕ) (m : Bytes) :
    errorResponse n m = block (errorLines n m) ++ errorBody n (text " " ++ m) := by
  simp only [errorResponse, errorLines, block, List.flatMap_cons, List.flatMap_nil,
    List.append_assoc, List.nil_append]

theorem isLine_errorLines (n : ℕ) {m : Bytes} (hm : Chr.cr ∉ m) :
    ∀ l ∈ errorLines n m, IsLine l := by
  have hstatus : IsLine (text "HTTP/1.1 " ++ decimal n) :=
    isLine_append (by decide) (cr_notMem_decimal n)
  have hmessage : Chr.cr ∉ text " " ++ m := by
    rw [List.mem_append, not_or]
    exact ⟨by decide, hm⟩
  simp only [errorLines, List.forall_mem_cons]
  exact ⟨isLine_append hstatus hmessage, by decide, by decide +kernel,
    isLine_append (by decide) (cr_notMem_decimal _), by decide +kernel, nofun⟩

theorem headerPart_errorResponse (n : ℕ) {m : Bytes} (hm : Chr.cr ∉ m) :
    headerPart (errorResponse n m) = block (errorLines n m) := by
  rw [errorResponse_eq, headerPart_block _ (by simp [errorLines]) (isLine_errorLines n hm)]

theorem headerPart_page (c : HttpConnection) (file : FileNode) (body : Bytes) :
    headerPart (pageHeader c file ++ body) = pageHeader c file := by
  rw [pageHeader, block_pageLines, headerPart_block _ (by simp [pageLines])
    fun _ => isLine_of_mem_pageLines]

/-- **The header of a page is that of no error answer**: their status lines differ. -/
theorem pageHeader_ne (c : HttpConnection) (file : FileNode) {m : Bytes} (hm : Chr.cr ∉ m) :
    pageHeader c file ≠ block (errorLines 404 m) := by
  intro h
  rw [pageHeader, block_pageLines, ← List.append_nil (block (pageLines ..)),
    ← List.append_nil (block (errorLines ..))] at h
  have hlines := (block_inj (fun _ => isLine_of_mem_pageLines) (isLine_errorLines 404 hm) h).1
  have hstatus := congrArg (·[9]?) (List.cons.inj hlines).1
  rw [List.append_assoc, List.getElem?_append_right (by decide),
    List.getElem?_append_left (by decide)] at hstatus
  exact absurd hstatus (by decide)

/-! ## Both methods -/

/-- The same request with the method `m`. -/
def Handler.asking {κ : Type*} (h : Handler κ) (m : RequestMethod) : Handler κ :=
  h.update fun c => { c with method := m }

section Produces

variable {κ : Type*}

/-- The status line and the header block of the last answer. -/
def Handler.lastHeader (h : Handler κ) : Option Bytes :=
  h.answers.getLast?.map fun a => headerPart a.response

theorem lastHeader_of_log {h : Handler κ} {log : List OutEvent} {a : Answer} {x : Bytes}
    (hl : h.log = log ++ [.produced a] ∨ h.log = log ++ [.produced a, .accepted x]) :
    h.lastHeader = some (headerPart a.response) := by
  have hlast : h.answers.getLast? = some a := by
    obtain hl | hl := hl <;> rw [Handler.answers, hl, List.filterMap_append] <;>
      exact List.getLast?_concat
  rw [Handler.lastHeader, hlast, Option.map_some]

theorem lastHeader_refusePage (h : Handler κ) (n : ℕ) {m : Bytes} (hm : Chr.cr ∉ m) :
    (refusePage h n m).2.lastHeader = some (block (errorLines n m)) := by
  rw [← headerPart_errorResponse n hm]
  have hl : (refusePage h n m).2.log = h.log ++ [.produced ⟨.error, h.conn.method,
      h.conn.fileName, h.conn.requestHeaders, errorResponse n m⟩, .accepted _] :=
    List.append_assoc ..
  exact lastHeader_of_log (.inr hl)

theorem lastHeader_appendBody (h : Handler κ) (c : HttpConnection) (file : FileNode) (body : Bytes)
    (cache : κ) : ((appendBody h (pageHeader c file) body).setCache cache).lastHeader
      = some (pageHeader c file) := by
  have hl : ((appendBody h (pageHeader c file) body).setCache cache).log = h.log ++ [.produced
      ⟨.page, h.conn.method, h.conn.fileName, h.conn.requestHeaders, pageHeader c file ++ body⟩] :=
    rfl
  rw [lastHeader_of_log (x := []) (.inl hl), headerPart_page]

variable [PageCache κ]

/-- **A `HEAD` agrees with the `GET`** of the same name: the status line and the header block that
`BuildResponse` produces are the same, and the one fails exactly when the other does. -/
structure HeadAgrees (files : FileSystem) (h : Handler κ) : Prop where
  header : (buildResponse files (h.asking .head)).2.lastHeader
    = (buildResponse files (h.asking .get)).2.lastHeader
  error : (buildResponse files (h.asking .get)).1 = .error ↔
    (buildResponse files (h.asking .head)).1 = .error

variable {files : FileSystem} {h : Handler κ} {file : FileNode}

/-- Where there is no file, both are refused. -/
theorem headAgrees_forbidden (he : h.conn.fileName ≠ text "echo")
    (hf : files (cString h.conn.path) = none) : HeadAgrees files h := by
  obtain ⟨f, hget⟩ := buildResponse_forbidden files (h := h.asking .get) (by simp [Handler.asking])
    he hf
  obtain ⟨f', hhead⟩ := buildResponse_forbidden files (h := h.asking .head)
    (by simp [Handler.asking]) he hf
  have hm : Chr.cr ∉ text "Forbidden!" := by decide
  constructor
  · rw [hget, hhead, lastHeader_refusePage _ _ hm, lastHeader_refusePage _ _ hm]
  · rw [hget, hhead]
    exact Iff.rfl

/-- A `HEAD` of a file that is there succeeds. -/
theorem buildResponse_head (he : h.conn.fileName ≠ text "echo")
    (hf : files (cString h.conn.path) = some file) :
    (buildResponse files (h.asking .head)).1 = .success ∧
      (buildResponse files (h.asking .head)).2.lastHeader = some (pageHeader h.conn file) := by
  obtain ⟨h', d, hb⟩ := buildResponse_page files (h := h.asking .head)
    (by simp [Handler.asking]) he hf
  have hm : h'.conn.method = .head := d.method
  rw [hb, serveHeader, if_pos hm]
  exact ⟨rfl, lastHeader_appendBody h' (h.asking .head).conn file [] h'.cache⟩

end Produces

section Cached

variable {files : FileSystem} {h : Handler Cache.LFUCache} {file : FileNode}

/-- **A page cache as `Get` and `Set` leave it.** -/
def ValidCache (c : Cache.LFUCache) : Prop :=
  ∃ M, Cache.Repr c M ∧ (c.capacity = 0 → M = [])

/-- Looking a page up in it. -/
theorem ValidCache.get {c : Cache.LFUCache} (hc : ValidCache c) (k : Bytes) :
    (k ∈ c.kmap ∧ ∃ v c', PageCache.get c k = some (some v, c')) ∨
      (k ∉ c.kmap ∧ PageCache.get c k = some (none, c) ∧ ∀ v, (PageCache.set c k v).isSome) := by
  obtain ⟨M, hr, h0⟩ := hc
  by_cases hk : k ∈ M.names
  · obtain ⟨key, hfind, hkey, -⟩ := Cache.Lists.exists_find hk
    have hcap : c.capacity ≠ 0 := fun e => by
      rw [h0 e] at hkey
      exact absurd hkey List.not_mem_nil
    obtain ⟨c', hg, -⟩ := hr.pageGet_hit hcap hfind
    exact .inl ⟨(hr.mem_kmap k).mpr hk, _, c', hg⟩
  · refine .inr ⟨mt (hr.mem_kmap k).mp hk, hr.pageGet_miss (Cache.Lists.find_eq_none.mpr hk),
      fun v => ?_⟩
    change (c.set k v).isSome
    by_cases hcap : c.capacity = 0
    · rw [Cache.LFUCache.set, if_pos hcap]
      rfl
    · obtain ⟨c', hs, -⟩ := hr.set hcap ⟨k, v⟩ fun e => by
        obtain ⟨key, hkey, hk'⟩ := List.mem_map.mp e
        have hname : key.key = k := hk'
        exact hk (hname ▸ List.mem_map_of_mem (Cache.Lists.room_subset c.capacity M hkey))
      rw [hs]
      rfl

/-- **A `GET` gets at its page**: it is cached, or the file can be opened and mapped. -/
def Gettable (h : Handler Cache.LFUCache) (file : FileNode) : Prop :=
  h.conn.path ∈ h.cache.kmap ∨ file.readable ∧ file.mmap.isSome

/-- A `GET` of a file that is there succeeds exactly if it gets at the page. -/
theorem buildResponse_get (hc : ValidCache h.cache) (he : h.conn.fileName ≠ text "echo")
    (hf : files (cString h.conn.path) = some file) :
    (Gettable h file ∧ (buildResponse files (h.asking .get)).1 = .success ∧
      (buildResponse files (h.asking .get)).2.lastHeader = some (pageHeader h.conn file)) ∨
    (¬ Gettable h file ∧ (buildResponse files (h.asking .get)).1 = .error ∧
      (buildResponse files (h.asking .get)).2.lastHeader
        = some (block (errorLines 404 (text "Not Found!")))) := by
  obtain ⟨h', d, hb⟩ := buildResponse_page files (h := h.asking .get)
    (by simp [Handler.asking]) he hf
  have hget : PageCache.get h'.cache h'.conn.fileName = PageCache.get h.cache h.conn.path := by
    rw [d.cache, d.fileName]
    rfl
  have hm : Chr.cr ∉ text "Not Found!" := by decide
  have hmethod : h'.conn.method ≠ .head := by rw [d.method]; simp [Handler.asking]
  rw [hb, serveHeader, if_neg hmethod, serveBody, hget]
  obtain ⟨hk, v, c', hv⟩ | ⟨hk, hmiss, hset⟩ := hc.get h.conn.path
  · rw [hv]
    exact .inl ⟨.inl hk, rfl, lastHeader_appendBody h' (h.asking .get).conn file v c'⟩
  · rw [hmiss]
    dsimp only
    rw [serveFile]
    by_cases hr : file.readable
    · rw [if_neg (by simp [hr])]
      rcases hc : file.mmap with _ | content
      · refine .inr ⟨?_, rfl, lastHeader_refusePage _ _ hm⟩
        rintro (hk' | ⟨-, hmap⟩)
        · exact hk hk'
        · exact absurd hmap (by simp [hc])
      · obtain ⟨c', hs⟩ := Option.isSome_iff_exists.mp (hset content)
        have hs' : PageCache.set (h'.setCache h.cache).cache (h'.setCache h.cache).conn.fileName
            content = some c' := by
          rw [← hs]
          exact congrArg (PageCache.set h.cache · content) d.fileName
        dsimp only
        rw [hs']
        exact .inl ⟨.inr ⟨hr, by simp [hc]⟩, rfl,
          lastHeader_appendBody _ (h.asking .get).conn file content c'⟩
    · rw [if_pos (by simp [hr])]
      refine .inr ⟨?_, rfl, lastHeader_refusePage _ _ hm⟩
      rintro (hk' | ⟨hr', -⟩)
      · exact hk hk'
      · exact hr hr'

/-- **A `HEAD` agrees with the `GET`** exactly if there is no file, or the `GET` gets at its page.
-/
theorem headAgrees_iff (hc : ValidCache h.cache) (he : h.conn.fileName ≠ text "echo") :
    HeadAgrees files h ↔ ∀ file, files (cString h.conn.path) = some file → Gettable h file := by
  rcases hf : files (cString h.conn.path) with _ | file
  · exact iff_of_true (headAgrees_forbidden he hf) nofun
  · have hhead := buildResponse_head he hf
    simp only [Option.some_inj, forall_eq']
    obtain ⟨hg, hget⟩ | ⟨hg, hget⟩ := buildResponse_get hc he hf
    · refine iff_of_true ⟨?_, ?_⟩ hg
      · rw [hhead.2, hget.2]
      · rw [hhead.1, hget.1]
    · refine iff_of_false (fun hagree => ?_) hg
      have := hagree.header
      rw [hhead.2, hget.2, Option.some_inj] at this
      exact pageHeader_ne h.conn file (by decide) this

theorem ValidCache.init (capacity : ℕ) : ValidCache (.init capacity) :=
  ⟨[], Cache.Repr.init capacity, fun _ => rfl⟩

/-- A request of `/x`, before anything is cached. -/
def askX : Handler Cache.LFUCache where
  conn := { resourceDir := text "/pages/", fileName := text "x" }
  cache := .init 10

/-- A file of one byte on every path. -/
theorem headAgrees_oneByte : HeadAgrees (fun _ => some ⟨.regular [0], true⟩) askX :=
  (headAgrees_iff (.init 10) (by decide)).mpr fun file hf => by
    obtain rfl := Option.some.inj hf
    exact .inr ⟨rfl, rfl⟩

/-- **An empty file** has a header, but is no page. -/
theorem not_headAgrees_empty : ¬ HeadAgrees (fun _ => some ⟨.regular [], true⟩) askX :=
  fun h => absurd h.error (by decide)

end Cached

end WebServer.Http
