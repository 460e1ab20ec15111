import WebServer.Http.Answer
import WebServer.Http.LineText
import WebServer.Lib.Path

/-!
# Http/DocumentRoot — where the requested files are

`BuildResponse` puts the resource directory in front of the name from the request line and passes
the result to `stat`, to the page cache and to `open`.  Nothing looks at the `..` of a name: what
the line asks for leads out of the directory unless it comes back (`confined_iff`).
-/

namespace WebServer.Http

/-- `resource_dir_`, as the constructor sets it in the working directory `cwd`. -/
def resourceDirOf (cwd : Bytes) : Bytes := cString cwd ++ text "/pages/"

/-! ## The paths that are passed on -/

section PassedPaths

variable {κ : Type*}

/-- **The paths that `BuildResponse` passes on**: to `stat`, to the page cache, to `open` and, with
the page, to the cache again. -/
def passedPaths [PageCache κ] (files : FileSystem) (h : Handler κ) : List Bytes :=
  if h.conn.method = .post ∨ h.conn.fileName = text "echo" then []
  else
    cString h.conn.path :: match files (cString h.conn.path) with
      | none => []
      | some file =>
        if h.conn.method = .head then []
        else
          h.conn.path :: match PageCache.get h.cache h.conn.path with
            | some (none, _) =>
              cString h.conn.path :: if file.readable && file.mmap.isSome then [h.conn.path] else []
            | _ => []

variable {I I' : PageCache κ} {files files' : FileSystem} {h h' : Handler κ} {header : Bytes}
  {file : FileNode}

/-- Two caches that cannot be told apart by the keys in `paths`. -/
def SameAt (I I' : PageCache κ) (paths : List Bytes) : Prop := ∀ p ∈ paths, ∀ cache,
  I.get cache p = I'.get cache p ∧ ∀ content, I.set cache p content = I'.set cache p content

theorem serveFile_congr (hset : file.readable → ∀ content, file.mmap = some content →
      I.set h.cache h.conn.fileName content = I'.set h.cache h.conn.fileName content) :
    @serveFile κ I h header file = @serveFile κ I' h header file := by
  unfold serveFile
  by_cases hr : file.readable
  · rcases hm : file.mmap with _ | content
    · rfl
    · dsimp only
      rw [hset hr content hm]
  · rw [if_pos (by simp [hr]), if_pos (by simp [hr])]

theorem serveBody_congr (hget : I.get h.cache h.conn.fileName = I'.get h.cache h.conn.fileName)
    (hset : ∀ cache, I.get h.cache h.conn.fileName = some (none, cache) → file.readable →
      ∀ content, file.mmap = some content →
        I.set cache h.conn.fileName content = I'.set cache h.conn.fileName content) :
    @serveBody κ I h header file = @serveBody κ I' h header file := by
  unfold serveBody
  rw [← hget]
  rcases hg : I.get h.cache h.conn.fileName with _ | ⟨_ | value, cache⟩
  · rfl
  · exact serveFile_congr (hset cache hg)
  · rfl

/-- The handler behind the name of the file that is looked for. -/
def withPath (h : Handler κ) : Handler κ :=
  (h.update noteKeepAlive).update fun c => { c with fileName := c.resourceDir ++ c.fileName }

theorem withPath_fileName (h : Handler κ) : (withPath h).conn.fileName = h.conn.path :=
  path_noteKeepAlive h.conn

theorem withPath_method (h : Handler κ) : (withPath h).conn.method = h.conn.method := by
  change (noteKeepAlive h.conn).method = _
  unfold noteKeepAlive
  split <;> rfl

theorem buildPage_congr {fileType : Bytes}
    (hfile : files' (cString h.conn.fileName) = files (cString h.conn.fileName))
    (hserve : ∀ file, files (cString h.conn.fileName) = some file → ∀ f header,
      (∀ c : HttpConnection, (f c).fileName = c.fileName ∧ (f c).method = c.method) →
        @serveHeader κ I' (h.update f) header file = @serveHeader κ I (h.update f) header file) :
    @buildPage κ I' files' h fileType = @buildPage κ I files h fileType := by
  unfold buildPage
  rw [hfile]
  rcases hf : files (cString h.conn.fileName) with _ | file
  · rfl
  · exact hserve file hf _ _ fun c => ⟨rfl, rfl⟩

/-- **No other path is passed on**: an answer depends on the files and on the cache at these only.
-/
theorem buildResponse_congr (hfiles : ∀ p ∈ @passedPaths κ I files h, files' p = files p)
    (hcache : SameAt I I' (@passedPaths κ I files h)) :
    @buildResponse κ I' files' h = @buildResponse κ I files h := by
  unfold passedPaths at hfiles hcache
  unfold buildResponse
  by_cases hm : h.conn.method = .post
  · rw [if_pos hm, if_pos hm]
  by_cases he : h.conn.fileName = text "echo"
  · rw [if_neg hm, if_neg hm, if_pos he, if_pos he]
  rw [if_neg (not_or.mpr ⟨hm, he⟩)] at hfiles hcache
  rw [if_neg hm, if_neg hm, if_neg he, if_neg he]
  change @buildPage κ I' files' (withPath h) _ = @buildPage κ I files (withPath h) _
  refine buildPage_congr ?_ fun file hf f header hsame => ?_
  · rw [withPath_fileName]
    exact hfiles _ (List.mem_cons_self ..)
  · rw [withPath_fileName] at hf
    rw [hf] at hcache
    unfold serveHeader
    have hmethod : ((withPath h).update f).conn.method = h.conn.method :=
      (hsame _).2.trans (withPath_method h)
    have hname : ((withPath h).update f).conn.fileName = h.conn.path :=
      (hsame _).1.trans (withPath_fileName h)
    have hconn : ((withPath h).update f).cache = h.cache := rfl
    by_cases hhead : h.conn.method = .head
    · rw [hmethod, if_pos hhead, if_pos hhead]
    · rw [hmethod, if_neg hhead, if_neg hhead]
      dsimp only at hcache
      rw [if_neg hhead] at hcache
      symm
      refine serveBody_congr ?_ fun cache hg hr content hc => ?_
      · rw [hname]
        exact (hcache _ (by simp) _).1
      · rw [hname, hconn] at hg
        rw [hname]
        refine (hcache h.conn.path ?_ cache).2 content
        simp

end PassedPaths

/-! ## Where they lead -/

theorem zero_notMem_resourceDirOf (cwd : Bytes) : (0 : UInt8) ∉ resourceDirOf cwd := by
  rw [resourceDirOf, List.mem_append, not_or]
  exact ⟨zero_notMem_cString cwd, by decide⟩

theorem getLast?_resourceDirOf (cwd : Bytes) :
    (resourceDirOf cwd).getLast? = some Chr.slash := by
  rw [resourceDirOf, List.getLast?_append_of_ne_nil _ (by decide)]
  decide

/-- **The request line in the buffer of `c` was accepted**, and `h` is about to answer it. -/
structure LineAccepted {κ : Type*} (c : HttpConnection) (h : Handler κ) : Prop where
  accepted : (parseRequestLine c).1 = .success
  method : h.conn.method = (parseRequestLine c).2.method
  fileName : h.conn.fileName = (parseRequestLine c).2.fileName

/-- **What an accepted line sets** is the method of the line and the name behind its word. -/
theorem LineAccepted.asked {κ : Type*} {c : HttpConnection} {h : Handler κ}
    (hline : LineAccepted c h) {line after name : Bytes} {m : RequestMethod}
    (hread : requestLineOf c.readBuffer = line)
    (hword : MethodWord line m after) (hname : NameBehind after name) :
    h.conn.method = m ∧ h.conn.fileName = name := by
  obtain ⟨before, hcut, hmethod⟩ := hword.lineMethod_eq
  have hfile := lineFileName_eq hname before (slash_notMem_methodWord m) rfl
  rw [← hcut] at hfile
  rw [hline.method, hline.fileName, parseRequestLine, hread, readRequestLine, hmethod]
  dsimp only
  rw [hfile]
  split <;> exact ⟨rfl, rfl⟩

theorem LineAccepted.exists_asked {κ : Type*} {c : HttpConnection} {h : Handler κ}
    (hline : LineAccepted c h) :
    ∃ m after name, MethodWord (requestLineOf c.readBuffer) m after ∧ NameBehind after name := by
  have haccepted := hline.accepted
  rw [parseRequestLine, readRequestLine] at haccepted
  cases hm : lineMethod (requestLineOf c.readBuffer) with
  | none =>
    rw [hm] at haccepted
    exact absurd haccepted (by simp)
  | some r =>
    obtain ⟨m, start⟩ := r
    obtain ⟨after, hword⟩ := exists_methodWord hm
    obtain ⟨name, hname⟩ := exists_nameBehind after
    exact ⟨m, after, name, hword, hname⟩

section Confined

variable {κ : Type*} [PageCache κ]

/-- **Every path that is passed on leads to the resource directory or below**, whatever files there
are. -/
def Confined (workingDir : List Bytes) (h : Handler κ) : Prop :=
  ∀ files, ∀ p ∈ passedPaths files h, Path.Within workingDir h.conn.resourceDir p

/-- **A line that asks for nothing outside** `location`: it posts, or asks for the echo, or the name
behind its method's word comes back, also as the kernel reads it. -/
def LineInside (location : List Bytes) (line : Bytes) : Prop :=
  ∃ m after name, MethodWord line m after ∧ NameBehind after name ∧
    (m = .post ∨ name = text "echo" ∨
      Path.ComesBack location (cString name) ∧ (m = .get → Path.ComesBack location name))

/-- A directory with one empty file on every path. -/
def everyFile : FileSystem := fun _ => some ⟨.regular [], true⟩

/-- Two paths are passed on, and only a `GET` comes to the cache. -/
theorem eq_of_mem_passedPaths {files : FileSystem} {h : Handler κ} {p : Bytes}
    (hp : p ∈ passedPaths files h) :
    p = cString h.conn.path ∨ h.conn.method = .get ∧ p = h.conn.path := by
  rw [passedPaths] at hp
  split at hp
  · exact absurd hp List.not_mem_nil
  · next hnone =>
    obtain rfl | hp := List.mem_cons.mp hp
    · exact .inl rfl
    · split at hp
      · exact absurd hp List.not_mem_nil
      · split at hp
        · exact absurd hp List.not_mem_nil
        · next hhead =>
          have hget : h.conn.method = .get := by
            cases hm : h.conn.method with
            | get => rfl
            | post => exact absurd (.inl hm) hnone
            | head => exact absurd hm hhead
          obtain rfl | hp := List.mem_cons.mp hp
          · exact .inr ⟨hget, rfl⟩
          · split at hp
            · obtain rfl | hp := List.mem_cons.mp hp
              · exact .inl rfl
              · split at hp
                · exact .inr ⟨hget, List.mem_singleton.mp hp⟩
                · exact absurd hp List.not_mem_nil
            · exact absurd hp List.not_mem_nil

/-- **The paths lead nowhere else** exactly if the name comes back. -/
theorem confined_iff_comesBack (workingDir : List Bytes) (cwd : Bytes) {h : Handler κ}
    (hdir : h.conn.resourceDir = resourceDirOf cwd) : Confined workingDir h ↔
      h.conn.method = .post ∨ h.conn.fileName = text "echo" ∨
        Path.ComesBack (Path.resolve workingDir (resourceDirOf cwd)) (cString h.conn.fileName) ∧
          (h.conn.method = .get →
            Path.ComesBack (Path.resolve workingDir (resourceDirOf cwd)) h.conn.fileName) := by
  have hlast : h.conn.resourceDir.getLast? = some Chr.slash := by rw [hdir, getLast?_resourceDirOf]
  have hkernel : cString h.conn.path = h.conn.resourceDir ++ cString h.conn.fileName := by
    rw [HttpConnection.path, cString_append, if_neg (hdir ▸ zero_notMem_resourceDirOf cwd)]
  rw [← hdir, ← Path.within_append_iff hlast, ← Path.within_append_iff hlast, ← hkernel]
  by_cases hnone : h.conn.method = .post ∨ h.conn.fileName = text "echo"
  · refine iff_of_true (fun files p hp => ?_) (or_assoc.mp (.inl hnone))
    rw [passedPaths, if_pos hnone] at hp
    exact absurd hp List.not_mem_nil
  rw [← or_assoc, or_iff_right hnone]
  constructor
  · intro hc
    have hpassed := hc everyFile
    rw [passedPaths, if_neg hnone] at hpassed
    refine ⟨hpassed _ (List.mem_cons_self ..), fun hget => hpassed _ ?_⟩
    simp [everyFile, hget, HttpConnection.path]
  · rintro ⟨hk, hfull⟩ files p hp
    obtain rfl | ⟨hget, rfl⟩ := eq_of_mem_passedPaths hp
    · exact hk
    · exact hfull hget

/-- **The resource directory is kept** exactly if an accepted line asks for nothing outside it. -/
theorem confined_iff (workingDir : List Bytes) (cwd : Bytes) {c : HttpConnection} {h : Handler κ}
    (hline : LineAccepted c h) (hdir : h.conn.resourceDir = resourceDirOf cwd) :
    Confined workingDir h ↔ LineInside (Path.resolve workingDir (resourceDirOf cwd))
      (c.readBuffer.takeWhile (· ≠ Chr.cr)) := by
  rw [confined_iff_comesBack workingDir cwd hdir, ← requestLineOf_eq]
  constructor
  · intro hinside
    obtain ⟨m, after, name, hword, hname⟩ := hline.exists_asked
    obtain ⟨rfl, rfl⟩ := hline.asked rfl hword hname
    exact ⟨_, after, _, hword, hname, hinside⟩
  · rintro ⟨m, after, name, hword, hname, hinside⟩
    obtain ⟨rfl, rfl⟩ := hline.asked rfl hword hname
    exact hinside

/-- A connection in `/srv` with `line` in its buffer. -/
def inSrv (line : Bytes) : HttpConnection where
  resourceDir := resourceDirOf (text "/srv")
  readBuffer := line ++ crlf

/-- A name in the directory: `..` takes back the name before it. -/
theorem confined_index : Confined [] (κ := Cache.LFUCache)
    { conn := (parseRequestLine (inSrv (text "GET /a/../x HTTP/1.1"))).2, cache := .init 0 } := by
  refine (confined_iff [] (text "/srv") ⟨by decide, rfl, rfl⟩ (by decide +kernel)).mpr ?_
  have hname : NameBehind (text " " ++ Chr.slash :: (text "a/../x" ++ text " HTTP/1.1"))
      (text "a/../x") :=
    .name (by decide) (by decide +kernel) (by decide +kernel) (by decide +kernel)
  exact ⟨.get, _, _, ⟨by simp [RequestLine.earlier], [], by decide, by decide +kernel⟩,
    hname, .inr (.inr (by decide))⟩

/-- **`GET /../x`** is accepted, and leads to a file beside the directory. -/
theorem not_confined_up : (parseRequestLine (inSrv (text "GET /../x HTTP/1.1"))).1 = .success ∧
    ¬ Confined [] (κ := Cache.LFUCache)
      { conn := (parseRequestLine (inSrv (text "GET /../x HTTP/1.1"))).2, cache := .init 0 } :=
  ⟨by decide, fun h =>
    absurd (h (fun _ => none) _ (List.mem_cons_self ..)) (by decide)⟩

end Confined

end WebServer.Http
