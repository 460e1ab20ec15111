import WebServer.Cache.LFUCache
import WebServer.Http.HandleRead

/-!
# Http/Answer — what an answer is, and what it does to the write buffer

`BuildResponse` ends in one of four ways (`Answered`): a page is appended to the write buffer, the
echo answer replaces it, an error answer replaces it and empties it, or the cache breaks off.
-/

namespace WebServer.Http

open Event Utility

/-! ## The page cache -/

/-- **The server's page cache.** -/
instance : PageCache Cache.LFUCache where
  get c key := (c.get key []).map fun r => (if r.1 then some r.2.1 else none, r.2.2)
  set := Cache.LFUCache.set

/-! ## How a response comes about -/

section Answers

variable {κ : Type*}

/-- An error answer, as the log shows it: produced, then as much of it sent as the socket takes. -/
theorem returnErrorMessage_log (h : Handler κ) (n : ℕ) (m : Bytes) : ∃ a x, a.kind = .error ∧
    x <+: a.response ∧ (returnErrorMessage h n m).log = h.log ++ [.produced a, .accepted x] := by
  refine ⟨_, _, ?_, ?_, List.append_assoc _ _ _⟩
  · rfl
  · exact write_accepted_isPrefix _ _

variable [PageCache κ] (files : FileSystem)

/-- The path of the requested file. -/
def HttpConnection.path (c : HttpConnection) : Bytes := c.resourceDir ++ c.fileName

theorem path_noteKeepAlive (c : HttpConnection) : (noteKeepAlive c).path = c.path := by
  unfold noteKeepAlive
  split <;> rfl

/-- The header block of a page. -/
def pageHeader (c : HttpConnection) (file : FileNode) : Bytes :=
  headerStart (wantsKeepAlive c.requestHeaders) ++ headerRest (fileTypeOf c.fileName) file.stSize

/-- **Where the body of a page comes from.** -/
inductive PageBody (h : Handler κ) (file : FileNode) : Bytes → Prop
  | head (hm : h.conn.method = .head) : PageBody h file []
  | cached {value : Bytes} {cache : κ} (hm : h.conn.method ≠ .head)
      (hg : PageCache.get h.cache h.conn.path = some (some value, cache)) : PageBody h file value
  | mapped {content : Bytes} {cache : κ} (hm : h.conn.method ≠ .head)
      (hg : PageCache.get h.cache h.conn.path = some (none, cache))
      (hf : file.mmap = some content) : PageBody h file content

/-- The page, as the log records it. -/
def pageAnswer (c : HttpConnection) (file : FileNode) (body : Bytes) : Answer :=
  ⟨.page, c.method, c.path, c.requestHeaders, pageHeader c file ++ body⟩

/-- The echo answer, as the log records it. -/
def echoAnswer (c : HttpConnection) : Answer :=
  ⟨.echo, c.method, c.fileName, c.requestHeaders, echoResponse⟩

/-- **How `BuildResponse` ends.** -/
inductive Answered (h : Handler κ) : ResponseState × Handler κ → Prop
  | page {h' : Handler κ} {file : FileNode} {body : Bytes}
      (hf : files (cString h.conn.path) = some file) (hb : PageBody h file body)
      (hl : h'.log = h.log ++ [.produced (pageAnswer h.conn file body)])
      (hw : h'.conn.writeBuffer = h.conn.writeBuffer ++ (pageHeader h.conn file ++ body))
      (hx : h'.fault = h.fault) : Answered h (.success, h')
  | echo {h' : Handler κ} (hl : h'.log = h.log ++ [.produced (echoAnswer h.conn)])
      (hw : h'.conn.writeBuffer = echoResponse) (hx : h'.fault = h.fault) :
        Answered h (.success, h')
  | refused {h' : Handler κ} {a : Answer} {x : Bytes} (hk : a.kind = .error) (ha : x <+: a.response)
      (hl : h'.log = h.log ++ [.produced a, .accepted x]) (hx : h'.fault = h.fault) :
      Answered h (.error, h')
  | broken {h' : Handler κ} (hl : h'.log = h.log) (hx : h'.fault.isSome) : Answered h (.error, h')

theorem refusePage_answered (h h' : Handler κ) (n : ℕ) (m : Bytes) (hl : h'.log = h.log)
    (hx : h'.fault = h.fault) : Answered files h (refusePage h' n m) := by
  obtain ⟨a, x, hk, ha, hlog⟩ :=
    returnErrorMessage_log (h'.update fun c => { c with writeBuffer := [] }) n m
  refine .refused hk ha ?_ hx
  rw [hlog, ← hl]
  rfl

/-- The state `BuildResponse` is in when the header block has been appended. -/
structure HeaderDone (h h' : Handler κ) (file : FileNode) : Prop where
  writeBuffer : h'.conn.writeBuffer = h.conn.writeBuffer ++ pageHeader h.conn file
  fileName : h'.conn.fileName = h.conn.path
  method : h'.conn.method = h.conn.method
  requestHeaders : h'.conn.requestHeaders = h.conn.requestHeaders
  log : h'.log = h.log
  fault : h'.fault = h.fault
  cache : h'.cache = h.cache

/-- Appending a body to a header block completes a page. -/
theorem HeaderDone.answered {h h' : Handler κ} {file : FileNode} (d : HeaderDone h h' file)
    (hf : files (cString h.conn.path) = some file) {body : Bytes} (hb : PageBody h file body)
    (cache : κ) : Answered files h
      (.success, (appendBody h' (pageHeader h.conn file) body).setCache cache) := by
  refine .page hf hb ?_ ?_ d.fault
  · simp only [appendBody, Handler.setCache_log, Handler.produce_log, Handler.update_log,
      Handler.update_conn, d.log, d.method, d.fileName, d.requestHeaders]
    rfl
  · simp only [appendBody, Handler.setCache_conn, Handler.produce_conn, Handler.update_conn,
      d.writeBuffer, List.append_assoc]

theorem HeaderDone.serveHeader {h h' : Handler κ} {file : FileNode} (d : HeaderDone h h' file)
    (hf : files (cString h.conn.path) = some file) :
    Answered files h (serveHeader h' (pageHeader h.conn file) file) := by
  have hget : PageCache.get h'.cache h'.conn.fileName = PageCache.get h.cache h.conn.path := by
    rw [d.cache, d.fileName]
  unfold Http.serveHeader Http.serveBody
  split
  · next hm =>
    exact d.answered files hf (.head (d.method.symm.trans hm)) h'.cache
  · next hm =>
    rw [d.method] at hm
    split
    · exact .broken d.log rfl
    · next value cache hg => exact d.answered files hf (.cached hm (hget.symm.trans hg)) cache
    · next cache hg =>
      unfold serveFile
      split
      · exact refusePage_answered files h _ _ _ d.log d.fault
      · split
        · exact refusePage_answered files h _ _ _ d.log d.fault
        · next content hc =>
          split
          · exact .broken d.log rfl
          · next cache' _ =>
            exact d.answered files hf (.mapped hm (hget.symm.trans hg) hc) cache'

/-- A `GET` or `HEAD` of a file that is there reaches its header block. -/
theorem buildResponse_page {h : Handler κ} {file : FileNode} (hm : h.conn.method ≠ .post)
    (he : h.conn.fileName ≠ text "echo") (hf : files (cString h.conn.path) = some file) :
    ∃ h', HeaderDone h h' file ∧
      buildResponse files h = Http.serveHeader h' (pageHeader h.conn file) file := by
  have hn := path_noteKeepAlive h.conn
  have hh : wantsKeepAlive (noteKeepAlive h.conn).requestHeaders
      = wantsKeepAlive h.conn.requestHeaders := by
    unfold noteKeepAlive
    split <;> rfl
  rw [buildResponse, if_neg hm, if_neg he, buildPage, Handler.update_conn, Handler.update_conn]
  dsimp only
  rw [← HttpConnection.path, hn, hf, hh]
  refine ⟨_, ?_, rfl⟩
  unfold noteKeepAlive
  constructor <;> simp only [Handler.update] <;> split <;> rfl

/-- A `GET` or `HEAD` of a file that is not there is refused. -/
theorem buildResponse_forbidden {h : Handler κ} (hm : h.conn.method ≠ .post)
    (he : h.conn.fileName ≠ text "echo") (hf : files (cString h.conn.path) = none) :
    ∃ f, buildResponse files h = refusePage (h.update f) 403 (text "Forbidden!") := by
  have hn := path_noteKeepAlive h.conn
  rw [buildResponse, if_neg hm, if_neg he, buildPage, Handler.update_conn, Handler.update_conn]
  dsimp only
  rw [← HttpConnection.path, hn, hf]
  exact ⟨fun c => { noteKeepAlive c with fileName := (noteKeepAlive c).path }, rfl⟩

/-- **`BuildResponse`, by its outcome.** -/
theorem buildResponse_answered (h : Handler κ) : Answered files h (buildResponse files h) := by
  by_cases hm : h.conn.method = .post
  · rw [buildResponse, if_pos hm]
    exact refusePage_answered files h h _ _ rfl rfl
  · by_cases he : h.conn.fileName = text "echo"
    · rw [buildResponse, if_neg hm, if_pos he]
      refine .echo ?_ rfl rfl
      unfold noteKeepAlive
      simp only [serveEcho, Handler.produce_log, Handler.update_conn, Handler.update_log]
      split <;> rfl
    · rcases hf : files (cString h.conn.path) with _ | file
      · obtain ⟨c, hb⟩ := buildResponse_forbidden files hm he hf
        rw [hb]
        exact refusePage_answered files h _ _ _ rfl rfl
      · obtain ⟨h', d, hb⟩ := buildResponse_page files hm he hf
        rw [hb]
        exact d.serveHeader files hf

end Answers

/-! ## An answer that is not yet sent -/

section Success

variable {κ : Type*} [PageCache κ] (files : FileSystem)

theorem writes_serveHeader {h : Handler κ} {header : Bytes} {file : FileNode}
    (hs : (serveHeader h header file).1 = .success) :
    (serveHeader h header file).2.writes = h.writes := by
  unfold serveHeader serveBody serveFile at hs ⊢
  split
  · rfl
  · next hm =>
    rw [if_neg hm] at hs
    split
    · rfl
    · rfl
    · next cache hg =>
      simp only [hg] at hs
      split
      · next hr =>
        rw [if_pos hr] at hs
        exact absurd hs (by simp [refusePage])
      · next hr =>
        rw [if_neg hr] at hs
        split
        · next hf =>
          simp only [hf] at hs
          exact absurd hs (by simp [refusePage])
        · split <;> rfl

/-- A page or the echo answer is not yet sent. -/
theorem writes_buildResponse {h : Handler κ} (hs : (buildResponse files h).1 = .success) :
    (buildResponse files h).2.writes = h.writes := by
  by_cases hm : h.conn.method = .post
  · rw [buildResponse, if_pos hm] at hs
    exact absurd hs (by simp [refusePage])
  · by_cases he : h.conn.fileName = text "echo"
    · rw [buildResponse, if_neg hm, if_pos he]
      rfl
    · rw [buildResponse, if_neg hm, if_neg he, buildPage] at hs ⊢
      split
      · next hf =>
        simp only [hf] at hs
        exact absurd hs (by simp [refusePage])
      · next file hf =>
        simp only [hf] at hs
        exact writes_serveHeader hs

end Success

end WebServer.Http
