import WebServer.Cache.Races
import WebServer.Event.Client
import WebServer.Event.KeepAlive

/-!
# Event/Served — requests for one page

A request that comes in one piece, for a page that can be had, is answered with that page and leaves
the connection between two requests (`replied_handleRead`); an event that brings nothing leaves it
there.  So a connection on which nothing else comes answers each request, however its answers are
sent (`serving_of_run`).
-/

namespace WebServer.Event

open Http Utility

/-! ## Requests and pages -/

/-- **A request for a page**: its line is read, and asks for a file; its fields are not too long,
and its header ends where the scanner finds its end. -/
structure Asks (r : Request) (fileName : Bytes) : Prop where
  line (c : HttpConnection) : readRequestLine r.line c = (.success, { c with
    method := r.readMethod, fileName := fileName, version := r.version })
  method_ne : r.readMethod ≠ .post
  fileName_ne : fileName ≠ text "echo"
  short : r.Short
  ends : r.Ends

/-- **A document**: the directory it is served from, its name and its content. -/
structure Document where
  dir : Bytes
  name : Bytes
  content : Bytes

def Document.path (d : Document) : Bytes := d.dir ++ d.name

/-- Its file. -/
def Document.file (d : Document) : FileNode := ⟨.regular d.content, true⟩

/-- A cache that loops have come to. -/
def Reached (cache : Cache.LFUCache) : Prop := ∃ capacity as s,
  Run Cache.Step (Cache.Server.init ℕ capacity) as s ∧ s.cache = cache

/-- **A document that can be had**: it is a file that can be read and mapped, and the cache holds
nothing else under its path. -/
structure Available (files : FileSystem) (cache : Cache.LFUCache) (d : Document) : Prop where
  content_ne : d.content ≠ []
  file : files (cString d.path) = some d.file
  reached : Reached cache
  cached : ∀ value cache', PageCache.get cache d.path = some (some value, cache') →
    value = d.content

/-- A connection between two requests, with what is left to send. -/
structure Between (dir : Bytes) (c : HttpConnection) : Prop where
  resourceDir : c.resourceDir = dir
  isError : c.isError = false
  connectionState : c.connectionState = .connected
  processState : c.processState = .parseLine
  parseState : c.parseState = .start
  requestHeaders : c.requestHeaders = fun _ => none
  readBuffer : c.readBuffer = []

/-- **The answer to a request**: the header block of the document and, unless it was a `HEAD`, the
document. -/
structure Answers (r : Request) (d : Document) (a : Answer) : Prop where
  kind : a.kind = .page
  method : a.method = r.readMethod
  fileName : a.fileName = d.path
  requestHeaders : a.requestHeaders = r.headerMap
  response : a.response = headerStart (wantsKeepAlive r.headerMap) ++
    headerRest (fileTypeOf d.name) d.content.length ++
      if r.readMethod = .head then [] else d.content

/-! ## A page is served -/

section Page

variable {h h' : Handler Cache.LFUCache} {files : FileSystem} {r : Request} {d : Document}

theorem Reached.stray {cache : Cache.LFUCache} (h : Reached cache) : ∃ M, Cache.Stray cache M := by
  obtain ⟨capacity, as, s, r, rfl⟩ := h
  have hinit : Cache.Tracked (.init ℕ capacity) [] (.init ℕ capacity) :=
    ⟨[], .init capacity, rfl, fun _ h => absurd h List.not_mem_nil⟩
  obtain ⟨M, hM, -⟩ : Cache.Tracked (.init ℕ capacity) as s :=
    Run.history (fun _ _ _ _ r h hs => h.step r hs) (.nil _) hinit r
  exact ⟨M, hM⟩

/-- A document that can be had is appended. -/
theorem serveHeader_available (done : HeaderDone h h' d.file) (ha : Available files h.cache d)
    (hpath : h.conn.path = d.path) :
    ∃ cache, Http.serveHeader h' (pageHeader h.conn d.file) d.file =
      (.success, (appendBody h' (pageHeader h.conn d.file)
        (if h.conn.method = .head then [] else d.content)).setCache cache) := by
  obtain ⟨M, hM⟩ := ha.reached.stray
  by_cases hm : h.conn.method = .head
  · rw [if_pos hm]
    exact ⟨h'.cache, if_pos (done.method.trans hm)⟩
  rw [if_neg hm, Http.serveHeader, if_neg (done.method ▸ hm), serveBody, done.cache, done.fileName,
    hpath]
  have hget : ∃ value cache M', PageCache.get h.cache d.path = some (value, cache) ∧
      Cache.Stray cache M' := by
    obtain hmiss | ⟨key, c', M', -, -, hget, hM', -⟩ := hM.get_cases d.path []
    · exact ⟨none, h.cache, M, by simp [PageCache.get, hmiss], hM⟩
    · exact ⟨some key.value, c', M', by simp [PageCache.get, hget], hM'⟩
  obtain ⟨value, cache, M', hget, hM'⟩ := hget
  rw [hget]
  cases value with
  | some value =>
    obtain rfl := ha.cached value cache hget
    exact ⟨cache, rfl⟩
  | none =>
    have hmap : d.file.mmap = some d.content := if_neg ha.content_ne
    have hset : ∃ cache', PageCache.set cache d.path d.content = some cache' := by
      obtain ⟨-, hset⟩ | ⟨c', -, hset, -⟩ := hM'.set_cases ⟨d.path, d.content⟩
      · exact ⟨cache, hset⟩
      · exact ⟨c', hset⟩
    obtain ⟨cache', hset⟩ := hset
    have hname : h'.conn.fileName = d.path := done.fileName.trans hpath
    refine ⟨cache', ?_⟩
    simp only [serveFile, hmap, Handler.setCache_cache, Handler.setCache_conn, hname, hset]
    rfl

/-- **`BuildResponse`, for a document that can be had.** -/
theorem buildResponse_available (hm : h.conn.method ≠ .post)
    (he : h.conn.fileName ≠ text "echo") (ha : Available files h.cache d)
    (hpath : h.conn.path = d.path) :
    (buildResponse files h).1 = .success ∧ (buildResponse files h).2.fault = h.fault ∧
      (buildResponse files h).2.answers = h.answers ++ [pageAnswer h.conn d.file
        (if h.conn.method = .head then [] else d.content)] := by
  have hfile : files (cString h.conn.path) = some d.file := hpath ▸ ha.file
  obtain ⟨h', done, hbuild⟩ := buildResponse_page files hm he hfile
  obtain ⟨cache, hserve⟩ := serveHeader_available done ha hpath
  have hlog : ∀ body, ((appendBody h' (pageHeader h.conn d.file) body).setCache cache).log
      = h.log ++ [.produced (pageAnswer h.conn d.file body)] := by
    intro body
    simp only [appendBody, Handler.setCache_log, Handler.produce_log, Handler.update_log,
      Handler.update_conn, done.log, done.method, done.fileName, done.requestHeaders]
    rfl
  rw [hbuild, hserve]
  exact ⟨rfl, done.fault, answers_append (hlog _)⟩

/-! ## A request is read -/

/-- **A request in one piece** takes the loop to its response. -/
theorem handleReadBody_request (b : Between d.dir h.conn) (hr : Asks r d.name)
    (hx : h.reads = deliver r.bytes) (files : FileSystem) : handleReadBody files h =
      responseStage files ((h.received r.bytes).update fun c =>
        r.parsed [] (r.lineRead d.name (Chr.lf :: r.fieldBytes) c)) := by
  obtain ⟨g, hg⟩ : ∃ g, g = h.received r.bytes := ⟨_, rfl⟩
  have hbuffer : g.conn.readBuffer = r.line ++ Chr.cr :: (Chr.lf :: r.fieldBytes) := by
    rw [hg]
    change h.conn.readBuffer ++ r.bytes = _
    rw [b.readBuffer]
    rfl
  have hline : lineStage files g =
      headerStage files (g.update (r.lineRead d.name (Chr.lf :: r.fieldBytes))) := by
    have hp : g.conn.processState = .parseLine := hg ▸ b.processState
    rw [lineStage, if_pos hp, parseRequestLine, hbuffer, requestLineOf_append r.cr_notMem_line,
      afterRequestLine_append r.cr_notMem_line, hr.line]
    rfl
  have hfields : AtBlock r.headers []
      (g.update (r.lineRead d.name (Chr.lf :: r.fieldBytes))).conn := by
    refine ⟨hg ▸ b.parseState, hg ▸ b.requestHeaders, ?_⟩
    rw [List.append_nil]
    rfl
  have hstate : bodyState r.readMethod = .response := if_neg hr.method_ne
  rw [handleReadBody_deliver files hx b.connectionState, ← hg, hline,
    headerStage_parsed files hr.short hr.ends rfl hfields, bodyStage, if_neg]
  · rfl
  · change bodyState r.readMethod ≠ _
    rw [hstate]
    exact ProcessState.noConfusion

/-- **A request that is finished**: answered, and with nothing left of it. -/
structure Finished (r : Request) (d : Document) (h h' : Handler Cache.LFUCache) : Prop where
  resourceDir : h'.conn.resourceDir = d.dir
  isError : h'.conn.isError = false
  connectionState : h'.conn.connectionState = .connected
  processState : h'.conn.processState = .finish
  readBuffer : h'.conn.readBuffer = []
  isKeepAlive : h'.conn.isKeepAlive = (h.conn.isKeepAlive || wantsKeepAlive r.headerMap)
  answers : ∃ a, Answers r d a ∧ h'.answers = h.answers ++ [a]
  fault : h'.fault = h.fault
  writes : h'.writes = h.writes

/-- **The loop finishes the request.** -/
theorem finished_handleReadBody (b : Between d.dir h.conn) (hr : Asks r d.name)
    (hx : h.reads = deliver r.bytes) (ha : Available files h.cache d) :
    Finished r d h (handleReadBody files h) := by
  obtain ⟨g, hg⟩ : ∃ g, g = (h.received r.bytes).update fun c =>
    r.parsed [] (r.lineRead d.name (Chr.lf :: r.fieldBytes) c) := ⟨_, rfl⟩
  have hname : g.conn.fileName = d.name := hg ▸ rfl
  have hpath : g.conn.path = d.path := by
    rw [hg]
    exact congrArg (· ++ d.name) b.resourceDir
  have hmethod : g.conn.method = r.readMethod := hg ▸ rfl
  have hheaders : g.conn.requestHeaders = r.headerMap := hg ▸ rfl
  have hpost : g.conn.method ≠ .post := hmethod ▸ hr.method_ne
  have hstate : g.conn.processState = .response := by
    rw [hg]
    exact if_neg hr.method_ne
  have hcache : Available files g.cache d := hg ▸ ha
  obtain ⟨hs, hfault, hanswers⟩ :=
    buildResponse_available hpost (hname ▸ hr.fileName_ne) hcache hpath
  have hsame := sameInput_buildResponse files g
  have hstage : responseStage files g = (buildResponse files g).2.update (·.enter .finish) := by
    rw [responseStage_eq files hstate, hs]
    rfl
  rw [handleReadBody_request b hr hx, ← hg, hstage]
  refine ⟨?_, ?_, ?_, rfl, ?_, ?_, ⟨pageAnswer g.conn d.file
    (if g.conn.method = .head then [] else d.content), ?_, ?_⟩, ?_, ?_⟩
  · exact hsame.resourceDir.trans (hg ▸ b.resourceDir)
  · exact hsame.isError.trans (hg ▸ b.isError)
  · exact hsame.connectionState.trans (hg ▸ b.connectionState)
  · exact hsame.readBuffer.trans (hg ▸ rfl)
  · exact (isKeepAlive_buildResponse files hpost).trans (hheaders ▸ hg ▸ rfl)
  · refine ⟨rfl, hmethod, hpath, hheaders, ?_⟩
    rw [pageAnswer, pageHeader, hheaders, hname, hmethod]
    rfl
  · exact hanswers.trans (hg ▸ rfl)
  · exact hfault.trans (hg ▸ rfl)
  · exact (writes_buildResponse files hs).trans (hg ▸ rfl)

end Page

/-! ## The answer is sent -/

section Write

variable {κ : Type*} {h : Handler κ}

/-- A socket that does not fail never makes `Write` fail. -/
theorem writeLoop_of_sound : ∀ (rs : List WriteResult) (b taken : Bytes), .failed ∉ rs →
    (writeLoop rs b taken).1 = false ∧ .failed ∉ (writeLoop rs b taken).2.2
  | [], [], _, h => ⟨rfl, h⟩
  | _ :: _, [], _, h => ⟨rfl, h⟩
  | [], _ :: _, _, h => ⟨rfl, h⟩
  | .accept _ :: rs, _ :: _, _, h => writeLoop_of_sound rs _ _ (List.not_mem_of_not_mem_cons h)
  | .interrupted :: rs, _ :: _, _, h =>
    writeLoop_of_sound rs _ _ (List.not_mem_of_not_mem_cons h)
  | .again :: _, _ :: _, _, h => ⟨rfl, List.not_mem_of_not_mem_cons h⟩
  | .failed :: _, _ :: _, _, h => absurd (List.mem_cons_self ..) h

theorem write_of_sound {rs : List WriteResult} (h : .failed ∉ rs) (b : Bytes) :
    0 ≤ (Utility.write rs b).count ∧ .failed ∉ (Utility.write rs b).rest := by
  obtain ⟨hok, hrest⟩ := writeLoop_of_sound rs b [] h
  simp only [Utility.write, hok]
  exact ⟨Int.natCast_nonneg _, hrest⟩

/-- **What was written** is all that is changed, and no write fails later. -/
structure Wrote (h h' : Handler κ) : Prop where
  conn : ∃ w, h'.conn = { h.conn with writeBuffer := w }
  answers : h'.answers = h.answers
  fault : h'.fault = h.fault
  writes : .failed ∉ h'.writes

theorem Wrote.refl (hw : .failed ∉ h.writes) : Wrote h h := ⟨⟨_, rfl⟩, rfl, rfl, hw⟩

theorem askToWrite_writes (h : Handler κ) : (askToWrite h).writes = h.writes := by
  unfold askToWrite
  split <;> rfl

theorem wrote_handleWrite (hw : .failed ∉ h.writes) : Wrote h (handleWrite h) := by
  obtain ⟨hcount, hrest⟩ := write_of_sound hw h.conn.writeBuffer
  have hcount : ¬ h.sendCount < 0 := Int.not_lt.mpr hcount
  by_cases hc : !h.conn.isError ∧ h.conn.connectionState ≠ .disconnected
  · have hsend : handleWrite h = askToWrite h.send := by
      rw [handleWrite, if_pos hc, if_neg hcount]
    refine ⟨⟨h.send.conn.writeBuffer, ?_⟩, handleWrite_answers h, handleWrite_fault h, ?_⟩
    · rw [hsend, askToWrite_conn]
      rfl
    · rw [hsend, askToWrite_writes]
      exact hrest
  · rw [handleWrite, if_neg hc]
    exact .refl hw

theorem wrote_flush (hw : .failed ∉ h.writes) : Wrote h (flush h) := by
  unfold flush
  split
  · exact wrote_handleWrite hw
  · exact .refl hw

theorem wrote_writeEvent (hw : .failed ∉ h.writes) (revents : EventMask) :
    Wrote h (writeEvent revents h) := by
  unfold writeEvent
  split
  · exact wrote_handleWrite hw
  · exact .refl hw

theorem Between.wrote {h' : Handler κ} {dir : Bytes} (b : Between dir h.conn) (w : Wrote h h') :
    Between dir h'.conn := by
  obtain ⟨_, hc⟩ := w.conn
  rw [hc]
  exact ⟨b.resourceDir, b.isError, b.connectionState, b.processState, b.parseState,
    b.requestHeaders, b.readBuffer⟩

/-- A connection between two requests is not deleted. -/
theorem Between.handleUpdate {dir : Bytes} (b : Between dir h.conn) (hw : .failed ∉ h.writes) :
    Wrote h (Event.handleUpdate h).1 ∧ (Event.handleUpdate h).2 ≠ .delete := by
  have hgo : !(resetTimer h).conn.isError ∧ (resetTimer h).conn.connectionState = .connected :=
    ⟨by simpa [resetTimer] using b.isError, b.connectionState⟩
  rw [Event.handleUpdate, if_pos hgo]
  split <;> exact ⟨⟨⟨_, rfl⟩, rfl, rfl, hw⟩, by simp⟩

end Write

/-! ## Events -/

section Events

variable {h : Handler Cache.LFUCache} {files : FileSystem} {r : Request} {d : Document}

/-- **So many requests are answered**, and the connection waits for the next one. -/
structure Replied (r : Request) (d : Document) (n : ℕ) (h h' : Handler Cache.LFUCache) :
    Prop where
  between : Between d.dir h'.conn
  isKeepAlive : h'.conn.isKeepAlive =
    (h.conn.isKeepAlive || (decide (0 < n) && wantsKeepAlive r.headerMap))
  answers : ∃ as, as.length = n ∧ (∀ a ∈ as, Answers r d a) ∧ h'.answers = h.answers ++ as
  fault : h'.fault = h.fault

theorem Replied.none (b : Between d.dir h.conn) : Replied r d 0 h h where
  between := b
  isKeepAlive := (Bool.or_false _).symm
  answers := ⟨[], rfl, List.forall_mem_nil _, (List.append_nil _).symm⟩
  fault := rfl

theorem Replied.wrote {n : ℕ} {h' h'' : Handler Cache.LFUCache} (hr : Replied r d n h h')
    (w : Wrote h' h'') : Replied r d n h h'' := by
  obtain ⟨as, hn, has, ha⟩ := hr.answers
  obtain ⟨_, hc⟩ := w.conn
  refine ⟨hr.between.wrote w, ?_, ⟨as, hn, has, w.answers.trans ha⟩, w.fault.trans hr.fault⟩
  rw [hc]
  exact hr.isKeepAlive

/-- **One pass answers one request.** -/
theorem replied_handleRead (b : Between d.dir h.conn) (hr : Asks r d.name)
    (hx : h.reads = deliver r.bytes) (ha : Available files h.cache d)
    (hf : h.fault = none) (hw : .failed ∉ h.writes) :
    Replied r d 1 h (handleRead files h) ∧
      .failed ∉ (handleRead files h).writes := by
  obtain ⟨hdir, herror, hconnected, hfinish, hbuffer, hkeep, ⟨a, hanswer, hanswers⟩, hfault,
    hwrites⟩ := finished_handleReadBody b hr hx ha
  rw [handleRead_of_stop files (handleReadTail_stop hbuffer)]
  generalize handleReadBody files h = g at *
  have w := wrote_flush (h := g) (hwrites ▸ hw)
  obtain ⟨_, hc⟩ := w.conn
  have hgo : ¬ (g.fault.isSome ∨ g.conn.isError) := by simp [hfault, hf, herror]
  have hdone : !(flush g).conn.isError ∧ (flush g).conn.processState = .finish := by
    rw [hc]
    exact ⟨by simp [herror], hfinish⟩
  rw [handleReadTail, if_neg hgo, conclude, if_pos hdone]
  refine ⟨⟨⟨?_, ?_, ?_, rfl, rfl, rfl, ?_⟩, ?_, ⟨[a], rfl, ?_, ?_⟩, ?_⟩, w.writes⟩
  · exact (congrArg HttpConnection.resourceDir hc).trans hdir
  · exact (congrArg HttpConnection.isError hc).trans herror
  · exact (congrArg HttpConnection.connectionState hc).trans hconnected
  · exact (congrArg HttpConnection.readBuffer hc).trans hbuffer
  · exact (congrArg HttpConnection.isKeepAlive hc).trans hkeep
  · exact List.forall_mem_singleton.mpr hanswer
  · exact w.answers.trans hanswers
  · exact w.fault.trans hfault

end Events

/-! ## Runs -/

namespace Session

/-- An event that is read for. -/
def isRead {κ : Type*} (x : Exchange κ) : Bool := !ignored x.revents && readable x.revents

section Serving

variable {r : Request} {d : Document} {x : Exchange Cache.LFUCache}
  {xs : List (Exchange Cache.LFUCache)} {s : Session} {n : ℕ}

/-- **What comes on the connection**: what is read is the request, its document can be had then, and
no write fails. -/
structure Brings (request : Bytes) (d : Document) (x : Exchange Cache.LFUCache) : Prop where
  reads : isRead x = true → x.reads = deliver request
  page : isRead x = true → Available x.files x.cache d
  writes : .failed ∉ x.writes

/-- **A connection that has answered so many requests.** -/
structure Serving (r : Request) (d : Document) (n : ℕ) (s : Session) : Prop where
  closed : s.closed = false
  between : Between d.dir s.conn
  isKeepAlive : s.conn.isKeepAlive = (decide (0 < n) && wantsKeepAlive r.headerMap)
  length : s.answers.length = n
  answers : ∀ a ∈ s.answers, Answers r d a

/-- What is read is answered. -/
theorem replied_readEvent (b : Between d.dir s.conn) (hr : Asks r d.name)
    (hx : Brings r.bytes d x) (hi : ignored x.revents = false) :
    Replied r d (if isRead x then 1 else 0) (s.handler x)
        (readEvent x.files x.revents (s.handler x)) ∧
      .failed ∉ (readEvent x.files x.revents (s.handler x)).writes := by
  rw [readEvent]
  by_cases hreadable : readable x.revents = true
  · have hread : isRead x = true := by rw [isRead, hi, hreadable]; rfl
    rw [if_pos hreadable, if_pos hread]
    exact replied_handleRead b hr (hx.reads hread) (hx.page hread) rfl hx.writes
  · have hread : ¬ isRead x = true := fun h => hreadable (Bool.and_eq_true_iff.mp h).2
    rw [if_neg hreadable, if_neg hread]
    exact ⟨.none b, hx.writes⟩

/-- **One event** answers the request that it brings, if it brings one. -/
theorem replied_handleEvents (b : Between d.dir s.conn) (hr : Asks r d.name)
    (hx : Brings r.bytes d x) :
    Replied r d (if isRead x then 1 else 0) (s.handler x)
        (handleEvents x.files x.revents (s.handler x)).1 ∧
      (handleEvents x.files x.revents (s.handler x)).2 ≠ some .delete := by
  have hzero : (s.handler x).setEvents .zero = s.handler x := rfl
  rw [handleEvents, hzero]
  by_cases hi : ignored x.revents = true
  · have hread : ¬ isRead x = true := by simp [isRead, hi]
    rw [if_pos hi, if_neg hread]
    exact ⟨.none b, by simp⟩
  · obtain ⟨hreplied, hwrites⟩ := replied_readEvent b hr hx (Bool.eq_false_of_not_eq_true hi)
    have hfault : (readEvent x.files x.revents (s.handler x)).fault = none := hreplied.fault
    have w := wrote_writeEvent hwrites x.revents
    obtain ⟨w', haction⟩ := (hreplied.between.wrote w).handleUpdate w.writes
    have hgo : ¬ (readEvent x.files x.revents (s.handler x)).fault.isSome = true := by
      simp [hfault]
    rw [if_neg hi, if_neg hgo]
    exact ⟨(hreplied.wrote w).wrote w', fun h => haction (Option.some.inj h)⟩

/-- **One event**, on a connection that serves. -/
theorem Serving.serve (h : Serving r d n s) (hr : Asks r d.name)
    (hx : Brings r.bytes d x) :
    Serving r d (n + if isRead x then 1 else 0) (s.serve x) := by
  obtain ⟨⟨hbetween, hkeep, ⟨as, hlength, has, hanswers⟩, hfault⟩, haction⟩ :=
    replied_handleEvents h.between hr hx
  have hall : (s.serve x).answers = s.answers ++ as := hanswers
  refine ⟨?_, hbetween, ?_, ?_, ?_⟩
  · refine decide_eq_false (not_or.mpr ⟨haction, ?_⟩)
    rw [hfault]
    exact Bool.false_ne_true
  · refine hkeep.trans ?_
    change (s.conn.isKeepAlive || _) = _
    rw [h.isKeepAlive, ← Bool.and_or_distrib_right, ← Bool.decide_or]
    simp only [Nat.add_pos_iff_pos_or_pos]
  · rw [hall, List.length_append, h.length, hlength]
  · rw [hall]
    exact List.forall_mem_append.mpr ⟨h.answers, has⟩

/-- No answer meets another one's rest, but to be appended to it. -/
theorem neverOverwrites (b : Between d.dir s.conn) (hr : Asks r d.name)
    (hx : Brings r.bytes d x) (hread : isRead x = true) :
    NeverOverwrites x.files (s.handler x) := by
  have hfinished := finished_handleReadBody (h := s.handler x) b hr (hx.reads hread) (hx.page hread)
  obtain ⟨a, ha, hanswers⟩ := hfinished.answers
  refine .pass (fun hover => ?_) fun hagain => ?_
  · obtain ⟨-, a', ha', hkind⟩ := hover
    rw [passAnswers, hanswers, List.drop_left] at ha'
    obtain rfl := List.mem_singleton.mp ha'
    exact hkind ha.kind
  · have hstop := handleReadTail_stop hfinished.readBuffer
    exact absurd (hstop.symm.trans hagain) Bool.false_ne_true

/-- **What is left to send** is what has been produced and not been sent. -/
theorem Kept.brings (hk : Kept s) (h : Serving r d n s) (hr : Asks r d.name)
    (hx : Brings r.bytes d x) : Kept (s.serve x) := by
  by_cases hi : ignored x.revents = true
  · have hserve : s.serve x = ⟨s.conn, s.log, false⟩ := by
      have hevents : handleEvents x.files x.revents (s.handler x) = (s.handler x, none) := if_pos hi
      rw [Session.serve, hevents]
      rfl
    rw [hserve]
    exact ⟨hk.inOrder, fun _ => hk.isError h.closed, fun _ => hk.rest h.closed⟩
  · refine hk.step ⟨fun hreadable => neverOverwrites h.between hr hx ?_, h.closed, rfl⟩
    rw [isRead, Bool.eq_false_of_not_eq_true hi, hreadable]
    rfl

/-- **A connection on which one request comes again and again** answers it each time, and says
nothing else. -/
theorem serving_of_run (hr : Asks r d.name)
    (run : Run (guarded (fun _ => Brings r.bytes d) Step)
      ⟨{ resourceDir := d.dir }, [], false⟩ xs s) :
    Serving r d (xs.countP isRead) s ∧ Kept s := by
  have hstart : Serving r d 0 ⟨{ resourceDir := d.dir }, [], false⟩ :=
    ⟨rfl, ⟨rfl, rfl, rfl, rfl, rfl, rfl, rfl⟩, rfl, rfl, List.forall_mem_nil _⟩
  have hstep : ∀ as s x t, Run (guarded (fun _ => Brings r.bytes d) Step)
      ⟨{ resourceDir := d.dir }, [], false⟩ as s →
      Serving r d (as.countP isRead) s ∧ Kept s →
      guarded (fun _ => Brings r.bytes d) Step s x t →
      Serving r d ((as ++ [x]).countP isRead) t ∧ Kept t := by
    rintro as s x _ - ⟨h, hk⟩ ⟨hx, -, rfl⟩
    rw [List.countP_append, List.countP_singleton]
    exact ⟨h.serve hr hx, hk.brings h hr hx⟩
  exact Run.history hstep (.nil _) ⟨hstart, kept_start d.dir⟩ run

end Serving

end Session

end WebServer.Event
