import WebServer.Http.Answer
import WebServer.Http.Delivery
import WebServer.Http.Resume

/-!
# Http/Segmentation — a request that arrives in pieces

`Independent` says that the way the bytes of a request are cut into reads does not matter.  But the
first line is parsed as if it were complete, and the header scanner loses its offsets between two
reads.  A read that ends with the request line can be joined with the next one
(`serveRead_lineEnd`).
-/

namespace WebServer.Http

open Event Utility

/-! ## One read after the other -/

/-- The next readable event: one segment has arrived, and the socket accepts every write. -/
@[simps] def Handler.feed {κ : Type*} (h : Handler κ) (segment : Bytes) : Handler κ :=
  { h with events := .EPOLLIN, reads := deliver segment, writes := [] }

/-- A new connection. -/
@[simps] def newConnection {κ : Type*} (resourceDir : Bytes) (cache : κ) : Handler κ where
  conn := { resourceDir := resourceDir }
  events := .EPOLLIN
  cache := cache

/-- The event loop gives a connection up when it has failed. -/
def GivenUp {κ : Type*} (h : Handler κ) : Prop := h.conn.isError = true ∨ h.fault.isSome = true

instance {κ : Type*} (h : Handler κ) : Decidable (GivenUp h) := inferInstanceAs (Decidable (_ ∨ _))

section Serve

variable {κ : Type*} [PageCache κ] (files : FileSystem)

/-- One read. -/
def serveRead (h : Handler κ) (segment : Bytes) : Handler κ :=
  if GivenUp h then h else handleRead files (h.feed segment)

/-- **One `HandleRead` per read.** -/
def serve (h : Handler κ) (reads : List Bytes) : Handler κ := reads.foldl (serveRead files) h

end Serve

/-- **What a connection ends with**: what the request was read as, the responses and the bytes
written.  `Reset` empties the file name and the fields, so each response keeps what it was built
from. -/
structure Ending where
  method : RequestMethod
  fileName : Bytes
  requestHeaders : HeaderMap
  answers : List Answer
  written : Bytes
  fault : Option Fault

def ending {κ : Type*} (h : Handler κ) : Ending where
  method := h.conn.method
  fileName := h.conn.fileName
  requestHeaders := h.conn.requestHeaders
  answers := h.answers
  written := accepted h.log
  fault := h.fault

/-- Every field of a map is one of the request. -/
def Request.Records (r : Request) (m : HeaderMap) : Prop :=
  ∀ name value, m name = some value → (name, value) ∈ r.headers

/-- **Segmentation independence**: cut into these reads, the request ends as in one read; and before
its last byte nothing is refused and no wrong field recorded. -/
structure Independent (r : Request) (reads : List Bytes) : Prop where
  ending_eq : ∀ files resourceDir (cache : Cache.LFUCache),
    ending (serve files (newConnection resourceDir cache) reads)
      = ending (serve files (newConnection resourceDir cache) [r.bytes])
  isError : ∀ before after, before ++ after = reads → after ≠ [] →
    ∀ files resourceDir (cache : Cache.LFUCache),
      (serve files (newConnection resourceDir cache) before).conn.isError = false
  records : ∀ before after, before ++ after = reads → after ≠ [] →
    ∀ files resourceDir (cache : Cache.LFUCache),
      r.Records (serve files (newConnection resourceDir cache) before).conn.requestHeaders ∧
        ∀ a ∈ (serve files (newConnection resourceDir cache) before).answers,
          r.Records a.requestHeaders

/-- A way to cut a request into non-empty reads. -/
structure Segmentation (r : Request) where
  reads : List Bytes
  nonempty : ∀ segment ∈ reads, segment ≠ []
  flatten : reads.flatten = r.bytes

/-- The offsets at which the reads cut the stream. -/
def cuts : List Bytes → List ℕ
  | [] => []
  | [_] => []
  | segment :: next :: rest => segment.length :: (cuts (next :: rest)).map (segment.length + ·)

theorem cuts_merge (x y : Bytes) (rest : List Bytes) :
    cuts (x :: y :: rest) = x.length :: cuts ((x ++ y) :: rest) := by
  cases rest with
  | nil => rfl
  | cons z rest =>
    simp only [cuts, List.map_cons, List.map_map, List.length_append]
    congr 2
    exact List.map_congr_left fun n _ => (Nat.add_assoc _ _ n).symm

/-! ## A call that reaches the header -/

section Header

variable {κ : Type*}

/-- Nothing has been answered, and nothing has failed. -/
structure Silent (h : Handler κ) : Prop where
  isError : h.conn.isError = false
  connectionState : h.conn.connectionState = .connected
  writeBuffer : h.conn.writeBuffer = []
  log : h.log = []
  fault : h.fault = none

theorem silent_newConnection (resourceDir : Bytes) (cache : κ) :
    Silent (newConnection resourceDir cache) := ⟨rfl, rfl, rfl, rfl, rfl⟩

theorem Silent.not_givenUp {h : Handler κ} (s : Silent h) : ¬ GivenUp h := by
  rw [GivenUp, s.isError, s.fault]
  simp

theorem Silent.received {h : Handler κ} (s : Silent h) (segment : Bytes) :
    Silent ((h.feed segment).received segment) :=
  ⟨s.isError, s.connectionState, s.writeBuffer, s.log, s.fault⟩

/-- Parsing keeps silent. -/
theorem Silent.update {h : Handler κ} (s : Silent h) {c : HttpConnection} (hc : Parsed h.conn c) :
    Silent (h.update fun _ => c) :=
  ⟨hc.isError.trans s.isError, hc.connectionState.trans s.connectionState,
    hc.writeBuffer.trans s.writeBuffer, s.log, s.fault⟩

/-- **A silent handler that has to wait** asks for input. -/
theorem handleReadTail_wait {h : Handler κ} (s : Silent h) (hp : h.conn.processState ≠ .finish) :
    handleReadTail h = (h.setEvents (h.events ||| .EPOLLIN), false) := by
  have hflush : flush h = h := by
    rw [flush, s.writeBuffer]
    rfl
  have hgo : ¬ (h.fault.isSome ∨ h.conn.isError) := by
    rw [s.fault, s.isError]
    simp
  rw [handleReadTail, if_neg hgo, hflush, conclude, if_neg fun h => hp h.2, if_pos]
  rw [s.isError, s.connectionState]
  decide

variable [PageCache κ] (files : FileSystem)

/-- A call whose body is the header stage. -/
structure AtHeader (g h : Handler κ) : Prop where
  body : handleReadBody files g = headerStage files h
  silent : Silent h
  processState : h.conn.processState = .parseHeaders

namespace AtHeader

variable {files} {g h : Handler κ} {c : HttpConnection}

theorem wait (a : AtHeader files g h) (hp : parseRequestHeader h.conn = (some .again, c)) :
    handleRead files g = (h.update fun _ => c).setEvents (h.events ||| .EPOLLIN) := by
  have hbody : handleReadBody files g = h.update fun _ => c := by
    rw [a.body, headerStage, if_pos a.processState, hp]
  have hs : Silent (h.update fun _ => c) := a.silent.update (by
    have := parsed_parseRequestHeader h.conn
    rwa [hp] at this)
  have hne : (h.update fun _ => c).conn.processState ≠ .finish := by
    have := parseRequestHeader_processState h.conn
    rw [hp, a.processState] at this
    rw [Handler.update_conn, this]
    decide
  have htail := handleReadTail_wait hs hne
  have hstop : (handleReadTail (handleReadBody files g)).2 = false := by rw [hbody, htail]
  rw [handleRead_of_stop files hstop, hbody, htail]
  rfl

theorem error (a : AtHeader files g h) (hp : parseRequestHeader h.conn = (some .error, c)) :
    handleRead files g = failWith (h.update fun _ => c) 400 (text "Bad Request") := by
  have hbody : handleReadBody files g = failWith (h.update fun _ => c) 400
    (text "Bad Request") := by
    rw [a.body, headerStage, if_pos a.processState, hp]
  have hstop : (handleReadTail (handleReadBody files g)).2 = false := by
    rw [hbody, handleReadTail_failWith]
  rw [handleRead_of_stop files hstop, hbody, handleReadTail_failWith]

theorem undefined (a : AtHeader files g h) (hp : parseRequestHeader h.conn = (none, c)) :
    handleRead files g = (h.update fun _ => c).breakOff .undefinedBehaviour := by
  have hbody : handleReadBody files g = (h.update fun _ => c).breakOff .undefinedBehaviour := by
    rw [a.body, headerStage, if_pos a.processState, hp]
  have htail : handleReadTail ((h.update fun _ => c).breakOff .undefinedBehaviour)
      = ((h.update fun _ => c).breakOff .undefinedBehaviour, false) := if_pos (.inl rfl)
  have hstop : (handleReadTail (handleReadBody files g)).2 = false := by rw [hbody, htail]
  rw [handleRead_of_stop files hstop, hbody, htail]

theorem success (a : AtHeader files g h) (hp : parseRequestHeader h.conn = (some .success, c)) :
    handleReadBody files g = bodyStage files (h.update fun _ => c.enter (bodyState c.method)) := by
  rw [a.body, headerStage, if_pos a.processState, hp]

end AtHeader

/-- **A connection that waits for the rest of a header**, and the next segment. -/
theorem atHeader_next {h : Handler κ} (s : Silent h) (hp : h.conn.processState = .parseHeaders)
    (segment : Bytes) : AtHeader files (h.feed segment) ((h.feed segment).received segment) := by
  refine ⟨?_, s.received segment, hp⟩
  rw [handleReadBody_deliver files (h := h.feed segment) rfl s.connectionState, lineStage, if_neg]
  change h.conn.processState ≠ _
  rw [hp]
  decide

/-- **A new connection, and a segment with a whole request line** that is taken. -/
theorem atHeader_first {r : Request} (hr : ¬ r.Refused) : ∃ fileName, ∀ (resourceDir : Bytes)
    (cache : κ) (segment x : Bytes), requestLineOf segment = r.line → afterRequestLine segment = x →
    AtHeader files ((newConnection resourceDir cache).feed segment)
      ((((newConnection resourceDir cache).feed segment).received segment).update
        (r.lineRead fileName x)) := by
  obtain ⟨fileName, hline⟩ := lineStage_line (κ := κ) files hr
  refine ⟨fileName, fun resourceDir cache segment x hl hx => ⟨?_, ⟨rfl, rfl, rfl, rfl, rfl⟩, rfl⟩⟩
  rw [handleReadBody_deliver files rfl rfl]
  exact hline _ x rfl hl hx

end Header

/-! ## Cuts at the end of the first line -/

/-- A first read that ends behind the CR or the line feed of the request line. -/
def LineEnd (r : Request) (segment : Bytes) : Prop :=
  segment = r.line ++ [Chr.cr] ∨ segment = r.line ++ [Chr.cr, Chr.lf]

section LineEnds

variable {κ : Type*} [PageCache κ] (files : FileSystem)

theorem serveRead_newConnection (resourceDir : Bytes) (cache : κ) (segment : Bytes) :
    serveRead files (newConnection resourceDir cache) segment
      = handleRead files ((newConnection resourceDir cache).feed segment) :=
  if_neg (silent_newConnection resourceDir cache).not_givenUp

/-- **A request line alone** waits for the header. -/
theorem serveRead_lineEnd {r : Request} (hr : ¬ r.Refused) : ∃ fileName, ∀ (resourceDir : Bytes)
    (cache : κ) (y : Bytes), y = [] ∨ y = [Chr.lf] →
    serveRead files (newConnection resourceDir cache) (r.line ++ Chr.cr :: y)
      = ((((newConnection resourceDir cache).feed (r.line ++ Chr.cr :: y)).received
          (r.line ++ Chr.cr :: y)).update (r.lineRead fileName y)).setEvents
            (.EPOLLIN ||| .EPOLLIN) ∧
    ∀ segment, serveRead files (serveRead files (newConnection resourceDir cache)
        (r.line ++ Chr.cr :: y)) segment
      = serveRead files (newConnection resourceDir cache) (r.line ++ Chr.cr :: (y ++ segment)) := by
  obtain ⟨fileName, hfirst⟩ := atHeader_first (κ := κ) files hr
  refine ⟨fileName, fun resourceDir cache y hy => ?_⟩
  have hfirst' := fun y => hfirst resourceDir cache (r.line ++ Chr.cr :: y) y
    (requestLineOf_append r.cr_notMem_line y) (afterRequestLine_append r.cr_notMem_line y)
  have hwait := (hfirst' y).wait (parseRequestHeader_lineEnd rfl hy)
  have hread : serveRead files (newConnection resourceDir cache) (r.line ++ Chr.cr :: y) = _ :=
    (serveRead_newConnection files resourceDir cache _).trans hwait
  refine ⟨hread, fun segment => ?_⟩
  rw [hread, serveRead, if_neg (Silent.not_givenUp ⟨rfl, rfl, rfl, rfl, rfl⟩),
    serveRead_newConnection]
  refine handleRead_congr files ?_
  rw [(hfirst' (y ++ segment)).body,
    (atHeader_next files ⟨rfl, rfl, rfl, rfl, rfl⟩ rfl segment).body]
  rfl

end LineEnds

end WebServer.Http
