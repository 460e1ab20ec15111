import WebServer.Http.HandleRead
import WebServer.Http.HeaderTrace

/-!
# Http.Delivery — one segment on a connection

What one pass of `HandleRead` does with a segment that begins with a well-formed request: a refused
line is answered and the buffer is emptied, a header that is too long is answered and left in the
buffer, and any other request is parsed, with one byte of what follows it.
-/

namespace WebServer.Http

open Event Utility

section Delivery

variable {κ : Type*} [PageCache κ] (files : FileSystem)

/-- The handler when a segment has been read. -/
@[simps] def Handler.received (h : Handler κ) (segment : Bytes) : Handler κ :=
  { h with
    conn := { h.conn with readBuffer := h.conn.readBuffer ++ segment }
    reads := [] }

/-- **The body of the loop, on one segment.** -/
theorem handleReadBody_deliver {h : Handler κ} {segment : Bytes} (hr : h.reads = deliver segment)
    (hc : h.conn.connectionState = .connected) :
    handleReadBody files h = lineStage files (h.received segment) := by
  have hread : Utility.read h.reads h.conn.readBuffer
      = ⟨segment.length, h.conn.readBuffer ++ segment, false, []⟩ := by
    rw [hr, read_deliver]
  have hrecv : h.receive = h.received segment := by
    rw [Handler.receive, hread]
    rfl
  rw [handleReadBody, hread, if_neg (by rw [hc]; decide)]
  simp only [Bool.false_eq_true, if_false, hrecv]
  rw [if_neg (by omega)]

/-- The body of the loop decides what the handler does. -/
theorem handleRead_congr {h h' : Handler κ}
    (hb : handleReadBody files h = handleReadBody files h') :
    handleRead files h = handleRead files h' := by
  rw [handleRead_eq, handleRead_eq files h', handleReadPass, handleReadPass, hb]

/-- A script counts only by what it is read as. -/
theorem handleRead_reads (h : Handler κ) {rs rs' : List ReadResult}
    (hread : Utility.read rs h.conn.readBuffer = Utility.read rs' h.conn.readBuffer) :
    handleRead files { h with reads := rs } = handleRead files { h with reads := rs' } := by
  refine handleRead_congr files ?_
  unfold handleReadBody Handler.receive
  simp only [hread]

/-- A segment in one piece. -/
theorem handleRead_deliver (h : Handler κ) {segment : Bytes} (hs : segment ≠ []) :
    handleRead files { h with reads := deliver segment }
      = handleRead files { h with reads := [.data segment, .again] } := by
  refine handleRead_reads files h ?_
  rw [read_deliver, Utility.read, readLoop, if_neg hs, readLoop, Nat.zero_add]

/-! ## The stages, on a request -/

/-- A line that is refused is answered, and the buffer is emptied. -/
theorem lineStage_error {h : Handler κ} (hs : h.conn.processState = .parseLine)
    (hl : ∀ c, (readRequestLine (requestLineOf h.conn.readBuffer) c).1 = .error) : ∃ c,
      lineStage files h = failWith (h.update fun _ => { c with readBuffer := [] }) 400
        (text "Bad Request") ∧ Parsed h.conn c := by
  rw [lineStage, if_pos hs]
  have hp := parsed_parseRequestLine h.conn
  have he : (parseRequestLine h.conn).1 = .error := hl _
  generalize parseRequestLine h.conn = x at hp he
  obtain ⟨state, c⟩ := x
  subst he
  exact ⟨c, rfl, hp⟩

/-- A connection whose request line has been read as `r`, with `rest` still in the buffer. -/
def Request.lineRead (r : Request) (fileName rest : Bytes) (c : HttpConnection) : HttpConnection :=
  { c with
    readBuffer := rest
    processState := .parseHeaders
    method := r.readMethod
    fileName := fileName
    version := r.version }

/-- A connection whose header has been parsed as `r`, with `rest` still in the buffer. -/
def Request.parsed (r : Request) (rest : Bytes) (c : HttpConnection) : HttpConnection :=
  { c with
    readBuffer := rest
    processState := bodyState c.method
    parseState := .endLf
    requestHeaders := r.headerMap }

/-- **A line that is taken** leads to the headers. -/
theorem lineStage_line {r : Request} (hr : ¬ r.Refused) : ∃ fileName, ∀ (h : Handler κ) (x : Bytes),
    h.conn.processState = .parseLine → requestLineOf h.conn.readBuffer = r.line →
    afterRequestLine h.conn.readBuffer = x →
    lineStage files h = headerStage files (h.update (r.lineRead fileName x)) := by
  obtain ⟨fileName, hread⟩ := Request.readRequestLine_line hr
  refine ⟨fileName, fun h x hs hl hx => ?_⟩
  rw [lineStage, if_pos hs, parseRequestLine, hl, hx, hread]
  rfl

/-- **A header that is taken** leads to the body. -/
theorem headerStage_parsed {r : Request} (hr : r.Short) (he : r.Ends) {h : Handler κ} {x : Bytes}
    (hs : h.conn.processState = .parseHeaders) (hf : AtBlock r.headers x h.conn) :
    headerStage files h = bodyStage files (h.update (r.parsed (x.drop 1))) := by
  rw [headerStage, if_pos hs, hf.parseRequestHeader r.plain r.headers_ne hr he]
  rfl

/-- A header that is too long is answered; the buffer is left as it is. -/
theorem headerStage_long {r : Request} (hr : ¬ r.Short) {h : Handler κ} {x : Bytes}
    (hs : h.conn.processState = .parseHeaders) (hf : AtBlock r.headers x h.conn) : ∃ s,
      headerStage files h
        = failWith (h.update fun c => c.store s) 400 (text "Bad Request") := by
  obtain ⟨s, hp⟩ := hf.parseRequestHeader_long r.plain hr
  refine ⟨s, ?_⟩
  rw [headerStage, if_pos hs, hp]
  rfl

/-! ## What stays in the buffer -/

omit [PageCache κ] in
theorem failWith_readBuffer (h : Handler κ) (n : ℕ) (m : Bytes) :
    (failWith h n m).conn.readBuffer = h.conn.readBuffer := rfl

omit [PageCache κ] in
theorem handleReadTail_readBuffer (h : Handler κ) :
    (handleReadTail h).1.conn.readBuffer = h.conn.readBuffer := by
  obtain ⟨w, e, hc⟩ := flush_conn h
  unfold handleReadTail
  split
  · rfl
  · unfold conclude
    split
    · rw [reset, hc]
    · split <;> simp only [Handler.setEvents_conn, hc]

omit [PageCache κ] in
/-- With an empty buffer `HandleRead` does not call itself. -/
theorem handleReadTail_stop {h : Handler κ} (hb : h.conn.readBuffer = []) :
    (handleReadTail h).2 = false := by
  obtain ⟨w, e, hc⟩ := flush_conn h
  unfold handleReadTail
  split
  · rfl
  · unfold conclude
    split
    · simp [hc, hb]
    · split <;> rfl

/-- A body after which the handler stops. -/
theorem handleRead_of_stop {h : Handler κ}
    (hs : (handleReadTail (handleReadBody files h)).2 = false) :
    handleRead files h = (handleReadTail (handleReadBody files h)).1 := by
  rw [handleRead_eq, handleReadPass, hs, if_neg Bool.false_ne_true]

omit [PageCache κ] in
/-- After an error answer the handler is done. -/
theorem handleReadTail_failWith (h : Handler κ) (n : ℕ) (m : Bytes) :
    handleReadTail (failWith h n m) = (failWith h n m, false) := if_pos (.inr rfl)

end Delivery

end WebServer.Http
