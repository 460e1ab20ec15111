import WebServer.Http.Answer
import WebServer.Http.Delivery
import WebServer.Http.Resume

/-!
# Http/Pipeline — several requests in one segment

`Pipelined` is what a client that sends its requests back to back relies on.  The scanner takes one
byte of the next request with it, so the law holds of one request and never of two
(`pipelined_iff`).
-/

namespace WebServer.Http

open Event Utility

/-- **A connection between two requests**: what earlier requests can have left is free. -/
structure IdleConnection where
  resourceDir : Bytes
  method : RequestMethod := .get
  version : HttpVersion := .http11
  isKeepAlive : Bool := false
  events : EventMask := .zero

/-- Its handler, when one segment arrives and the socket accepts every write. -/
def IdleConnection.handler {κ : Type*} (c : IdleConnection) (cache : κ) (segment : Bytes) :
    Handler κ where
  conn := {
    resourceDir := c.resourceDir
    method := c.method
    version := c.version
    isKeepAlive := c.isKeepAlive }
  events := c.events
  cache := cache
  reads := deliver segment

/-- The bytes of several requests. -/
def bytesOf (rs : List Request) : Bytes := rs.flatMap Request.bytes

section Pipeline

variable {κ : Type*} [PageCache κ] (files : FileSystem)

/-- **The pipelining law**: requests that arrive in one segment are answered in order, each as it is
answered alone on a new connection; nothing is left in the buffer; and each request takes exactly
its own bytes out of it. -/
structure Pipelined (cache : κ) (c : IdleConnection) (rs : List Request) : Prop where
  responses : accepted (handleRead files (c.handler cache (bytesOf rs))).log
    = rs.flatMap fun r => accepted (handleRead files
        (IdleConnection.handler { resourceDir := c.resourceDir } cache r.bytes)).log
  drained : (handleRead files (c.handler cache (bytesOf rs))).conn.readBuffer = []
  consumed : ∀ before r after, rs = before ++ r :: after →
    (handleReadPass files (c.handler cache (r.bytes ++ bytesOf after))).1.conn.readBuffer
      = bytesOf after

/-! ## One pass over the first request -/

/-- The handler when the segment has been read. -/
def IdleConnection.arrived (c : IdleConnection) (cache : κ) (segment : Bytes) : Handler κ :=
  (c.handler cache segment).received segment

theorem handler_body (cache : κ) (c : IdleConnection) (segment : Bytes) :
    handleReadBody files (c.handler cache segment) = lineStage files (c.arrived cache segment) :=
  handleReadBody_deliver files rfl rfl

omit [PageCache κ] in
/-- The line of the request, and what is left behind it. -/
theorem arrived_line (cache : κ) (c : IdleConnection) (r : Request) (rest : Bytes) :
    requestLineOf (c.arrived cache (r.bytes ++ rest)).conn.readBuffer = r.line ∧
      afterRequestLine (c.arrived cache (r.bytes ++ rest)).conn.readBuffer
        = Chr.lf :: (r.fieldBytes ++ rest) := by
  have hb : (c.arrived cache (r.bytes ++ rest)).conn.readBuffer
      = r.line ++ Chr.cr :: Chr.lf :: (r.fieldBytes ++ rest) := by
    change [] ++ (r.bytes ++ rest) = _
    rw [List.nil_append, Request.bytes, List.append_assoc, List.append_assoc]
    rfl
  rw [hb]
  exact ⟨requestLineOf_append r.cr_notMem_line _, afterRequestLine_append r.cr_notMem_line _⟩

/-- A request whose line is refused is answered, and the buffer is emptied. -/
theorem body_refused {r : Request} (hr : r.Refused) (cache : κ) (c : IdleConnection)
    (rest : Bytes) :
    ∃ c' : HttpConnection, handleReadBody files (c.handler cache (r.bytes ++ rest))
      = failWith ((c.arrived cache (r.bytes ++ rest)).update fun _ => { c' with readBuffer := [] })
        400 (text "Bad Request") := by
  rw [handler_body files]
  obtain ⟨c', hc, -⟩ := lineStage_error files (h := c.arrived cache (r.bytes ++ rest)) rfl (by
    rw [(arrived_line cache c r rest).1]
    exact Request.readRequestLine_refused hr)
  exact ⟨c', hc⟩

/-- A request with a header that is too long is answered, and stays in the buffer. -/
theorem body_long {r : Request} (hr : ¬ r.Refused) (hs : ¬ r.Short) (cache : κ) (c : IdleConnection)
    (rest : Bytes) : ∃ c' : HttpConnection, handleReadBody files (c.handler cache (r.bytes ++ rest))
      = failWith ((c.arrived cache (r.bytes ++ rest)).update fun _ => c') 400 (text "Bad Request") ∧
        c'.readBuffer = Chr.lf :: (r.fieldBytes ++ rest) := by
  obtain ⟨fileName, hline⟩ := lineStage_line (κ := κ) files hr
  obtain ⟨hl, hx⟩ := arrived_line cache c r rest
  rw [handler_body, hline _ _ rfl hl hx]
  obtain ⟨s, hlong⟩ := headerStage_long files (x := rest) hs
    (h := (c.arrived cache (r.bytes ++ rest)).update
      (r.lineRead fileName (Chr.lf :: (r.fieldBytes ++ rest)))) rfl ⟨rfl, rfl, rfl⟩
  exact ⟨_, hlong, rfl⟩

/-- A request that ends where the scanner finds its end is parsed, with a byte of what follows. -/
theorem body_parsed {r : Request} (hr : ¬ r.Refused) (hs : r.Short) (he : r.Ends) :
    ∃ fileName, ∀ (cache : κ)
    (c : IdleConnection) (rest : Bytes), handleReadBody files (c.handler cache (r.bytes ++ rest))
      = bodyStage files ((c.arrived cache (r.bytes ++ rest)).update fun c' =>
        r.parsed (rest.drop 1) (r.lineRead fileName (Chr.lf :: (r.fieldBytes ++ rest)) c')) := by
  obtain ⟨fileName, hline⟩ := lineStage_line (κ := κ) files hr
  refine ⟨fileName, fun cache c rest => ?_⟩
  obtain ⟨hl, hx⟩ := arrived_line cache c r rest
  rw [handler_body, hline _ _ rfl hl hx,
    headerStage_parsed files hs he (x := rest) rfl ⟨rfl, rfl, rfl⟩]
  rfl

/-- **What the header stage leaves in the buffer** is what the scanner leaves. -/
theorem headerStage_readBuffer {h : Handler κ} (hs : h.conn.processState = .parseHeaders) :
    (headerStage files h).conn.readBuffer = (parseRequestHeader h.conn).2.readBuffer := by
  rw [headerStage, if_pos hs]
  rcases parseRequestHeader h.conn with ⟨_ | _ | _ | _, c⟩
  · rfl
  · exact (bodyStage_sameParse files _).readBuffer
  · rfl
  · rfl

/-- A request whose last value is empty is never left at its end. -/
theorem body_open {r : Request} (hr : ¬ r.Refused) (hs : r.Short) (he : ¬ r.Ends) (cache : κ)
    (c : IdleConnection) (rest : Bytes) :
    (handleReadBody files (c.handler cache (r.bytes ++ rest))).conn.readBuffer ≠ rest := by
  obtain ⟨fileName, hline⟩ := lineStage_line (κ := κ) files hr
  obtain ⟨hl, hx⟩ := arrived_line cache c r rest
  have hb : AtBlock r.headers rest ((c.arrived cache (r.bytes ++ rest)).update
      (r.lineRead fileName (Chr.lf :: (r.fieldBytes ++ rest)))).conn := ⟨rfl, rfl, rfl⟩
  rw [handler_body, hline _ _ rfl hl hx, headerStage_readBuffer files rfl]
  exact hb.readBuffer_ne r.plain r.headers_ne hs he

/-- **What one pass leaves in the buffer.** -/
theorem pass_readBuffer (r : Request) (cache : κ) (c : IdleConnection) (rest : Bytes) :
    (r.Refused → (handleReadPass files (c.handler cache (r.bytes ++ rest))).1.conn.readBuffer
      = []) ∧
    (¬ r.Refused → ¬ r.Short →
      (handleReadPass files (c.handler cache (r.bytes ++ rest))).1.conn.readBuffer
        = Chr.lf :: (r.fieldBytes ++ rest)) ∧
    (¬ r.Refused → r.Short → r.Ends →
      (handleReadPass files (c.handler cache (r.bytes ++ rest))).1.conn.readBuffer
        = rest.drop 1) ∧
    (¬ r.Refused → r.Short → ¬ r.Ends →
      (handleReadPass files (c.handler cache (r.bytes ++ rest))).1.conn.readBuffer ≠ rest) := by
  rw [handleReadPass, handleReadTail_readBuffer]
  refine ⟨fun hr => ?_, fun hr hs => ?_, fun hr hs he => ?_, fun hr hs he => ?_⟩
  · obtain ⟨c', hc⟩ := body_refused files hr cache c rest
    rw [hc, failWith_readBuffer]
    rfl
  · obtain ⟨c', hc, hb⟩ := body_long files hr hs cache c rest
    rw [hc, failWith_readBuffer]
    exact hb
  · obtain ⟨fileName, hc⟩ := body_parsed (κ := κ) files hr hs he
    rw [hc, (bodyStage_sameParse files _).readBuffer]
    rfl
  · exact body_open files hr hs he cache c rest

/-- **A request that can be answered alone**: its line is refused, or the scanner takes its header
and finds the end. -/
def Request.Alone (r : Request) : Prop := r.Refused ∨ r.Short ∧ r.Ends

/-- **No pass leaves exactly what follows the first request**, if anything does or the request
cannot be answered alone. -/
theorem pass_readBuffer_ne (r : Request) (cache : κ) (c : IdleConnection) {rest : Bytes}
    (hrest : rest ≠ [] ∨ ¬ r.Alone) :
    (handleReadPass files (c.handler cache (r.bytes ++ rest))).1.conn.readBuffer ≠ rest := by
  obtain ⟨hrefused, hlong, hshort, hopen⟩ := pass_readBuffer files r cache c rest
  by_cases hr : r.Refused
  · rw [hrefused hr]
    exact (hrest.resolve_right (not_not.mpr (.inl hr))).symm
  · by_cases hs : r.Short
    · by_cases he : r.Ends
      · have hpos := List.length_pos_iff.mpr (hrest.resolve_right (not_not.mpr (.inr ⟨hs, he⟩)))
        rw [hshort hr hs he]
        intro h
        have := congrArg List.length h
        rw [List.length_drop] at this
        omega
      · exact hopen hr hs he
    · rw [hlong hr hs]
      intro h
      have := congrArg List.length h
      rw [List.length_cons, List.length_append] at this
      omega

/-! ## What a response does not depend on

A response is the same whatever earlier requests made of `is_keep_alive_`, and whatever events the
channel asks for. -/

/-- Another keep-alive choice, and other events. -/
def tune (x : Bool × EventMask) (h : Handler κ) : Handler κ :=
  (h.update fun c => { c with isKeepAlive := x.1 }).setEvents x.2

section Tune

omit [PageCache κ]

variable (x : Bool × EventMask) (h : Handler κ)

@[simp] theorem tune_cache : (tune x h).cache = h.cache := rfl
@[simp] theorem tune_log : (tune x h).log = h.log := rfl
@[simp] theorem tune_fault : (tune x h).fault = h.fault := rfl
@[simp] theorem tune_events : (tune x h).events = x.2 := rfl
@[simp] theorem tune_sendCount : (tune x h).sendCount = h.sendCount := rfl
@[simp] theorem tune_method : (tune x h).conn.method = h.conn.method := rfl
@[simp] theorem tune_fileName : (tune x h).conn.fileName = h.conn.fileName := rfl
@[simp] theorem tune_isError : (tune x h).conn.isError = h.conn.isError := rfl
@[simp] theorem tune_writeBuffer : (tune x h).conn.writeBuffer = h.conn.writeBuffer := rfl
@[simp] theorem tune_readBuffer : (tune x h).conn.readBuffer = h.conn.readBuffer := rfl
@[simp] theorem tune_processState : (tune x h).conn.processState = h.conn.processState := rfl
@[simp] theorem tune_connectionState : (tune x h).conn.connectionState = h.conn.connectionState :=
  rfl
@[simp] theorem tune_requestHeaders : (tune x h).conn.requestHeaders = h.conn.requestHeaders := rfl

theorem tune_refusePage (n : ℕ) (m : Bytes) :
    refusePage (tune x h) n m = (refusePage h n m).map id (tune x) := rfl

theorem tune_appendBody (header body : Bytes) :
    appendBody (tune x h) header body = tune x (appendBody h header body) := rfl

theorem tune_setCache (cache : κ) : (tune x h).setCache cache = tune x (h.setCache cache) := rfl

theorem tune_send : (tune x h).send = tune x h.send := rfl

theorem tune_setEvents (e : EventMask) :
    (tune x h).setEvents e = tune (x.1, e) (h.setEvents e) := rfl

/-- A change that does not look at the keep-alive choice. -/
theorem tune_update {f : HttpConnection → HttpConnection}
    (hf : ∀ c k, f { c with isKeepAlive := k } = { f c with isKeepAlive := k }) :
    (tune x h).update f = tune x (h.update f) := by
  change { tune x h with conn := f { h.conn with isKeepAlive := x.1 } } = _
  rw [hf]
  rfl

theorem tune_breakOff (f : Fault) : (tune x h).breakOff f = tune x (h.breakOff f) := rfl

end Tune

theorem tune_serveFile (x : Bool × EventMask) (h : Handler κ) (header : Bytes) (file : FileNode) :
    serveFile (tune x h) header file = (serveFile h header file).map id (tune x) := by
  unfold serveFile
  simp only [tune_cache, tune_fileName, tune_refusePage, tune_breakOff, tune_appendBody,
    tune_setCache]
  split
  · rfl
  · split
    · rfl
    · split <;> rfl

theorem tune_serveHeader (x : Bool × EventMask) (h : Handler κ) (header : Bytes) (file : FileNode) :
    serveHeader (tune x h) header file = (serveHeader h header file).map id (tune x) := by
  unfold serveHeader serveBody
  simp only [tune_cache, tune_fileName, tune_method, tune_breakOff, tune_appendBody, tune_setCache,
    tune_serveFile]
  split
  · rfl
  · split <;> rfl

theorem tune_buildPage (x : Bool × EventMask) (h : Handler κ) (fileType : Bytes) :
    buildPage files (tune x h) fileType = (buildPage files h fileType).map id (tune x) := by
  unfold buildPage
  simp only [tune_fileName, tune_requestHeaders, tune_refusePage]
  split
  · rfl
  · rw [tune_update _ _ fun _ _ => rfl]
    exact tune_serveHeader x _ _ _

omit [PageCache κ] in
theorem tune_noteKeepAlive (x : Bool × EventMask) (h : Handler κ) :
    ∃ x', (tune x h).update noteKeepAlive = tune x' (h.update noteKeepAlive) := by
  unfold noteKeepAlive
  by_cases hw : wantsKeepAlive h.conn.requestHeaders = true
  · refine ⟨(true, x.2), ?_⟩
    simp only [tune, Handler.update, Handler.setEvents, hw, if_true]
  · refine ⟨x, ?_⟩
    simp only [tune, Handler.update, Handler.setEvents, hw, Bool.false_eq_true, if_false]

theorem tune_buildResponse (x : Bool × EventMask) (h : Handler κ) :
    ∃ x', buildResponse files (tune x h) = (buildResponse files h).map id (tune x') := by
  obtain ⟨x', hx⟩ := tune_noteKeepAlive x h
  unfold buildResponse
  rw [hx, tune_method, tune_fileName]
  by_cases hm : h.conn.method = .post
  · rw [if_pos hm, if_pos hm]
    exact ⟨x, rfl⟩
  · rw [if_neg hm, if_neg hm]
    by_cases he : h.conn.fileName = text "echo"
    · rw [if_pos he, if_pos he]
      exact ⟨x', rfl⟩
    · rw [if_neg he, if_neg he, tune_update _ _ fun _ _ => rfl]
      exact ⟨x', tune_buildPage files x' _ _⟩

theorem tune_responseStage (x : Bool × EventMask) (h : Handler κ) :
    ∃ x', responseStage files (tune x h) = tune x' (responseStage files h) := by
  obtain ⟨x', hx⟩ := tune_buildResponse files x h
  unfold responseStage
  rw [hx, tune_processState]
  by_cases hs : h.conn.processState = .response
  · rw [if_pos hs, if_pos hs]
    rcases buildResponse files h with ⟨_ | _, h'⟩
    · exact ⟨x', rfl⟩
    · exact ⟨x', rfl⟩
  · rw [if_neg hs, if_neg hs]
    exact ⟨x, rfl⟩

theorem tune_bodyStage (x : Bool × EventMask) (h : Handler κ) :
    ∃ x', bodyStage files (tune x h) = tune x' (bodyStage files h) := by
  unfold bodyStage
  rw [tune_processState, tune_requestHeaders, tune_readBuffer]
  by_cases hs : h.conn.processState = .recvBody
  · rw [if_pos hs, if_pos hs]
    rcases h.conn.requestHeaders (text "Content-length") with _ | value
    · exact ⟨x, rfl⟩
    · dsimp only
      rcases stoi value with _ | contentLength
      · exact ⟨x, rfl⟩
      · dsimp only
        by_cases hlen : (h.conn.readBuffer.length : ℤ) < contentLength % 2 ^ 64
        · rw [if_pos hlen, if_pos hlen]
          exact ⟨x, rfl⟩
        · rw [if_neg hlen, if_neg hlen, tune_update _ _ fun _ _ => rfl]
          exact tune_responseStage files x _
  · rw [if_neg hs, if_neg hs]
    exact tune_responseStage files x h

omit [PageCache κ] in
theorem tune_flush (x : Bool × EventMask) (h : Handler κ) :
    ∃ x', flush (tune x h) = tune x' (flush h) := by
  have hask : ∀ (x : Bool × EventMask) (h : Handler κ), ∃ x',
      askToWrite (tune x h) = tune x' (askToWrite h) := by
    intro x h
    unfold askToWrite
    rw [tune_writeBuffer]
    by_cases hw : h.conn.writeBuffer.length > 0
    · rw [if_pos hw, if_pos hw]
      exact ⟨(x.1, x.2 ||| .EPOLLOUT), rfl⟩
    · rw [if_neg hw, if_neg hw]
      exact ⟨x, rfl⟩
  unfold flush handleWrite
  rw [tune_writeBuffer, tune_isError, tune_connectionState, tune_sendCount]
  by_cases hw : h.conn.writeBuffer.length > 0
  · rw [if_pos hw, if_pos hw]
    by_cases he : !h.conn.isError ∧ h.conn.connectionState ≠ .disconnected
    · rw [if_pos he, if_pos he]
      by_cases hn : h.sendCount < 0
      · rw [if_pos hn, if_pos hn, tune_send, tune_setEvents, tune_update _ _ fun _ _ => rfl]
        exact hask (x.1, .zero) _
      · rw [if_neg hn, if_neg hn, tune_send]
        exact hask x _
    · rw [if_neg he, if_neg he]
      exact ⟨x, rfl⟩
  · rw [if_neg hw, if_neg hw]
    exact ⟨x, rfl⟩

omit [PageCache κ] in
/-- **What follows the loop writes the same bytes.** -/
theorem tune_handleReadTail_log (x : Bool × EventMask) (h : Handler κ) :
    (handleReadTail (tune x h)).1.log = (handleReadTail h).1.log := by
  obtain ⟨x', hx⟩ := tune_flush x h
  unfold handleReadTail conclude
  rw [hx, tune_fault, tune_isError, tune_isError, tune_processState, tune_connectionState]
  by_cases hf : h.fault.isSome ∨ h.conn.isError
  · rw [if_pos hf, if_pos hf, tune_log]
  · rw [if_neg hf, if_neg hf]
    split
    · rfl
    · split <;> rfl

/-! ## One request alone -/

/-- **An error answer is all that is written.** -/
theorem accepted_of_failWith {c : IdleConnection} {cache : κ} {segment : Bytes} {n : ℕ} {m : Bytes}
    {f : HttpConnection → HttpConnection} (h : handleReadBody files (c.handler cache segment)
      = failWith ((c.arrived cache segment).update f) n m) :
    accepted (handleRead files (c.handler cache segment)).log = errorResponse n m := by
  have hstop : (handleReadTail (handleReadBody files (c.handler cache segment))).2 = false := by
    rw [h, handleReadTail_failWith]
  rw [handleRead_of_stop files hstop, h, handleReadTail_failWith]
  obtain ⟨b, hb⟩ : ∃ b, b = errorResponse n m := ⟨_, rfl⟩
  change accepted [.produced _, .accepted (write [] (errorResponse n m)).accepted]
    = errorResponse n m
  rw [← hb, write_nil]
  simp [accepted]

/-- **A request is answered as on a new connection.** -/
theorem accepted_single (c : IdleConnection) (cache : κ) {r : Request} (ha : r.Alone) :
    accepted (handleRead files (c.handler cache r.bytes)).log
      = accepted (handleRead files
          (IdleConnection.handler { resourceDir := c.resourceDir } cache r.bytes)).log := by
  have hnil : r.bytes = r.bytes ++ [] := (List.append_nil _).symm
  rw [hnil]
  by_cases hr : r.Refused
  · obtain ⟨c₁, h₁⟩ := body_refused files hr cache c []
    obtain ⟨c₂, h₂⟩ := body_refused files hr cache
      { resourceDir := c.resourceDir } []
    rw [accepted_of_failWith files h₁, accepted_of_failWith files h₂]
  · obtain ⟨hs, he⟩ := ha.resolve_left hr
    obtain ⟨fileName, hbody⟩ := body_parsed (κ := κ) files hr hs he
    have hstop : ∀ c : IdleConnection,
        (handleReadTail (handleReadBody files (c.handler cache (r.bytes ++ [])))).2 = false := by
      intro c
      refine handleReadTail_stop ?_
      rw [hbody, (bodyStage_sameParse files _).readBuffer]
      rfl
    obtain ⟨x, hx⟩ := tune_bodyStage files (c.isKeepAlive, c.events)
      ((IdleConnection.arrived { resourceDir := c.resourceDir } cache (r.bytes ++ [])).update
        fun c' => r.parsed [] (r.lineRead fileName (Chr.lf :: (r.fieldBytes ++ [])) c'))
    have htune : handleReadBody files (c.handler cache (r.bytes ++ []))
      = tune x (handleReadBody files
        (IdleConnection.handler { resourceDir := c.resourceDir } cache (r.bytes ++ []))) := by
      rw [hbody, hbody]
      exact hx
    rw [handleRead_of_stop files (hstop c), handleRead_of_stop files (hstop _), htune,
      tune_handleReadTail_log]

/-- A request alone leaves nothing in the buffer. -/
theorem pass_single (c : IdleConnection) (cache : κ) {r : Request} (ha : r.Alone) :
    (handleReadPass files (c.handler cache r.bytes)).1.conn.readBuffer = [] := by
  obtain ⟨hrefused, -, hshort, -⟩ := pass_readBuffer files r cache c []
  rw [List.append_nil] at hrefused hshort
  by_cases h : r.Refused
  · exact hrefused h
  · obtain ⟨hs, he⟩ := ha.resolve_left h
    exact hshort h hs he

theorem drained_single (c : IdleConnection) (cache : κ) {r : Request} (ha : r.Alone) :
    (handleRead files (c.handler cache r.bytes)).conn.readBuffer = [] := by
  have hpass := pass_single files c cache ha
  have hbody : (handleReadBody files (c.handler cache r.bytes)).conn.readBuffer = [] := by
    rw [← handleReadTail_readBuffer]
    exact hpass
  rw [handleRead_of_stop files (handleReadTail_stop hbody)]
  exact hpass

/-- **The pipelining law holds of one request, and of no more**: it must be one that the parser
refuses at its line, or one without a value of more than 256 bytes whose last value is not empty. -/
theorem pipelined_iff (cache : κ) (c : IdleConnection) (r : Request) (rs : List Request) :
    Pipelined files cache c (r :: rs) ↔ rs = [] ∧ (r.Refused ∨ r.Short ∧ r.Ends) := by
  constructor
  · intro h
    have hne := fun hrest => pass_readBuffer_ne files r cache c hrest (h.consumed [] r rs rfl)
    have hrs : rs = [] := by
      by_contra hrs
      refine hne (.inl ?_)
      obtain ⟨r', rs', rfl⟩ := List.exists_cons_of_ne_nil hrs
      rw [bytesOf, List.flatMap_cons, Request.bytes]
      simp
    exact ⟨hrs, by_contra fun ha => hne (.inr ha)⟩
  · rintro ⟨rfl, ha⟩
    have hone : bytesOf [r] = r.bytes := List.append_nil _
    refine ⟨?_, ?_, ?_⟩
    · rw [hone, List.flatMap_singleton]
      exact accepted_single files c cache ha
    · rw [hone]
      exact drained_single files c cache ha
    · intro before r' after h
      obtain ⟨rfl, hcons⟩ | ⟨-, hcons⟩ := List.singleton_eq_append_iff.mp h
      · obtain ⟨rfl, rfl⟩ := List.cons.inj hcons
        rw [bytesOf, List.flatMap_nil, List.append_nil]
        exact pass_single files c cache ha
      · exact absurd hcons (List.cons_ne_nil _ _)

end Pipeline

/-! ## Two requests for one page -/

/-- A `GET` of `/x`. -/
def Request.getX : Request where
  method := .get
  path := text "x"
  version := .http11
  headers := [(text "Host", text "a")]
  method_ne := by decide
  headers_ne := List.cons_ne_nil _ _
  plain f hf := by
    obtain rfl := List.mem_singleton.mp hf
    exact ⟨by decide, by decide +kernel, by decide +kernel⟩
  path_ok := by decide +kernel

/-- A directory with that page. -/
def oneFile : FileSystem := fun path =>
  if path = text "/pages/x" then some ⟨.regular (text "page"), true⟩ else none

/-- **The second of two requests for a page is answered with an error.** -/
theorem not_pipelined_getX_getX : ¬ Pipelined oneFile (Cache.LFUCache.init 10)
    { resourceDir := text "/pages/" } [.getX, .getX] := by
  intro h
  have hone : ∀ (c : IdleConnection) (segment : Bytes), segment ≠ [] →
      handleRead oneFile (c.handler (Cache.LFUCache.init 10) segment) = handleRead oneFile
        { c.handler (Cache.LFUCache.init 10) segment with reads := [.data segment, .again] } :=
    fun c segment hs => handleRead_deliver oneFile (c.handler (Cache.LFUCache.init 10) segment) hs
  have hresponses := h.responses
  rw [hone _ _ (by decide), List.flatMap_cons, List.flatMap_singleton,
    hone _ Request.getX.bytes (by decide)] at hresponses
  exact absurd hresponses (by decide)

end WebServer.Http
