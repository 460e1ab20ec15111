import WebServer.Http.Response

/-!
# Http/HandleRead — one readable event

The body of `HandleRead` is a `do … while (false)` whose stages fall through to the next one or
break off; after it the answer is written and, when a request is finished and bytes are left, the
handler calls itself.  `handleRead_eq` is that recursion as an equation: a finished request always
takes at least one byte out of the buffer (`measure_handleReadPass`).
-/

namespace WebServer.Http

open Event Utility

/-! ## `std::stoi` -/

/-- The number a list of digits spells. -/
def digitsValue (ds : Bytes) : ℕ := ds.foldl (fun n d => 10 * n + (d.toNat - 48)) 0

/-- `std::stoi`; `none` where it throws, for want of a digit or of room in an `int`. -/
def stoi (s : Bytes) : Option ℤ :=
  let s := s.dropWhile Chr.isSpace
  let (negative, s) : Bool × Bytes :=
    match s with
    | [] => (false, [])
    | c :: rest => if c = 45 then (true, rest) else if c = 43 then (false, rest) else (false, s)
  let ds := s.takeWhile Chr.isDigit
  let n : ℤ := if negative then -digitsValue ds else digitsValue ds
  if ds = [] then none
  else if -2 ^ 31 ≤ n ∧ n < 2 ^ 31 then some n
  else none

/-! ## The other handlers -/

section Handlers

variable {κ : Type*}

/-- Marking the connection as failed. -/
def markError (c : HttpConnection) : HttpConnection := { c with isError := true }

/-- Asking for another writable event while output is left. -/
def askToWrite (h : Handler κ) : Handler κ :=
  if h.conn.writeBuffer.length > 0 then h.setEvents (h.events ||| .EPOLLOUT) else h

/-- **`HandleWrite`.** -/
def handleWrite (h : Handler κ) : Handler κ :=
  if !h.conn.isError ∧ h.conn.connectionState ≠ .disconnected then
    if h.sendCount < 0 then askToWrite ((h.send.setEvents .zero).update markError)
    else askToWrite h.send
  else h

/-- **`Reset`.**  Releasing the connection's timer is left to the event loop, which owns the
timers. -/
def reset (h : Handler κ) : Handler κ :=
  { h with
    conn := { h.conn with
      processState := .parseLine
      parseState := .start
      fileName := []
      requestHeaders := fun _ => none }
    timerReleased := true }

/-- Answering with an error page and marking the connection. -/
def failWith (h : Handler κ) (errorCode : ℕ) (errorMessage : Bytes) : Handler κ :=
  returnErrorMessage (h.update markError) errorCode errorMessage

end Handlers

/-! ## The stages -/

section Stages

variable {κ : Type*} [PageCache κ] (files : FileSystem)

/-- Going on to the next stage. -/
def HttpConnection.enter (c : HttpConnection) (s : ProcessState) : HttpConnection :=
  { c with processState := s }

/-- `STATE_RESPONSE` -/
def responseStage (h : Handler κ) : Handler κ :=
  if h.conn.processState = .response then
    match buildResponse files h with
    | (.success, h) => h.update (·.enter .finish)
    | (.error, h) => h.update markError
  else h

/-- `STATE_RECV_BODY`.  The comparison is made in `size_t`, where a negative length is huge. -/
def bodyStage (h : Handler κ) : Handler κ :=
  if h.conn.processState = .recvBody then
    match h.conn.requestHeaders (text "Content-length") with
    | none => failWith h 400 (text "Bad Request: Lack of argument (Content-length)")
    | some value =>
      match stoi value with
      | none => h.breakOff .uncaughtException
      | some contentLength =>
        if (h.conn.readBuffer.length : ℤ) < contentLength % 2 ^ 64 then h
        else responseStage files (h.update (·.enter .response))
  else responseStage files h

/-- The stage after the headers. -/
def bodyState (method : RequestMethod) : ProcessState :=
  if method = .post then .recvBody else .response

/-- `STATE_PARSE_HEADERS` -/
def headerStage (h : Handler κ) : Handler κ :=
  if h.conn.processState = .parseHeaders then
    match parseRequestHeader h.conn with
    | (none, c) => (h.update fun _ => c).breakOff .undefinedBehaviour
    | (some .again, c) => h.update fun _ => c
    | (some .error, c) => failWith (h.update fun _ => c) 400 (text "Bad Request")
    | (some .success, c) => bodyStage files (h.update fun _ => c.enter (bodyState c.method))
  else bodyStage files h

/-- `STATE_PARSE_LINE` -/
def lineStage (h : Handler κ) : Handler κ :=
  if h.conn.processState = .parseLine then
    match parseRequestLine h.conn with
    | (.again, c) => h.update fun _ => c
    | (.error, c) =>
      failWith (h.update fun _ => { c with readBuffer := [] }) 400 (text "Bad Request")
    | (.success, c) => headerStage files (h.update fun _ => c.enter .parseHeaders)
  else headerStage files h

/-- `utility::Read(connect_fd_, read_buffer_, …)` -/
@[simps] def Handler.receive (h : Handler κ) : Handler κ :=
  { h with
    conn := { h.conn with readBuffer := (Utility.read h.reads h.conn.readBuffer).buffer }
    reads := (Utility.read h.reads h.conn.readBuffer).rest }

/-- **The body of the loop**: read, then the stages. -/
def handleReadBody (h : Handler κ) : Handler κ :=
  let r := Utility.read h.reads h.conn.readBuffer
  if h.conn.connectionState = .disconnecting then
    h.receive.update fun c => { c with readBuffer := [] }
  else if r.count < 0 then failWith h.receive 400 (text "Bad Request")
  else if r.isReadZeroBytes then
    if r.count = 0 then h.receive.update fun c => { c with connectionState := .disconnecting }
    else lineStage files (h.receive.update fun c => { c with connectionState := .disconnecting })
  else lineStage files h.receive

/-- Writing the answer, if there is one to write. -/
def flush (h : Handler κ) : Handler κ :=
  if h.conn.writeBuffer.length > 0 then handleWrite h else h

/-- After the answer is written: a finished request is reset, and the flag says whether the handler
calls itself for what is left in the buffer. -/
def conclude (h : Handler κ) : Handler κ × Bool :=
  if !h.conn.isError ∧ h.conn.processState = .finish then
    (reset h, h.conn.readBuffer.length > 0 ∧ h.conn.connectionState ≠ .disconnecting)
  else if !h.conn.isError ∧ h.conn.connectionState ≠ .disconnected then
    (h.setEvents (h.events ||| .EPOLLIN), false)
  else (h, false)

/-- **What follows the loop.** -/
def handleReadTail (h : Handler κ) : Handler κ × Bool :=
  if h.fault.isSome ∨ h.conn.isError then (h, false) else conclude (flush h)

/-- One pass of `HandleRead`. -/
def handleReadPass (h : Handler κ) : Handler κ × Bool := handleReadTail (handleReadBody files h)

/-- `HandleRead`, at most `n + 1` passes deep. -/
def handleReadFuel : ℕ → Handler κ → Handler κ
  | 0, h => (handleReadPass files h).1
  | n + 1, h =>
    let r := handleReadPass files h
    if r.2 then handleReadFuel n r.1 else r.1

/-- The bytes a handler can still see: buffered, or on their way. -/
def measure (h : Handler κ) : ℕ := h.conn.readBuffer.length + (pending h.reads).length

/-- **`HandleRead`.** -/
def handleRead (h : Handler κ) : Handler κ := handleReadFuel files (measure h + 1) h

end Stages

/-! ## What the stages can come to

The stages take bytes out of the read buffer; the output side is theirs to change only at the very
end, by an error page or by a response. -/

/-- What parsing keeps: no bytes are added to the input, and the output side stands still. -/
structure Parsed (c c' : HttpConnection) : Prop where
  length_le : c'.readBuffer.length ≤ c.readBuffer.length
  writeBuffer : c'.writeBuffer = c.writeBuffer
  connectionState : c'.connectionState = c.connectionState
  isError : c'.isError = c.isError
  isKeepAlive : c'.isKeepAlive = c.isKeepAlive
  resourceDir : c'.resourceDir = c.resourceDir

namespace Parsed

theorem refl (c : HttpConnection) : Parsed c c := ⟨le_rfl, rfl, rfl, rfl, rfl, rfl⟩

theorem trans {c c' c'' : HttpConnection} (a : Parsed c c') (b : Parsed c' c'') : Parsed c c'' where
  length_le := b.length_le.trans a.length_le
  writeBuffer := b.writeBuffer.trans a.writeBuffer
  connectionState := b.connectionState.trans a.connectionState
  isError := b.isError.trans a.isError
  isKeepAlive := b.isKeepAlive.trans a.isKeepAlive
  resourceDir := b.resourceDir.trans a.resourceDir

end Parsed

/-- The loop stops between its offset and the end. -/
theorem headerLoop_offset (d : Bytes) : ∀ (rest : Bytes) (i : ℕ) (s : HeaderScan),
    i ≤ (headerLoop d rest i s).2 ∧ (headerLoop d rest i s).2 ≤ i + rest.length
  | [], i, s => ⟨le_rfl, le_rfl⟩
  | ch :: rest, i, s => by
      rw [headerLoop]
      split
      · exact ⟨le_rfl, Nat.le_add_right _ _⟩
      · split
        · next s' _ =>
          obtain ⟨h₁, h₂⟩ := headerLoop_offset d rest (i + 1) s'
          refine ⟨by omega, ?_⟩
          rw [List.length_cons]
          omega
        · exact ⟨le_rfl, Nat.le_add_right _ _⟩

/-- A loop that stops in another state than it started in has read a character. -/
theorem headerLoop_progress {d rest : Bytes} {i j : ℕ} {s s' : HeaderScan}
    (h : headerLoop d rest i s = (.go s', j)) (hne : s'.parseState ≠ s.parseState) : i < j := by
  cases rest with
  | nil =>
    rw [headerLoop, Prod.mk.injEq, ScanResult.go.injEq] at h
    exact absurd (congrArg HeaderScan.parseState h.1).symm hne
  | cons ch rest =>
    rw [headerLoop] at h
    split at h
    · rw [Prod.mk.injEq, ScanResult.go.injEq] at h
      exact absurd (congrArg HeaderScan.parseState h.1).symm hne
    · split at h
      · next s₁ _ =>
        have := (headerLoop_offset d rest (i + 1) s₁).1
        rw [h] at this
        omega
      · next r hr =>
        rw [Prod.mk.injEq] at h
        exact absurd h.1 (hr s')

theorem parsed_parseRequestHeader (c : HttpConnection) : Parsed c (parseRequestHeader c).2 := by
  unfold parseRequestHeader
  dsimp only
  split
  · exact ⟨le_rfl, rfl, rfl, rfl, rfl, rfl⟩
  · exact ⟨le_rfl, rfl, rfl, rfl, rfl, rfl⟩
  · split <;> exact ⟨by simp [substr], rfl, rfl, rfl, rfl, rfl⟩

@[simp] theorem parseRequestHeader_processState (c : HttpConnection) :
    (parseRequestHeader c).2.processState = c.processState := by
  unfold parseRequestHeader
  dsimp only
  split
  · rfl
  · rfl
  · split <;> rfl

theorem length_parseRequestHeader_lt {c c' : HttpConnection}
    (h : parseRequestHeader c = (some .success, c')) (hs : c.parseState ≠ .endLf) :
    c'.readBuffer.length < c.readBuffer.length := by
  unfold parseRequestHeader at h
  dsimp only at h
  split at h
  · exact absurd (congrArg Prod.fst h) (by simp)
  · exact absurd (congrArg Prod.fst h) (by simp)
  · next s i hl =>
    split at h
    · next hend =>
      have hi : 0 < i := headerLoop_progress hl (by rw [hend]; exact hs.symm)
      have hle := (headerLoop_offset c.readBuffer c.readBuffer 0
        ⟨c.parseState, c.requestHeaders, -1, -1, -1, -1, 0, false⟩).2
      rw [hl] at hle
      obtain rfl := congrArg Prod.snd h
      simp only [substr, List.length_drop]
      omega
    · exact absurd (congrArg Prod.fst h) (by simp)

theorem length_afterRequestLine (d : Bytes) : (afterRequestLine d).length ≤ d.length := by
  unfold afterRequestLine
  dsimp only
  split
  · simp [substr]
  · simp

/-- What `parseRequestLine` changes. -/
theorem parseRequestLine_frame (c : HttpConnection) : ∃ m f v,
    (parseRequestLine c).2 = { c with
      readBuffer := afterRequestLine c.readBuffer, method := m, fileName := f, version := v } :=
  readRequestLine_frame (requestLineOf c.readBuffer)
    { c with readBuffer := afterRequestLine c.readBuffer }

theorem parsed_parseRequestLine (c : HttpConnection) : Parsed c (parseRequestLine c).2 := by
  obtain ⟨m, f, v, h⟩ := parseRequestLine_frame c
  rw [h]
  exact ⟨length_afterRequestLine _, rfl, rfl, rfl, rfl, rfl⟩

section Results

variable {κ : Type*}

/-- **How the stages end**: waiting for data, in a fault, with an error page, or in
`STATE_RESPONSE`. -/
inductive StageResult [PageCache κ] (files : FileSystem) (h : Handler κ) : Handler κ → Prop
  | wait {c : HttpConnection} (hc : Parsed h.conn c) (hs : c.processState ≠ .response) :
      StageResult files h (h.update fun _ => c)
  | fault {c : HttpConnection} (hc : Parsed h.conn c) (f : Fault) :
      StageResult files h ((h.update fun _ => c).breakOff f)
  | fail {c : HttpConnection} (hc : Parsed h.conn c) (n : ℕ) (m : Bytes) :
      StageResult files h (failWith (h.update fun _ => c) n m)
  | respond {c : HttpConnection} (hc : Parsed h.conn c) (hs : c.processState = .response) :
      StageResult files h (responseStage files (h.update fun _ => c))

theorem StageResult.of_parsed [PageCache κ] {files : FileSystem} {h h' : Handler κ}
    {c : HttpConnection} (hc : Parsed h.conn c)
    (r : StageResult files (h.update fun _ => c) h') : StageResult files h h' := by
  cases r with
  | wait hc' hs => exact .wait (hc.trans hc') hs
  | fault hc' f => exact .fault (hc.trans hc') f
  | fail hc' n m => exact .fail (hc.trans hc') n m
  | respond hc' hs => exact .respond (hc.trans hc') hs

variable [PageCache κ] (files : FileSystem)

theorem responseStage_result (h : Handler κ) : StageResult files h (responseStage files h) := by
  by_cases hs : h.conn.processState = .response
  · exact .respond (.refl h.conn) hs
  · rw [responseStage, if_neg hs]
    exact .wait (.refl h.conn) hs

theorem bodyStage_result (h : Handler κ) : StageResult files h (bodyStage files h) := by
  unfold bodyStage
  split
  · next hs =>
    split
    · exact .fail (.refl h.conn) _ _
    · split
      · exact .fault (.refl h.conn) _
      · split
        · exact .wait (.refl h.conn) (by rw [hs]; decide)
        · exact .of_parsed (c := h.conn.enter .response) ⟨le_rfl, rfl, rfl, rfl, rfl, rfl⟩
            (responseStage_result files _)
  · exact responseStage_result files h

theorem headerStage_result (h : Handler κ) : StageResult files h (headerStage files h) := by
  unfold headerStage
  have hc := parsed_parseRequestHeader h.conn
  have hps := parseRequestHeader_processState h.conn
  split
  · next hs =>
    rw [hs] at hps
    split
    · next hp => exact .fault (by rwa [hp] at hc) _
    · next hp =>
      rw [hp] at hc hps
      exact .wait hc (by rw [hps]; decide)
    · next hp => exact .fail (by rwa [hp] at hc) _ _
    · next c hp =>
      rw [hp] at hc
      exact .of_parsed (c := c.enter (bodyState c.method))
        ⟨hc.length_le, hc.writeBuffer, hc.connectionState, hc.isError, hc.isKeepAlive,
          hc.resourceDir⟩ (bodyStage_result files _)
  · exact bodyStage_result files h

/-- **The stages, from the first one on.** -/
theorem lineStage_result (h : Handler κ) : StageResult files h (lineStage files h) := by
  unfold lineStage
  have hc := parsed_parseRequestLine h.conn
  split
  · split
    · next hp => exact absurd (congrArg Prod.fst hp) (parseRequestLine_ne_again h.conn)
    · next c hp =>
      rw [hp] at hc
      exact .fail (c := { c with readBuffer := [] })
        ⟨Nat.zero_le _, hc.writeBuffer, hc.connectionState, hc.isError, hc.isKeepAlive,
          hc.resourceDir⟩ _ _
    · next c hp =>
      rw [hp] at hc
      exact .of_parsed (c := c.enter .parseHeaders)
        ⟨hc.length_le, hc.writeBuffer, hc.connectionState, hc.isError, hc.isKeepAlive,
          hc.resourceDir⟩ (headerStage_result files _)
  · exact headerStage_result files h

/-- What `STATE_RESPONSE` does to a connection that is in it. -/
theorem responseStage_eq {h : Handler κ} (hs : h.conn.processState = .response) :
    responseStage files h = (buildResponse files h).2.update fun c =>
      if (buildResponse files h).1 = .success then c.enter .finish else markError c := by
  rw [responseStage, if_pos hs]
  split <;> next hb => simp [hb]

/-- **What answering leaves alone**: the input, and what was parsed from it. -/
structure SameParse (c c' : HttpConnection) : Prop where
  readBuffer : c'.readBuffer = c.readBuffer
  parseState : c'.parseState = c.parseState
  requestHeaders : c'.requestHeaders = c.requestHeaders

theorem responseStage_sameParse (h : Handler κ) :
    SameParse h.conn (responseStage files h).conn := by
  by_cases hs : h.conn.processState = .response
  · have hsame := sameInput_buildResponse files h
    rw [responseStage_eq files hs, Handler.update_conn]
    split <;> exact ⟨hsame.readBuffer, hsame.parseState, hsame.requestHeaders⟩
  · rw [responseStage, if_neg hs]
    exact ⟨rfl, rfl, rfl⟩

theorem bodyStage_sameParse (h : Handler κ) : SameParse h.conn (bodyStage files h).conn := by
  unfold bodyStage
  split
  · split
    · exact ⟨rfl, rfl, rfl⟩
    · split
      · exact ⟨rfl, rfl, rfl⟩
      · split
        · exact ⟨rfl, rfl, rfl⟩
        · obtain ⟨hbuffer, hstate, hheaders⟩ :=
            responseStage_sameParse files (h.update (·.enter .response))
          exact ⟨hbuffer, hstate, hheaders⟩
  · exact responseStage_sameParse files h

end Results

/-! ## Writing leaves the input alone -/

section Writing

variable {κ : Type*}

@[simp] theorem askToWrite_conn (h : Handler κ) : (askToWrite h).conn = h.conn := by
  unfold askToWrite
  split <;> rfl

@[simp] theorem askToWrite_reads (h : Handler κ) : (askToWrite h).reads = h.reads := by
  unfold askToWrite
  split <;> rfl

/-- What a write changes of the connection. -/
theorem handleWrite_conn (h : Handler κ) : ∃ w e, (handleWrite h).conn =
    { h.conn with writeBuffer := w, isError := e } := by
  unfold handleWrite
  split
  · split
    · exact ⟨_, _, by rw [askToWrite_conn]; rfl⟩
    · exact ⟨_, _, by rw [askToWrite_conn]; rfl⟩
  · exact ⟨_, _, rfl⟩

@[simp] theorem handleWrite_reads (h : Handler κ) : (handleWrite h).reads = h.reads := by
  unfold handleWrite
  split
  · split <;> rw [askToWrite_reads] <;> rfl
  · rfl

/-- A write that fails marks the connection, and no write repairs it. -/
theorem handleWrite_isError {h : Handler κ} (he : (handleWrite h).conn.isError = false) :
    h.conn.isError = false := by
  unfold handleWrite at he
  split at he
  · next hc => simpa using hc.1
  · exact he

@[simp] theorem handleWrite_fault (h : Handler κ) : (handleWrite h).fault = h.fault := by
  unfold handleWrite
  split
  · split <;> unfold askToWrite <;> split <;> rfl
  · rfl

@[simp] theorem flush_fault (h : Handler κ) : (flush h).fault = h.fault := by
  unfold flush
  split
  · exact handleWrite_fault h
  · rfl

theorem flush_conn (h : Handler κ) : ∃ w e, (flush h).conn =
    { h.conn with writeBuffer := w, isError := e } := by
  unfold flush
  split
  · exact handleWrite_conn h
  · exact ⟨_, _, rfl⟩

@[simp] theorem flush_reads (h : Handler κ) : (flush h).reads = h.reads := by
  unfold flush
  split
  · exact handleWrite_reads h
  · rfl

@[simp] theorem measure_receive (h : Handler κ) : measure h.receive = measure h := by
  have := congrArg List.length (read_conserves h.reads h.conn.readBuffer)
  rw [List.length_append, List.length_append] at this
  exact this

@[simp] theorem measure_flush (h : Handler κ) : measure (flush h) = measure h := by
  obtain ⟨w, e, hc⟩ := flush_conn h
  rw [measure, measure, hc, flush_reads]

end Writing

/-! ## The recursion as an equation

A request that is finished from its first line on took at least one byte out of the buffer. -/

section Recursion

variable {κ : Type*} [PageCache κ] (files : FileSystem)

/-- A connection between two requests. -/
structure Fresh (c : HttpConnection) : Prop where
  processState : c.processState = .parseLine
  parseState : c.parseState = .start

omit [PageCache κ] in
theorem fresh_reset (h : Handler κ) : Fresh (reset h).conn := ⟨rfl, rfl⟩

theorem StageResult.reads {h h' : Handler κ} (r : StageResult files h h') : h'.reads = h.reads := by
  cases r with
  | wait _ _ => rfl
  | fault _ _ => rfl
  | fail _ _ _ => rfl
  | respond _ hs =>
    rw [responseStage_eq files hs]
    exact (sameInput_buildResponse files _).reads

theorem StageResult.length_le {h h' : Handler κ} (r : StageResult files h h') :
    h'.conn.readBuffer.length ≤ h.conn.readBuffer.length := by
  cases r with
  | wait hc _ => exact hc.length_le
  | fault hc _ => exact hc.length_le
  | fail hc _ _ => exact hc.length_le
  | @respond c hc hs =>
    have hb := (sameInput_buildResponse files (h.update fun _ => c)).readBuffer
    rw [responseStage_eq files hs, Handler.update_conn]
    split <;> exact (congrArg List.length hb).le.trans hc.length_le

/-- Past the request line, a request that is finished took a byte out of the buffer. -/
theorem headerStage_progress {h : Handler κ} (hs : h.conn.processState = .parseHeaders)
    (hp : h.conn.parseState = .start)
    (hfin : (headerStage files h).conn.processState = .finish) :
    (headerStage files h).conn.readBuffer.length < h.conn.readBuffer.length := by
  have hno {r : Option HeaderState} {c : HttpConnection} (hc : parseRequestHeader h.conn = (r, c)) :
      c.processState ≠ .finish := by
    have hps := parseRequestHeader_processState h.conn
    rw [hc, hs] at hps
    exact fun e => absurd (hps.symm.trans e) (by decide)
  rw [headerStage, if_pos hs] at hfin ⊢
  split at hfin
  · next hc => exact (hno hc hfin).elim
  · next hc => exact (hno hc hfin).elim
  · next hc => exact (hno hc hfin).elim
  · next c hc =>
    have hlt := length_parseRequestHeader_lt hc (by rw [hp]; decide)
    exact lt_of_le_of_lt (bodyStage_result files _).length_le hlt

/-- **A request that is finished from its first line on took a byte out of the buffer.** -/
theorem lineStage_progress {h : Handler κ} (hf : Fresh h.conn)
    (hfin : (lineStage files h).conn.processState = .finish) :
    (lineStage files h).conn.readBuffer.length < h.conn.readBuffer.length := by
  have hline := (parsed_parseRequestLine h.conn).length_le
  obtain ⟨m, f, v, hframe⟩ := parseRequestLine_frame h.conn
  rw [lineStage, if_pos hf.processState] at hfin ⊢
  split at hfin
  · next c hp => exact absurd (congrArg Prod.fst hp) (parseRequestLine_ne_again h.conn)
  · next c hp =>
    rw [hp] at hframe
    subst hframe
    exact absurd (hf.processState.symm.trans hfin) (by decide)
  · next c hp =>
    rw [hp] at hframe hline
    subst hframe
    exact lt_of_lt_of_le (headerStage_progress files rfl hf.parseState hfin) hline

/-! ### The measure -/

theorem StageResult.measure_le {h h' : Handler κ} (r : StageResult files h h') :
    measure h' ≤ measure h := by
  rw [measure, measure, r.reads]
  exact Nat.add_le_add_right r.length_le _

/-- **The three ways through the loop**: the bytes read are kept or dropped, the read failed, or the
stages run. -/
inductive BodyResult (h : Handler κ) : Handler κ → Prop
  | idle {c : HttpConnection} (hb : c.readBuffer.length ≤ h.receive.conn.readBuffer.length)
      (hw : c.writeBuffer = h.conn.writeBuffer) (hs : c.processState = h.conn.processState)
      (he : c.isError = h.conn.isError) : BodyResult h (h.receive.update fun _ => c)
  | fail : BodyResult h (failWith h.receive 400 (text "Bad Request"))
  | stages (s : ConnectionState) : BodyResult h
      (lineStage files (h.receive.update fun c => { c with connectionState := s }))

theorem handleReadBody_result (h : Handler κ) : BodyResult files h (handleReadBody files h) := by
  unfold handleReadBody
  dsimp only
  split
  · exact .idle (c := { h.receive.conn with readBuffer := [] }) (Nat.zero_le _) rfl rfl rfl
  · split
    · exact .fail
    · split
      · split
        · exact .idle (c := { h.receive.conn with connectionState := .disconnecting })
            le_rfl rfl rfl rfl
        · exact .stages .disconnecting
      · exact .stages h.conn.connectionState

theorem BodyResult.measure_le {h h' : Handler κ} (r : BodyResult files h h') :
    measure h' ≤ measure h := by
  rw [← measure_receive h]
  cases r with
  | idle hb _ _ _ => exact Nat.add_le_add_right hb _
  | fail => exact le_rfl
  | stages s => exact (lineStage_result files _).measure_le

theorem BodyResult.measure_lt {h h' : Handler κ} (r : BodyResult files h h') (hf : Fresh h.conn)
    (hfin : h'.conn.processState = .finish) : measure h' < measure h := by
  have hne : h.conn.processState ≠ .finish := by rw [hf.processState]; decide
  cases r with
  | idle _ _ hs _ => exact absurd (hs.symm.trans hfin) hne
  | fail => exact absurd hfin hne
  | stages s =>
    have hf' : Fresh (h.receive.update fun c => { c with connectionState := s }).conn :=
      ⟨hf.processState, hf.parseState⟩
    have hlt := lineStage_progress files hf' hfin
    rw [← measure_receive h, measure, (lineStage_result files _).reads]
    exact Nat.add_lt_add_right hlt _

omit [PageCache κ] in
/-- What the flag of `conclude` says. -/
theorem conclude_again {h : Handler κ} (ha : (conclude h).2 = true) :
    conclude h = (reset h, true) ∧ h.conn.processState = .finish := by
  unfold conclude at ha ⊢
  split
  · next hc =>
    rw [if_pos hc] at ha
    exact ⟨Prod.ext rfl ha, hc.2⟩
  · next hc =>
    rw [if_neg hc] at ha
    split at ha <;> exact absurd ha Bool.false_ne_true

/-- **A pass after which the handler calls itself** ends in `Reset`. -/
theorem handleReadPass_again {h : Handler κ} (ha : (handleReadPass files h).2 = true) :
    (handleReadPass files h).1 = reset (flush (handleReadBody files h)) ∧
      (handleReadBody files h).conn.processState = .finish := by
  rw [handleReadPass, handleReadTail] at ha ⊢
  split at ha
  · exact absurd ha Bool.false_ne_true
  · next hc =>
    obtain ⟨he, hfin⟩ := conclude_again ha
    obtain ⟨w, e, hw⟩ := flush_conn (handleReadBody files h)
    rw [hw] at hfin
    rw [if_neg hc, he]
    exact ⟨rfl, hfin⟩

theorem fresh_handleReadPass {h : Handler κ} (ha : (handleReadPass files h).2 = true) :
    Fresh (handleReadPass files h).1.conn := by
  rw [(handleReadPass_again files ha).1]
  exact fresh_reset _

theorem measure_handleReadPass_le {h : Handler κ} (ha : (handleReadPass files h).2 = true) :
    measure (handleReadPass files h).1 ≤ measure h := by
  rw [(handleReadPass_again files ha).1]
  exact (measure_flush _).le.trans (handleReadBody_result files h).measure_le

/-- **The recursion takes bytes out of the input.** -/
theorem measure_handleReadPass {h : Handler κ} (hf : Fresh h.conn)
    (ha : (handleReadPass files h).2 = true) :
    measure (handleReadPass files h).1 < measure h := by
  obtain ⟨he, hfin⟩ := handleReadPass_again files ha
  rw [he]
  exact lt_of_le_of_lt (measure_flush _).le ((handleReadBody_result files h).measure_lt _ hf hfin)

theorem handleReadFuel_succ (n : ℕ) (h : Handler κ) : handleReadFuel files (n + 1) h =
    if (handleReadPass files h).2 then handleReadFuel files n (handleReadPass files h).1
    else (handleReadPass files h).1 := rfl

/-- Fuel beyond the measure changes nothing. -/
theorem handleReadFuel_eq : ∀ (m n : ℕ) (h : Handler κ), Fresh h.conn → measure h ≤ m →
    measure h ≤ n → handleReadFuel files m h = handleReadFuel files n h
  | m, n, h, hf, hm, hn => by
      by_cases ha : (handleReadPass files h).2 = true
      · have hlt := measure_handleReadPass files hf ha
        obtain ⟨m, rfl⟩ := Nat.exists_eq_succ_of_ne_zero (by omega : m ≠ 0)
        obtain ⟨n, rfl⟩ := Nat.exists_eq_succ_of_ne_zero (by omega : n ≠ 0)
        rw [handleReadFuel_succ, handleReadFuel_succ, if_pos ha, if_pos ha]
        exact handleReadFuel_eq m n _ (fresh_handleReadPass files ha) (by omega) (by omega)
      · have stop : ∀ k, handleReadFuel files k h = (handleReadPass files h).1 := by
          intro k
          rcases k with _ | k
          · rfl
          · rw [handleReadFuel_succ, if_neg ha]
        rw [stop, stop]

/-- **`HandleRead` calls itself** as long as a pass finishes a request and leaves bytes behind. -/
theorem handleRead_eq (h : Handler κ) : handleRead files h =
    if (handleReadPass files h).2 then handleRead files (handleReadPass files h).1
    else (handleReadPass files h).1 := by
  rw [handleRead, handleReadFuel_succ]
  by_cases ha : (handleReadPass files h).2 = true
  · rw [if_pos ha, if_pos ha]
    exact handleReadFuel_eq files _ _ _ (fresh_handleReadPass files ha)
      (measure_handleReadPass_le files ha) (Nat.le_succ _)
  · rw [if_neg ha, if_neg ha]

/-- **Induction over the recursion of `HandleRead`**: what every pass keeps, the handler keeps. -/
theorem handleRead_invariant {I : Handler κ → Prop}
    (hpass : ∀ h, I h → I (handleReadPass files h).1) {h : Handler κ} (hI : I h) :
    I (handleRead files h) := by
  have fuel : ∀ n h, I h → I (handleReadFuel files n h) := by
    intro n
    induction n with
    | zero => exact fun h hI => hpass h hI
    | succ n ih =>
      intro h hI
      rw [handleReadFuel_succ]
      split
      · exact ih _ (hpass h hI)
      · exact hpass h hI
  exact fuel _ h hI

end Recursion

end WebServer.Http
