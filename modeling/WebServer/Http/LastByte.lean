import WebServer.Http.LostLine

/-!
# Http/LastByte — a request in one read, and without its last byte

A request that is taken ends without a refusal and with no names but its own (`not_ruined_whole`).
When its last byte arrives alone, the scanner ends one byte early and that byte stays in the buffer:
behind a page it is answered as a second request (`Served.ruined`), and of a request that is read as
a `POST` it is taken for the body (`ending_post`).
-/

namespace WebServer.Http

open Event Utility

/-! ## Names of fields -/

/-- Every name of a map is one of the request. -/
def Request.Names (r : Request) (m : HeaderMap) : Prop :=
  ∀ name, (m name).isSome → ∃ f ∈ r.headers, f.1 = name

theorem Request.records_none (r : Request) : r.Records fun _ => none :=
  fun _ _ h => absurd h (by simp)

theorem Request.names_none (r : Request) : r.Names fun _ => none := fun _ h => absurd h (by simp)

theorem Request.Records.names {r : Request} {m : HeaderMap} (h : r.Records m) : r.Names m := by
  intro name hsome
  obtain ⟨value, hv⟩ := Option.isSome_iff_exists.mp hsome
  exact ⟨(name, value), h name value hv, rfl⟩

/-- **What is scanned is recorded under names of the request.** -/
theorem Request.names_headerMap (r : Request) : r.Names r.headerMap := by
  intro name hsome
  obtain ⟨value, hv⟩ := Option.isSome_iff_exists.mp hsome
  exact exists_name_of_mem_scannedLines (mem_of_lastWins hv)

/-- A name that no field has is not recorded. -/
theorem Tainted.not_names {m : HeaderMap} (h : Tainted m) (r : Request) : ¬ r.Names m := by
  obtain ⟨k, hk, hb⟩ := h
  intro hr
  obtain ⟨f, hf, rfl⟩ := hr k hk
  have hplain := r.plain f hf
  obtain ⟨b, name, hname⟩ := List.exists_cons_of_ne_nil hplain.name_ne
  have hlf := hb b (by rw [hname]; rfl)
  exact (hplain.name_ok b (hname ▸ List.mem_cons_self ..)).2.2 hlf

/-! ## A request in one read -/

section Whole

variable {κ : Type*}

/-- The handler when the header of a request has been parsed, with `rest` in the buffer. -/
def Request.atBody (r : Request) (fileName resourceDir : Bytes) (cache : κ) (rest : Bytes) :
    Handler κ :=
  { newConnection resourceDir cache with
    conn := r.parsed rest (r.lineRead fileName [] { resourceDir := resourceDir }) }

theorem Request.silent_atBody (r : Request) (fileName resourceDir : Bytes) (cache : κ)
    (rest : Bytes) : Silent (r.atBody fileName resourceDir cache rest) := ⟨rfl, rfl, rfl, rfl, rfl⟩

/-- The bytes of a request without the last one. -/
def Request.allButLast (r : Request) : Bytes :=
  r.line ++ Chr.cr :: Chr.lf :: (fieldLines r.headers ++ [Chr.cr])

theorem Request.bytes_eq (r : Request) :
    r.bytes = r.line ++ Chr.cr :: Chr.lf :: (fieldLines r.headers ++ crlf) := rfl

theorem Request.allButLast_append (r : Request) : r.allButLast ++ [Chr.lf] = r.bytes := by
  rw [bytes_eq, allButLast, List.append_assoc, List.cons_append, List.cons_append,
    List.append_assoc]
  rfl

variable [PageCache κ] (files : FileSystem)

/-- **A request that is taken**, in one read and in one that ends before its last byte: the second
time the scanner stops one byte early. -/
theorem handleReadBody_whole {r : Request} (hr : ¬ r.Refused) (hs : r.Short) (he : r.Ends) :
    ∃ fileName, ∀ (resourceDir : Bytes) (cache : κ),
    handleReadBody files ((newConnection resourceDir cache).feed r.bytes)
      = bodyStage files (r.atBody fileName resourceDir cache []) ∧
    (serveRead files (newConnection resourceDir cache) r.allButLast).conn.isError = false ∧
    (serveRead files (newConnection resourceDir cache) r.allButLast).conn.requestHeaders
      = r.headerMap ∧
    (serveRead files (newConnection resourceDir cache) r.allButLast).answers = [] ∧
    ¬ GivenUp (serveRead files (newConnection resourceDir cache) r.allButLast) ∧
    handleReadBody files
        ((serveRead files (newConnection resourceDir cache) r.allButLast).feed [Chr.lf])
      = bodyStage files (r.atBody fileName resourceDir cache [Chr.lf]) := by
  obtain ⟨fileName, hfirst⟩ := atHeader_first (κ := κ) files hr
  refine ⟨fileName, fun resourceDir cache => ⟨?_, ?_⟩⟩
  · have hl : requestLineOf r.bytes = r.line := requestLineOf_append r.cr_notMem_line _
    have hx : afterRequestLine r.bytes = Chr.lf :: (r.fieldBytes ++ []) := by
      rw [List.append_nil]
      exact afterRequestLine_append r.cr_notMem_line _
    rw [(hfirst resourceDir cache r.bytes _ hl hx).body,
      headerStage_parsed files hs he (x := []) rfl ⟨rfl, rfl, rfl⟩]
    rfl
  · have a := hfirst resourceDir cache r.allButLast _ (requestLineOf_append r.cr_notMem_line _)
      (afterRequestLine_append r.cr_notMem_line _)
    have hwait := a.wait (parseRequestHeader_insideEmptyLine (scannedLines_ne_nil r.headers_ne) rfl
      (tame_of_mem_scannedLines r.plain) (short_iff_scannedLines.mp hs)
      (by rw [fieldLines_scannedLines he]; rfl))
    rw [← serveRead_newConnection] at hwait
    rw [hwait]
    have hsilent : Silent (serveRead files (newConnection resourceDir cache) r.allButLast) := by
      rw [hwait]
      exact ⟨rfl, rfl, rfl, rfl, rfl⟩
    refine ⟨rfl, rfl, rfl, ?_, ?_⟩
    · rw [← hwait]
      exact hsilent.not_givenUp
    · rw [← hwait]
      have a' := atHeader_next files hsilent (by rw [hwait]; rfl) [Chr.lf]
      have hp := parseRequestHeader_emptyLineEnd
        (c := (((serveRead files (newConnection resourceDir cache) r.allButLast).feed
          [Chr.lf]).received [Chr.lf]).conn) (by rw [hwait]; rfl) (by rw [hwait]; rfl)
      rw [a'.success hp, hwait]
      rfl

end Whole

section Reads

variable {r : Request} {κ : Type*} [PageCache κ]

theorem serve_late {files : FileSystem} {resourceDir : Bytes} {cache : κ}
    (hg : ¬ GivenUp (serveRead files (newConnection resourceDir cache) r.allButLast)) :
    serve files (newConnection resourceDir cache) [r.allButLast, [Chr.lf]]
      = handleRead files
        ((serveRead files (newConnection resourceDir cache) r.allButLast).feed [Chr.lf]) :=
  if_neg hg

theorem serve_whole (files : FileSystem) (resourceDir : Bytes) (cache : κ) :
    serve files (newConnection resourceDir cache) [r.bytes]
      = handleRead files ((newConnection resourceDir cache).feed r.bytes) :=
  serveRead_newConnection files resourceDir cache r.bytes

end Reads

/-! ## A server on which every request is answered -/

/-- Every path is a readable file of one byte. -/
def oneByteFiles : FileSystem := fun _ => some ⟨.regular [0], true⟩

/-- A page cache that keeps nothing. -/
abbrev emptyCache : Cache.LFUCache := Cache.LFUCache.init 0

theorem get_emptyCache (key : Bytes) : PageCache.get emptyCache key = some (none, emptyCache) := rfl

/-- On it, a `GET` or `HEAD` succeeds. -/
theorem buildResponse_oneByteFiles {h : Handler Cache.LFUCache} (hm : h.conn.method ≠ .post)
    (hc : h.cache = emptyCache) : (buildResponse oneByteFiles h).1 = .success := by
  by_cases he : h.conn.fileName = text "echo"
  · rw [buildResponse, if_neg hm, if_pos he]
  · have hf : oneByteFiles (cString h.conn.path) = some ⟨.regular [0], true⟩ := rfl
    obtain ⟨h', d, hb⟩ := buildResponse_page oneByteFiles hm he hf
    rw [hb, serveHeader]
    split
    · rfl
    · rw [serveBody, d.cache, hc, get_emptyCache]
      rfl

/-! ## A request that is read as a `POST`

Its body is waited for; the rest of the buffer counts only by its length. -/

section Post

variable {κ : Type*} [PageCache κ] {files : FileSystem} {r : Request} {g : Handler κ}
  {fileName resourceDir : Bytes} {cache : κ} {rest : Bytes}

/-- The answer to a `POST` without a length. -/
def lackOfLength : Bytes := text "Bad Request: Lack of argument (Content-length)"

/-- **How a `POST` ends**, with `n` bytes behind its header. -/
def Request.postEnding (r : Request) (h : Handler κ) (n : ℕ) : Ending :=
  match r.headerMap (text "Content-length") with
  | none => ending (failWith h 400 lackOfLength)
  | some value =>
    match stoi value with
    | none => ending (h.breakOff .uncaughtException)
    | some contentLength =>
      if (n : ℤ) < contentLength % 2 ^ 64 then ending h
      else ending (refusePage h 500 (text "Server Busy!")).2

/-- **The buffer counts only by its length.** -/
theorem ending_post (hb : handleReadBody files g
    = bodyStage files (r.atBody fileName resourceDir cache rest)) (hm : r.readMethod = .post) :
    ending (handleRead files g)
      = r.postEnding (r.atBody fileName resourceDir cache []) rest.length := by
  have hs : (r.atBody fileName resourceDir cache rest).conn.processState = .recvBody := by
    change bodyState r.readMethod = _
    rw [hm]
    rfl
  have hmap : (r.atBody fileName resourceDir cache rest).conn.requestHeaders (text "Content-length")
      = r.headerMap (text "Content-length") := rfl
  have hstop : ∀ {h : Handler κ}, handleReadBody files g = h → handleReadTail h = (h, false) →
      handleRead files g = h := by
    intro h hbody htail
    have : (handleReadTail (handleReadBody files g)).2 = false := by rw [hbody, htail]
    rw [handleRead_of_stop files this, hbody, htail]
  rw [bodyStage, if_pos hs, hmap] at hb
  rw [Request.postEnding]
  cases hv : r.headerMap (text "Content-length") with
  | none =>
    rw [hv] at hb
    rw [hstop hb (handleReadTail_failWith _ _ _)]
    rfl
  | some value =>
    rw [hv] at hb
    dsimp only at hb ⊢
    cases hn : stoi value with
    | none =>
      rw [hn] at hb
      rw [hstop hb (if_pos (.inl rfl))]
      rfl
    | some contentLength =>
      rw [hn] at hb
      dsimp only at hb ⊢
      change _ = if (rest.length : ℤ) < contentLength % 2 ^ 64 then _ else _ at hb
      by_cases hlen : (rest.length : ℤ) < contentLength % 2 ^ 64
      · rw [if_pos hlen] at hb
        have htail := handleReadTail_wait (r.silent_atBody fileName resourceDir cache rest)
          (by rw [hs]; decide)
        have : (handleReadTail (handleReadBody files g)).2 = false := by rw [hb, htail]
        rw [if_pos hlen, handleRead_of_stop files this, hb, htail]
        rfl
      · rw [if_neg hlen] at hb
        rw [if_neg hlen]
        have hst : ((r.atBody fileName resourceDir cache rest).update
            (·.enter .response)).conn.processState = .response := rfl
        have hpost : ((r.atBody fileName resourceDir cache rest).update
            (·.enter .response)).conn.method = .post := hm
        rw [responseStage, if_pos hst, buildResponse, if_pos hpost] at hb
        rw [hstop hb (if_pos (.inr rfl))]
        rfl

end Post

/-! ## What a request in one read does not end with -/

section Unspoiled

variable {κ : Type*}

theorem Ruined.of_ending {h h' : Handler κ} (hr : Ruined h) (he : ending h = ending h') :
    Ruined h' := by
  have hf : h.fault = h'.fault := congrArg Ending.fault he
  have ha : h.answers = h'.answers := congrArg Ending.answers he
  have hm : h.conn.requestHeaders = h'.conn.requestHeaders := congrArg Ending.requestHeaders he
  rwa [Ruined, Spoiled, hf, ha, hm] at hr

/-- No fault, no refusal, and only names of the request. -/
theorem Request.not_ruined (r : Request) {h : Handler κ} (hf : h.fault ≠ some .undefinedBehaviour)
    (ha : ∀ a ∈ h.answers, (a.kind = .error → a.response ≠ badRequest) ∧ r.Names a.requestHeaders)
    (hm : r.Names h.conn.requestHeaders) : ¬ Ruined h := by
  rintro (hr | ⟨a, hr, hk, hb⟩ | ht | ⟨a, hr, ht⟩)
  · exact hf hr
  · exact (ha a hr).1 hk hb
  · exact ht.not_names r hm
  · exact ht.not_names r (ha a hr).2

theorem handleReadTail_fault (h : Handler κ) : (handleReadTail h).1.fault = h.fault := by
  unfold handleReadTail conclude
  split
  · rfl
  · split
    · exact flush_fault h
    · split <;> exact flush_fault h

theorem handleReadTail_requestHeaders (h : Handler κ) :
    (handleReadTail h).1.conn.requestHeaders = h.conn.requestHeaders ∨
      (handleReadTail h).1.conn.requestHeaders = fun _ => none := by
  by_cases hp : h.conn.processState = .finish
  · obtain ⟨w, e, hc⟩ := flush_conn h
    unfold handleReadTail conclude
    split
    · exact .inl rfl
    · split
      · exact .inr rfl
      · split <;> exact .inl (by simp only [Handler.setEvents_conn, hc])
  · exact .inl (handleReadTail_unfinished hp).2

theorem lackOfLength_ne_badRequest : errorResponse 400 lackOfLength ≠ badRequest := by
  decide

theorem serverBusy_ne_badRequest : errorResponse 500 (text "Server Busy!") ≠ badRequest := by
  decide

/-- A `POST` ends without a refusal, as far as its header goes. -/
theorem Request.not_ruined_post (r : Request) {fileName resourceDir : Bytes} {cache : κ} {n : ℕ}
    {h : Handler κ} (he : ending h = r.postEnding (r.atBody fileName resourceDir cache []) n) :
    ¬ Ruined h := by
  intro hr
  have hrec : r.Names (r.atBody fileName resourceDir cache []).conn.requestHeaders :=
    r.names_headerMap
  have hfault : (r.atBody fileName resourceDir cache []).fault ≠ some .undefinedBehaviour := by
    change none ≠ _
    simp
  rw [postEnding] at he
  split at he
  · refine absurd (hr.of_ending he) (r.not_ruined hfault ?_ hrec)
    intro a ha
    obtain rfl := List.mem_singleton.mp ha
    exact ⟨fun _ => lackOfLength_ne_badRequest, r.names_headerMap⟩
  · split at he
    · exact absurd (hr.of_ending he)
        (r.not_ruined (by simp) (fun a ha => absurd ha List.not_mem_nil) hrec)
    · split at he
      · exact absurd (hr.of_ending he)
          (r.not_ruined hfault (fun a ha => absurd ha List.not_mem_nil) hrec)
      · refine absurd (hr.of_ending he) (r.not_ruined hfault ?_ hrec)
        intro a ha
        obtain rfl := List.mem_singleton.mp ha
        exact ⟨fun _ => serverBusy_ne_badRequest, r.names_headerMap⟩

end Unspoiled

/-! ## Where the last byte is cut off -/

section LastByte

variable {r : Request} {fileName : Bytes}

/-- A page for a request that is not read as a `POST`. -/
structure Served (r : Request) (rest : Bytes) (b : Handler Cache.LFUCache) : Prop where
  processState : b.conn.processState = .finish
  isError : b.conn.isError = false
  connectionState : b.conn.connectionState = .connected
  readBuffer : b.conn.readBuffer = rest
  requestHeaders : b.conn.requestHeaders = r.headerMap
  reads : b.reads = []
  writes : b.writes = []
  fault : b.fault = none
  answers : ∃ a, b.answers = [a] ∧ a.kind ≠ .error ∧ a.requestHeaders = r.headerMap

theorem served_bodyStage (hm : r.readMethod ≠ .post) (rest : Bytes) :
    Served r rest (bodyStage oneByteFiles (r.atBody fileName [] emptyCache rest)) := by
  obtain ⟨h, hh⟩ : ∃ h, h = r.atBody fileName [] emptyCache rest := ⟨_, rfl⟩
  have hs : h.conn.processState = .response := by
    rw [hh]
    exact if_neg hm
  have hmethod : h.conn.method ≠ .post := by
    rw [hh]
    exact hm
  have hb := buildResponse_oneByteFiles hmethod (by rw [hh]; rfl)
  have same := sameInput_buildResponse oneByteFiles h
  have hw := writes_buildResponse oneByteFiles hb
  obtain ⟨a, ha, hk, hr, hf⟩ := answers_of_success oneByteFiles hb
  rw [← hh, bodyStage, if_neg (by rw [hs]; decide), responseStage_eq oneByteFiles hs]
  simp only [hb, if_true]
  refine ⟨rfl, same.isError.trans ?_, same.connectionState.trans ?_, same.readBuffer.trans ?_,
    same.requestHeaders.trans ?_, same.reads.trans ?_, hw.trans ?_, hf.trans ?_, a, ha.trans ?_, hk,
    hr.trans ?_⟩
  · rw [hh]; rfl
  · rw [hh]; rfl
  · rw [hh]; rfl
  · rw [hh]; rfl
  · rw [hh]; rfl
  · rw [hh]; rfl
  · rw [hh]; rfl
  · rw [hh]; rfl
  · rw [hh]; rfl

theorem Served.not_ruined {g b : Handler Cache.LFUCache} (s : Served r [] b)
    (hb : handleReadBody oneByteFiles g = b) : ¬ Ruined (handleRead oneByteFiles g) := by
  obtain ⟨a, ha, hk, hr⟩ := s.answers
  have hstop : (handleReadTail (handleReadBody oneByteFiles g)).2 = false := by
    rw [hb]
    exact handleReadTail_stop s.readBuffer
  rw [handleRead_of_stop oneByteFiles hstop, hb]
  refine r.not_ruined ?_ ?_ ?_
  · rw [handleReadTail_fault, s.fault]
    simp
  · intro x hx
    rw [handleReadTail_answers, ha] at hx
    obtain rfl := List.mem_singleton.mp hx
    exact ⟨fun h => absurd h hk, hr ▸ r.names_headerMap⟩
  · obtain hm | hm := handleReadTail_requestHeaders b
    · rw [hm, s.requestHeaders]
      exact r.names_headerMap
    · rw [hm]
      exact r.names_none

/-- A call without input goes on with what is in the buffer. -/
theorem handleReadBody_noInput {κ : Type*} [PageCache κ] (files : FileSystem) {h : Handler κ}
    (hr : h.reads = []) (hc : h.conn.connectionState = .connected) :
    handleReadBody files h = lineStage files h := by
  have hread : Utility.read h.reads h.conn.readBuffer = ⟨0, h.conn.readBuffer, false, h.reads⟩ := by
    rw [hr]
    rfl
  have hrecv : h.receive = h := by rw [Handler.receive, hread]
  rw [handleReadBody, hread, if_neg (by rw [hc]; decide), hrecv]
  rfl

/-- When the socket takes everything, writing does not fail. -/
theorem flush_isError {κ : Type*} {h : Handler κ} (hw : h.writes = []) :
    (flush h).conn.isError = h.conn.isError := by
  have hcount : ¬ h.sendCount < 0 := by
    rw [Handler.sendCount, hw, write_nil]
    simp only
    omega
  unfold flush handleWrite
  split
  · split
    · rw [askToWrite_conn]
      rfl
    · rfl
  · rfl

/-- **A line feed that is left over** is answered as a bad request. -/
theorem Served.ruined {g b : Handler Cache.LFUCache} (s : Served r [Chr.lf] b)
    (hb : handleReadBody oneByteFiles g = b) : Ruined (handleRead oneByteFiles g) := by
  obtain ⟨w, e, hc⟩ := flush_conn b
  have he : (flush b).conn.isError = false := (flush_isError s.writes).trans s.isError
  have hp : (flush b).conn.processState = .finish := by
    rw [hc]
    exact s.processState
  have hconn : (flush b).conn.connectionState = .connected := by
    rw [hc]
    exact s.connectionState
  have hbuf : (flush b).conn.readBuffer = [Chr.lf] := by
    rw [hc]
    exact s.readBuffer
  have hpass : handleReadPass oneByteFiles g = (reset (flush b), true) := by
    rw [handleReadPass, hb, handleReadTail, if_neg (by rw [s.fault, s.isError]; simp), conclude,
      if_pos ⟨by rw [he]; rfl, hp⟩, hbuf, hconn]
    rfl
  have hline : ∀ c, (readRequestLine (requestLineOf (reset (flush b)).conn.readBuffer) c).1
      = .error := by
    intro c
    change (readRequestLine (requestLineOf (flush b).conn.readBuffer) c).1 = _
    rw [hbuf]
    rfl
  obtain ⟨c, hstage, -⟩ := lineStage_error oneByteFiles (h := reset (flush b)) rfl hline
  rw [← handleReadBody_noInput oneByteFiles (h := reset (flush b))
    ((flush_reads b).trans s.reads) hconn] at hstage
  have hstop : (handleReadTail (handleReadBody oneByteFiles (reset (flush b)))).2 = false := by
    rw [hstage, handleReadTail_failWith]
  rw [handleRead_eq, hpass, if_pos rfl, handleRead_of_stop oneByteFiles hstop, hstage,
    handleReadTail_failWith]
  exact (ruined_failWith _).2

/-- **A request whose last value is empty** is not answered: the call waits for more lines. -/
theorem serve_open {κ : Type*} [PageCache κ] (files : FileSystem) (resourceDir : Bytes) (cache : κ)
    (hr : ¬ r.Refused) (hs : r.Short) (he : ¬ r.Ends) :
    Silent (serve files (newConnection resourceDir cache) [r.bytes]) ∧
      (serve files (newConnection resourceDir cache) [r.bytes]).conn.requestHeaders
        = r.headerMap := by
  obtain ⟨fileName, hfirst⟩ := atHeader_first (κ := κ) files hr
  have a := hfirst resourceDir cache r.bytes _ (requestLineOf_append r.cr_notMem_line _)
    (afterRequestLine_append r.cr_notMem_line _)
  have hb : AtBlock r.headers [] ((((newConnection resourceDir cache).feed r.bytes).received
      r.bytes).update (r.lineRead fileName (Chr.lf :: r.fieldBytes))).conn :=
    ⟨rfl, rfl, (List.append_nil _).symm⟩
  rw [serve_whole, a.wait (hb.parseRequestHeader_open r.plain r.headers_ne hs he rfl)]
  exact ⟨⟨rfl, rfl, rfl, rfl, rfl⟩, rfl⟩

/-- **On a server on which every request is answered**, a request in one read is not ruined. -/
theorem not_ruined_whole (hr : ¬ r.Refused) (hs : r.Short) :
    ¬ Ruined (serve oneByteFiles (newConnection [] emptyCache) [r.bytes]) := by
  by_cases he : r.Ends
  · obtain ⟨fileName, hbody⟩ := handleReadBody_whole (κ := Cache.LFUCache) oneByteFiles hr hs he
    obtain ⟨hwhole, -⟩ := hbody [] emptyCache
    rw [serve_whole]
    by_cases hm : r.readMethod = .post
    · exact r.not_ruined_post (ending_post hwhole hm)
    · exact (served_bodyStage hm []).not_ruined hwhole
  · obtain ⟨hsilent, hmap⟩ := serve_open oneByteFiles [] emptyCache hr hs he
    refine r.not_ruined ?_ ?_ (hmap ▸ r.names_headerMap)
    · rw [hsilent.fault]
      simp
    · rw [Handler.answers, hsilent.log]
      exact fun a ha => absurd ha List.not_mem_nil

end LastByte

end WebServer.Http
