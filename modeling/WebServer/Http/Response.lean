import WebServer.Event.Epoll
import WebServer.Http.ParseHeader
import WebServer.Utility.SocketUtils
import Mathlib.Tactic.Simps.Basic

/-!
# Http/Response — building an answer

A handler runs on a connection, the events of its channel, the page cache and the socket.  The log
records what a client can observe and in which order: each response when it is complete, and the
bytes each `Write` hands to the kernel.
-/

namespace WebServer.Http

open Event Utility

/-! ## The surroundings of a handler -/

/-- What a path names. -/
inductive FileKind
  | regular (content : Bytes)
  | directory (size : ℕ)

/-- A file, and whether `open` may read it. -/
structure FileNode where
  kind : FileKind
  readable : Bool

namespace FileNode

/-- `st_size` -/
def stSize (f : FileNode) : ℕ :=
  match f.kind with
  | .regular content => content.length
  | .directory size => size

/-- `mmap` of the whole file; it fails on a directory and with length `0`. -/
def mmap (f : FileNode) : Option Bytes :=
  match f.kind with
  | .regular content => if content = [] then none else some content
  | .directory _ => none

/-- What is mapped has the size `stat` reports. -/
theorem length_of_mmap {f : FileNode} {content : Bytes} (h : f.mmap = some content) :
    content.length = f.stSize := by
  rcases f with ⟨c | n, r⟩
  · simp only [mmap] at h
    split at h
    · exact absurd h (by simp)
    · exact congrArg List.length (Option.some.inj h).symm
  · exact absurd h (by simp [mmap])

end FileNode

/-- The files on disk; a path that is not there fails `stat`. -/
abbrev FileSystem := Bytes → Option FileNode

/-- **The page cache**, as `BuildResponse` uses it: `get` answers the value of a cached key, which
`Get` appends to its last argument.  An outer `none` is undefined behaviour. -/
class PageCache (κ : Type*) where
  get : κ → Bytes → Option (Option Bytes × κ)
  set : κ → Bytes → Bytes → Option κ

/-- How a handler can break off. -/
inductive Fault
  | undefinedBehaviour
  | uncaughtException
  deriving DecidableEq

/-- Which branch produced a response. -/
inductive AnswerKind
  | page
  | echo
  | error
  deriving DecidableEq

/-- A response, and what the request was read as. -/
structure Answer where
  kind : AnswerKind
  method : RequestMethod
  fileName : Bytes
  requestHeaders : HeaderMap
  response : Bytes

/-- What happens on a connection, seen from outside. -/
inductive OutEvent
  | produced (a : Answer)
  | accepted (bytes : Bytes)

/-- The bytes of the responses produced. -/
def produced (log : List OutEvent) : Bytes :=
  log.flatMap fun | .produced a => a.response | .accepted _ => []

/-- The bytes the socket accepted. -/
def accepted (log : List OutEvent) : Bytes :=
  log.flatMap fun | .accepted b => b | .produced _ => []

/-- **What a handler runs on.** -/
structure Handler (κ : Type*) where
  conn : HttpConnection
  events : EventMask := .zero
  cache : κ
  reads : List ReadResult := []
  writes : List WriteResult := []
  log : List OutEvent := []
  timerReleased : Bool := false
  fault : Option Fault := none

namespace Handler

variable {κ : Type*}

/-- The answers so far. -/
def answers (h : Handler κ) : List Answer :=
  h.log.filterMap fun | .produced a => some a | .accepted _ => none

/-- Changing members of the connection. -/
@[simps] def update (h : Handler κ) (f : HttpConnection → HttpConnection) : Handler κ :=
  { h with conn := f h.conn }

/-- Breaking off. -/
@[simps] def breakOff (h : Handler κ) (fault : Fault) : Handler κ := { h with fault := some fault }

/-- The cache after a `Get` or a `Set`. -/
@[simps] def setCache (h : Handler κ) (cache : κ) : Handler κ := { h with cache := cache }

/-- The events the channel will ask for. -/
@[simps] def setEvents (h : Handler κ) (events : EventMask) : Handler κ :=
  { h with events := events }

/-- Recording a complete response. -/
@[simps] def produce (h : Handler κ) (kind : AnswerKind) (response : Bytes) : Handler κ :=
  { h with log := h.log ++ [.produced
      ⟨kind, h.conn.method, h.conn.fileName, h.conn.requestHeaders, response⟩] }

/-- `utility::Write(connect_fd_, write_buffer_)`, without its result. -/
@[simps] def send (h : Handler κ) : Handler κ :=
  { h with
    conn := { h.conn with writeBuffer := (Utility.write h.writes h.conn.writeBuffer).buffer }
    writes := (Utility.write h.writes h.conn.writeBuffer).rest
    log := h.log ++ [.accepted (Utility.write h.writes h.conn.writeBuffer).accepted] }

/-- The result of that `Write`. -/
def sendCount (h : Handler κ) : ℤ := (Utility.write h.writes h.conn.writeBuffer).count

end Handler

/-! ## Error answers -/

/-- The body of an error answer. -/
def errorBody (errorCode : ℕ) (errorMessage : Bytes) : Bytes :=
  text "<html><head><meta charset=\"utf-8\">"
    ++ text "<title>请求出错了</title></head>"
    ++ text "<body bgcolor=\"ffffff\">"
    ++ (text "<div align=\"center\">" ++ decimal errorCode ++ errorMessage)
    ++ text "<hr>lawson's web server\n</div></body></html>"

/-- An error answer, header and body. -/
def errorResponse (errorCode : ℕ) (errorMessage : Bytes) : Bytes :=
  let errorMessage := text " " ++ errorMessage
  let responseBody := errorBody errorCode errorMessage
  (text "HTTP/1.1 " ++ decimal errorCode ++ errorMessage ++ crlf)
    ++ (text "Content-Type: text/html" ++ crlf)
    ++ (text "Connection: Close" ++ crlf)
    ++ (text "Content-Length: " ++ decimal responseBody.length ++ crlf)
    ++ (text "Server: lawson's tiny webserver" ++ crlf)
    ++ crlf
    ++ responseBody

/-- **`ReturnErrorMessage`.**  The answer replaces the write buffer, and what `Write` leaves of it
is dropped. -/
def returnErrorMessage {κ : Type*} (h : Handler κ) (errorCode : ℕ) (errorMessage : Bytes) :
    Handler κ :=
  (((h.update fun c => { c with writeBuffer := errorResponse errorCode errorMessage }).produce
    .error
    (errorResponse errorCode errorMessage)).send).update fun c => { c with writeBuffer := [] }

/-! ## Pages -/

/-- `kDefaultKeepAliveTime`, in milliseconds. -/
def kDefaultKeepAliveTime : ℕ := 5 * 60 * 1000

/-- `kDefaultTimeOut`, in milliseconds. -/
def kDefaultTimeOut : ℕ := 2 * 1000

/-- Whether the request asks to keep the connection. -/
def wantsKeepAlive (requestHeaders : HeaderMap) : Bool :=
  requestHeaders (text "Connection") = some (text "Keep-Alive")
    || requestHeaders (text "Connection") = some (text "keep-alive")

/-- The first lines of a page's header block. -/
def headerStart (keepAlive : Bool) : Bytes :=
  (text "HTTP/1.1 200 OK" ++ crlf)
    ++ if keepAlive then
      text "Connection: Keep-Alive" ++ crlf ++ text "Keep-Alive: timeout="
        ++ decimal kDefaultKeepAliveTime ++ crlf
    else []

/-- The rest of it, for a file of `size` bytes. -/
def headerRest (fileType : Bytes) (size : ℕ) : Bytes :=
  (text "Content-Type: " ++ fileType ++ crlf)
    ++ (text "Content-Length: " ++ decimal size ++ crlf)
    ++ (text "Server: lawson's web server" ++ crlf)
    ++ crlf

/-- The mime type a name's first extension selects. -/
def fileTypeOf (fileName : Bytes) : Bytes :=
  match findChar fileName Chr.dot (some 0) with
  | none => getMime (text "default")
  | some pos => getMime (substr fileName pos none)

/-- The answer of the echo branch. -/
def echoResponse : Bytes :=
  (text "HTTP/1.1 200 OK" ++ crlf)
    ++ (text "Content-Type: text/html" ++ crlf ++ crlf ++ text "Hello World")

section BuildResponse

variable {κ : Type*} [PageCache κ] (files : FileSystem)

/-- Refusing a page: what is already in the write buffer goes with it. -/
def refusePage (h : Handler κ) (errorCode : ℕ) (errorMessage : Bytes) : ResponseState × Handler κ :=
  (.error, returnErrorMessage (h.update fun c =>
    { c with writeBuffer := [] }) errorCode errorMessage)

/-- Appending the body, which completes the page. -/
def appendBody (h : Handler κ) (header body : Bytes) : Handler κ :=
  (h.update fun c => { c with writeBuffer := c.writeBuffer ++ body }).produce .page (header ++ body)

/-- The body of a page that is not cached: the file is mapped, appended and cached. -/
def serveFile (h : Handler κ) (header : Bytes) (file : FileNode) : ResponseState × Handler κ :=
  if !file.readable then refusePage h 404 (text "Not Found!")
  else
    match file.mmap with
    | none => refusePage h 404 (text "Not Found!")
    | some content =>
      match PageCache.set h.cache h.conn.fileName content with
      | none => (.error, h.breakOff .undefinedBehaviour)
      | some cache => (.success, (appendBody h header content).setCache cache)

/-- The body of a page, from the cache or from the file. -/
def serveBody (h : Handler κ) (header : Bytes) (file : FileNode) : ResponseState × Handler κ :=
  match PageCache.get h.cache h.conn.fileName with
  | none => (.error, h.breakOff .undefinedBehaviour)
  | some (some value, cache) => (.success, (appendBody h header value).setCache cache)
  | some (none, cache) => serveFile (h.setCache cache) header file

/-- The header block goes into the write buffer; a `HEAD` is complete with it. -/
def serveHeader (h : Handler κ) (header : Bytes) (file : FileNode) : ResponseState × Handler κ :=
  if h.conn.method = .head then (.success, appendBody h header [])
  else serveBody h header file

/-- A `GET` or `HEAD` of a file; `fileType` was read off the name before the directory was put in
front of it. -/
def buildPage (h : Handler κ) (fileType : Bytes) : ResponseState × Handler κ :=
  match files (cString h.conn.fileName) with
  | none => refusePage h 403 (text "Forbidden!")
  | some file =>
    let header := headerStart (wantsKeepAlive h.conn.requestHeaders)
      ++ headerRest fileType file.stSize
    serveHeader (h.update fun c => { c with writeBuffer := c.writeBuffer ++ header }) header file

/-- The answer of the echo branch replaces the write buffer. -/
def serveEcho (h : Handler κ) : Handler κ :=
  (h.update fun c => { c with writeBuffer := echoResponse }).produce .echo echoResponse

/-- Keeping the connection alive, where the request asks for it. -/
def noteKeepAlive (c : HttpConnection) : HttpConnection :=
  if wantsKeepAlive c.requestHeaders then { c with isKeepAlive := true } else c

/-- **`BuildResponse`.** -/
def buildResponse (h : Handler κ) : ResponseState × Handler κ :=
  if h.conn.method = .post then refusePage h 500 (text "Server Busy!")
  else if h.conn.fileName = text "echo" then (.success, serveEcho (h.update noteKeepAlive))
  else
    buildPage files
      ((h.update noteKeepAlive).update fun c => { c with fileName := c.resourceDir ++ c.fileName })
      (fileTypeOf h.conn.fileName)

end BuildResponse

/-! ## What answering leaves alone -/

/-- Two handlers that agree on everything but the output side: an answer changes the write buffer,
the file name, the keep-alive choice, the cache, the socket's script and the log. -/
structure SameInput {κ : Type*} (h h' : Handler κ) : Prop where
  reads : h'.reads = h.reads
  readBuffer : h'.conn.readBuffer = h.conn.readBuffer
  processState : h'.conn.processState = h.conn.processState
  connectionState : h'.conn.connectionState = h.conn.connectionState
  parseState : h'.conn.parseState = h.conn.parseState
  method : h'.conn.method = h.conn.method
  resourceDir : h'.conn.resourceDir = h.conn.resourceDir
  requestHeaders : h'.conn.requestHeaders = h.conn.requestHeaders
  isError : h'.conn.isError = h.conn.isError
  events : h'.events = h.events
  timerReleased : h'.timerReleased = h.timerReleased

namespace SameInput

variable {κ : Type*} {h h' h'' : Handler κ}

theorem refl (h : Handler κ) : SameInput h h := by constructor <;> rfl

theorem trans (a : SameInput h h') (b : SameInput h' h'') : SameInput h h'' where
  reads := b.reads.trans a.reads
  readBuffer := b.readBuffer.trans a.readBuffer
  processState := b.processState.trans a.processState
  connectionState := b.connectionState.trans a.connectionState
  parseState := b.parseState.trans a.parseState
  method := b.method.trans a.method
  resourceDir := b.resourceDir.trans a.resourceDir
  requestHeaders := b.requestHeaders.trans a.requestHeaders
  isError := b.isError.trans a.isError
  events := b.events.trans a.events
  timerReleased := b.timerReleased.trans a.timerReleased

end SameInput

section Frame

variable {κ : Type*}

theorem sameInput_refusePage (h : Handler κ) (n : ℕ) (m : Bytes) :
    SameInput h (refusePage h n m).2 := by constructor <;> rfl

theorem sameInput_appendBody (h : Handler κ) (header body : Bytes) :
    SameInput h (appendBody h header body) := by constructor <;> rfl

theorem sameInput_noteKeepAlive (h : Handler κ) : SameInput h (h.update noteKeepAlive) := by
  unfold noteKeepAlive
  constructor <;> simp only [Handler.update] <;> split <;> rfl

variable [PageCache κ] (files : FileSystem)

theorem sameInput_serveFile (h : Handler κ) (header : Bytes) (file : FileNode) :
    SameInput h (serveFile h header file).2 := by
  unfold serveFile
  split
  · exact sameInput_refusePage _ _ _
  · split
    · exact sameInput_refusePage _ _ _
    · split <;> constructor <;> rfl

theorem sameInput_serveHeader (h : Handler κ) (header : Bytes) (file : FileNode) :
    SameInput h (serveHeader h header file).2 := by
  unfold serveHeader serveBody
  split
  · exact sameInput_appendBody _ _ _
  · split
    · constructor <;> rfl
    · constructor <;> rfl
    · exact SameInput.trans (by constructor <;> rfl) (sameInput_serveFile _ _ _)

theorem sameInput_buildPage (h : Handler κ) (fileType : Bytes) :
    SameInput h (buildPage files h fileType).2 := by
  unfold buildPage
  split
  · exact sameInput_refusePage _ _ _
  · exact SameInput.trans (by constructor <;> rfl) (sameInput_serveHeader _ _ _)

/-- **An answer changes only the output side.** -/
theorem sameInput_buildResponse (h : Handler κ) : SameInput h (buildResponse files h).2 := by
  unfold buildResponse
  split
  · exact sameInput_refusePage _ _ _
  · split
    · exact (sameInput_noteKeepAlive h).trans (by constructor <;> rfl)
    · exact (sameInput_noteKeepAlive h).trans
        (SameInput.trans (by constructor <;> rfl) (sameInput_buildPage files _ _))

end Frame

end WebServer.Http
