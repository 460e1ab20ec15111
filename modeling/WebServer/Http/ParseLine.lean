import WebServer.Http.HttpType

/-!
# Http/ParseLine — the connection, and its request line parser

`ParseRequestLine` tests its positions with `pos < 0`, which no `size_t` satisfies.  So it never
answers `PARSE_LINE_AGAIN`, and a position that was not found goes on as `npos`: `npos + 1` is the
start of the line, and a distance up to `npos` runs to its end.  The positions that the code keeps
in an `int` are numbers without a bound here: they are the code's own while a buffer holds less than
`2³¹` bytes.
-/

namespace WebServer.Http

/-- `request_headers_`, a map from names to values. -/
abbrev HeaderMap := Bytes → Option Bytes

/-- **The members of `HttpConnection`** that its request handling reads and writes. -/
structure HttpConnection where
  readBuffer : Bytes := []
  writeBuffer : Bytes := []
  processState : ProcessState := .parseLine
  connectionState : ConnectionState := .connected
  parseState : ParseState := .start
  method : RequestMethod := .get
  version : HttpVersion := .http11
  fileName : Bytes := []
  resourceDir : Bytes
  requestHeaders : HeaderMap := fun _ => none
  isError : Bool := false
  isKeepAlive : Bool := false

/-! ## The request line -/

/-- The method a line names and where its word starts.  The words are looked for anywhere in the
line, `GET` first. -/
def lineMethod (line : Bytes) : Option (RequestMethod × ℕ) :=
  match findStr (text "GET") line with
  | some pos => some (.get, pos)
  | none =>
    match findStr (text "POST") line with
    | some pos => some (.post, pos)
    | none =>
      match findStr (text "HEAD") line with
      | some pos => some (.head, pos)
      | none => none

/-- The file name between the slash at `pos` and the blank at `pos2`, up to a `?`. -/
def lineFileName (line : Bytes) (pos pos2 : StrPos) : Bytes :=
  if (pos.dist pos2).exceeds 1 then
    let fileName := substr line pos.succ (pos.dist pos2).pred
    -- `pos3 >= 0` holds of every `size_t`, and `substr(0, npos)` is the whole name
    substr fileName 0 (findChar fileName Chr.question (some 0))
  else text "index.html"

/-- The version after the slash at `pos`, if it is one of the two known ones. -/
def lineVersion (line : Bytes) (pos : StrPos) : Option HttpVersion :=
  if pos.before line.length ≤ 3 then none
  else
    let version := substr line pos.succ (some 3)
    if version = text "1.0" then some .http10
    else if version = text "1.1" then some .http11
    else none

/-- What a request line sets: the method is kept even when a later part is refused, and so is the
file name. -/
def readRequestLine (line : Bytes) (c : HttpConnection) : LineState × HttpConnection :=
  match lineMethod line with
  | none => (.error, c)
  | some (method, start) =>
    let c := { c with method := method }
    let pos := findChar line Chr.slash (some start)
    let pos2 := findChar line Chr.space pos
    let c := { c with fileName := lineFileName line pos pos2 }
    match lineVersion line (findChar line Chr.slash pos2) with
    | none => (.error, c)
    | some version => (.success, { c with version := version })

/-- The line `parseRequestLine` reads: what stands before the first CR, or everything. -/
def requestLineOf (requestData : Bytes) : Bytes :=
  substr requestData 0 (findChar requestData Chr.cr (some 0))

/-- What `parseRequestLine` leaves in the buffer.  Without a CR, `pos + 1` is `0` and nothing is
taken out. -/
def afterRequestLine (requestData : Bytes) : Bytes :=
  let pos := findChar requestData Chr.cr (some 0)
  if pos.succ < requestData.length then substr requestData pos.succ none else []

/-- **`ParseRequestLine`.** -/
def parseRequestLine (c : HttpConnection) : LineState × HttpConnection :=
  let requestData := c.readBuffer
  readRequestLine (requestLineOf requestData) { c with readBuffer := afterRequestLine requestData }

/-! ## What the parser leaves alone -/

/-- A request line never asks for more data. -/
theorem readRequestLine_ne_again (line : Bytes) (c : HttpConnection) :
    (readRequestLine line c).1 ≠ .again := by
  unfold readRequestLine
  rcases lineMethod line with _ | ⟨m, p⟩
  · simp
  · simp only
    split <;> simp

theorem parseRequestLine_ne_again (c : HttpConnection) : (parseRequestLine c).1 ≠ .again :=
  readRequestLine_ne_again _ _

/-- **What a request line can change**: the method, the file name and the version. -/
theorem readRequestLine_frame (line : Bytes) (c : HttpConnection) : ∃ m f v,
    (readRequestLine line c).2 = { c with method := m, fileName := f, version := v } := by
  unfold readRequestLine
  rcases lineMethod line with _ | ⟨m, p⟩
  · exact ⟨c.method, c.fileName, c.version, rfl⟩
  · simp only
    split
    · exact ⟨_, _, c.version, rfl⟩
    · exact ⟨_, _, _, rfl⟩

end WebServer.Http
