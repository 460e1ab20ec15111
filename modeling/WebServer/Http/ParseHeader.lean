import WebServer.Http.ParseLine

/-!
# Http/ParseHeader — the header scanner

`ParseRequestHeader` runs a state machine over the buffer, one character at a time.  The state and
the fields found so far are members; the offsets of the current line are locals, and each call
starts them at `-1`.  A field whose offsets do not delimit a part of the buffer is undefined
behaviour (`none`).  The offsets are `int`s in the code and integers without a bound here: the same
while a buffer holds less than `2³¹` bytes.
-/

namespace WebServer.Http

/-- The scanner: two members, and the locals of one call. -/
structure HeaderScan where
  parseState : ParseState
  requestHeaders : HeaderMap
  keyStart : ℤ := -1
  keyEnd : ℤ := -1
  valueStart : ℤ := -1
  valueEnd : ℤ := -1
  nowReadLineBegin : ℕ := 0
  isFinish : Bool := false

/-- How one character is answered. -/
inductive ScanResult
  | go (s : HeaderScan)
  | error (s : HeaderScan)
  | undefined (s : HeaderScan)

/-- The scanner a result carries. -/
def ScanResult.scan : ScanResult → HeaderScan
  | .go s => s
  | .error s => s
  | .undefined s => s

/-- **One round of the loop**: the character `ch` at offset `i` of the buffer. -/
def headerStep (requestData : Bytes) (i : ℕ) (ch : UInt8) (s : HeaderScan) : ScanResult :=
  match s.parseState with
  | .start =>
    if ch = Chr.lf ∨ ch = Chr.cr then .go s
    else .go { s with parseState := .key, keyStart := i, nowReadLineBegin := i }
  | .key =>
    if ch = Chr.colon then
      let s := { s with keyEnd := i }
      if s.keyEnd - s.keyStart ≤ 0 then .error s else .go { s with parseState := .colon }
    else if ch = Chr.lf ∨ ch = Chr.cr then .error s
    else .go s
  | .colon =>
    if ch = Chr.space then .go { s with parseState := .spacesAfterColon } else .error s
  | .spacesAfterColon => .go { s with parseState := .value, valueStart := i }
  | .value =>
    if ch = Chr.cr then
      let s := { s with parseState := .cr, valueEnd := i }
      if s.valueEnd - s.valueStart ≤ 0 then .error s else .go s
    else if i - s.valueStart > 255 then .error s
    else .go s
  | .cr =>
    if ch = Chr.lf then
      let s := { s with parseState := .lf }
      match slice requestData s.keyStart s.keyEnd, slice requestData s.valueStart s.valueEnd with
      | some key, some value =>
        .go { s with
          requestHeaders := Function.update s.requestHeaders key (some value)
          nowReadLineBegin := i }
      | _, _ => .undefined s
    else .error s
  | .lf =>
    if ch = Chr.cr then .go { s with parseState := .endCr }
    else .go { s with parseState := .key, keyStart := i }
  | .endCr =>
    if ch = Chr.lf then .go { s with parseState := .endLf } else .error s
  | .endLf => .go { s with isFinish := true, keyStart := i, nowReadLineBegin := i }

/-- **The loop**, over the characters from offset `i` on; it answers the offset it stops at. -/
def headerLoop (requestData : Bytes) : Bytes → ℕ → HeaderScan → ScanResult × ℕ
  | [], i, s => (.go s, i)
  | ch :: rest, i, s =>
    if s.isFinish then (.go s, i)
    else
      match headerStep requestData i ch s with
      | .go s => headerLoop requestData rest (i + 1) s
      | r => (r, i)

/-- Writing the scanner's members back. -/
def HttpConnection.store (c : HttpConnection) (s : HeaderScan) : HttpConnection :=
  { c with parseState := s.parseState, requestHeaders := s.requestHeaders }

/-- **`ParseRequestHeader`.** -/
def parseRequestHeader (c : HttpConnection) : Option HeaderState × HttpConnection :=
  let requestData := c.readBuffer
  match headerLoop requestData requestData 0 ⟨c.parseState, c.requestHeaders, -1, -1, -1, -1, 0,
      false⟩ with
  | (.undefined s, _) => (none, c.store s)
  | (.error s, _) => (some .error, c.store s)
  | (.go s, i) =>
    if s.parseState = .endLf then
      (some .success, { c.store s with readBuffer := substr requestData i none })
    else
      (some .again, { c.store s with readBuffer := substr requestData s.nowReadLineBegin none })

end WebServer.Http
