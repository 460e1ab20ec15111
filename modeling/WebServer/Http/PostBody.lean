import WebServer.Http.Framing
import WebServer.Http.HeaderGrammar
import WebServer.Http.LostLine
import WebServer.Http.RequestLine
import Mathlib.Data.List.TakeWhile

/-!
# Http/PostBody — waiting for the body of a `POST`

`HandleRead` hands the text of `Content-length` to `std::stoi`, which throws, and compares the
result with the bytes in the buffer — one less than the body has, if it came with the header, for
the scanner takes a byte along.  `accounted_iff` says which requests are nevertheless answered in
time.
-/

namespace WebServer.Http

open Event Utility

/-! ## The length a client announces -/

theorem digitsValue_decimal (n : ℕ) : digitsValue (decimal n) = n := by
  have hfold : ∀ (cs : List Char) (k : ℕ), (∀ c ∈ cs, c.toNat ≤ 57) →
      (cs.map Char.toUInt8).foldl (fun n d => 10 * n + (d.toNat - 48)) k
        = Nat.ofDigitChars 10 cs k := by
    intro cs
    induction cs with
    | nil => exact fun k _ => rfl
    | cons c cs ih =>
      intro k hcs
      obtain ⟨hc, hcs⟩ := List.forall_mem_cons.mp hcs
      have hbyte : c.toUInt8.toNat = c.toNat := by
        change c.toNat % 2 ^ 8 = c.toNat
        omega
      rw [List.map_cons, List.foldl_cons, ih _ hcs, Nat.ofDigitChars_cons, hbyte]
      rfl
  rw [digitsValue, decimal, hfold _ 0 fun c hc => ?_, Nat.ofDigitChars_ten_toDigits]
  have hd := Nat.isDigit_of_mem_toDigits (by decide) (by decide) hc
  rw [Char.isDigit, Bool.and_eq_true, decide_eq_true_eq, decide_eq_true_eq] at hd
  exact hd.2

theorem decimal_ne_nil (n : ℕ) : decimal n ≠ [] := by
  rw [decimal, Ne, List.map_eq_nil_iff]
  exact Nat.toDigits_ne_nil

/-- **`std::stoi` reads what `std::to_string` writes.** -/
theorem stoi_decimal {n : ℕ} (hn : n < 2 ^ 31) : stoi (decimal n) = some (n : ℤ) := by
  obtain ⟨c, ds, hds⟩ := List.exists_cons_of_ne_nil (decimal_ne_nil n)
  have hdigit : ∀ b ∈ c :: ds, 48 ≤ b ∧ b ≤ 57 := fun b hb => digit_of_mem_decimal (hds ▸ hb)
  have hall : ∀ b ∈ c :: ds, Chr.isDigit b = true := fun b hb => by
    obtain ⟨h₁, h₂⟩ := hdigit b hb
    simp [Chr.isDigit, h₁, h₂]
  obtain ⟨hc, -⟩ := hdigit c (List.mem_cons_self ..)
  have hbound : 48 ≤ c.toNat := UInt8.le_iff_toNat_le.mp hc
  have hspace : Chr.isSpace c = false := by
    have hne : c ≠ Chr.space := by
      rintro rfl
      exact absurd hbound (by decide)
    have hlt : ¬ c ≤ 13 := fun h => by
      have := UInt8.le_iff_toNat_le.mp h
      exact absurd (hbound.trans this) (by decide)
    simp [Chr.isSpace, hne, hlt]
  have hsign : c ≠ 45 ∧ c ≠ 43 := by
    constructor <;> rintro rfl <;> exact absurd hbound (by decide)
  have hvalue : digitsValue (c :: ds) = n := by rw [← hds, digitsValue_decimal]
  rw [hds, stoi]
  simp only [List.dropWhile_cons, hspace, Bool.false_eq_true, if_false, if_neg hsign.1,
    if_neg hsign.2, List.takeWhile_eq_self_iff.mpr hall, hvalue, reduceCtorEq]
  rw [if_pos]
  omega

/-! ## The request -/

/-- The name the server looks for. -/
abbrev contentLength : Bytes := text "Content-length"

/-- **A well-formed `POST`** with one `Content-length`, of any text. -/
structure PostRequest where
  line : RequestLine
  before : List Field
  value : Bytes
  after : List Field
  method_eq : line.method = .post
  plain : ∀ f ∈ before ++ after, f.Plain
  other : ∀ f ∈ before ++ after, f.1 ≠ contentLength
  value_ok : ∀ b ∈ value, b ≠ Chr.cr ∧ b ≠ Chr.lf

namespace PostRequest

/-- Its fields. -/
def fields (r : PostRequest) : List Field := r.before ++ (contentLength, r.value) :: r.after

/-- **Its bytes**, up to the body. -/
def bytes (r : PostRequest) : Bytes := r.line.encode ++ (crlf ++ headerBlock r.fields)

theorem plain_fields (r : PostRequest) : ∀ f ∈ r.fields, f.Plain := by
  intro f hf
  rw [fields, List.mem_append, List.mem_cons] at hf
  obtain hf | rfl | hf := hf
  · exact r.plain f (List.mem_append_left _ hf)
  · exact ⟨show contentLength ≠ [] by decide,
      show ∀ b ∈ contentLength, b ≠ Chr.colon ∧ b ≠ Chr.cr ∧ b ≠ Chr.lf by decide +kernel,
        r.value_ok⟩
  · exact r.plain f (List.mem_append_right _ hf)

theorem eq_of_contentLength (r : PostRequest) {f : Field} (hf : f ∈ r.fields)
    (hn : f.1 = contentLength) : f = (contentLength, r.value) := by
  rw [fields, List.mem_append, List.mem_cons] at hf
  obtain hf | rfl | hf := hf
  · exact absurd hn (r.other f (List.mem_append_left _ hf))
  · rfl
  · exact absurd hn (r.other f (List.mem_append_right _ hf))

/-- The length that is recorded. -/
def recorded (r : PostRequest) : Option Bytes := lastWins (scannedLines r.fields) contentLength

theorem fields_ne (r : PostRequest) : r.fields ≠ [] := by simp [fields]

/-- **A length that is no empty text is recorded as it is**, or not at all. -/
theorem recorded_eq (r : PostRequest) {w : Bytes} (hw : r.recorded = some w) (hne : r.value ≠ []) :
    w = r.value := by
  obtain ⟨k, hk, he⟩ := List.mem_map.mp (mem_of_lastWins hw)
  obtain ⟨hname, hvalue⟩ := Prod.mk.inj he
  obtain ⟨f, hf, hn, heq⟩ := mem_swallowed hk
  obtain rfl := r.eq_of_contentLength hf (hn.symm.trans hname)
  rw [heq hne] at hvalue
  rw [← hvalue]
  exact if_neg hne

/-- **A line that the parser refuses**: the target names `GET`, without a slash after that name. -/
def Refused (r : PostRequest) : Prop :=
  ∃ p, findStr (text "GET") r.line.target = some p ∧ Chr.slash ∉ r.line.target.drop p

theorem readRequestLine_refused {r : PostRequest} (hr : r.Refused) (c : HttpConnection) :
    (readRequestLine r.line.encode c).1 = .error := by
  obtain ⟨p, hp, hslash⟩ := hr
  obtain ⟨front, hfront⟩ : ∃ front, front = text "POST /" ++ r.line.target.take p := ⟨_, rfl⟩
  have hword : text "POST /" = text "POST" ++ [Chr.space, Chr.slash] := by decide
  have hline : r.line.encode
      = front ++ (r.line.target.drop p ++ Request.lineEnd r.line.version) := by
    rw [RequestLine.encode, r.method_eq, methodWord, hfront, hword, List.append_assoc,
      ← List.append_assoc (r.line.target.take p), List.take_append_drop]
    simp [Request.lineEnd]
  have hlen : front.length = p + 4 + 2 := by
    rw [hfront, List.length_append, List.length_take, Nat.min_eq_left (findStr_le hp)]
    exact Nat.add_comm 6 p
  have hfound : findStr (text "GET") r.line.encode = some front.length := by
    have hin := RequestLine.findStr_encode (l := r.line) (m := .get) (by rw [r.method_eq]; decide)
    rw [methodWord, hp, r.method_eq] at hin
    rw [hlen]
    exact hin
  have hversion := Request.lineVersion_refused hslash hline fun w => by
    have hstart : r.line.encode.take 3 = text "POS" := by
      rw [RequestLine.encode, r.method_eq]
      rfl
    rw [hstart]
    cases w <;> decide
  rw [readRequestLine, lineMethod, hfound]
  simp only [hversion]

end PostRequest

/-! ## The calls -/

section Calls

variable {κ : Type*} {h : Handler κ}

/-- **A connection at rest**, with nothing answered yet. -/
structure Idle (h : Handler κ) : Prop where
  silent : Silent h
  processState : h.conn.processState = .parseLine
  parseState : h.conn.parseState = .start
  requestHeaders : h.conn.requestHeaders = fun _ => none
  readBuffer : h.conn.readBuffer = []

/-- **The request is answered**, with an error, and the connection given up. -/
structure Settled (h : Handler κ) : Prop where
  isError : h.conn.isError = true
  fault : h.fault = none
  answers : ∃ a, h.answers = [a] ∧ a.kind = .error

/-- **The connection waits for the body**: `value` is its length, and `buffer` has arrived. -/
structure Awaiting (value buffer : Bytes) (h : Handler κ) : Prop where
  silent : Silent h
  processState : h.conn.processState = .recvBody
  method : h.conn.method = .post
  value : h.conn.requestHeaders contentLength = some value
  readBuffer : h.conn.readBuffer = buffer

/-- An error answer to a silent connection. -/
theorem settled_failWith (hs : Silent h) (n : ℕ) (t : Bytes) : Settled (failWith h n t) := by
  obtain ⟨a, ha, hk, -⟩ := failWith_answers h n t
  refine ⟨rfl, hs.fault, a, ?_, hk⟩
  rw [ha, Handler.answers, hs.log]
  rfl

variable [PageCache κ] (files : FileSystem)

/-- A connection that is given up does nothing more. -/
theorem Settled.serve (a : Settled h) (reads : List Bytes) : serve files h reads = h :=
  serve_givenUp files (.inl a.isError) reads

/-- A body that ends with an error is the last one. -/
theorem handleRead_of_isError {g b : Handler κ} (hb : handleReadBody files g = b)
    (he : b.conn.isError = true) : handleRead files g = b := by
  have htail : handleReadTail b = (b, false) := if_pos (.inr he)
  rw [handleRead_of_stop files (by rw [hb, htail]), hb, htail]

/-- **A length that `std::stoi` cannot read** is thrown out of the handler. -/
theorem Awaiting.throws {g : Handler κ} {value buffer : Bytes}
    (hb : handleReadBody files g = bodyStage files h) (a : Awaiting value buffer h)
    (hv : stoi value = none) : (handleRead files g).fault = some .uncaughtException := by
  have hbody : handleReadBody files g = h.breakOff .uncaughtException := by
    rw [hb, bodyStage, if_pos a.processState, a.value]
    simp only [hv]
  have htail : handleReadTail (h.breakOff .uncaughtException)
      = (h.breakOff .uncaughtException, false) := if_pos (.inl rfl)
  rw [handleRead_of_stop files (by rw [hbody, htail]), hbody, htail]
  rfl

/-- **While the buffer is shorter than the length**, the call waits. -/
theorem Awaiting.waits {g : Handler κ} {value buffer : Bytes} {k : ℤ}
    (hb : handleReadBody files g = bodyStage files h) (a : Awaiting value buffer h)
    (hv : stoi value = some k) (hlen : (buffer.length : ℤ) < k % 2 ^ 64) :
    Awaiting value buffer (handleRead files g) := by
  have hbody : handleReadBody files g = h := by
    rw [hb, bodyStage, if_pos a.processState, a.value]
    simp only [hv, a.readBuffer]
    rw [if_pos hlen]
  have htail := handleReadTail_wait a.silent (by rw [a.processState]; decide)
  rw [handleRead_of_stop files (by rw [hbody, htail]), hbody, htail]
  exact ⟨⟨a.silent.isError, a.silent.connectionState, a.silent.writeBuffer, a.silent.log,
    a.silent.fault⟩, a.processState, a.method, a.value, a.readBuffer⟩

/-- **As soon as it is not**, the call answers. -/
theorem Awaiting.answers {g : Handler κ} {value buffer : Bytes} {k : ℤ}
    (hb : handleReadBody files g = bodyStage files h) (a : Awaiting value buffer h)
    (hv : stoi value = some k) (hlen : ¬ (buffer.length : ℤ) < k % 2 ^ 64) :
    Settled (handleRead files g) := by
  obtain ⟨h', hh'⟩ : ∃ h', h' = h.update (·.enter .response) := ⟨_, rfl⟩
  have hmethod : h'.conn.method = .post := by
    rw [hh']
    exact a.method
  have hbody : handleReadBody files g
      = failWith (h'.update fun c => { c with writeBuffer := [] }) 500 (text "Server Busy!") := by
    rw [hb, bodyStage, if_pos a.processState, a.value]
    simp only [hv, a.readBuffer]
    rw [if_neg hlen, ← hh', responseStage, if_pos (by rw [hh']; rfl), buildResponse, if_pos hmethod]
    rfl
  rw [handleRead_of_isError files hbody rfl]
  refine settled_failWith ?_ _ _
  rw [hh']
  exact ⟨a.silent.isError, a.silent.connectionState, rfl, a.silent.log, a.silent.fault⟩

/-- The next read of such a connection. -/
theorem Awaiting.serveRead {value buffer : Bytes} (a : Awaiting value buffer h) (segment : Bytes) :
    ∃ g, Http.serveRead files h segment = handleRead files (h.feed segment) ∧
      handleReadBody files (h.feed segment) = bodyStage files g ∧
        Awaiting value (buffer ++ segment) g := by
  refine ⟨(h.feed segment).received segment, if_neg a.silent.not_givenUp, ?_, ?_⟩
  · have hs : ((h.feed segment).received segment).conn.processState = .recvBody := a.processState
    rw [handleReadBody_deliver files (h := h.feed segment) rfl a.silent.connectionState, lineStage,
      if_neg (by rw [hs]; decide), headerStage, if_neg (by rw [hs]; decide)]
  · exact ⟨a.silent.received segment, a.processState, a.method, a.value,
      congrArg (· ++ segment) a.readBuffer⟩

/-- **All later reads**: the connection waits until the buffer is long enough. -/
theorem Awaiting.serve {value : Bytes} {k : ℤ} (hv : stoi value = some k) :
    ∀ {later : List Bytes} {h : Handler κ} {buffer : Bytes}, Awaiting value buffer h →
      (buffer.length : ℤ) < k % 2 ^ 64 →
        (((buffer ++ later.flatten).length : ℤ) < k % 2 ^ 64 →
          Awaiting value (buffer ++ later.flatten) (serve files h later)) ∧
        (¬ ((buffer ++ later.flatten).length : ℤ) < k % 2 ^ 64 → Settled (serve files h later))
  | [], h, buffer, a, hlen => by
      rw [List.flatten_nil, List.append_nil]
      exact ⟨fun _ => a, fun hn => absurd hlen hn⟩
  | segment :: later, h, buffer, a, hlen => by
      obtain ⟨g, hread, hbody, ag⟩ := a.serveRead files segment
      have hstep : Http.serve files h (segment :: later)
          = Http.serve files (handleRead files (h.feed segment)) later := by
        rw [← hread]
        rfl
      rw [hstep, List.flatten_cons, ← List.append_assoc]
      by_cases hlen' : ((buffer ++ segment).length : ℤ) < k % 2 ^ 64
      · exact (ag.waits files hbody hv hlen').serve hv hlen'
      · have ha := ag.answers files hbody hv hlen'
        rw [ha.serve files]
        refine ⟨fun hn => ?_, fun _ => ha⟩
        rw [List.length_append] at hn
        push_cast at hn
        omega

end Calls

/-! ## The first call -/

section First

variable {κ : Type*} [PageCache κ] (files : FileSystem) {h : Handler κ} {r : PostRequest}
  {body : Bytes}

/-- The buffer behind a request line: its line feed, the header, and what arrived with it. -/
def headerBuffer (fs : List Field) (rest : Bytes) : Bytes := Chr.lf :: (headerBlock fs ++ rest)

/-- What the line of a request is read as. -/
def PostRequest.lineRead (r : PostRequest) (h : Handler κ) (body : Bytes) :
    LineState × HttpConnection :=
  readRequestLine r.line.encode { h.conn with readBuffer := headerBuffer r.fields body }

/-- The handler when the first read has arrived. -/
def PostRequest.arrived (r : PostRequest) (h : Handler κ) (body : Bytes) : Handler κ :=
  (h.feed (r.bytes ++ body)).received (r.bytes ++ body)

variable (body) in
theorem lineStage_post (hh : Idle h) : handleReadBody files (h.feed (r.bytes ++ body))
    = match r.lineRead h body with
      | (.again, c) => (r.arrived h body).update fun _ => c
      | (.error, c) =>
        failWith ((r.arrived h body).update fun _ => { c with readBuffer := [] }) 400
          (text "Bad Request")
      | (.success, c) => headerStage files
        ((r.arrived h body).update fun _ => c.enter .parseHeaders) := by
  have hbuffer : (r.arrived h body).conn.readBuffer
      = r.line.encode ++ Chr.cr :: headerBuffer r.fields body := by
    change h.conn.readBuffer ++ (r.bytes ++ body) = _
    rw [hh.readBuffer, List.nil_append, PostRequest.bytes, List.append_assoc, List.append_assoc]
    rfl
  have hparse : parseRequestLine (r.arrived h body).conn = r.lineRead h body := by
    rw [parseRequestLine, hbuffer, requestLineOf_append r.line.cr_notMem_encode,
      afterRequestLine_append r.line.cr_notMem_encode]
    rfl
  rw [handleReadBody_deliver files (h := h.feed (r.bytes ++ body)) rfl hh.silent.connectionState]
  change lineStage files (r.arrived h body) = _
  rewrite [lineStage, if_pos (show (r.arrived h body).conn.processState = .parseLine from
    hh.processState), hparse]
  rcases r.lineRead h body with ⟨_ | _ | _, c⟩ <;> rfl

/-- **Behind the line** comes the header. -/
theorem atHeader_post (hh : Idle h) (hl : (r.lineRead h body).1 = .success) :
    ∃ h₁, AtHeader files (h.feed (r.bytes ++ body)) h₁ ∧ AtBlock r.fields body h₁.conn ∧
      h₁.conn.method = (r.lineRead h body).2.method := by
  obtain ⟨m, f, v, hframe⟩ := readRequestLine_frame r.line.encode
    { h.conn with readBuffer := headerBuffer r.fields body }
  have hbody := lineStage_post files body hh (r := r)
  have hread : r.lineRead h body = (.success,
    { { h.conn with readBuffer := headerBuffer r.fields body }
      with method := m, fileName := f, version := v }) := Prod.ext hl hframe
  rw [hread] at hbody ⊢
  exact ⟨_, ⟨hbody, ⟨hh.silent.isError, hh.silent.connectionState, hh.silent.writeBuffer,
    hh.silent.log, hh.silent.fault⟩, rfl⟩, ⟨hh.parseState, hh.requestHeaders, rfl⟩, rfl⟩

/-- **A line that is refused** settles the request. -/
theorem settled_line (hh : Idle h) (hl : (r.lineRead h body).1 = .error) :
    Settled (handleRead files (h.feed (r.bytes ++ body))) := by
  have hbody := lineStage_post files body hh (r := r)
  obtain ⟨m, f, v, hframe⟩ := readRequestLine_frame r.line.encode
    { h.conn with readBuffer := headerBuffer r.fields body }
  have hread : r.lineRead h body = (.error,
    { { h.conn with readBuffer := headerBuffer r.fields body }
      with method := m, fileName := f, version := v }) := Prod.ext hl hframe
  rw [hread] at hbody
  dsimp only at hbody
  rw [handleRead_of_isError files hbody rfl]
  refine settled_failWith ?_ _ _
  exact ⟨hh.silent.isError, hh.silent.connectionState, hh.silent.writeBuffer, hh.silent.log,
    hh.silent.fault⟩

/-- **The block ends where the scanner finds its end.** -/
def PostRequest.Ends (r : PostRequest) : Prop := Http.Ends r.fields

/-- **No value is too long.** -/
def PostRequest.Short (r : PostRequest) : Prop := Http.Short r.fields

instance (r : PostRequest) : Decidable r.Ends := inferInstanceAs (Decidable (Http.Ends r.fields))

instance (r : PostRequest) : Decidable r.Short := inferInstanceAs (Decidable (Http.Short r.fields))

/-- **A request that is refused before its body counts**: its line is refused, or a value of its
header, or the scanner finds no length in the header. -/
def PostRequest.RefusedEarly (r : PostRequest) : Prop :=
  r.Refused ∨ ¬ r.Short ∨ ¬ r.line.Shadowed ∧ r.Ends ∧ r.recorded = none

/-- The header, when no value is too long. -/
theorem AtHeader.short {g h₁ : Handler κ} {files : FileSystem} (a : AtHeader files g h₁)
    (hb : AtBlock r.fields body h₁.conn) (he : r.Ends) (hs : r.Short) : handleReadBody files g
      = bodyStage files (h₁.update fun c => { c with
        parseState := .endLf
        requestHeaders := lastWins (scannedLines r.fields)
        readBuffer := body.drop 1
        processState := bodyState c.method }) :=
  a.success (hb.parseRequestHeader r.plain_fields r.fields_ne hs he)

omit [PageCache κ] in
/-- A line that is not shadowed is read as the `POST` it is. -/
theorem lineRead_of_not_shadowed (hs : ¬ r.line.Shadowed) (h : Handler κ) (body : Bytes) :
    (r.lineRead h body).1 = .success ∧ (r.lineRead h body).2.method = .post := by
  rw [PostRequest.lineRead, RequestLine.readRequestLine_encode hs]
  exact ⟨rfl, r.method_eq⟩

variable (body) in
/-- **A request that is refused early** is settled in the first call. -/
theorem settled_first (hh : Idle h) (hr : r.RefusedEarly) :
    Settled (handleRead files (h.feed (r.bytes ++ body))) := by
  cases hl : (r.lineRead h body).1 with
  | again => exact absurd hl (readRequestLine_ne_again _ _)
  | error => exact settled_line files hh hl
  | success =>
    obtain ⟨h₁, a, hb, hmethod⟩ := atHeader_post files hh hl
    have hsilent : ∀ {f : HttpConnection → HttpConnection},
        (f h₁.conn).isError = h₁.conn.isError →
        (f h₁.conn).connectionState = h₁.conn.connectionState →
        (f h₁.conn).writeBuffer = h₁.conn.writeBuffer → Silent (h₁.update f) :=
      fun he hc hw => ⟨he.trans a.silent.isError, hc.trans a.silent.connectionState,
        hw.trans a.silent.writeBuffer, a.silent.log, a.silent.fault⟩
    obtain hline | hlong | ⟨hs, he, hnone⟩ := hr
    · exact absurd (hl.symm.trans (PostRequest.readRequestLine_refused hline _)) (by simp)
    · obtain ⟨s, hparse⟩ := hb.parseRequestHeader_long r.plain_fields hlong
      rw [a.error hparse]
      exact settled_failWith (hsilent rfl rfl rfl) _ _
    · by_cases hshort : r.Short
      · have hbody := a.short hb he hshort
        rw [(lineRead_of_not_shadowed hs h body).2] at hmethod
        rw [bodyStage, if_pos (by rw [Handler.update_conn, hmethod]; rfl)] at hbody
        have hlack : (h₁.update fun c => { c with
            parseState := .endLf
            requestHeaders := lastWins (scannedLines r.fields)
            readBuffer := body.drop 1
            processState := bodyState c.method }).conn.requestHeaders (text "Content-length")
              = none := hnone
        rw [hlack] at hbody
        dsimp only at hbody
        rw [handleRead_of_isError files hbody rfl]
        exact settled_failWith (hsilent rfl rfl rfl) _ _
      · obtain ⟨s, hparse⟩ := hb.parseRequestHeader_long r.plain_fields hshort
        rw [a.error hparse]
        exact settled_failWith (hsilent rfl rfl rfl) _ _

variable (body) in
/-- **Any other request** comes to its body. -/
theorem awaiting_first (hh : Idle h) (hs : ¬ r.line.Shadowed) (he : r.Ends)
    (hr : ¬ r.RefusedEarly) :
    ∃ h₁ w, r.recorded = some w ∧ handleReadBody files (h.feed (r.bytes ++ body))
      = bodyStage files h₁ ∧
      Awaiting w (body.drop 1) h₁ := by
  obtain ⟨hl, hpost⟩ := lineRead_of_not_shadowed hs h body
  obtain ⟨h₁, a, hb, hmethod⟩ := atHeader_post files hh hl
  rw [hpost] at hmethod
  obtain ⟨-, hr⟩ := not_or.mp hr
  obtain ⟨hshort, hsome⟩ := not_or.mp hr
  obtain ⟨w, hw⟩ := Option.ne_none_iff_exists'.mp fun hnone => hsome ⟨hs, he, hnone⟩
  refine ⟨_, w, hw, a.short hb he (not_not.mp hshort), ?_⟩
  refine ⟨⟨a.silent.isError, a.silent.connectionState, a.silent.writeBuffer, a.silent.log,
    a.silent.fault⟩, ?_, hmethod, hw, rfl⟩
  rw [Handler.update_conn, hmethod]
  rfl

/-- The handler has broken off, or answered. -/
def Spoken (h : Handler κ) : Prop := h.fault.isSome = true ∨ h.answers ≠ []

omit [PageCache κ] in
theorem Settled.spoken (s : Settled h) : Spoken h := by
  obtain ⟨a, ha, -⟩ := s.answers
  exact .inr (ha ▸ List.cons_ne_nil a [])

/-- **`BuildResponse` breaks off or answers.** -/
theorem spoken_buildResponse (h : Handler κ) : Spoken (buildResponse files h).2 := by
  have ha := buildResponse_answered files h
  generalize buildResponse files h = x at ha ⊢
  cases ha with
  | page hf hb hl hw hx =>
    rw [Spoken, answers_append hl]
    exact .inr (List.append_ne_nil_of_right_ne_nil _ (List.cons_ne_nil _ _))
  | echo hl hw hx =>
    rw [Spoken, answers_append hl]
    exact .inr (List.append_ne_nil_of_right_ne_nil _ (List.cons_ne_nil _ _))
  | refused hk ha hl hx =>
    rw [Spoken, answers_append hl]
    exact .inr (List.append_ne_nil_of_right_ne_nil _ (List.cons_ne_nil _ _))
  | broken hl hx => exact .inl hx

/-- What the first pass has come to stays. -/
theorem Spoken.handleRead {g : Handler κ} (s : Spoken (handleReadBody files g)) :
    Spoken (handleRead files g) := by
  obtain hf | ha := s
  · refine .inl ?_
    have htail : handleReadTail (handleReadBody files g) = (handleReadBody files g, false) :=
      if_pos (.inl hf)
    rwa [handleRead_of_stop files (by rw [htail]), htail]
  · obtain ⟨a, ha⟩ := List.exists_mem_of_ne_nil _ ha
    exact .inr (List.ne_nil_of_mem (mem_answers_handleRead files ha))

variable (body) in
/-- **A shadowed line is not waited for**: the request is read as a `GET`. -/
theorem shadowed_first (hh : Idle h) (hs : r.line.Shadowed) (he : r.Ends) :
    Spoken (handleRead files (h.feed (r.bytes ++ body))) := by
  have hpost : (r.lineRead h body).2.method ≠ .post := by
    rw [← r.method_eq]
    exact RequestLine.readRequestLine_shadowed hs _
  cases hl : (r.lineRead h body).1 with
  | again => exact absurd hl (readRequestLine_ne_again _ _)
  | error => exact (settled_line files hh hl).spoken
  | success =>
    obtain ⟨h₁, a, hb, hmethod⟩ := atHeader_post files hh hl
    by_cases hshort : r.Short
    · have hbody := a.short hb he hshort
      have hstate : bodyState h₁.conn.method = .response := by
        rw [hmethod]
        exact if_neg hpost
      rw [bodyStage, if_neg (by rw [Handler.update_conn, hstate]; exact ProcessState.noConfusion),
        responseStage_eq files (by exact hstate)] at hbody
      refine Spoken.handleRead files ?_
      rw [hbody]
      exact spoken_buildResponse files _
    · exact (settled_first files body hh (.inr (.inl hshort))).spoken

end First

/-! ## The accounting -/

namespace PostRequest

variable {κ : Type*} [PageCache κ]

/-- **The account of a body**: the handler never throws; with a number for its length it answers in
exactly the call in which that many bytes of the body have arrived, and with any other text it
answers with an error. -/
structure Accounted (files : FileSystem) (h : Handler κ) (r : PostRequest) (body : Bytes)
    (later : List Bytes) : Prop where
  fault : ∀ calls, calls <+: later → (serve files h ((r.bytes ++ body) :: calls)).fault = none
  answered : ∀ n < 2 ^ 31, r.value = decimal n → ∀ calls, calls <+: later →
    ((serve files h ((r.bytes ++ body) :: calls)).answers ≠ [] ↔ n ≤ (body ++ calls.flatten).length)
  refused : (∀ n < 2 ^ 31, r.value ≠ decimal n) →
    ∃ a ∈ (serve files h ((r.bytes ++ body) :: later)).answers, a.kind = .error

/-- **The condition**: a request that is refused early does not have to wait for bytes of the body.
Of any other the target names no earlier method and the block ends where the scanner finds its end;
`std::stoi` takes the length, no call ends with exactly that many bytes of the body if some came
with the header, and a text that is no number is taken for one that the buffer comes to reach. -/
structure Punctual (r : PostRequest) (body : Bytes) (later : List Bytes) : Prop where
  early : r.RefusedEarly → ∀ n < 2 ^ 31, r.value = decimal n → n ≤ body.length
  line : ¬ r.RefusedEarly → ¬ r.line.Shadowed
  ends : ¬ r.RefusedEarly → r.Ends
  length : ¬ r.RefusedEarly → ∃ w k, r.recorded = some w ∧ stoi w = some k ∧
    (∀ n < 2 ^ 31, r.value = decimal n → body = [] ∨ ∀ calls, calls <+: later →
      (body ++ calls.flatten).length ≠ n) ∧
    ((∀ n < 2 ^ 31, r.value ≠ decimal n) →
      k % 2 ^ 64 ≤ (body.drop 1 ++ later.flatten).length)

section Account

variable {files : FileSystem} {h : Handler κ} {r : PostRequest} {body : Bytes} {later : List Bytes}

/-- The calls, after the first one. -/
theorem serve_first (hh : Idle h) (calls : List Bytes) :
    serve files h ((r.bytes ++ body) :: calls)
      = serve files (handleRead files (h.feed (r.bytes ++ body))) calls := by
  have hread : serveRead files h (r.bytes ++ body) = handleRead files (h.feed (r.bytes ++ body)) :=
    if_neg hh.silent.not_givenUp
  rw [← hread]
  rfl

variable (files body) in
/-- **Where the calls stand** with a length that `std::stoi` reads. -/
theorem serve_post (hh : Idle h) (hs : ¬ r.line.Shadowed) (he : r.Ends) (hr : ¬ r.RefusedEarly)
    {w : Bytes} {k : ℤ} (hw : r.recorded = some w) (hk : stoi w = some k) (calls : List Bytes) :
    (((body.drop 1 ++ calls.flatten).length : ℤ) < k % 2 ^ 64 → Awaiting w
        (body.drop 1 ++ calls.flatten) (serve files h ((r.bytes ++ body) :: calls))) ∧
      (¬ ((body.drop 1 ++ calls.flatten).length : ℤ) < k % 2 ^ 64 →
        Settled (serve files h ((r.bytes ++ body) :: calls))) := by
  obtain ⟨h₁, w', hw', hbody, a⟩ := awaiting_first files body hh hs he hr
  obtain rfl := Option.some.inj (hw'.symm.trans hw)
  rw [serve_first hh]
  by_cases hlen : ((body.drop 1).length : ℤ) < k % 2 ^ 64
  · exact (a.waits files hbody hk hlen).serve files hk hlen
  · have hsettled := a.answers files hbody hk hlen
    rw [hsettled.serve files]
    refine ⟨fun hn => ?_, fun _ => hsettled⟩
    rw [List.length_append] at hn
    push_cast at hn
    omega

/-- A number that is recorded is the one that was written. -/
theorem stoi_recorded {w : Bytes} {k : ℤ} {n : ℕ} (hw : r.recorded = some w) (hk : stoi w = some k)
    (hn : n < 2 ^ 31) (hv : r.value = decimal n) : k = n := by
  rw [r.recorded_eq hw (by rw [hv]; exact decimal_ne_nil n), hv, stoi_decimal hn] at hk
  exact (Option.some.inj hk).symm

/-- The byte that the scanner takes along is missed exactly at the end of the body. -/
theorem reached_iff {b n : ℕ} {body : Bytes} :
    (¬ (((body.drop 1).length + b : ℕ) : ℤ) < (n : ℤ) ↔ n ≤ body.length + b) ↔
      body = [] ∨ body.length + b ≠ n := by
  rw [List.length_drop]
  cases body with
  | nil => simp
  | cons c body =>
    simp only [List.length_cons, reduceCtorEq, false_or]
    omega

/-- An early refusal answers in the first call. -/
theorem accounted_early (hh : Idle h) (hr : r.RefusedEarly) :
    Accounted files h r body later ↔ ∀ n < 2 ^ 31, r.value = decimal n → n ≤ body.length := by
  have hsettled := settled_first files body hh hr
  have hserve : ∀ calls, serve files h ((r.bytes ++ body) :: calls)
      = handleRead files (h.feed (r.bytes ++ body)) := fun calls => by
    rw [serve_first hh, hsettled.serve files]
  obtain ⟨a, ha, hkind⟩ := hsettled.answers
  constructor
  · intro hacc n hn hv
    have := hacc.answered n hn hv [] (List.nil_prefix)
    rw [hserve, ha] at this
    simpa using this
  · intro hle
    refine ⟨fun calls _ => ?_, fun n hn hv calls _ => ?_, fun _ => ?_⟩
    · rw [hserve]
      exact hsettled.fault
    · rw [hserve, ha, List.length_append]
      have := hle n hn hv
      exact iff_of_true (List.cons_ne_nil a []) (by omega)
    · rw [hserve, ha]
      exact ⟨a, List.mem_singleton_self a, hkind⟩

/-- A text that `std::stoi` cannot read is never accounted for. -/
theorem not_accounted_throws (hh : Idle h) (hs : ¬ r.line.Shadowed) (he : r.Ends)
    (hr : ¬ r.RefusedEarly) {w : Bytes} (hw : r.recorded = some w) (hk : stoi w = none) :
    ¬ Accounted files h r body later := by
  intro hacc
  obtain ⟨h₁, w', hw', hbody, a⟩ := awaiting_first files body hh hs he hr
  obtain rfl := Option.some.inj (hw'.symm.trans hw)
  have hfault := hacc.fault [] List.nil_prefix
  rw [serve_first hh] at hfault
  exact absurd ((a.throws files hbody hk).symm.trans hfault) (by simp)

/-- A length that it reads is waited for in the buffer. -/
theorem accounted_length (hh : Idle h) (hs : ¬ r.line.Shadowed) (he : r.Ends)
    (hr : ¬ r.RefusedEarly) {w : Bytes} {k : ℤ} (hw : r.recorded = some w) (hk : stoi w = some k) :
    Accounted files h r body later ↔
      (∀ n < 2 ^ 31, r.value = decimal n → body = [] ∨ ∀ calls, calls <+: later →
        (body ++ calls.flatten).length ≠ n) ∧
      ((∀ n < 2 ^ 31, r.value ≠ decimal n) →
        k % 2 ^ 64 ≤ (body.drop 1 ++ later.flatten).length) := by
  have hpost := serve_post files body hh hs he hr hw hk
  have hanswers : ∀ calls, (serve files h ((r.bytes ++ body) :: calls)).answers ≠ [] ↔
      ¬ ((body.drop 1 ++ calls.flatten).length : ℤ) < k % 2 ^ 64 := by
    intro calls
    by_cases hlen : ((body.drop 1 ++ calls.flatten).length : ℤ) < k % 2 ^ 64
    · have hsilent := ((hpost calls).1 hlen).silent
      rw [Handler.answers, hsilent.log]
      exact iff_of_false (fun hne => hne rfl) (not_not.mpr hlen)
    · obtain ⟨a, ha, -⟩ := ((hpost calls).2 hlen).answers
      rw [ha]
      exact iff_of_true (List.cons_ne_nil a []) hlen
  have hcall : ∀ n < 2 ^ 31, r.value = decimal n → ∀ calls,
      ((serve files h ((r.bytes ++ body) :: calls)).answers ≠ [] ↔
        n ≤ (body ++ calls.flatten).length) ↔ body = [] ∨ (body ++ calls.flatten).length ≠ n := by
    intro n hn hv calls
    have hkn := stoi_recorded hw hk hn hv
    have hmod : k % 2 ^ 64 = n := by omega
    rw [hanswers, hmod, List.length_append, List.length_append]
    exact reached_iff
  constructor
  · intro hacc
    refine ⟨fun n hn hv => ?_, fun hnot => ?_⟩
    · by_cases hnil : body = []
      · exact .inl hnil
      · refine .inr fun calls hcalls => ?_
        exact ((hcall n hn hv calls).mp (hacc.answered n hn hv calls hcalls)).resolve_left hnil
    · obtain ⟨a, ha, -⟩ := hacc.refused hnot
      exact Int.not_lt.mp ((hanswers later).mp (List.ne_nil_of_mem ha))
  · rintro ⟨hnumber, htext⟩
    refine ⟨fun calls _ => ?_, fun n hn hv calls hcalls => ?_, fun hnot => ?_⟩
    · by_cases hlen : ((body.drop 1 ++ calls.flatten).length : ℤ) < k % 2 ^ 64
      · exact ((hpost calls).1 hlen).silent.fault
      · exact ((hpost calls).2 hlen).fault
    · exact (hcall n hn hv calls).mpr ((hnumber n hn hv).imp_right fun h => h calls hcalls)
    · obtain ⟨a, ha, hkind⟩ := ((hpost later).2 (Int.not_lt.mpr (htext hnot))).answers
      exact ⟨a, by rw [ha]; exact List.mem_singleton_self a, hkind⟩

/-- A request that is read to its body is accounted for exactly on the condition. -/
theorem accounted_body (hh : Idle h) (hs : ¬ r.line.Shadowed) (he : r.Ends)
    (hr : ¬ r.RefusedEarly) : Accounted files h r body later ↔ r.Punctual body later := by
  obtain ⟨-, w, hw, -⟩ := awaiting_first files body hh hs he hr
  cases hk : stoi w with
  | none =>
    refine iff_of_false (not_accounted_throws hh hs he hr hw hk) fun p => ?_
    obtain ⟨w', k, hw', hk', -⟩ := p.length hr
    obtain rfl := Option.some.inj (hw'.symm.trans hw)
    exact absurd (hk.symm.trans hk') (by simp)
  | some k =>
    rw [accounted_length hh hs he hr hw hk]
    constructor
    · exact fun hlen => ⟨fun hn => absurd hn hr, fun _ => hs, fun _ => he,
        fun _ => ⟨w, k, hw, hk, hlen⟩⟩
    · intro p
      obtain ⟨w', k', hw', hk', hlen⟩ := p.length hr
      obtain rfl := Option.some.inj (hw'.symm.trans hw)
      obtain rfl := Option.some.inj (hk'.symm.trans hk)
      exact hlen

/-- **The body of a `POST` is accounted for** on the condition, and on no other: if the request is
refused early, or its target names no earlier method and the scanner finds the end of its header.
One that is read as a `GET` must have its body with the header. -/
theorem accounted_iff (hh : Idle h) : (r.Punctual body later → r.Accounted files h body later) ∧
    (r.RefusedEarly ∨ ¬ r.line.Shadowed ∧ r.Ends →
      r.Accounted files h body later → r.Punctual body later) ∧
    (r.line.Shadowed → r.Ends → r.Accounted files h body later →
      ∀ n < 2 ^ 31, r.value = decimal n → n ≤ body.length) := by
  refine ⟨fun p => ?_, fun hor hacc => ?_, fun hs he hacc n hn hv => ?_⟩
  · by_cases hr : r.RefusedEarly
    · exact (accounted_early hh hr).mpr (p.early hr)
    · exact (accounted_body hh (p.line hr) (p.ends hr) hr).mpr p
  · by_cases hr : r.RefusedEarly
    · exact ⟨fun _ => (accounted_early hh hr).mp hacc, fun hn => absurd hr hn,
        fun hn => absurd hr hn, fun hn => absurd hr hn⟩
    · obtain ⟨hs, he⟩ := hor.resolve_left hr
      exact (accounted_body hh hs he hr).mp hacc
  · have hfault := hacc.fault [] List.nil_prefix
    have hanswered := hacc.answered n hn hv [] List.nil_prefix
    rw [serve_first hh] at hfault hanswered
    obtain hf | ha := shadowed_first files body hh hs he
    · rw [show (handleRead files (h.feed (r.bytes ++ body))).fault = none from hfault] at hf
      exact absurd hf (by simp)
    · have hle := hanswered.mp ha
      rwa [List.flatten_nil, List.append_nil] at hle

end Account

theorem path_ok_x : ∀ b ∈ text "x", b ≠ Chr.space ∧ b ≠ Chr.cr ∧ b ≠ Chr.question := by
  decide +kernel

theorem plain_host : ∀ f ∈ [(text "Host", text "a")] ++ [], Field.Plain f := by
  intro f hf
  obtain rfl := List.mem_singleton.mp hf
  exact ⟨by decide +kernel, by decide +kernel, by decide +kernel⟩

theorem host_ne_contentLength : ∀ f ∈ [(text "Host", text "a")] ++ [], f.1 ≠ contentLength := by
  intro f hf
  obtain rfl := List.mem_singleton.mp hf
  decide

/-- `POST /x` with a length. -/
def postX (value : Bytes) (hv : ∀ b ∈ value, b ≠ Chr.cr ∧ b ≠ Chr.lf) : PostRequest where
  line := ⟨.post, text "x", none, .http11, path_ok_x, RequestLine.query_ok_none⟩
  before := [(text "Host", text "a")]
  value := value
  after := []
  method_eq := rfl
  plain := plain_host
  other := host_ne_contentLength
  value_ok := hv

/-- …of five bytes. -/
abbrev postFive : PostRequest := postX (text "5") (by decide +kernel)

/-- A new connection of a server with an empty cache. -/
abbrev newServer : Handler Cache.LFUCache := newConnection [] (Cache.LFUCache.init 10)

theorem idle_newServer : Idle newServer := ⟨⟨rfl, rfl, rfl, rfl, rfl⟩, rfl, rfl, rfl, rfl⟩

/-- A body that arrives in two later reads. -/
theorem accounted_later :
    postFive.Accounted (fun _ => none) newServer [] [text "he", text "llo"] := by
  have hget : findStr (text "GET") postFive.line.target = none := by decide
  have hearly : ¬ postFive.RefusedEarly := by
    rintro (⟨p, hp, -⟩ | hlong | ⟨-, -, hnone⟩)
    · exact absurd (hget.symm.trans hp) (by simp)
    · exact hlong (by decide)
    · exact absurd hnone (by decide)
  refine (accounted_iff idle_newServer).1 ⟨fun hr => absurd hr hearly, fun _ => ?_,
    fun _ => by decide, fun _ => ⟨text "5", 5, by decide, by decide,
      fun _ _ _ => .inl rfl, fun hn => absurd (show postFive.value = decimal 5 by decide)
        (hn 5 (by decide))⟩⟩
  rintro ⟨m, hm, hin⟩
  obtain rfl := List.mem_singleton.mp hm
  exact findStr_eq_none_iff.mp hget hin

/-- **A body that arrives with the header** is not answered. -/
theorem not_accounted_together : ¬ ∀ (r : PostRequest) (body : Bytes) (later : List Bytes),
    r.Accounted (fun _ => none) newServer body later := by
  intro h
  have hanswered := ((h postFive (text "hello") []).answered 5 (by decide) (by decide) []
    List.nil_prefix).mpr (by decide)
  have hsilent : (serve (fun _ => none) newServer [postFive.bytes ++ text "hello"]).answers.length
      = 0 := by decide +kernel
  exact hanswered (List.length_eq_zero_iff.mp hsilent)

end PostRequest

end WebServer.Http
