import WebServer.Http.Client
import WebServer.Http.PostBody
import WebServer.Event.KeepAlive

/-!
# Event/Client — what a client reads of a connection

Whatever arrives on a connection, what goes out is made of a fixed stock of header lines and a body:
no request gets a line of its own into an answer (`forms_of_run`).  A page whose body has the length
that it announces can be read, as can a refusal; so a client that knows as which methods its
requests were parsed reads the answers off the stream, each as it was built, as far as the stream
goes (`read_of_run`).
-/

namespace WebServer.Event

open Http Utility

/-! ## What the server can answer -/

/-- The codes and messages of the error answers. -/
def refusals : List (ℕ × Bytes) :=
  [(400, text "Bad Request"), (400, text "Bad Request: Lack of argument (Content-length)"),
    (403, text "Forbidden!"), (404, text "Not Found!"), (500, text "Server Busy!")]

/-- The header lines of the echo answer. -/
def echoLines : List Bytes := [text "HTTP/1.1 200 OK", text "Content-Type: text/html"]

/-- **The answers of the server**, as lines and a body. -/
inductive Form : Answer → Message → Prop
  | page (c : HttpConnection) (file : FileNode) {body : Bytes} (hb : c.method = .head → body = []) :
      Form (pageAnswer c file body)
        ⟨pageLines (wantsKeepAlive c.requestHeaders) (fileTypeOf c.fileName) file.stSize, body⟩
  | echo (c : HttpConnection) : Form (echoAnswer c) ⟨echoLines, text "Hello World"⟩
  | refused {a : Answer} {n : ℕ} {m : Bytes} (he : (n, m) ∈ refusals) (hk : a.kind = .error)
      (hr : a.response = errorResponse n m) :
      Form a ⟨errorLines n m, errorBody n (text " " ++ m)⟩

section Form

variable {a : Answer} {m : Message}

theorem cr_notMem_of_mem_refusals {n : ℕ} {m : Bytes} (h : (n, m) ∈ refusals) : Chr.cr ∉ m := by
  have hall : ∀ e ∈ refusals, Chr.cr ∉ e.2 := by decide
  exact hall _ h

theorem Form.isLine (h : Form a m) : ∀ l ∈ m.lines, IsLine l := by
  cases h with
  | page => exact fun _ => isLine_of_mem_pageLines
  | echo =>
    have hlines : ∀ l ∈ echoLines, IsLine l := by decide
    exact hlines
  | refused he => exact isLine_errorLines _ (cr_notMem_of_mem_refusals he)

theorem Form.response (h : Form a m) : a.response = block m.lines ++ m.body := by
  cases h with
  | page c file =>
    rw [pageAnswer]
    dsimp only
    rw [pageHeader, block_pageLines]
  | echo =>
    change echoResponse = _
    decide
  | refused he hk hr => rw [hr, errorResponse_eq]

/-- **There is no other way to read it.** -/
theorem Form.unique (h : Form a m) {lines : List Bytes} {body : Bytes}
    (hlines : ∀ l ∈ lines, IsLine l) (hr : a.response = block lines ++ body) :
    ⟨lines, body⟩ = m := by
  obtain ⟨hl, hb⟩ := block_inj hlines h.isLine (hr.symm.trans h.response)
  rw [hl, hb]

/-! ## Which of them can be read -/

/-- A line that starts with other bytes than the name of a field. -/
theorem not_isPrefixOf {p q x : Bytes} (i : ℕ) (hp : i < p.length) (hq : i < q.length)
    (hne : p[i]? ≠ q[i]?) : p.isPrefixOf (q ++ x) = false := by
  refine Bool.eq_false_iff.mpr fun h => hne ?_
  obtain ⟨y, hy⟩ := List.isPrefixOf_iff_prefix.mp h
  have := congrArg (·[i]?) hy
  rwa [List.getElem?_append_left hp, List.getElem?_append_left hq] at this

theorem isPrefixOf_lengthField (n : ℕ) : lengthField.isPrefixOf (lengthField ++ decimal n) = true :=
  List.isPrefixOf_iff_prefix.mpr (List.prefix_append _ _)

theorem announced_cons_of_not {l : Bytes} (h : lengthField.isPrefixOf l = false)
    (ls : List Bytes) : announced (l :: ls) = announced ls := by
  rw [announced, List.find?_cons, h]
  rfl

theorem announced_cons_length (n : ℕ) (ls : List Bytes) :
    announced ((lengthField ++ decimal n) :: ls) = some n := by
  rw [announced, List.find?_cons, isPrefixOf_lengthField]
  dsimp only
  rw [Option.map_some, List.drop_left, digitsValue_decimal]

theorem announced_pageLines (keepAlive : Bool) (fileType : Bytes) (size : ℕ) :
    announced (pageLines keepAlive fileType size) = some size := by
  have htype : lengthField.isPrefixOf (text "Content-Type: " ++ fileType) = false :=
    not_isPrefixOf 8 (by decide) (by decide +kernel) (by decide +kernel)
  have htimeout : lengthField.isPrefixOf
      (text "Keep-Alive: timeout=" ++ decimal kDefaultKeepAliveTime) = false :=
    not_isPrefixOf 0 (by decide) (by decide +kernel) (by decide +kernel)
  have hstatus : lengthField.isPrefixOf (text "HTTP/1.1 200 OK") = false := by decide
  have hkeep : lengthField.isPrefixOf (text "Connection: Keep-Alive") = false := by decide
  rw [pageLines, announced_cons_of_not hstatus]
  cases keepAlive
  · exact (announced_cons_of_not htype _).trans (announced_cons_length size _)
  · exact (announced_cons_of_not hkeep _).trans <| (announced_cons_of_not htimeout _).trans <|
      (announced_cons_of_not htype _).trans (announced_cons_length size _)

theorem announced_errorLines (n : ℕ) (m : Bytes) :
    announced (errorLines n m) = some (errorBody n (text " " ++ m)).length := by
  have hstatus : lengthField.isPrefixOf (text "HTTP/1.1 " ++ decimal n ++ (text " " ++ m))
      = false := by
    rw [List.append_assoc]
    exact not_isPrefixOf 0 (by decide) (by decide +kernel) (by decide +kernel)
  have htype : lengthField.isPrefixOf (text "Content-Type: text/html") = false := by decide
  have hclose : lengthField.isPrefixOf (text "Connection: Close") = false := by decide
  rw [errorLines, announced_cons_of_not hstatus, announced_cons_of_not htype,
    announced_cons_of_not hclose]
  exact announced_cons_length _ _

/-- **An answer that fits its request**: a page behind which there is as much as it announces, or
nothing if the request is a `HEAD`, and a refusal of any other request. -/
def Fits (a : Answer) : Prop :=
  a.kind = .page ∧ (a.method = .head ∨ Framed a.response) ∨ a.kind = .error ∧ a.method ≠ .head

/-- **These are the answers that can be read.** -/
theorem Form.readable_iff (h : Form a m) : Readable a m ↔ Fits a := by
  constructor
  · rintro ⟨-, -, hbody⟩
    cases h with
    | page c file hb =>
      refine .inl ⟨rfl, or_iff_not_imp_left.mpr fun hm => ?_⟩
      rw [if_neg hm, announced_pageLines] at hbody
      exact (framed_page_iff c file _).mpr (Option.some.inj hbody).symm
    | echo c =>
      split at hbody
      · exact absurd hbody (by decide)
      · exact absurd hbody (by decide)
    | refused he hk hr =>
      refine .inr ⟨hk, fun hm => ?_⟩
      rw [if_pos hm] at hbody
      exact absurd hbody (by simp [errorBody, text])
  · intro hfits
    refine ⟨h.response, h.isLine, ?_⟩
    cases h with
    | page c file hb =>
      split
      · next hm => exact hb hm
      · next hm =>
        obtain ⟨-, hm' | hframed⟩ | ⟨hk, -⟩ := hfits
        · exact absurd hm' hm
        · rw [announced_pageLines, (framed_page_iff c file _).mp hframed]
        · exact absurd hk AnswerKind.noConfusion
    | echo c =>
      obtain ⟨hk, -⟩ | ⟨hk, -⟩ := hfits
      · exact absurd hk AnswerKind.noConfusion
      · exact absurd hk AnswerKind.noConfusion
    | refused he hk hr =>
      obtain ⟨hk', -⟩ | ⟨-, hm⟩ := hfits
      · exact absurd (hk.symm.trans hk') AnswerKind.noConfusion
      · rw [if_neg hm, announced_errorLines]

end Form

/-! ## What handling input answers -/

section Handler

variable {κ : Type*}

/-- **What handling input answers**: nothing, or one answer, and the connection has failed if that
is a refusal. -/
inductive Puts (h h' : Handler κ) (failed : Prop) : Prop
  | nothing (ha : h'.answers = h.answers)
  | one {a : Answer} {m : Message} (hf : Form a m) (ha : h'.answers = h.answers ++ [a])
      (he : a.kind = .error → failed)

theorem Puts.imp {h h' : Handler κ} {p q : Prop} (x : Puts h h' p) (hpq : p → q) :
    Puts h h' q := by
  cases x with
  | nothing hx => exact .nothing hx
  | one hf hx he => exact .one hf hx fun hk => hpq (he hk)

/-- Handling starts, and ends, in a state with the same answers. -/
theorem Puts.of_eq {h₀ h h' h'' : Handler κ} {p : Prop} (x : Puts h h' p)
    (ha : h.answers = h₀.answers) (ha' : h''.answers = h'.answers) : Puts h₀ h'' p := by
  cases x with
  | nothing hx => exact .nothing (ha'.trans (hx.trans ha))
  | one hf hx he => exact .one hf (by rw [ha', hx, ha]) he

theorem badRequest_mem : (400, text "Bad Request") ∈ refusals := List.mem_cons_self ..

theorem refusePage_puts {n : ℕ} {m : Bytes} {h₀ h : Handler κ} (ha : h.answers = h₀.answers)
    (he : (n, m) ∈ refusals) :
    Puts h₀ (refusePage h n m).2 ((refusePage h n m).1 = .error) := by
  have hl : (refusePage h n m).2.log = h.log ++ [.produced ⟨.error, h.conn.method,
      h.conn.fileName, h.conn.requestHeaders, errorResponse n m⟩, .accepted _] :=
    List.append_assoc ..
  have ha' := answers_append hl
  rw [ha] at ha'
  exact .one (.refused he rfl rfl) ha' fun _ => rfl

theorem failWith_puts (h : Handler κ) {n : ℕ} {m : Bytes} (he : (n, m) ∈ refusals) :
    Puts h (failWith h n m) ((failWith h n m).conn.isError = true) := by
  obtain ⟨a, ha, hk, hr⟩ := failWith_answers h n m
  exact .one (.refused he hk hr) ha fun _ => rfl

variable [PageCache κ] (files : FileSystem)

theorem serveHeader_puts {h h' : Handler κ} {file : FileNode} (d : HeaderDone h h' file) :
    Puts h (serveHeader h' (pageHeader h.conn file) file).2
      ((serveHeader h' (pageHeader h.conn file) file).1 = .error) := by
  have hlog : h'.answers = h.answers := by rw [Handler.answers, Handler.answers, d.log]
  have hpage {body : Bytes} (hb : h.conn.method = .head → body = []) (cache : κ) {p : Prop} :
      Puts h ((appendBody h' (pageHeader h.conn file) body).setCache cache) p := by
    refine .one (.page h.conn file hb) ?_ fun hk => absurd hk AnswerKind.noConfusion
    refine (answers_append (h := h) (e := [.produced (pageAnswer h.conn file body)]) ?_)
    simp only [appendBody, Handler.setCache_log, Handler.produce_log, Handler.update_log,
      Handler.update_conn, d.log, d.method, d.fileName, d.requestHeaders]
    rfl
  unfold serveHeader serveBody
  split
  · exact hpage (fun _ => rfl) h'.cache
  · next hm =>
    rw [d.method] at hm
    split
    · exact .nothing hlog
    · exact hpage (fun h => absurd h hm) _
    · unfold serveFile
      split
      · exact refusePage_puts hlog (by decide)
      · split
        · exact refusePage_puts hlog (by decide)
        · split
          · exact .nothing hlog
          · exact hpage (fun h => absurd h hm) _

theorem buildResponse_puts (h : Handler κ) :
    Puts h (buildResponse files h).2 ((buildResponse files h).1 = .error) := by
  by_cases hm : h.conn.method = .post
  · rw [buildResponse, if_pos hm]
    exact refusePage_puts rfl (by decide)
  · by_cases he : h.conn.fileName = text "echo"
    · rw [buildResponse, if_neg hm, if_pos he]
      refine .one (.echo h.conn) (answers_append (e := [.produced (echoAnswer h.conn)]) ?_)
        fun hk => absurd hk AnswerKind.noConfusion
      unfold noteKeepAlive
      simp only [serveEcho, Handler.produce_log, Handler.update_conn, Handler.update_log]
      split <;> rfl
    · rcases hf : files (cString h.conn.path) with _ | file
      · obtain ⟨c, hb⟩ := buildResponse_forbidden files hm he hf
        rw [hb]
        exact refusePage_puts rfl (by decide)
      · obtain ⟨h', d, hb⟩ := buildResponse_page files hm he hf
        rw [hb]
        exact serveHeader_puts d

theorem responseStage_puts (h : Handler κ) :
    Puts h (responseStage files h) ((responseStage files h).conn.isError = true) := by
  by_cases hs : h.conn.processState = .response
  · rw [responseStage_eq files hs]
    refine Puts.imp ((buildResponse_puts files h).of_eq rfl rfl) fun he => ?_
    rw [he]
    rfl
  · rw [responseStage, if_neg hs]
    exact .nothing rfl

theorem bodyStage_puts (h : Handler κ) :
    Puts h (bodyStage files h) ((bodyStage files h).conn.isError = true) := by
  unfold bodyStage
  split
  · split
    · exact failWith_puts h (by decide)
    · split
      · exact .nothing rfl
      · split
        · exact .nothing rfl
        · exact (responseStage_puts files _).of_eq rfl rfl
  · exact responseStage_puts files h

theorem headerStage_puts (h : Handler κ) :
    Puts h (headerStage files h) ((headerStage files h).conn.isError = true) := by
  unfold headerStage
  split
  · split
    · exact .nothing rfl
    · exact .nothing rfl
    · exact (failWith_puts _ badRequest_mem).of_eq rfl rfl
    · exact (bodyStage_puts files _).of_eq rfl rfl
  · exact bodyStage_puts files h

theorem lineStage_puts (h : Handler κ) :
    Puts h (lineStage files h) ((lineStage files h).conn.isError = true) := by
  unfold lineStage
  split
  · split
    · exact .nothing rfl
    · exact (failWith_puts _ badRequest_mem).of_eq rfl rfl
    · exact (headerStage_puts files _).of_eq rfl rfl
  · exact headerStage_puts files h

/-- **A pass of `HandleRead` gives one answer at most.** -/
theorem handleReadBody_puts (h : Handler κ) :
    Puts h (handleReadBody files h) ((handleReadBody files h).conn.isError = true) := by
  have r := handleReadBody_result files h
  generalize handleReadBody files h = h' at r
  cases r with
  | idle => exact .nothing rfl
  | fail => exact (failWith_puts _ badRequest_mem).of_eq rfl rfl
  | stages s => exact (lineStage_puts files _).of_eq rfl rfl

/-- **Every answer is one that the server can give**, and a refusal is the last. -/
structure Stocked (isError : Bool) (as : List Answer) : Prop where
  forms (a : Answer) : a ∈ as → ∃ m, Form a m
  served : isError = false → ∀ a ∈ as, a.kind ≠ .error
  last (a : Answer) : a ∈ as.dropLast → a.kind ≠ .error

/-- What gives no answer, and mends nothing. -/
theorem Stocked.mono {e e' : Bool} {as as' : List Answer} (hs : Stocked e as) (ha : as' = as)
    (he : e' = false → e = false) : Stocked e' as' :=
  ha ▸ ⟨hs.forms, fun h => hs.served (he h), hs.last⟩

omit [PageCache κ] in
/-- One answer more, while none has been a refusal. -/
theorem Stocked.puts {h h' : Handler κ} (hs : Stocked false h.answers)
    (x : Puts h h' (h'.conn.isError = true)) : Stocked h'.conn.isError h'.answers := by
  cases x with
  | nothing ha => exact hs.mono ha fun _ => rfl
  | @one a m hf ha hfail =>
    rw [ha]
    refine ⟨fun b hb => ?_, fun he' b hb hk => ?_, fun b hb => ?_⟩
    · obtain hb | hb := List.mem_append.mp hb
      · exact hs.forms b hb
      · exact List.mem_singleton.mp hb ▸ ⟨m, hf⟩
    · obtain hb | hb := List.mem_append.mp hb
      · exact hs.served rfl b hb hk
      · rw [List.mem_singleton.mp hb] at hk
        exact Bool.noConfusion (he'.symm.trans (hfail hk))
    · rw [List.dropLast_concat] at hb
      exact hs.served rfl b hb

/-- Nothing was answered behind a refusal. -/
theorem Stocked.getLast {e : Bool} {as : List Answer} (hs : Stocked e as) {a : Answer} (ha : a ∈ as)
    (hk : a.kind = .error) : e = true ∧ as.getLast? = some a := by
  refine ⟨Bool.not_eq_false _ ▸ fun he => hs.served he a ha hk, ?_⟩
  have hne : as ≠ [] := List.ne_nil_of_mem ha
  rw [← List.dropLast_concat_getLast hne] at ha
  obtain ha | ha := List.mem_append.mp ha
  · exact absurd hk (hs.last a ha)
  · rw [List.getLast?_eq_getLast_of_ne_nil hne, List.mem_singleton.mp ha]

omit [PageCache κ] in
theorem handleReadTail_isError {h : Handler κ} (he : (handleReadTail h).1.conn.isError = false) :
    h.conn.isError = false := by
  have hflush (hf : (flush h).conn.isError = false) : h.conn.isError = false := by
    unfold flush at hf
    split at hf
    · exact handleWrite_isError hf
    · exact hf
  unfold handleReadTail conclude at he
  split at he
  · exact he
  · split at he
    · exact hflush he
    · split at he
      · exact hflush he
      · exact hflush he

/-- **`HandleRead`** calls itself only while nothing has failed. -/
theorem stocked_handleRead {h : Handler κ} (hs : Stocked false h.answers) :
    Stocked (handleRead files h).conn.isError (handleRead files h).answers := by
  have hpass {h : Handler κ} (hs : Stocked false h.answers) :
      Stocked (handleReadPass files h).1.conn.isError (handleReadPass files h).1.answers :=
    (hs.puts (handleReadBody_puts files h)).mono (handleReadTail_answers _) handleReadTail_isError
  have fuel : ∀ n (h : Handler κ), Stocked false h.answers →
      Stocked (handleReadFuel files n h).conn.isError (handleReadFuel files n h).answers := by
    intro n
    induction n with
    | zero => exact fun h hs => hpass hs
    | succ n ih =>
      intro h hs
      rw [handleReadFuel_succ]
      split
      · next hagain =>
        have hnext := hpass hs
        rw [isError_handleReadPass files hagain] at hnext
        exact ih _ hnext
      · exact hpass hs
  exact fuel _ h hs

omit [PageCache κ] in
theorem handleUpdate_answers (h : Handler κ) : (handleUpdate h).1.answers = h.answers := by
  obtain ⟨_, he⟩ := exists_handleUpdate h
  rw [he]
  rfl

theorem stocked_handleEvents {h : Handler κ} (hs : Stocked false h.answers)
    (revents : EventMask) : Stocked (handleEvents files revents h).1.conn.isError
      (handleEvents files revents h).1.answers := by
  have hread : Stocked (readEvent files revents (h.setEvents .zero)).conn.isError
      (readEvent files revents (h.setEvents .zero)).answers := by
    unfold readEvent
    split
    · exact stocked_handleRead files hs
    · exact hs.mono rfl fun _ => rfl
  have hwrite : Stocked
      (writeEvent revents (readEvent files revents (h.setEvents .zero))).conn.isError
      (writeEvent revents (readEvent files revents (h.setEvents .zero))).answers := by
    unfold writeEvent
    split
    · exact hread.mono (handleWrite_answers _) handleWrite_isError
    · exact hread
  unfold Event.handleEvents
  dsimp only
  split
  · exact hs.mono rfl fun _ => rfl
  · split
    · exact hread
    · refine hwrite.mono (handleUpdate_answers _) fun h => ?_
      rwa [handleUpdate_conn] at h

end Handler

/-! ## Runs -/

namespace Session

/-- The answers of a connection. -/
def answers (s : Session) : List Answer :=
  s.log.filterMap fun | .produced a => some a | .accepted _ => none

theorem produced_eq (s : Session) : produced s.log = s.answers.flatMap (·.response) := by
  rw [answers]
  generalize s.log = log
  induction log with
  | nil => rfl
  | cons e log ih =>
    cases e with
    | produced a => exact congrArg (a.response ++ ·) ih
    | accepted b => exact ih

variable {κ : Type*} [PageCache κ] {dir : Bytes} {xs : List (Exchange κ)} {s : Session}

theorem stocked_of_run (r : Run Step ⟨{ resourceDir := dir }, [], false⟩ xs s) :
    Stocked s.conn.isError s.answers ∧ (s.closed = false → s.conn.isError = false) := by
  refine r.invariant (I := fun s => Stocked s.conn.isError s.answers ∧
    (s.closed = false → s.conn.isError = false)) (fun s x t hI hs => ?_)
    ⟨⟨nofun, fun _ => nofun, nofun⟩, fun _ => rfl⟩
  obtain ⟨hstocked, herror⟩ := hI
  obtain ⟨hopen, rfl⟩ := hs
  have he := herror hopen
  rw [he] at hstocked
  exact ⟨stocked_handleEvents x.files (h := s.handler x) hstocked x.revents, isError_serve he⟩

/-- **No request gets a line of its own into an answer** — whatever arrives, in whatever pieces,
each answer of a connection is one of the forms, and there is no other way to cut it into header
lines and a body; and a connection that has refused a request says no more. -/
theorem forms_of_run (r : Run Step ⟨{ resourceDir := dir }, [], false⟩ xs s) :
    (∀ a ∈ s.answers, ∃ m, Form a m ∧ ∀ lines body, (∀ l ∈ lines, IsLine l) →
      a.response = block lines ++ body → ⟨lines, body⟩ = m) ∧
    ∀ a ∈ s.answers, a.kind = .error → s.closed = true ∧ s.answers.getLast? = some a := by
  obtain ⟨hstocked, herror⟩ := stocked_of_run r
  constructor
  · intro a ha
    obtain ⟨m, hm⟩ := hstocked.forms a ha
    exact ⟨m, hm, fun lines body hl hr => hm.unique hl hr⟩
  · intro a ha hk
    obtain ⟨he, hlast⟩ := hstocked.getLast ha hk
    refine ⟨Bool.not_eq_false _ ▸ fun hopen => ?_, hlast⟩
    exact Bool.noConfusion ((herror hopen).symm.trans he)

/-- A request for a page, and one that is refused. -/
theorem forms_twoRequests : ∃ s : Session, s.answers.map (·.kind) = [.page, .error] ∧
    (∀ a ∈ s.answers, ∃ m, Form a m ∧ ∀ lines body, (∀ l ∈ lines, IsLine l) →
      a.response = block lines ++ body → ⟨lines, body⟩ = m) ∧
    ∀ a ∈ s.answers, a.kind = .error → s.closed = true ∧ s.answers.getLast? = some a := by
  have r : Run Step ⟨{ resourceDir := text "/pages/" }, [], false⟩
      [oneRequest, { oneRequest with reads := [.data (text "HELLO\r\n"), .again] }] _ :=
    .cons ⟨rfl, rfl⟩ (.single ⟨by decide, rfl⟩)
  exact ⟨_, by decide, forms_of_run r⟩

/-- Answers that fit can be read. -/
theorem exists_readable {as : List Answer} (hforms : ∀ a ∈ as, ∃ m, Form a m)
    (hfits : ∀ a ∈ as, Fits a) : ∃ ms, List.Forall₂ Readable as ms := by
  induction as with
  | nil => exact ⟨[], .nil⟩
  | cons a as ih =>
    obtain ⟨⟨m, hm⟩, hforms⟩ := List.forall_mem_cons.mp hforms
    obtain ⟨ha, hfits⟩ := List.forall_mem_cons.mp hfits
    obtain ⟨ms, hms⟩ := ih hforms hfits
    exact ⟨m :: ms, .cons (hm.readable_iff.mpr ha) hms⟩

/-- **A client reads what was meant** — in a run in which no echo page and no refusal meets unsent
output, a client reads the answers that fit, each with its lines and its body, and nothing else; and
it has read all those that have come completely.  Of each answer it knows whether the server took
the request for a `HEAD`: the methods are those that the parser has read. -/
theorem read_of_run (r : Run (guarded Clean Step) ⟨{ resourceDir := dir }, [], false⟩ xs s)
    {as : List Answer} (has : as <+: s.answers) (hfits : ∀ a ∈ as, Fits a) : ∃ ms,
    List.Forall₂ Readable as ms ∧ readMessages (as.map (·.method)) (accepted s.log) <+: ms ∧
      ∀ bs, bs <+: as → bs.flatMap (·.response) <+: accepted s.log →
        bs.length ≤ (readMessages (as.map (·.method)) (accepted s.log)).length := by
  obtain ⟨hstocked, -⟩ := stocked_of_run (r.mono fun _ _ _ h => h.2)
  have hforms : ∀ a ∈ as, ∃ m, Form a m := fun a ha => hstocked.forms a (has.subset ha)
  obtain ⟨ms, hms⟩ := exists_readable hforms hfits
  have horder : accepted s.log <+: produced s.log :=
    (kept_of_run r).inOrder _ (List.prefix_refl _)
  refine ⟨ms, hms, ?_, fun bs hbs hcome => ?_⟩
  · obtain ⟨later, hlater⟩ := has
    have hall := readMessages_flatMap hms [] (later.flatMap (·.response))
    rw [List.append_nil, readMessages, List.append_nil, ← List.flatMap_append, hlater,
      ← produced_eq] at hall
    exact hall ▸ readMessages_prefix horder
  · obtain ⟨cs, rfl⟩ := hbs
    obtain ⟨rest, hrest⟩ := hcome
    obtain ⟨ms', hms'⟩ := exists_readable (fun a ha => hforms a (List.mem_append_left _ ha))
      fun a ha => hfits a (List.mem_append_left _ ha)
    rw [List.map_append, ← hrest, readMessages_flatMap hms', List.length_append, hms'.length_eq]
    exact Nat.le_add_right _ _

/-- One request, whose answer is sent in two parts. -/
theorem read_oneRequest : ∃ s : Session, s.answers.map (·.method) = [.get] ∧ ∃ ms,
    List.Forall₂ Readable s.answers ms ∧
      readMessages (s.answers.map (·.method)) (accepted s.log) <+: ms ∧
      ∀ bs, bs <+: s.answers → bs.flatMap (·.response) <+: accepted s.log →
        bs.length ≤ (readMessages (s.answers.map (·.method)) (accepted s.log)).length := by
  let s₀ : Session := ⟨{ resourceDir := text "/pages/" }, [], false⟩
  have hclean : Clean s₀ oneRequest := fun _ =>
    .pass (fun h => h.1 rfl) fun h => absurd h (by decide)
  have r : Run (guarded Clean Step) s₀ [oneRequest, writable] _ :=
    .cons ⟨hclean, rfl, rfl⟩ (.single ⟨fun h => absurd h (by decide), by decide, rfl⟩)
  have hpage : ∀ a ∈ ((s₀.serve oneRequest).serve writable).answers, a.kind = .page ∧
      a.response = block (pageLines false (fileTypeOf (text "a")) 1) ++ text "x" :=
    by decide
  refine ⟨_, by decide, read_of_run r (List.prefix_refl _) fun a ha => .inl ?_⟩
  obtain ⟨hk, hresponse⟩ := hpage a ha
  exact ⟨hk, .inr ⟨_, _, hresponse, fun _ => isLine_of_mem_pageLines,
    length_mem_pageLines.mpr rfl⟩⟩

end Session

end WebServer.Event
