import WebServer.Event.Channel
import WebServer.Lib.Run

/-!
# Event/OutputOrder — the output stream of a connection

The log of a connection is in order when, at each point of it, what the socket has accepted is a
first part of what has been produced (`InOrder`).  A page is appended to the write buffer, but the
echo answer and the error answers replace it, so an unsent rest is lost there (`Overwrites`).  Runs
in which no such answer meets an unsent rest keep the order (`inOrder_of_run`).
-/

namespace WebServer.Event

open Http Utility

/-! ## The stream -/

/-- **At each point, what was accepted is a first part of what was produced.** -/
def InOrder (log : List OutEvent) : Prop := ∀ t, t <+: log → accepted t <+: produced t

@[simp] theorem produced_append (s t : List OutEvent) :
    produced (s ++ t) = produced s ++ produced t :=
  List.flatMap_append

@[simp] theorem accepted_append (s t : List OutEvent) :
    accepted (s ++ t) = accepted s ++ accepted t :=
  List.flatMap_append

@[simp] theorem produced_produced (a : Answer) : produced [.produced a] = a.response :=
  List.append_nil _

@[simp] theorem produced_accepted (b : Bytes) : produced [.accepted b] = [] := rfl

@[simp] theorem accepted_produced (a : Answer) : accepted [.produced a] = [] := rfl

@[simp] theorem accepted_accepted (b : Bytes) : accepted [.accepted b] = b := List.append_nil _

theorem InOrder.concat {log : List OutEvent} {e : OutEvent} (h : InOrder log)
    (he : accepted (log ++ [e]) <+: produced (log ++ [e])) : InOrder (log ++ [e]) := by
  intro t ht
  rcases List.prefix_concat_iff.mp ht with rfl | ht
  · exact he
  · exact h t ht

/-- A response may be produced at any time. -/
theorem InOrder.produced {log : List OutEvent} (h : InOrder log) (a : Answer) :
    InOrder (log ++ [.produced a]) := by
  refine h.concat ?_
  rw [accepted_append, produced_append, accepted_produced, List.append_nil]
  exact (h log (List.prefix_refl _)).trans (List.prefix_append _ _)

/-- The bytes that are next may be accepted. -/
theorem InOrder.accepted {log : List OutEvent} (h : InOrder log) {b x : Bytes} (hx : x <+: b)
    (hb : Http.accepted log ++ b = Http.produced log) : InOrder (log ++ [.accepted x]) := by
  refine h.concat ?_
  rw [accepted_append, produced_append, accepted_accepted, produced_accepted, List.append_nil, ← hb]
  exact (List.prefix_append_right_inj _).mpr hx

/-! ## What a pass of `HandleRead` puts out -/

section Pass

variable {κ : Type*}

/-- **What handling input puts out**: nothing, a page, the echo answer, an error answer, or nothing
because the cache broke off. -/
inductive Output (h h' : Handler κ) : Prop
  | silent (hl : h'.log = h.log) (hw : h'.conn.writeBuffer = h.conn.writeBuffer)
      (he : h'.conn.isError = h.conn.isError)
  | page {a : Answer} (hk : a.kind = .page) (hl : h'.log = h.log ++ [.produced a])
      (hw : h'.conn.writeBuffer = h.conn.writeBuffer ++ a.response)
      (he : h'.conn.isError = h.conn.isError)
  | echo {a : Answer} (hk : a.kind = .echo) (hl : h'.log = h.log ++ [.produced a])
      (hw : h'.conn.writeBuffer = a.response) (he : h'.conn.isError = h.conn.isError)
  | refused {a : Answer} {x : Bytes} (hk : a.kind = .error) (hx : x <+: a.response)
      (hl : h'.log = h.log ++ [.produced a, .accepted x]) (he : h'.conn.isError = true)
  | broken (hl : h'.log = h.log) (he : h'.conn.isError = true)

/-- Handling starts from a state with the same output. -/
theorem Output.of_eq {h₀ h h' : Handler κ} (o : Output h h') (hl : h.log = h₀.log)
    (hw : h.conn.writeBuffer = h₀.conn.writeBuffer) (he : h.conn.isError = h₀.conn.isError) :
    Output h₀ h' := by
  rcases o with ⟨hl', hw', he'⟩ | ⟨hk, hl', hw', he'⟩ | ⟨hk, hl', hw', he'⟩ | ⟨hk, hx, hl', he'⟩ |
    ⟨hl', he'⟩
  · exact .silent (hl'.trans hl) (hw'.trans hw) (he'.trans he)
  · exact .page hk (by rw [hl', hl]) (by rw [hw', hw]) (he'.trans he)
  · exact .echo hk (by rw [hl', hl]) hw' (he'.trans he)
  · exact .refused hk hx (by rw [hl', hl]) he'
  · exact .broken (hl'.trans hl) he'

theorem failWith_output (h : Handler κ) (n : ℕ) (m : Bytes) : Output h (failWith h n m) := by
  obtain ⟨a, x, hk, hx, hl⟩ := returnErrorMessage_log (h.update markError) n m
  exact .refused hk hx hl rfl

variable [PageCache κ] (files : FileSystem)

/-- **The stages put out at most one answer.** -/
theorem StageResult.output {h h' : Handler κ} (r : StageResult files h h') : Output h h' := by
  cases r with
  | wait hc hs => exact .silent rfl hc.writeBuffer hc.isError
  | fault hc f => exact .silent rfl hc.writeBuffer hc.isError
  | @fail c hc n m => exact (failWith_output
    (h.update fun _ => c) n m).of_eq rfl hc.writeBuffer hc.isError
  | @respond c hc hs =>
    rw [responseStage_eq files hs]
    have hi := (sameInput_buildResponse files (h.update fun _ => c)).isError
    have ha := buildResponse_answered files (h.update fun _ => c)
    refine Output.of_eq ?_ rfl hc.writeBuffer hc.isError (h := h.update fun _ => c)
    generalize buildResponse files (h.update fun _ => c) = r at hi ha ⊢
    cases ha with
    | page hf hb hl hw hx => exact .page rfl hl hw hi
    | echo hl hw hx => exact .echo rfl hl hw hi
    | refused hk ha hl hx => exact .refused hk ha hl rfl
    | broken hl hx => exact .broken hl rfl

/-- **The loop of `HandleRead` puts out at most one answer.** -/
theorem handleReadBody_output (h : Handler κ) : Output h (handleReadBody files h) := by
  have r := handleReadBody_result files h
  generalize handleReadBody files h = h' at r
  cases r with
  | idle hb hw hs he => exact .silent rfl hw he
  | fail => exact (failWith_output h.receive _ _).of_eq rfl rfl rfl
  | stages s => exact (StageResult.output files (lineStage_result files _)).of_eq rfl rfl rfl

/-- The answers a pass adds to the log. -/
def passAnswers (h : Handler κ) : List Answer :=
  (handleReadBody files h).answers.drop h.answers.length

/-- **A pass overwrites unsent output**: it answers by the echo page or an error page, with bytes of
an earlier response still in the write buffer. -/
def Overwrites (h : Handler κ) : Prop :=
  h.conn.writeBuffer ≠ [] ∧ ∃ a ∈ passAnswers files h, a.kind ≠ .page

/-- No pass of a call of `HandleRead` overwrites unsent output. -/
inductive NeverOverwrites : Handler κ → Prop
  | pass {h : Handler κ} (hn : ¬ Overwrites files h)
      (hr : (handleReadPass files h).2 = true → NeverOverwrites (handleReadPass files h).1) :
      NeverOverwrites h

/-! ## The order is kept -/

/-- **The log is in order, and the write buffer holds what is left to send.** -/
structure Sound (h : Handler κ) : Prop where
  inOrder : InOrder h.log
  rest : h.conn.isError = false → accepted h.log ++ h.conn.writeBuffer = produced h.log

omit [PageCache κ] in
/-- What does not touch the output keeps it sound. -/
theorem Sound.of_eq {h h' : Handler κ} (hs : Sound h) (hl : h'.log = h.log)
    (hw : h'.conn.writeBuffer = h.conn.writeBuffer) (he : h'.conn.isError = h.conn.isError) :
    Sound h' := by
  refine ⟨by rw [hl]; exact hs.inOrder, fun h => ?_⟩
  rw [hl, hw]
  exact hs.rest (he ▸ h)

omit [PageCache κ] in
theorem answers_concat {h h' : Handler κ} {es : List OutEvent} (hl : h'.log = h.log ++ es) :
    h'.answers.drop h.answers.length
      = es.filterMap fun | .produced a => some a | .accepted _ => none := by
  unfold Handler.answers
  rw [hl, List.filterMap_append]
  exact List.drop_left

theorem Sound.handleReadBody {h : Handler κ} (hs : Sound h) (he : h.conn.isError = false)
    (hn : ¬ Overwrites files h) : Sound (handleReadBody files h) := by
  have hrest := hs.rest he
  have hempty : ∀ a es, (Http.handleReadBody files h).log = h.log ++ .produced a :: es →
      a.kind ≠ .page → h.conn.writeBuffer = [] := by
    intro a es hl hk
    by_contra hw
    refine hn ⟨hw, a, ?_, hk⟩
    rw [passAnswers, answers_concat hl]
    exact List.mem_cons_self ..
  rcases handleReadBody_output files h with ⟨hl, hw, he'⟩ | ⟨hk, hl, hw, he'⟩ | ⟨hk, hl, hw, he'⟩ |
    ⟨hk, hx, hl, he'⟩ | ⟨hl, he'⟩
  · exact hs.of_eq hl hw he'
  · refine ⟨by rw [hl]; exact hs.inOrder.produced _, fun _ => ?_⟩
    rw [hl, hw, accepted_append, produced_append, ← hrest, accepted_produced, produced_produced,
      List.append_nil, List.append_assoc]
  · have hb := hempty _ [] hl (by rw [hk]; decide)
    rw [hb, List.append_nil] at hrest
    refine ⟨by rw [hl]; exact hs.inOrder.produced _, fun _ => ?_⟩
    rw [hl, hw, accepted_append, produced_append, ← hrest, accepted_produced, produced_produced,
      List.append_nil]
  · have hb := hempty _ _ hl (by rw [hk]; decide)
    rw [hb, List.append_nil] at hrest
    refine ⟨?_, fun h => absurd (h.symm.trans he') (by decide)⟩
    rw [hl, ← List.singleton_append, ← List.append_assoc]
    refine (hs.inOrder.produced _).accepted hx ?_
    rw [accepted_append, produced_append, accepted_produced, produced_produced, hrest,
      List.append_nil]
  · exact ⟨by rw [hl]; exact hs.inOrder, fun h => absurd (h.symm.trans he') (by decide)⟩

omit [PageCache κ] in
theorem askToWrite_log (h : Handler κ) : (askToWrite h).log = h.log := by
  unfold askToWrite
  split <;> rfl

omit [PageCache κ] in
/-- Sending what is next. -/
theorem Sound.send {h : Handler κ} (hs : Sound h) (he : h.conn.isError = false)
    (f : HttpConnection →
    HttpConnection) (hw : (f h.send.conn).writeBuffer = h.send.conn.writeBuffer)
    (hf : h.sendCount < 0 → (f h.send.conn).isError = true) : Sound (h.send.update f) := by
  have hrest := hs.rest he
  refine ⟨hs.inOrder.accepted (write_accepted_isPrefix _ _) hrest, fun hfe => ?_⟩
  have hc : 0 ≤ (Utility.write h.writes h.conn.writeBuffer).count := by
    by_contra hc
    rw [Handler.update_conn, hf (Int.not_le.mp hc)] at hfe
    exact Bool.noConfusion hfe
  rw [Handler.update_log, Handler.update_conn, hw, Handler.send_log, accepted_append,
    produced_append, accepted_accepted, produced_accepted, List.append_nil, ← hrest,
    List.append_assoc]
  exact congrArg _ (write_conserves hc)

omit [PageCache κ] in
theorem Sound.handleWrite {h : Handler κ} (hs : Sound h) : Sound (handleWrite h) := by
  unfold Http.handleWrite
  split
  · next hc =>
    have he : h.conn.isError = false := by simpa using hc.1
    split
    · have := hs.send he markError rfl fun _ => rfl
      exact this.of_eq (by rw [askToWrite_log]; rfl) (by rw [askToWrite_conn]; rfl)
        (by rw [askToWrite_conn]; rfl)
    · next hn =>
      have := hs.send he id rfl fun h => absurd h hn
      exact this.of_eq (askToWrite_log _) (by rw [askToWrite_conn]; rfl)
        (by rw [askToWrite_conn]; rfl)
  · exact hs

omit [PageCache κ] in
theorem Sound.handleReadTail {h : Handler κ} (hs : Sound h) : Sound (handleReadTail h).1 := by
  have hflush : Sound (flush h) := by
    unfold flush
    split
    · exact hs.handleWrite
    · exact hs
  unfold Http.handleReadTail
  split
  · exact hs
  · unfold conclude
    split
    · exact hflush.of_eq rfl rfl rfl
    · split
      · exact hflush.of_eq rfl rfl rfl
      · exact hflush

omit [PageCache κ] in
/-- A connection that is not deleted has not failed. -/
theorem handleUpdate_isError {h : Handler κ} (hd : (handleUpdate h).2 ≠ .delete) :
    (handleUpdate h).1.conn.isError = false := by
  unfold handleUpdate at hd ⊢
  dsimp only at hd ⊢
  split
  · next hc =>
    have : h.conn.isError = false := by simpa [resetTimer] using hc.1
    split <;> exact this
  · next hc =>
    rw [if_neg hc] at hd
    split
    · next hc => simpa [resetTimer] using hc.1
    · next hc' =>
      rw [if_neg hc'] at hd
      exact absurd rfl hd

omit [PageCache κ] in
theorem Sound.handleUpdate {h : Handler κ} (hs : Sound h) : Sound (handleUpdate h).1 := by
  obtain ⟨_, he⟩ := exists_handleUpdate h
  rw [he]
  exact hs.of_eq rfl rfl rfl

/-- A pass after which the handler calls itself has not failed. -/
theorem isError_handleReadPass {h : Handler κ} (ha : (handleReadPass files h).2 = true) :
    (handleReadPass files h).1.conn.isError = false := by
  unfold handleReadPass Http.handleReadTail conclude at ha ⊢
  split at ha
  · exact absurd ha Bool.false_ne_true
  · next hn =>
    rw [if_neg hn]
    split at ha
    · next hc =>
      have he : (flush (handleReadBody files h)).conn.isError = false := by simpa using hc.1
      rw [if_pos hc]
      exact he
    · split at ha <;> exact absurd ha Bool.false_ne_true

/-- **A call of `HandleRead` that never overwrites unsent output keeps the order.** -/
theorem Sound.handleRead {h : Handler κ} (hn : NeverOverwrites files h) (hs : Sound h)
    (he : h.conn.isError = false) : Sound (handleRead files h) := by
  induction hn with
  | @pass h hn hr ih =>
    have hpass : Sound (handleReadPass files h).1 := (hs.handleReadBody files he hn).handleReadTail
    rw [handleRead_eq]
    split
    · next ha => exact ih ha hpass (isError_handleReadPass files ha)
    · exact hpass

end Pass

/-! ## Runs -/

/-- A connection over its life, with its log. -/
structure Session where
  conn : HttpConnection
  log : List OutEvent := []
  closed : Bool := false

namespace Session

variable {κ : Type*}

/-- The handler an event finds. -/
def handler (s : Session) (x : Exchange κ) : Handler κ where
  conn := s.conn
  cache := x.cache
  reads := x.reads
  writes := x.writes
  log := s.log

variable [PageCache κ]

/-- **`Channel::HandleEvents`, on a session.**  It ends when the connection is deleted, or when a
handler breaks off. -/
def serve (s : Session) (x : Exchange κ) : Session :=
  let r := handleEvents x.files x.revents (s.handler x)
  ⟨r.1.conn, r.1.log, r.2 = some .delete ∨ r.1.fault.isSome⟩

/-- An event on a connection that is open. -/
def Step (s : Session) (x : Exchange κ) (s' : Session) : Prop := s.closed = false ∧ s' = s.serve x

/-- The condition: when an event is read for, no pass overwrites unsent output. -/
def Clean (s : Session) (x : Exchange κ) : Prop :=
  readable x.revents = true → NeverOverwrites x.files (s.handler x)

/-- What a run keeps. -/
structure Kept (s : Session) : Prop where
  inOrder : InOrder s.log
  isError : s.closed = false → s.conn.isError = false
  rest : s.closed = false → accepted s.log ++ s.conn.writeBuffer = produced s.log

/-- **One event keeps the order.** -/
theorem Kept.step {s s' : Session} {x : Exchange κ} (h : Kept s) (hs : guarded Clean Step s x s') :
    Kept s' := by
  obtain ⟨hok, hopen, rfl⟩ := hs
  have hs₀ : Sound ((s.handler x).setEvents .zero) := ⟨h.inOrder, fun _ => h.rest hopen⟩
  have hread : Sound (readEvent x.files x.revents ((s.handler x).setEvents .zero)) := by
    unfold readEvent
    split
    · next hr => exact hs₀.handleRead x.files (hok hr) (h.isError hopen)
    · exact hs₀
  have hwrite : Sound (writeEvent x.revents
      (readEvent x.files x.revents ((s.handler x).setEvents .zero))) := by
    unfold writeEvent
    split
    · exact hread.handleWrite
    · exact hread
  have hupdate := hwrite.handleUpdate
  unfold serve handleEvents
  dsimp only
  split
  · exact ⟨h.inOrder, fun _ => h.isError hopen, fun _ => h.rest hopen⟩
  · split
    · next hf =>
      refine ⟨hread.inOrder, fun hc => ?_, fun hc => ?_⟩
      · simp [hf] at hc
      · simp [hf] at hc
    · have he : ∀ {p : Prop} [Decidable p], decide (some (handleUpdate (writeEvent x.revents
            (readEvent x.files x.revents ((s.handler x).setEvents .zero)))).2 = some .delete ∨ p)
            = false → (handleUpdate (writeEvent x.revents
              (readEvent x.files x.revents ((s.handler x).setEvents .zero)))).1.conn.isError
            = false := by
        intro p _ hc
        rw [decide_eq_false_iff_not, not_or] at hc
        exact handleUpdate_isError fun h => hc.1 (congrArg some h)
      exact ⟨hupdate.inOrder, he, fun hc => hupdate.rest (he hc)⟩

/-- A new connection has sent and produced nothing. -/
theorem kept_start (dir : Bytes) : Kept ⟨{ resourceDir := dir }, [], false⟩ where
  inOrder t ht := by
    rw [List.prefix_nil.mp ht]
    exact List.prefix_refl _
  isError _ := rfl
  rest _ := rfl

theorem kept_of_run {dir : Bytes} {xs : List (Exchange κ)} {s : Session}
    (r : Run (guarded Clean Step) ⟨{ resourceDir := dir }, [], false⟩ xs s) : Kept s :=
  r.invariant (I := Kept) (fun _ _ _ h hs => h.step hs) (kept_start dir)

/-- **The output stream of every connection is in order**, in every run of events in which no echo
page and no error page is produced while an earlier response is not sent completely. -/
theorem inOrder_of_run {dir : Bytes} {xs : List (Exchange κ)} {s : Session}
    (r : Run (guarded Clean Step) ⟨{ resourceDir := dir }, [], false⟩ xs s) : InOrder s.log :=
  (kept_of_run r).inOrder

/-- One readable file, `a`. -/
def onePage (path : Bytes) : Option FileNode :=
  if path = text "/pages/a" then some ⟨.regular (text "x"), true⟩ else none

/-- Two pipelined requests, the second one for the echo page; the socket takes ten bytes of the
first answer, and later everything. -/
def twoRequests : Exchange Cache.LFUCache where
  revents := .EPOLLIN
  files := onePage
  cache := Cache.LFUCache.init 10
  reads := [
    .data (text "GET /a HTTP/1.1\r\nHost: h\r\n\r\n\nGET /echo HTTP/1.1\r\nHost: h\r\n\r\n"),
    .again]
  writes := [.accept 10, .again]

/-- **The rest of the page is lost**: the echo answer is assigned over it. -/
theorem not_inOrder_of_twoRequests : ∃ s : Session,
    Run Step ⟨{ resourceDir := text "/pages/" }, [], false⟩ [twoRequests] s ∧ ¬ InOrder s.log := by
  refine ⟨_, .single ⟨rfl, rfl⟩, fun h => ?_⟩
  exact absurd (h _ (List.prefix_refl _)) (by decide)

/-- One request whose answer is sent in two parts. -/
def oneRequest : Exchange Cache.LFUCache where
  revents := .EPOLLIN
  files := onePage
  cache := Cache.LFUCache.init 10
  reads := [.data (text "GET /a HTTP/1.1\r\nHost: h\r\n\r\n"), .again]
  writes := [.accept 10, .again]

/-- The socket has become writable. -/
def writable : Exchange Cache.LFUCache where
  revents := .EPOLLOUT
  files := onePage
  cache := Cache.LFUCache.init 10
  reads := []
  writes := []

theorem inOrder_of_oneRequest : ∃ s : Session,
    Run (guarded Clean Step) ⟨{ resourceDir := text "/pages/" }, [], false⟩ [oneRequest,
      writable] s ∧
      InOrder s.log ∧ accepted s.log = produced s.log := by
  have hclean : Clean ⟨{ resourceDir := text "/pages/" }, [], false⟩ oneRequest := fun _ =>
    .pass (fun h => h.1 rfl) fun h => absurd h (by decide)
  have r : Run (guarded Clean Step) ⟨{ resourceDir := text "/pages/" }, [], false⟩
      [oneRequest, writable] _ :=
    .cons ⟨hclean, rfl, rfl⟩ (.single ⟨fun h => absurd h (by decide), by decide, rfl⟩)
  exact ⟨_, r, inOrder_of_run r, by decide⟩

end Session

end WebServer.Event
