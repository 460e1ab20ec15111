import WebServer.Http.LostLine
import WebServer.Http.Pipeline

/-!
# Event/KeepAlive — what a finished request leaves behind

`Reset` restores the parser and forgets the fields, and a request line overwrites the method and the
version; but `is_keep_alive_` is only ever set.  So a connection at rest is a new one up to that
flag (`exists_resting`), and the next request is handled as on a new one exactly if no earlier
request asked for a keep-alive, or if the parser refuses its line (`sameAsFresh_iff`).
-/

namespace WebServer.Event

open Http Utility

/-! ## What a connection remembers -/

/-- A request that was answered asked to keep the connection. -/
def Asked (log : List OutEvent) : Prop :=
  ∃ a, .produced a ∈ log ∧ wantsKeepAlive a.requestHeaders = true

/-- **What a connection remembers of its requests**: nothing between two of them but the keep-alive
choice, the method and the version. -/
structure Remembers (dir : Bytes) (c : HttpConnection) (log : List OutEvent) : Prop where
  resourceDir : c.resourceDir = dir
  cleared : c.processState = .parseLine →
    c.parseState = .start ∧ c.fileName = [] ∧ c.requestHeaders = fun _ => none
  isKeepAlive : c.isKeepAlive = true ↔ Asked log

/-- A handler that has not failed remembers only that. -/
def Sane {κ : Type*} (dir : Bytes) (h : Handler κ) : Prop :=
  h.conn.isError = false → h.fault = none → Remembers dir h.conn h.log

section Memory

variable {κ : Type*} {dir : Bytes}

theorem asked_iff (h : Handler κ) :
    Asked h.log ↔ ∃ a ∈ h.answers, wantsKeepAlive a.requestHeaders = true := by
  refine exists_congr fun a => and_congr_left fun _ => ?_
  constructor
  · exact fun ha => List.mem_filterMap.mpr ⟨_, ha, rfl⟩
  · intro ha
    obtain ⟨e, he, hea⟩ := List.mem_filterMap.mp ha
    cases e with
    | produced b => exact Option.some.inj hea ▸ he
    | accepted b => exact absurd hea (by simp)

/-- Another output side, with the same answers. -/
theorem Remembers.output {h g : Handler κ} (r : Remembers dir h.conn h.log) {w : Bytes} {e : Bool}
    (hc : g.conn = { h.conn with writeBuffer := w, isError := e }) (ha : g.answers = h.answers) :
    Remembers dir g.conn g.log := by
  constructor
  · rw [hc]
    exact r.resourceDir
  · rw [hc]
    exact r.cleared
  · rw [hc, asked_iff, ha, ← asked_iff]
    exact r.isKeepAlive

/-! ### The stages -/

variable [PageCache κ] (files : FileSystem)

theorem isKeepAlive_serveHeader (h : Handler κ) (header : Bytes) (file : FileNode) :
    (serveHeader h header file).2.conn.isKeepAlive = h.conn.isKeepAlive := by
  unfold serveHeader serveBody serveFile
  split
  · rfl
  · split
    · rfl
    · rfl
    · split
      · rfl
      · split
        · rfl
        · split <;> rfl

/-- **A request sets the flag, and never clears it.** -/
theorem isKeepAlive_buildResponse {h : Handler κ} (hm : h.conn.method ≠ .post) :
    (buildResponse files h).2.conn.isKeepAlive
      = (h.conn.isKeepAlive || wantsKeepAlive h.conn.requestHeaders) := by
  have hnote : (noteKeepAlive h.conn).isKeepAlive
      = (h.conn.isKeepAlive || wantsKeepAlive h.conn.requestHeaders) := by
    unfold noteKeepAlive
    split
    · next hw => rw [hw, Bool.or_true]
    · next hw => rw [Bool.eq_false_of_not_eq_true hw, Bool.or_false]
  rw [buildResponse, if_neg hm]
  split
  · exact hnote
  · rw [buildPage]
    split
    · exact hnote
    · exact (isKeepAlive_serveHeader _ _ _).trans hnote

/-- A response that succeeds is no `POST`'s. -/
theorem method_of_success {h : Handler κ} (hs : (buildResponse files h).1 = .success) :
    h.conn.method ≠ .post := by
  intro hm
  rw [buildResponse, if_pos hm] at hs
  exact absurd hs (by simp [refusePage])

theorem responseStage_processState {h : Handler κ} (hp : h.conn.processState ≠ .parseLine) :
    (responseStage files h).conn.processState ≠ .parseLine := by
  by_cases hs : h.conn.processState = .response
  · rw [responseStage_eq files hs, Handler.update_conn]
    have hsame := (sameInput_buildResponse files h).processState
    split
    · exact ProcessState.noConfusion
    · exact fun e => hp (hsame.symm.trans e)
  · rwa [responseStage, if_neg hs]

theorem bodyStage_processState {h : Handler κ} (hp : h.conn.processState ≠ .parseLine) :
    (bodyStage files h).conn.processState ≠ .parseLine := by
  unfold bodyStage
  split
  · split
    · exact hp
    · split
      · exact hp
      · split
        · exact hp
        · exact responseStage_processState files ProcessState.noConfusion
  · exact responseStage_processState files hp

theorem headerStage_processState {h : Handler κ} (hp : h.conn.processState ≠ .parseLine) :
    (headerStage files h).conn.processState ≠ .parseLine := by
  have hkept {r : Option HeaderState} {c : HttpConnection}
      (hc : parseRequestHeader h.conn = (r, c)) : c.processState ≠ .parseLine := by
    have hps := parseRequestHeader_processState h.conn
    rw [hc] at hps
    exact fun e => hp (hps.symm.trans e)
  unfold headerStage
  split
  · split
    · next hc => exact fun e => hkept hc e
    · next hc => exact fun e => hkept hc e
    · next hc => exact fun e => hkept hc e
    · refine bodyStage_processState files ?_
      rw [Handler.update_conn, HttpConnection.enter, bodyState]
      split <;> exact ProcessState.noConfusion
  · exact bodyStage_processState files hp

/-- **A line that is not refused is left behind.** -/
theorem lineStage_processState {h : Handler κ} (he : (lineStage files h).conn.isError = false) :
    (lineStage files h).conn.processState ≠ .parseLine := by
  unfold lineStage at he ⊢
  split
  · next hs =>
    rw [if_pos hs] at he
    split
    · next hp => exact absurd (congrArg Prod.fst hp) (parseRequestLine_ne_again h.conn)
    · next hp =>
      rw [hp] at he
      exact absurd he Bool.noConfusion
    · exact headerStage_processState files ProcessState.noConfusion
  · next hs => exact headerStage_processState files hs

/-- **The stages remember what they answered.** -/
theorem StageResult.remembers {h g : Handler κ} (r : StageResult files h g)
    (he : g.conn.isError = false) (hf : g.fault = none) :
    h.conn.isError = false ∧ h.fault = none ∧ g.conn.resourceDir = h.conn.resourceDir ∧
      ((h.conn.isKeepAlive = true ↔ Asked h.log) → (g.conn.isKeepAlive = true ↔ Asked g.log)) := by
  cases r with
  | wait hc _ =>
    refine ⟨hc.isError.symm.trans he, hf, hc.resourceDir, fun hk => ?_⟩
    rw [Handler.update_conn, hc.isKeepAlive]
    exact hk
  | fault _ _ => exact absurd hf (by simp)
  | fail _ _ _ => exact absurd he Bool.noConfusion
  | @respond c hc hs =>
    have hsame := sameInput_buildResponse files (h.update fun _ => c)
    rw [responseStage_eq files hs] at he hf ⊢
    by_cases hb : (buildResponse files (h.update fun _ => c)).1 = .success
    · obtain ⟨a, ha, -, hm, hx⟩ := answers_of_success files hb
      have hk := isKeepAlive_buildResponse files (method_of_success files hb)
      rw [Handler.update_conn, if_pos hb] at he ⊢
      refine ⟨hc.isError.symm.trans (hsame.isError.symm.trans he), hx.symm.trans hf,
        hsame.resourceDir.trans hc.resourceDir, fun hold => ?_⟩
      change (buildResponse files (h.update fun _ => c)).2.conn.isKeepAlive = true
        ↔ Asked (buildResponse files (h.update fun _ => c)).2.log
      rw [asked_iff, ha, hk, Bool.or_eq_true, Handler.update_conn, hc.isKeepAlive, hold, asked_iff]
      simp only [List.mem_append, List.mem_singleton, or_and_right, exists_or, exists_eq_left, hm]
      exact Iff.rfl
    · rw [Handler.update_conn, if_neg hb] at he
      exact absurd he Bool.noConfusion

/-! ### One event -/

theorem Sane.lineStage {h : Handler κ} (hs : Sane dir h) : Sane dir (lineStage files h) := by
  intro he hf
  obtain ⟨he', hf', hdir, hk⟩ :=
    StageResult.remembers files (lineStage_result files h) he hf
  have r := hs he' hf'
  exact ⟨hdir.trans r.resourceDir, fun hp => absurd hp (lineStage_processState files he),
    hk r.isKeepAlive⟩

theorem Sane.handleReadBody {h : Handler κ} (hs : Sane dir h) :
    Sane dir (handleReadBody files h) := by
  have hrecv : ∀ s b, Sane dir (h.receive.update fun c =>
      { c with connectionState := s, readBuffer := b }) := by
    intro s b he hf
    have r := hs he hf
    exact ⟨r.resourceDir, r.cleared, r.isKeepAlive⟩
  unfold Http.handleReadBody
  dsimp only
  split
  · exact hrecv h.conn.connectionState []
  · split
    · exact fun he => absurd he Bool.noConfusion
    · split
      · split
        · exact hrecv .disconnecting h.receive.conn.readBuffer
        · exact Sane.lineStage files (hrecv .disconnecting h.receive.conn.readBuffer)
      · exact Sane.lineStage files (hrecv h.conn.connectionState h.receive.conn.readBuffer)

omit [PageCache κ] in
theorem Sane.handleWrite {h : Handler κ} (hs : Sane dir h) : Sane dir (handleWrite h) := by
  intro he hf
  have r := hs (handleWrite_isError he) ((handleWrite_fault h).symm.trans hf)
  obtain ⟨w, e, hc⟩ := handleWrite_conn h
  exact r.output hc (handleWrite_answers h)

omit [PageCache κ] in
/-- What follows the loop: a finished request is forgotten, up to its keep-alive choice. -/
theorem Sane.handleReadTail {h : Handler κ} (hs : Sane dir h) : Sane dir (handleReadTail h).1 := by
  have hflush : Sane dir (flush h) := by
    unfold flush
    split
    · exact hs.handleWrite
    · exact hs
  unfold Http.handleReadTail conclude
  split
  · exact hs
  · split
    · intro he hf
      have r := hflush he hf
      exact ⟨r.resourceDir, fun _ => ⟨rfl, rfl, rfl⟩, r.isKeepAlive⟩
    · split
      · intro he hf
        have r := hflush he hf
        exact ⟨r.resourceDir, r.cleared, r.isKeepAlive⟩
      · exact hflush

theorem Sane.handleRead {h : Handler κ} (hs : Sane dir h) : Sane dir (handleRead files h) :=
  handleRead_invariant files (fun _ hs => (hs.handleReadBody files).handleReadTail) hs

omit [PageCache κ] in
theorem Sane.handleUpdate {h : Handler κ} (hs : Sane dir h) : Sane dir (handleUpdate h).1 := by
  obtain ⟨_, hupdate⟩ := exists_handleUpdate h
  rw [hupdate]
  intro he hf
  have r := hs he hf
  exact ⟨r.resourceDir, r.cleared, r.isKeepAlive⟩

/-- **One event.** -/
theorem Sane.handleEvents {h : Handler κ} (hs : Sane dir h) (revents : EventMask) :
    Sane dir (handleEvents files revents h).1 := by
  have hstart : Sane dir (h.setEvents .zero) := by
    intro he hf
    have r := hs he hf
    exact ⟨r.resourceDir, r.cleared, r.isKeepAlive⟩
  have hread : Sane dir (readEvent files revents (h.setEvents .zero)) := by
    unfold readEvent
    split
    · exact hstart.handleRead files
    · exact hstart
  have hwrite : Sane dir (writeEvent revents (readEvent files revents (h.setEvents .zero))) := by
    unfold writeEvent
    split
    · exact hread.handleWrite
    · exact hread
  unfold Event.handleEvents
  dsimp only
  split
  · exact hstart
  · split
    · exact hread
    · exact hwrite.handleUpdate

/-- A connection that is neither deleted nor broken off has not failed. -/
theorem handleEvents_isError {h : Handler κ} {revents : EventMask} (he : h.conn.isError = false)
    (hd : (handleEvents files revents h).2 ≠ some .delete)
    (hf : (handleEvents files revents h).1.fault = none) :
    (handleEvents files revents h).1.conn.isError = false := by
  unfold Event.handleEvents at hd hf ⊢
  dsimp only at hd hf ⊢
  split
  · exact he
  · next hi =>
    rw [if_neg hi] at hd hf
    split
    · next hx =>
      rw [if_pos hx] at hf
      rw [hf] at hx
      exact absurd hx (by simp)
    · next hx =>
      rw [if_neg hx] at hd
      exact handleUpdate_isError fun e => hd (congrArg some e)

end Memory

namespace Session

/-- **A connection at rest**: everything that was read is answered, and every answer is sent. -/
structure AtRest (s : Session) : Prop where
  closed : s.closed = false
  connectionState : s.conn.connectionState = .connected
  processState : s.conn.processState = .parseLine
  readBuffer : s.conn.readBuffer = []
  writeBuffer : s.conn.writeBuffer = []

instance (s : Session) : Decidable s.AtRest :=
  decidable_of_iff (s.closed = false ∧ s.conn.connectionState = .connected ∧
      s.conn.processState = .parseLine ∧ s.conn.readBuffer = [] ∧ s.conn.writeBuffer = [])
    ⟨fun ⟨hc, hcs, hps, hr, hw⟩ => ⟨hc, hcs, hps, hr, hw⟩,
      fun h => ⟨h.closed, h.connectionState, h.processState, h.readBuffer, h.writeBuffer⟩⟩

section History

variable {κ : Type*} [PageCache κ] {dir : Bytes}

/-- What leaves a connection open. -/
theorem open_serve {s : Session} {x : Exchange κ} (hc : (s.serve x).closed = false) :
    (handleEvents x.files x.revents (s.handler x)).2 ≠ some .delete ∧
      (handleEvents x.files x.revents (s.handler x)).1.fault = none := by
  obtain ⟨hd, hf⟩ : ¬ (handleEvents x.files x.revents (s.handler x)).2 = some .delete ∧
      ¬ (handleEvents x.files x.revents (s.handler x)).1.fault.isSome = true := by
    simpa [serve] using hc
  exact ⟨hd, Option.not_isSome_iff_eq_none.mp hf⟩

/-- An event that leaves a connection open has not failed. -/
theorem isError_serve {s : Session} (he : s.conn.isError = false) {x : Exchange κ}
    (hc : (s.serve x).closed = false) : (s.serve x).conn.isError = false :=
  handleEvents_isError x.files (h := s.handler x) he (open_serve hc).1 (open_serve hc).2

theorem remembers_of_run {xs : List (Exchange κ)} {s : Session}
    (run : Run Step ⟨{ resourceDir := dir }, [], false⟩ xs s) (hc : s.closed = false) :
    s.conn.isError = false ∧ Remembers dir s.conn s.log := by
  refine run.invariant (I := fun s => s.closed = false →
    s.conn.isError = false ∧ Remembers dir s.conn s.log) ?_ ?_ hc
  · rintro s x _ hs ⟨hopen, rfl⟩ hclosed
    obtain ⟨he, r⟩ := hs hopen
    have hsane : Sane dir (s.handler x) := fun _ _ => r
    exact ⟨isError_serve he hclosed,
      hsane.handleEvents x.files x.revents (isError_serve he hclosed) (open_serve hclosed).2⟩
  · exact fun _ => ⟨rfl, rfl, fun _ => ⟨rfl, rfl, rfl⟩, by simp [Asked]⟩

/-- **A connection at rest is a new one**, up to what a request line overwrites and to the
keep-alive choice. -/
theorem exists_resting {xs : List (Exchange κ)} {s : Session}
    (run : Run Step ⟨{ resourceDir := dir }, [], false⟩ xs s) (rest : s.AtRest) : ∃ m v k,
      s.conn = { resourceDir := dir, method := m, version := v, isKeepAlive := k } ∧
        (k = true ↔ Asked s.log) := by
  obtain ⟨he, r⟩ := remembers_of_run run rest.closed
  obtain ⟨hparse, hname, hfields⟩ := r.cleared rest.processState
  refine ⟨s.conn.method, s.conn.version, s.conn.isKeepAlive, ?_, r.isKeepAlive⟩
  have hdir := r.resourceDir
  obtain ⟨-, hconn, hproc, hread, hwrite⟩ := rest
  revert he hparse hname hfields hdir hconn hproc hread hwrite
  rcases s with ⟨⟨_, _, _, _, _, _, _, _, _, _, _, _⟩, _, _⟩
  rintro rfl rfl rfl rfl rfl rfl rfl rfl rfl
  rfl

end History

end Session

/-! ## What a request line overwrites -/

/-- Another method and another version. -/
def stamp (m : RequestMethod) (v : HttpVersion) (c : HttpConnection) : HttpConnection :=
  { c with method := m, version := v }

section Stamp

variable (m : RequestMethod) (v : HttpVersion) (c : HttpConnection)

@[simp] theorem stamp_readBuffer : (stamp m v c).readBuffer = c.readBuffer := rfl
@[simp] theorem stamp_writeBuffer : (stamp m v c).writeBuffer = c.writeBuffer := rfl
@[simp] theorem stamp_processState : (stamp m v c).processState = c.processState := rfl
@[simp] theorem stamp_connectionState : (stamp m v c).connectionState = c.connectionState := rfl
@[simp] theorem stamp_isError : (stamp m v c).isError = c.isError := rfl
@[simp] theorem stamp_isKeepAlive : (stamp m v c).isKeepAlive = c.isKeepAlive := rfl

end Stamp

/-- **A line that is taken overwrites both**, and a line that is refused is refused of any. -/
theorem readRequestLine_stamp (line : Bytes) (m : RequestMethod) (v : HttpVersion)
    (c : HttpConnection) : readRequestLine line (stamp m v c) = readRequestLine line c ∨
      (readRequestLine line (stamp m v c)).1 = .error ∧ (readRequestLine line c).1 = .error := by
  unfold readRequestLine
  split
  · exact .inr ⟨rfl, rfl⟩
  · dsimp only
    split
    · exact .inr ⟨rfl, rfl⟩
    · exact .inl rfl

/-- **Two handlers that show the same**: they are equal, or equal up to what the next request line
overwrites, or both have failed. -/
inductive Alike {κ : Type*} : Handler κ → Handler κ → Prop
  | same (h : Handler κ) : Alike h h
  | stale {h : Handler κ} (hp : h.conn.processState = .parseLine) (m : RequestMethod)
      (v : HttpVersion) : Alike (h.update (stamp m v)) h
  | failed {g h : Handler κ} (hg : g.conn.isError = true) (hh : h.conn.isError = true)
      (fg : g.fault = none) (fh : h.fault = none) (hp : produced g.log = produced h.log)
      (ha : accepted g.log = accepted h.log) : Alike g h

section Alike

variable {κ : Type*} {h : Handler κ} (m : RequestMethod) (v : HttpVersion)

theorem failWith_log (h : Handler κ) (n : ℕ) (t : Bytes) :
    produced (failWith h n t).log = produced h.log ++ errorResponse n t ∧
      accepted (failWith h n t).log
        = accepted h.log ++ (Utility.write h.writes (errorResponse n t)).accepted := by
  have hl : (failWith h n t).log = h.log ++ [.produced ⟨.error, h.conn.method, h.conn.fileName,
      h.conn.requestHeaders, errorResponse n t⟩,
      .accepted (Utility.write h.writes (errorResponse n t)).accepted] := List.append_assoc ..
  rw [hl]
  simp [produced, accepted]

/-- Failing with the same answer. -/
theorem Alike.failWith {g h : Handler κ} (fg : g.fault = none) (fh : h.fault = none)
    (hl : g.log = h.log) (hw : g.writes = h.writes) (n : ℕ) (t : Bytes) :
    Alike (failWith g n t) (failWith h n t) := by
  refine .failed rfl rfl fg fh ?_ ?_
  · rw [(failWith_log g n t).1, (failWith_log h n t).1, hl]
  · rw [(failWith_log g n t).2, (failWith_log h n t).2, hl, hw]

theorem stamp_askToWrite (h : Handler κ) :
    askToWrite (h.update (stamp m v)) = (askToWrite h).update (stamp m v) := by
  unfold askToWrite
  rw [Handler.update_conn, stamp_writeBuffer]
  by_cases hw : h.conn.writeBuffer.length > 0
  · rw [if_pos hw, if_pos hw]
    rfl
  · rw [if_neg hw, if_neg hw]

theorem stamp_handleWrite (h : Handler κ) :
    handleWrite (h.update (stamp m v)) = (handleWrite h).update (stamp m v) := by
  have hsend : (h.update (stamp m v)).send = h.send.update (stamp m v) := rfl
  have hcount : (h.update (stamp m v)).sendCount = h.sendCount := rfl
  unfold handleWrite
  rw [hsend, hcount, Handler.update_conn, stamp_isError, stamp_connectionState]
  by_cases hc : !h.conn.isError ∧ h.conn.connectionState ≠ .disconnected
  · rw [if_pos hc, if_pos hc]
    by_cases hn : h.sendCount < 0
    · rw [if_pos hn, if_pos hn]
      exact stamp_askToWrite m v ((h.send.setEvents .zero).update markError)
    · rw [if_neg hn, if_neg hn]
      exact stamp_askToWrite m v h.send
  · rw [if_neg hc, if_neg hc]

theorem stamp_flush (h : Handler κ) :
    flush (h.update (stamp m v)) = (flush h).update (stamp m v) := by
  unfold flush
  rw [Handler.update_conn, stamp_writeBuffer]
  by_cases hw : h.conn.writeBuffer.length > 0
  · rw [if_pos hw, if_pos hw]
    exact stamp_handleWrite m v h
  · rw [if_neg hw, if_neg hw]

/-- A request that has not begun is not concluded. -/
theorem stamp_handleReadTail {h : Handler κ} (hp : h.conn.processState = .parseLine) :
    (handleReadTail (h.update (stamp m v))) = ((handleReadTail h).1.update (stamp m v), false) ∧
      (handleReadTail h).2 = false ∧ (handleReadTail h).1.conn.processState = .parseLine := by
  obtain ⟨w, e, hc⟩ := flush_conn h
  have hp' : (flush h).conn.processState = .parseLine := by
    rw [hc]
    exact hp
  have hne : ¬ (!(flush h).conn.isError ∧ (flush h).conn.processState = .finish) := by
    rw [hp']
    simp
  unfold Http.handleReadTail conclude
  rw [stamp_flush, Handler.update_fault, Handler.update_conn, Handler.update_conn, stamp_isError,
    stamp_isError, stamp_processState, stamp_connectionState, if_neg hne, if_neg hne]
  by_cases hf : h.fault.isSome ∨ h.conn.isError
  · rw [if_pos hf, if_pos hf]
    exact ⟨rfl, rfl, hp⟩
  · rw [if_neg hf, if_neg hf]
    by_cases hd : !(flush h).conn.isError ∧ (flush h).conn.connectionState ≠ .disconnected
    · rw [if_pos hd, if_pos hd]
      exact ⟨rfl, rfl, hp'⟩
    · rw [if_neg hd, if_neg hd]
      exact ⟨rfl, rfl, hp'⟩

/-- A connection that has failed is deleted, and nothing more is written on it. -/
theorem handleUpdate_of_isError {h : Handler κ} (he : h.conn.isError = true) :
    handleUpdate h = (resetTimer h, .delete) := by
  have hne : ∀ p, ¬ (!(resetTimer h).conn.isError ∧ p) := fun p hc => by
    have : h.conn.isError = false := by simpa [resetTimer] using hc.1
    exact absurd (he.symm.trans this) (by decide)
  rw [handleUpdate, if_neg (hne _), if_neg (hne _)]

/-- A connection that asks for events gets the timeout of its keep-alive choice. -/
theorem handleUpdate_asking {h : Handler κ} (he : h.conn.isError = false)
    (hc : h.conn.connectionState = .connected) (hv : h.events ≠ .zero) :
    (handleUpdate h).2 = .mod (servedTimeout h.conn.isKeepAlive) := by
  have hgo : !(resetTimer h).conn.isError ∧ (resetTimer h).conn.connectionState = .connected :=
    ⟨by simpa [resetTimer] using he, hc⟩
  rw [handleUpdate, if_pos hgo, if_pos (show (resetTimer h).events ≠ .zero from hv)]
  rfl

theorem handleWrite_of_isError {h : Handler κ} (he : h.conn.isError = true) :
    handleWrite h = h := by
  rw [handleWrite, if_neg (by simp [he])]

theorem Alike.fault {g h : Handler κ} (a : Alike g h) : g.fault = h.fault := by
  cases a with
  | same => rfl
  | stale _ _ _ => rfl
  | failed _ _ fg fh _ _ => exact fg.trans fh.symm

/-- **What follows the loop**, on handlers that show the same: only equal ones go on. -/
theorem Alike.handleReadTail {g h : Handler κ} (a : Alike g h) :
    g = h ∨ (handleReadTail g).2 = false ∧ (handleReadTail h).2 = false ∧
      Alike (handleReadTail g).1 (handleReadTail h).1 := by
  cases a with
  | same => exact .inl rfl
  | stale hp m v =>
    obtain ⟨hg, hh, hp'⟩ := stamp_handleReadTail m v hp
    rw [hg]
    exact .inr ⟨rfl, hh, .stale hp' m v⟩
  | failed hg hh fg fh hp ha =>
    refine .inr ?_
    unfold Http.handleReadTail
    rw [if_pos (.inr hg), if_pos (.inr hh)]
    exact ⟨rfl, rfl, .failed hg hh fg fh hp ha⟩

variable [PageCache κ] (files : FileSystem)

theorem Alike.lineStage (hp : h.conn.processState = .parseLine) (hf : h.fault = none) :
    Alike (lineStage files (h.update (stamp m v))) (lineStage files h) := by
  have hline := readRequestLine_stamp (requestLineOf h.conn.readBuffer) m v
    { h.conn with readBuffer := afterRequestLine h.conn.readBuffer }
  change parseRequestLine (stamp m v h.conn) = parseRequestLine h.conn ∨
    (parseRequestLine (stamp m v h.conn)).1 = .error ∧ (parseRequestLine h.conn).1 = .error at hline
  unfold Http.lineStage
  rw [Handler.update_conn, stamp_processState, if_pos hp, if_pos hp]
  obtain heq | ⟨hg, hh⟩ := hline
  · rw [heq]
    have hsame : ∀ f : HttpConnection, (h.update (stamp m v)).update (fun _ => f)
        = h.update fun _ => f := fun _ => rfl
    split
    · rw [hsame]
      exact .same _
    · rw [hsame]
      exact .same _
    · rw [hsame]
      exact .same _
  · generalize parseRequestLine (stamp m v h.conn) = x at hg ⊢
    generalize parseRequestLine h.conn = y at hh ⊢
    obtain ⟨_, c⟩ := x
    obtain ⟨_, d⟩ := y
    subst hg hh
    dsimp only
    exact .failWith (by exact hf) (by exact hf) (by rfl) (by rfl) 400 (text "Bad Request")

/-- **The loop**, on a connection between two requests. -/
theorem Alike.handleReadBody (hp : h.conn.processState = .parseLine) (hf : h.fault = none) :
    Alike (handleReadBody files (h.update (stamp m v))) (handleReadBody files h) := by
  unfold Http.handleReadBody
  change Alike (if h.conn.connectionState = .disconnecting then
      (h.receive.update fun c => { c with readBuffer := [] }).update (stamp m v)
    else if (Utility.read h.reads h.conn.readBuffer).count < 0 then
      Http.failWith (h.receive.update (stamp m v)) 400 (text "Bad Request")
    else if (Utility.read h.reads h.conn.readBuffer).isReadZeroBytes then
      if (Utility.read h.reads h.conn.readBuffer).count = 0 then
        (h.receive.update fun c => { c with connectionState := .disconnecting }).update (stamp m v)
      else Http.lineStage files ((h.receive.update fun c =>
        { c with connectionState := .disconnecting }).update (stamp m v))
    else Http.lineStage files (h.receive.update (stamp m v))) _
  dsimp only
  split
  · exact .stale (by exact hp) m v
  · split
    · exact .failWith (by exact hf) (by exact hf) (by rfl) (by rfl) 400 (text "Bad Request")
    · split
      · split
        · exact .stale (by exact hp) m v
        · exact Alike.lineStage m v files (by exact hp) (by exact hf)
      · exact Alike.lineStage m v files (by exact hp) (by exact hf)

/-- **`HandleRead`**, on a connection between two requests. -/
theorem Alike.handleRead (hp : h.conn.processState = .parseLine) (hf : h.fault = none) :
    Alike (handleRead files (h.update (stamp m v))) (handleRead files h) := by
  obtain heq | ⟨hg, hh, a⟩ := (Alike.handleReadBody m v files hp hf).handleReadTail
  · rw [handleRead_congr files heq]
    exact .same _
  · rw [handleRead_of_stop files hg, handleRead_of_stop files hh]
    exact a

omit [PageCache κ] in
theorem Alike.writeEvent {g h : Handler κ} (a : Alike g h) (revents : EventMask) :
    Alike (writeEvent revents g) (writeEvent revents h) := by
  unfold Event.writeEvent
  by_cases ho : revents.epollOut = true
  · rw [if_pos ho, if_pos ho]
    cases a with
    | same => exact .same _
    | stale hp m v =>
      obtain ⟨w, e, hc⟩ := handleWrite_conn h
      rw [stamp_handleWrite]
      exact .stale (by rw [hc]; exact hp) m v
    | failed hg hh fg fh hp ha =>
      rw [handleWrite_of_isError hg, handleWrite_of_isError hh]
      exact .failed hg hh fg fh hp ha
  · rw [if_neg ho, if_neg ho]
    exact a

omit [PageCache κ] in
theorem stamp_handleUpdate (h : Handler κ) : handleUpdate (h.update (stamp m v))
    = ((handleUpdate h).1.update (stamp m v), (handleUpdate h).2) := by
  have htimer : resetTimer (h.update (stamp m v)) = (resetTimer h).update (stamp m v) := rfl
  unfold handleUpdate
  rw [htimer]
  simp only [Handler.update_conn, Handler.update_events, stamp_isError, stamp_connectionState,
    stamp_isKeepAlive]
  by_cases hc : !(resetTimer h).conn.isError ∧ (resetTimer h).conn.connectionState = .connected
  · rw [if_pos hc, if_pos hc]
    by_cases he : (resetTimer h).events ≠ .zero
    · rw [if_pos he, if_pos he]
      rfl
    · rw [if_neg he, if_neg he]
      rfl
  · rw [if_neg hc, if_neg hc]
    by_cases hd : !(resetTimer h).conn.isError ∧ (resetTimer h).conn.connectionState
        = .disconnecting ∧ (resetTimer h).events.epollOut
    · rw [if_pos hd, if_pos hd]
      rfl
    · rw [if_neg hd, if_neg hd]

omit [PageCache κ] in
theorem handleUpdate_conn (h : Handler κ) : (handleUpdate h).1.conn = h.conn := by
  obtain ⟨_, he⟩ := exists_handleUpdate h
  rw [he]
  rfl

omit [PageCache κ] in
/-- **`HandleUpdate` asks the event loop for the same**, with the same timeout. -/
theorem Alike.handleUpdate {g h : Handler κ} (a : Alike g h) :
    (handleUpdate g).2 = (handleUpdate h).2 ∧ Alike (handleUpdate g).1 (handleUpdate h).1 := by
  cases a with
  | same => exact ⟨rfl, .same _⟩
  | stale hp m v =>
    rw [stamp_handleUpdate]
    exact ⟨rfl, .stale (by rw [handleUpdate_conn]; exact hp) m v⟩
  | failed hg hh fg fh hp ha =>
    rw [handleUpdate_of_isError hg, handleUpdate_of_isError hh]
    exact ⟨rfl, .failed hg hh fg fh hp ha⟩

/-- An event that is read for. -/
theorem handleEvents_read {revents : EventMask} (hi : ignored revents = false)
    (hr : readable revents = true) (hf : (Http.handleRead files (h.setEvents .zero)).fault = none) :
    handleEvents files revents h = Prod.map id some (Event.handleUpdate
      (Event.writeEvent revents (Http.handleRead files (h.setEvents .zero)))) := by
  have hread : readEvent files revents (h.setEvents .zero)
      = Http.handleRead files (h.setEvents .zero) := if_pos hr
  rw [Event.handleEvents, hread, if_neg (by simp [hi]), if_neg (by simp [hf])]
  rfl

/-- **One event**, on a connection between two requests. -/
theorem Alike.handleEvents (hp : h.conn.processState = .parseLine) (hf : h.fault = none)
    (revents : EventMask) :
    (handleEvents files revents (h.update (stamp m v))).2 = (handleEvents files revents h).2 ∧
      Alike (handleEvents files revents (h.update (stamp m v))).1
        (handleEvents files revents h).1 := by
  have hzero : (h.update (stamp m v)).setEvents .zero = (h.setEvents .zero).update (stamp m v) :=
    rfl
  have hread : Alike (readEvent files revents ((h.setEvents .zero).update (stamp m v)))
      (readEvent files revents (h.setEvents .zero)) := by
    unfold readEvent
    by_cases hr : readable revents = true
    · rw [if_pos hr, if_pos hr]
      exact Alike.handleRead m v files (by exact hp) (by exact hf)
    · rw [if_neg hr, if_neg hr]
      exact .stale (by exact hp) m v
  have hfault : (readEvent files revents ((h.setEvents .zero).update (stamp m v))).fault
      = (readEvent files revents (h.setEvents .zero)).fault := hread.fault
  unfold Event.handleEvents
  rw [hzero]
  dsimp only
  split
  · exact ⟨rfl, .stale (by exact hp) m v⟩
  · rw [hfault]
    split
    · exact ⟨rfl, hread⟩
    · obtain ⟨haction, hupdate⟩ := (hread.writeEvent revents).handleUpdate
      exact ⟨congrArg some haction, hupdate⟩

end Alike

/-! ## Two connections -/

namespace Session

section Serve

variable {κ : Type*} [PageCache κ]

/-- The timeout an event hands to `PollerMod`, if it does. -/
def timeout (s : Session) (x : Exchange κ) : Option ℕ :=
  match (handleEvents x.files x.revents (s.handler x)).2 with
  | some (.mod t) => some t
  | _ => none

/-- Events on a connection, as long as it is open. -/
def serveAll : Session → List (Exchange κ) → Session
  | s, [] => s
  | s, x :: xs => if s.closed then s else (s.serve x).serveAll xs

/-- The timeouts of these events. -/
def timeouts : Session → List (Exchange κ) → List (Option ℕ)
  | _, [] => []
  | s, x :: xs => if s.closed then [] else s.timeout x :: (s.serve x).timeouts xs

/-- **Two connections that show the same.** -/
inductive Twins : Session → Session → Prop
  | same (s : Session) : Twins s s
  | stale {s : Session} (hp : s.conn.processState = .parseLine)
      (he : s.closed = false → s.conn.isError = false) (m : RequestMethod) (v : HttpVersion) :
      Twins ⟨stamp m v s.conn, s.log, s.closed⟩ s
  | closed {s t : Session} (hs : s.closed = true) (ht : t.closed = true)
      (hp : produced s.log = produced t.log) (ha : accepted s.log = accepted t.log) : Twins s t

theorem Twins.closed_eq {s t : Session} (w : Twins s t) : s.closed = t.closed := by
  cases w with
  | same => rfl
  | stale _ _ _ _ => rfl
  | closed hs ht _ _ => exact hs.trans ht.symm

/-- **One event**: the same is shown, and the same timeout is asked for. -/
theorem Twins.serve {s t : Session} (w : Twins s t) (ht : t.closed = false) (x : Exchange κ) :
    s.timeout x = t.timeout x ∧ Twins (s.serve x) (t.serve x) := by
  cases w with
  | same => exact ⟨rfl, .same _⟩
  | stale hp he m v =>
    have herror := isError_serve (x := x) (he ht)
    obtain ⟨haction, a⟩ := Alike.handleEvents m v x.files (h := t.handler x) hp rfl x.revents
    have hhandler : (⟨stamp m v t.conn, t.log, t.closed⟩ : Session).handler x
        = (t.handler x).update (stamp m v) := rfl
    refine ⟨by rw [timeout, timeout, hhandler, haction], ?_⟩
    rw [Session.serve, hhandler, haction, a.fault]
    rw [Session.serve] at herror ⊢
    generalize (handleEvents x.files x.revents ((t.handler x).update (stamp m v))).1 = g at a
    generalize handleEvents x.files x.revents (t.handler x) = r at a herror
    obtain ⟨h, action⟩ := r
    cases a with
    | same => exact .same _
    | stale hp m v => exact .stale hp herror m v
    | failed hg hh fg fh hp ha =>
      have hclosed : decide (action = some .delete ∨ h.fault.isSome = true) = true := by
        by_contra hc
        exact absurd (hh.symm.trans (herror (Bool.eq_false_of_not_eq_true hc))) (by decide)
      exact .closed hclosed hclosed hp ha
  | closed _ ht' _ _ => exact absurd (ht'.symm.trans ht) (by decide)

theorem Twins.serveAll : ∀ (xs : List (Exchange κ)) {s t : Session}, Twins s t →
    s.timeouts xs = t.timeouts xs ∧ Twins (s.serveAll xs) (t.serveAll xs)
  | [], _, _, w => ⟨rfl, w⟩
  | x :: xs, s, t, w => by
      rw [timeouts, timeouts, Session.serveAll, Session.serveAll, w.closed_eq]
      by_cases ht : t.closed = true
      · rw [if_pos ht, if_pos ht, if_pos ht, if_pos ht]
        exact ⟨rfl, w⟩
      · obtain ⟨htime, w'⟩ := w.serve (Bool.eq_false_of_not_eq_true ht) x
        obtain ⟨htimes, w''⟩ := Twins.serveAll xs w'
        rw [if_neg ht, if_neg ht, if_neg ht, if_neg ht, htime, htimes]
        exact ⟨rfl, w''⟩

theorem Twins.shown {s t : Session} (w : Twins s t) :
    produced s.log = produced t.log ∧ accepted s.log = accepted t.log := by
  cases w with
  | same => exact ⟨rfl, rfl⟩
  | stale _ _ _ _ => exact ⟨rfl, rfl⟩
  | closed _ _ hp ha => exact ⟨hp, ha⟩

end Serve

/-! ## The next request -/

/-- **How bytes arrive**: in reads of any length.  When all of them are there, the socket becomes
writable as often as it does. -/
inductive Arrives {κ : Type*} : Bytes → List (Exchange κ) → Prop
  | sent {xs : List (Exchange κ)} (h : ∀ x ∈ xs, x.revents = .EPOLLOUT) : Arrives [] xs
  | read {x : Exchange κ} {segment rest : Bytes} {xs : List (Exchange κ)}
      (hi : ignored x.revents = false) (hr : readable x.revents = true) (hs : segment ≠ [])
      (hx : x.reads = deliver segment) (h : Arrives rest xs) : Arrives (segment ++ rest) (x :: xs)

/-- Two connections that handle these bytes alike: the same bytes are produced and sent, and
`PollerMod` gets the same timeouts. -/
def Indistinguishable (s t : Session) (bytes : Bytes) : Prop :=
  ∀ xs : List (Exchange Cache.LFUCache), Arrives bytes xs →
    produced (s.serveAll xs).log = produced (t.serveAll xs).log ∧
      accepted (s.serveAll xs).log = accepted (t.serveAll xs).log ∧ s.timeouts xs = t.timeouts xs

/-- **The next bytes are handled as on a freshly registered connection.** -/
def SameAsFresh (s : Session) (bytes : Bytes) : Prop :=
  Indistinguishable { conn := s.conn } { conn := { resourceDir := s.conn.resourceDir } } bytes

section Next

variable {κ : Type*} [PageCache κ]

/-- Before anything of a request has been read. -/
structure Waiting (c : HttpConnection) : Prop where
  isError : c.isError = false
  connectionState : c.connectionState = .connected
  processState : c.processState = .parseLine
  parseState : c.parseState = .start
  requestHeaders : c.requestHeaders = fun _ => none
  readBuffer : c.readBuffer = []
  writeBuffer : c.writeBuffer = []

/-- The handler of such a connection, when a read event begins. -/
theorem handleReadBody_waiting {c : HttpConnection} (w : Waiting c) {x : Exchange κ}
    {segment : Bytes}
    (hx : x.reads = deliver segment) (files : FileSystem) :
    handleReadBody files ((({ conn := c } : Session).handler x).setEvents .zero)
      = lineStage files (((({ conn := c } : Session).handler x).setEvents
        .zero).received segment) :=
  handleReadBody_deliver files hx w.connectionState

/-- **A first read whose line is refused**: the connection is deleted, whatever it was used for. -/
theorem serve_refused {c : HttpConnection} (w : Waiting c) {x : Exchange κ} {segment : Bytes}
    (hi : ignored x.revents = false) (hr : readable x.revents = true)
    (hx : x.reads = deliver segment)
    (hl : ∀ c, (readRequestLine (requestLineOf segment) c).1 = .error) :
    let t := ({ conn := c } : Session).serve x
    t.closed = true ∧ ({ conn := c } : Session).timeout x = none ∧
      produced t.log = errorResponse 400 (text "Bad Request") ∧
      accepted t.log = (Utility.write x.writes
        (errorResponse 400 (text "Bad Request"))).accepted := by
  obtain ⟨h, hh⟩ : ∃ h, h = (({ conn := c } : Session).handler x).setEvents .zero := ⟨_, rfl⟩
  have hbody : handleReadBody x.files h = lineStage x.files (h.received segment) := by
    rw [hh]
    exact handleReadBody_waiting w hx x.files
  have hbuffer : (h.received segment).conn.readBuffer = segment := by
    rw [hh]
    exact congrArg (· ++ segment) w.readBuffer
  obtain ⟨d, hstage, -⟩ := lineStage_error x.files (h := h.received segment)
    (by rw [hh]; exact w.processState) (by rw [hbuffer]; exact hl)
  have hstop : (handleReadTail (handleReadBody x.files h)).2 = false := by
    rw [hbody, hstage, handleReadTail_failWith]
  have hread := handleRead_of_stop x.files hstop
  rw [hbody, hstage, handleReadTail_failWith, hh] at hread
  obtain ⟨hp, ha⟩ := failWith_log ((((({ conn := c } : Session).handler x).setEvents .zero).received
    segment).update fun _ => { d with readBuffer := [] }) 400 (text "Bad Request")
  have hevents := handleEvents_read x.files hi hr (congrArg Handler.fault hread)
  rw [hread, writeEvent, handleWrite_of_isError (by rfl), ite_self,
    handleUpdate_of_isError (by rfl)] at hevents
  refine ⟨?_, ?_, ?_, ?_⟩
  · rw [serve, hevents]
    rfl
  · rw [timeout, hevents]
    rfl
  · rw [serve, hevents]
    exact hp
  · rw [serve, hevents]
    exact ha

/-- **A first read that ends behind the CR of a line that is taken** waits for the rest, with the
timeout of the connection's keep-alive choice. -/
theorem timeout_lineEnd {r : Request} (hr : ¬ r.Refused) {c : HttpConnection} (w : Waiting c)
    {x : Exchange κ} (hi : x.revents = .EPOLLIN) (hx : x.reads = deliver (r.line ++ [Chr.cr])) :
    ({ conn := c } : Session).timeout x = some (servedTimeout c.isKeepAlive) := by
  obtain ⟨fileName, hline⟩ := lineStage_line (κ := κ) x.files hr
  obtain ⟨g, hg⟩ : ∃ g, g = (({ conn := c } : Session).handler x).setEvents .zero := ⟨_, rfl⟩
  obtain ⟨h, hh⟩ : ∃ h, h = (g.received (r.line ++ [Chr.cr])).update (r.lineRead fileName []) :=
    ⟨_, rfl⟩
  have hbuffer : (g.received (r.line ++ [Chr.cr])).conn.readBuffer = r.line ++ Chr.cr :: [] := by
    rw [hg]
    exact congrArg (· ++ (r.line ++ [Chr.cr])) w.readBuffer
  have a : AtHeader x.files g h := by
    refine ⟨?_, ?_, ?_⟩
    · have hp : (g.received (r.line ++ [Chr.cr])).conn.processState = .parseLine := by
        rw [hg]
        exact w.processState
      have hstage := hline (g.received (r.line ++ [Chr.cr])) [] hp
        (by rw [hbuffer]; exact requestLineOf_append r.cr_notMem_line [])
        (by rw [hbuffer]; exact afterRequestLine_append r.cr_notMem_line [])
      rw [hh, ← hstage, hg]
      exact handleReadBody_waiting w hx x.files
    · rw [hh, hg]
      exact ⟨w.isError, w.connectionState, w.writeBuffer, rfl, rfl⟩
    · rw [hh]
      rfl
  have hwait := a.wait (parseRequestHeader_lineEnd (c := h.conn)
    (by rw [hh, hg]; exact w.parseState) (.inl (by rw [hh]; rfl)))
  have hevents := handleEvents_read (h := ({ conn := c } : Session).handler x) x.files
    (show ignored x.revents = false by rw [hi]; rfl) (by rw [hi]; rfl)
    (by rw [← hg, hwait]; exact a.silent.fault)
  have hwrite : ∀ k : Handler κ, writeEvent .EPOLLIN k = k := fun _ => rfl
  rw [← hg, hwait, hi, hwrite] at hevents
  have haction := handleUpdate_asking (h := (h.update fun _ => h.conn).setEvents
    (h.events ||| .EPOLLIN)) a.silent.isError a.silent.connectionState (by
      rw [hh, hg]
      change (EventMask.zero ||| EventMask.EPOLLIN) ≠ .zero
      decide)
  have hkeep : h.conn.isKeepAlive = c.isKeepAlive := by
    rw [hh, hg]
    rfl
  rw [timeout, hi, hevents, Prod.map_snd, haction, ← hkeep]
  rfl

end Next

/-- Nothing follows the event that closes a connection. -/
theorem serveAll_cons {κ : Type*} [PageCache κ] {s : Session} (hs : s.closed = false)
    {x : Exchange κ} (hc : (s.serve x).closed = true) (xs : List (Exchange κ)) :
    s.serveAll (x :: xs) = s.serve x ∧ s.timeouts (x :: xs) = [s.timeout x] := by
  have hrest : (s.serve x).serveAll xs = s.serve x ∧ (s.serve x).timeouts xs = [] := by
    cases xs with
    | nil => exact ⟨rfl, rfl⟩
    | cons y ys => rw [serveAll, timeouts, if_pos hc, if_pos hc]; exact ⟨rfl, rfl⟩
  rw [serveAll, timeouts, hs, hrest.1, hrest.2]
  exact ⟨rfl, rfl⟩

/-- A read of some bytes, on a server without files. -/
def readOf (segment : Bytes) : Exchange Cache.LFUCache where
  revents := .EPOLLIN
  files := fun _ => none
  cache := Cache.LFUCache.init 10
  reads := deliver segment
  writes := []

/-- A request that arrives in two reads, the first of which ends behind the CR of its line. -/
theorem arrives_inTwo (line fields : Bytes) :
    Arrives (line ++ (crlf ++ fields)) [readOf (line ++ [Chr.cr]), readOf (Chr.lf :: fields)] := by
  have hsplit : line ++ (crlf ++ fields) = (line ++ [Chr.cr]) ++ ((Chr.lf :: fields) ++ []) := by
    simp [crlf]
  rw [hsplit]
  exact .read rfl rfl (by simp) rfl (.read rfl rfl (by simp) rfl (.sent (List.forall_mem_nil _)))

/-- What a refused request begins with is refused. -/
theorem refused_segment {r : Request} (hr : r.Refused) {segment rest fields : Bytes}
    (h : segment ++ rest = r.line ++ (crlf ++ fields)) (c : HttpConnection) :
    (readRequestLine (requestLineOf segment) c).1 = .error := by
  have hpart : ∀ z, segment ++ z = r.line →
    (readRequestLine (requestLineOf segment) c).1 = .error := by
    intro z hz
    have hcr : Chr.cr ∉ segment := fun hcr => r.cr_notMem_line (hz ▸ List.mem_append_left _ hcr)
    rw [requestLineOf_open hcr]
    by_cases hnil : z = []
    · rw [hnil, List.append_nil] at hz
      rw [hz]
      exact Request.readRequestLine_refused hr c
    · exact Request.readRequestLine_part hz hnil c
  obtain ⟨z, hz, -⟩ | ⟨z, hz, hrest⟩ := List.append_eq_append_iff.mp h
  · exact hpart z hz.symm
  · cases z with
    | nil => exact hpart [] (by rw [hz, List.append_nil, List.append_nil])
    | cons b z =>
      obtain rfl : Chr.cr = b := (List.cons.inj hrest).1
      rw [hz, requestLineOf_append r.cr_notMem_line]
      exact Request.readRequestLine_refused hr c

/-- **The next request is handled as on a new connection** exactly if no earlier request asked for a
keep-alive, or if its line is refused; whatever stands below the line. -/
theorem sameAsFresh_iff {dir : Bytes} {xs : List (Exchange Cache.LFUCache)} {s : Session}
    (run : Run Step ⟨{ resourceDir := dir }, [], false⟩ xs s) (rest : s.AtRest) (r : Request)
    (fields : Bytes) : s.SameAsFresh (r.line ++ (crlf ++ fields)) ↔
      (∀ a, .produced a ∈ s.log → wantsKeepAlive a.requestHeaders = false) ∨ r.Refused := by
  obtain ⟨m, v, k, hc, hk⟩ := exists_resting run rest
  have hold : Waiting s.conn := by
    rw [hc]
    exact ⟨rfl, rfl, rfl, rfl, rfl, rfl, rfl⟩
  have hdir : s.conn.resourceDir = dir := by rw [hc]
  have hfresh : Waiting { resourceDir := dir } := ⟨rfl, rfl, rfl, rfl, rfl, rfl, rfl⟩
  rw [SameAsFresh, hdir]
  constructor
  · intro h
    by_contra hn
    obtain ⟨hasked, hr⟩ := not_or.mp hn
    have htrue : s.conn.isKeepAlive = true := by
      rw [hc]
      simp only [not_forall, Bool.not_eq_false] at hasked
      obtain ⟨a, ha, hw⟩ := hasked
      exact hk.mpr ⟨a, ha, hw⟩
    have htimes := (h _ (arrives_inTwo r.line fields)).2.2
    have hfirst := (List.cons.inj htimes).1
    rw [timeout_lineEnd hr hold rfl rfl, timeout_lineEnd hr hfresh rfl rfl, htrue] at hfirst
    exact absurd hfirst (show ¬ some (servedTimeout true) = some (servedTimeout false) by decide)
  · rintro (hasked | hr)
    · have hfalse : k = false := by
        by_contra hk'
        obtain ⟨a, ha, hw⟩ := hk.mp (by simpa using hk')
        exact absurd (hw.symm.trans (hasked a ha)) (by decide)
      have htwins : Twins { conn := s.conn } { conn := { resourceDir := dir } } := by
        rw [hc, hfalse]
        exact .stale (s := { conn := { resourceDir := dir } }) rfl (fun _ => rfl) m v
      intro ys _
      obtain ⟨htimes, hend⟩ := Twins.serveAll ys htwins
      exact ⟨hend.shown.1, hend.shown.2, htimes⟩
    · intro ys hys
      generalize hb : r.line ++ (crlf ++ fields) = bytes at hys
      cases hys with
      | sent _ => exact absurd hb (by simp [crlf])
      | @read x segment rest ys hi hread _ hx _ =>
        have hl := refused_segment hr hb.symm
        obtain ⟨hclosed, htime, hp, ha⟩ := serve_refused hold hi hread hx hl
        obtain ⟨hclosed', htime', hp', ha'⟩ := serve_refused hfresh hi hread hx hl
        obtain ⟨hs, ht⟩ := serveAll_cons (s := { conn := s.conn }) rfl hclosed ys
        obtain ⟨hs', ht'⟩ := serveAll_cons (s := { conn := { resourceDir := dir } }) rfl hclosed' ys
        rw [hs, hs', ht, ht', hp, hp', ha, ha', htime, htime']
        exact ⟨rfl, rfl, rfl⟩

/-- After one request without a keep-alive, whose answer is sent in two parts. -/
theorem sameAsFresh_oneRequest : ∃ s : Session,
    Run Step ⟨{ resourceDir := text "/pages/" }, [], false⟩ [oneRequest, writable] s ∧ s.AtRest ∧
      s.SameAsFresh (Request.getX.line ++ (crlf ++ Request.getX.fieldBytes)) := by
  have run : Run Step ⟨{ resourceDir := text "/pages/" }, [], false⟩ [oneRequest, writable] _ :=
    .cons ⟨rfl, rfl⟩ (.single ⟨by decide, rfl⟩)
  have rest : AtRest (((⟨{ resourceDir := text "/pages/" }, [], false⟩ : Session).serve
      oneRequest).serve writable) := by decide
  have hlog : (((⟨{ resourceDir := text "/pages/" }, [], false⟩ : Session).serve oneRequest).serve
      writable).log.all (fun e => e.casesOn (fun a => !wantsKeepAlive a.requestHeaders)
        fun _ => true) = true := by decide
  refine ⟨_, run, rest, (sameAsFresh_iff run rest .getX Request.getX.fieldBytes).mpr (.inl ?_)⟩
  exact fun a ha => Bool.eq_false_of_not_eq_true' (List.all_eq_true.mp hlog _ ha)

/-- A request that asks for a keep-alive. -/
def keepAliveRequest : Exchange Cache.LFUCache where
  revents := .EPOLLIN
  files := onePage
  cache := Cache.LFUCache.init 10
  reads := deliver (text "GET /a HTTP/1.1\r\nConnection: keep-alive\r\n\r\n")
  writes := []

/-- **The keep-alive of an earlier request** outlives it: the next one, which does not ask for it,
is waited for with the long timeout. -/
theorem not_sameAsFresh_keepAlive : ¬ ∀ (xs : List (Exchange Cache.LFUCache)) (s : Session),
    Run Step ⟨{ resourceDir := text "/pages/" }, [], false⟩ xs s → s.AtRest →
      s.SameAsFresh Request.getX.bytes := by
  intro h
  have rest : AtRest ((⟨{ resourceDir := text "/pages/" }, [], false⟩ : Session).serve
      keepAliveRequest) := by decide +kernel
  have hnext : Arrives Request.getX.bytes [{ keepAliveRequest with
      files := fun _ => some ⟨.regular (text "x"), true⟩
      reads := deliver Request.getX.bytes }] := by
    rw [← List.append_nil Request.getX.bytes]
    exact .read rfl rfl (by decide) (by rw [List.append_nil])
      (.sent (List.forall_mem_nil _))
  have htimes := (h [keepAliveRequest] _ (.single ⟨rfl, rfl⟩) rest _ hnext).2.2
  exact absurd htimes (by decide +kernel)

end Session

end WebServer.Event
