import WebServer.Event.OutputOrder
import WebServer.Http.HeaderOffsets

/-!
# Event/HeaderCalls — the calls of `ParseRequestHeader` in a run

A pass of `HandleRead` calls `ParseRequestHeader` at most once (`bodyCall`), on a connection that
the reads before it and the request line have left behind.  In a run every call that does not end
the line of another one has valid offsets, and no other has (`offsetsValid_run_iff`).
-/

namespace WebServer.Event

open Http Utility

/-! ## The call of a pass -/

/-- The connection on which the header stage calls `ParseRequestHeader`, if it does. -/
def headerCall (c : HttpConnection) : Option HttpConnection :=
  if c.processState = .parseHeaders then some c else none

/-- The same, from the stage of the request line on. -/
def lineCall (c : HttpConnection) : Option HttpConnection :=
  if c.processState = .parseLine then
    match parseRequestLine c with
    | (.success, c) => headerCall (c.enter .parseHeaders)
    | _ => none
  else headerCall c

section Calls

variable {κ : Type*}

/-- **The call in the body of the loop.** -/
def bodyCall (h : Handler κ) : Option HttpConnection :=
  let r := Utility.read h.reads h.conn.readBuffer
  if h.conn.connectionState = .disconnecting then none
  else if r.count < 0 then none
  else if r.isReadZeroBytes then
    if r.count = 0 then none
    else lineCall { h.receive.conn with connectionState := .disconnecting }
  else lineCall h.receive.conn

variable [PageCache κ] (files : FileSystem)

theorem headerCall_eq_some {c c' : HttpConnection} (hc : headerCall c = some c') :
    c' = c ∧ c.processState = .parseHeaders := by
  unfold headerCall at hc
  split at hc
  · exact ⟨(Option.some.inj hc).symm, ‹_›⟩
  · cases hc

theorem lineStage_of_call {h : Handler κ} {c : HttpConnection} (hc : lineCall h.conn = some c) :
    lineStage files h = headerStage files (h.update fun _ => c) ∧
      c.processState = .parseHeaders := by
  unfold lineCall at hc
  rw [lineStage]
  split at hc
  · next hp =>
    rw [if_pos hp]
    split at hc
    · next c' hline =>
      obtain ⟨rfl, hstate⟩ := headerCall_eq_some hc
      rw [hline]
      exact ⟨rfl, hstate⟩
    · cases hc
  · next hp =>
    obtain ⟨rfl, hstate⟩ := headerCall_eq_some hc
    rw [if_neg hp]
    exact ⟨rfl, hstate⟩

/-- **A pass with a call** is the header stage on the connection of the call. -/
theorem handleReadBody_of_call {h : Handler κ} {c : HttpConnection} (hc : bodyCall h = some c) :
    handleReadBody files h = headerStage files (h.receive.update fun _ => c) ∧
      c.processState = .parseHeaders := by
  unfold bodyCall at hc
  unfold handleReadBody
  dsimp only at hc ⊢
  split at hc
  · cases hc
  · next hconn =>
    rw [if_neg hconn]
    split at hc
    · cases hc
    · next hcount =>
      rw [if_neg hcount]
      split at hc
      · next hzero =>
        rw [if_pos hzero]
        split at hc
        · cases hc
        · next hne =>
          rw [if_neg hne]
          exact lineStage_of_call files hc
      · next hzero =>
        rw [if_neg hzero]
        exact lineStage_of_call files hc

theorem headerStage_of_noCall {h : Handler κ} (hc : headerCall h.conn = none) :
    (headerStage files h).conn.parseState = h.conn.parseState := by
  unfold headerCall at hc
  split at hc
  · cases hc
  · next hp =>
    rw [headerStage, if_neg hp]
    exact (bodyStage_sameParse files h).parseState

theorem lineStage_of_noCall {h : Handler κ} (hc : lineCall h.conn = none) :
    (lineStage files h).conn.parseState = h.conn.parseState := by
  unfold lineCall at hc
  rw [lineStage]
  split at hc
  · next hp =>
    obtain ⟨m, f, v, hframe⟩ := parseRequestLine_frame h.conn
    rw [if_pos hp]
    split
    · next hline => exact absurd (congrArg Prod.fst hline) (parseRequestLine_ne_again h.conn)
    · next hline =>
      rw [hline] at hframe
      have hstate := congrArg HttpConnection.parseState hframe
      exact hstate
    · next hline =>
      rw [hline] at hc
      cases hc
  · next hp =>
    rw [if_neg hp]
    exact headerStage_of_noCall files hc

/-- **A pass without a call** leaves the scanner where it is. -/
theorem handleReadBody_of_noCall {h : Handler κ} (hc : bodyCall h = none) :
    (handleReadBody files h).conn.parseState = h.conn.parseState := by
  unfold bodyCall at hc
  unfold handleReadBody
  dsimp only at hc ⊢
  split
  · rfl
  · next hconn =>
    rw [if_neg hconn] at hc
    split
    · rfl
    · next hcount =>
      rw [if_neg hcount] at hc
      split
      · next hzero =>
        rw [if_pos hzero] at hc
        split
        · rfl
        · next hne =>
          rw [if_neg hne] at hc
          exact lineStage_of_noCall files hc
      · next hzero =>
        rw [if_neg hzero] at hc
        exact lineStage_of_noCall files hc

/-- **The calls of `HandleRead`**, which calls itself as long as a pass finishes a request and
leaves bytes behind. -/
inductive Called : Handler κ → HttpConnection → Prop
  | now {h : Handler κ} {c : HttpConnection} (hc : bodyCall h = some c) : Called h c
  | again {h : Handler κ} {c : HttpConnection} (ha : (handleReadPass files h).2 = true)
      (hc : Called (handleReadPass files h).1 c) : Called h c

end Calls

/-! ## Runs -/

namespace Session

variable {κ : Type*} [PageCache κ]

/-- The calls of an event, on a connection that is open. -/
def Calls (s : Session) (x : Exchange κ) (c : HttpConnection) : Prop :=
  s.closed = false ∧ ignored x.revents = false ∧ readable x.revents = true ∧
    Called x.files ((s.handler x).setEvents .zero) c

/-- **The calls of a run** that begins with a new connection. -/
def CalledIn (dir : Bytes) (xs : List (Exchange κ)) (c : HttpConnection) : Prop :=
  ∃ ys x zs s, xs = ys ++ x :: zs ∧ Run Step ⟨{ resourceDir := dir }, [], false⟩ ys s ∧ s.Calls x c

/-- **In every run the offsets are valid** exactly when no call ends the line of another one. -/
theorem offsetsValid_run_iff (dir : Bytes) (xs : List (Exchange κ)) :
    (∀ c, CalledIn dir xs c → OffsetsValid c) ↔ ∀ c, CalledIn dir xs c → Whole c :=
  forall_congr' fun c => imp_congr_right fun _ => offsetsValid_iff_whole c

/-- A segment that has arrived. -/
def arrival (segment : Bytes) : Exchange Cache.LFUCache where
  revents := .EPOLLIN
  files := fun _ => none
  cache := Cache.LFUCache.init 10
  reads := deliver segment
  writes := []

/-- **A name that is cut by a read**: the call that finds the rest of the line reads its key from
offset `-1`. -/
theorem not_offsetsValid_cutName : ¬ ∀ (dir : Bytes) (xs : List (Exchange Cache.LFUCache))
    (c : HttpConnection), CalledIn dir xs c → OffsetsValid c := by
  intro hall
  let first := arrival (text "GET / HTTP/1.1\r\nHo")
  let second := arrival (text "st: x\r\n\r\n")
  let s : Session := Session.serve ⟨{ resourceDir := [] }, [], false⟩ first
  have hcall : (bodyCall ((s.handler second).setEvents .zero)).map
      (fun c => (c.parseState, c.readBuffer)) = some (.key, text "Host: x\r\n\r\n") := by
    decide +kernel
  obtain ⟨c, hc, hcut⟩ := Option.map_eq_some_iff.mp hcall
  obtain ⟨hstate, hbuf⟩ := Prod.mk.inj hcut
  have hvalid : OffsetsValid c := hall [] [first, second] c
    ⟨[first], second, [], s, rfl, .single ⟨rfl, rfl⟩, by decide +kernel, rfl, rfl, .now hc⟩
  refine (offsetsValid_iff_whole c).mp hvalid ?_
  rw [hstate, hbuf]
  have hline : text "Host: x\r\n\r\n"
      = text "Host" ++ Chr.colon :: Chr.space :: 120 :: ([] ++ Chr.cr :: Chr.lf :: crlf) := by
    decide
  rw [hline]
  exact .key (by decide +kernel) (.colon (.spacesAfterColon _
    (.value List.not_mem_nil (Nat.zero_le _) (.cr crlf))))

end Session

end WebServer.Event
