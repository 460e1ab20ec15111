import WebServer.Event.Ownership

/-!
# Event/Tended — no connection is left alone

A connection that stays registered after an event should have a timer, and be watched for writing as
long as output is left.  `HandleUpdate` resets the timer first; when the peer has closed and output
is left, it sets the events but hands them to nobody.  Runs in which that branch is not taken,
`epoll_ctl` does not fail on unsent output, and an event asks for something, leave no connection
alone (`tended_of_run`).
-/

namespace WebServer.Event

open Http Timer Utility

/-! ## What the handlers ask for -/

section Handlers

variable {κ : Type*}

/-- **Output that is left is asked for**, unless the connection is given up. -/
def OutAsked (h : Handler κ) : Prop :=
  h.conn.isError = false → h.fault = none → h.conn.writeBuffer ≠ [] → h.events.epollOut = true

/-- The events of a connection that handlers may ask for, on a connection that is not closed. -/
structure Asking (h : Handler κ) : Prop where
  oneShot : h.events.epollOneShot = false
  connectionState : h.conn.connectionState ≠ .disconnected

theorem askToWrite_events (h : Handler κ) : (askToWrite h).events =
    if h.conn.writeBuffer.length > 0 then h.events ||| .EPOLLOUT else h.events := by
  unfold askToWrite
  split <;> rfl

theorem outAsked_askToWrite (h : Handler κ) : OutAsked (askToWrite h) := by
  intro _ _ hw
  rw [askToWrite_conn] at hw
  rw [askToWrite_events, if_pos (List.length_pos_iff.mpr hw), EventMask.or_epollOut, Bool.or_true]

theorem oneShot_askToWrite {h : Handler κ} (ho : h.events.epollOneShot = false) :
    (askToWrite h).events.epollOneShot = false := by
  rw [askToWrite_events]
  split
  · rw [EventMask.or_epollOneShot, ho, Bool.false_or]
  · exact ho

/-- **After `HandleWrite` output that is left is asked for.** -/
theorem outAsked_handleWrite {h : Handler κ} (hs : h.conn.connectionState ≠ .disconnected) :
    OutAsked (handleWrite h) := by
  unfold handleWrite
  split
  · split <;> exact outAsked_askToWrite _
  · next hc =>
    intro he
    exact absurd ⟨by rw [he]; rfl, hs⟩ hc

theorem Asking.handleWrite {h : Handler κ} (ha : Asking h) : Asking (handleWrite h) := by
  refine ⟨?_, ?_⟩
  · unfold Http.handleWrite
    split
    · split
      · exact oneShot_askToWrite rfl
      · exact oneShot_askToWrite ha.oneShot
    · exact ha.oneShot
  · obtain ⟨w, e, hc⟩ := handleWrite_conn h
    rw [hc]
    exact ha.connectionState

theorem Asking.flush {h : Handler κ} (ha : Asking h) : Asking (flush h) := by
  unfold Http.flush
  split
  · exact ha.handleWrite
  · exact ha

theorem outAsked_flush {h : Handler κ} (hs : h.conn.connectionState ≠ .disconnected) :
    OutAsked (flush h) := by
  unfold Http.flush
  split
  · exact outAsked_handleWrite hs
  · next hw => exact fun _ _ hne => absurd (List.length_pos_iff.mpr hne) hw

theorem Asking.conclude {h : Handler κ} (ha : Asking h) : Asking (conclude h).1 := by
  unfold Http.conclude
  split
  · exact ⟨ha.oneShot, ha.connectionState⟩
  · split
    · refine ⟨?_, ha.connectionState⟩
      rw [Handler.setEvents_events, EventMask.or_epollOneShot, ha.oneShot, Bool.false_or]
    · exact ha

theorem OutAsked.conclude {h : Handler κ} (ho : OutAsked h) : OutAsked (conclude h).1 := by
  unfold Http.conclude
  split
  · exact ho
  · split
    · intro he hf hw
      rw [Handler.setEvents_events, EventMask.or_epollOut, ho he hf hw, Bool.true_or]
    · exact ho

variable [PageCache κ] (files : FileSystem)

theorem StageResult.asking {h h' : Handler κ} (r : StageResult files h h') (ha : Asking h) :
    Asking h' := by
  cases r with
  | wait hc _ => exact ⟨ha.oneShot, by rw [Handler.update_conn, hc.connectionState]; exact ha.2⟩
  | fault hc _ => exact ⟨ha.oneShot, by
      rw [Handler.breakOff_conn, Handler.update_conn, hc.connectionState]; exact ha.2⟩
  | fail hc n m => exact ⟨ha.oneShot, fun e => ha.2 (hc.connectionState.symm.trans e)⟩
  | @respond c hc hs =>
    have hi := sameInput_buildResponse files (h.update fun _ => c)
    rw [responseStage_eq files hs]
    refine ⟨by rw [Handler.update_events, hi.events]; exact ha.oneShot, fun e => ?_⟩
    have hcs := hi.connectionState.trans hc.connectionState
    rw [Handler.update_conn] at e
    split at e <;> exact ha.2 (hcs.symm.trans e)

theorem Asking.handleReadBody {h : Handler κ} (ha : Asking h) :
    Asking (handleReadBody files h) := by
  unfold Http.handleReadBody
  dsimp only
  split
  · exact ⟨ha.oneShot, ha.connectionState⟩
  · split
    · exact ⟨ha.oneShot, ha.connectionState⟩
    · split
      · split
        · exact ⟨ha.oneShot, ConnectionState.noConfusion⟩
        · exact StageResult.asking files (lineStage_result files _)
            ⟨ha.oneShot, ConnectionState.noConfusion⟩
      · exact StageResult.asking files (lineStage_result files _) ⟨ha.oneShot, ha.connectionState⟩

theorem Asking.handleReadPass {h : Handler κ} (ha : Asking h) :
    Asking (handleReadPass files h).1 := by
  have hb := ha.handleReadBody files
  unfold Http.handleReadPass handleReadTail
  split
  · exact hb
  · exact hb.flush.conclude

theorem outAsked_handleReadPass {h : Handler κ} (ha : Asking h) :
    OutAsked (handleReadPass files h).1 := by
  have hb := ha.handleReadBody files
  unfold Http.handleReadPass handleReadTail
  split
  · next hc =>
    intro he hf _
    rcases hc with hc | hc
    · rw [hf] at hc
      exact absurd hc (by simp)
    · exact absurd (he.symm.trans hc) (by simp)
  · exact (outAsked_flush hb.connectionState).conclude

/-- **After `HandleRead` output that is left is asked for.** -/
theorem Asking.handleRead {h : Handler κ} (ha : Asking h) :
    Asking (handleRead files h) ∧ OutAsked (handleRead files h) := by
  have fuel : ∀ (n : ℕ) (h : Handler κ), Asking h → Asking (handleReadFuel files n h) ∧
      OutAsked (handleReadFuel files n h) := by
    intro n
    induction n with
    | zero => exact fun h ha => ⟨ha.handleReadPass files, outAsked_handleReadPass files ha⟩
    | succ n ih =>
      intro h ha
      rw [handleReadFuel_succ]
      split
      · exact ih _ (ha.handleReadPass files)
      · exact ⟨ha.handleReadPass files, outAsked_handleReadPass files ha⟩
  exact fuel _ h ha

/-- An event that some handler is called for. -/
def served (revents : EventMask) : Bool := readable revents || revents.epollOut

/-- **After reading and writing, output that is left is asked for**, if anything was asked. -/
theorem asking_served {h : Handler κ} {revents : EventMask} (ha : Asking h)
    (hs : h.conn.writeBuffer = [] ∨ served revents = true) :
    Asking (writeEvent revents (readEvent files revents h)) ∧
      OutAsked (writeEvent revents (readEvent files revents h)) := by
  obtain ⟨har, hor⟩ : Asking (readEvent files revents h) ∧
      (revents.epollOut = false → OutAsked (readEvent files revents h)) := by
    unfold readEvent
    split
    · exact ⟨(ha.handleRead files).1, fun _ => (ha.handleRead files).2⟩
    · next hr =>
      refine ⟨ha, fun ho _ _ hw => ?_⟩
      rw [served, ho, Bool.or_false] at hs
      exact absurd (hs.resolve_left hw) hr
  unfold writeEvent
  split
  · exact ⟨har.handleWrite, outAsked_handleWrite har.connectionState⟩
  · next ho => exact ⟨har, hor (Bool.not_eq_true _ ▸ ho)⟩

/-- **What `HandleEvents` comes to**, on an open connection without error. -/
inductive Outcome (h : Handler κ) : Handler κ → Option UpdateAction → Prop
  | ignored {h' : Handler κ} (hc : h'.conn = h.conn) (ht : h'.timerReleased = h.timerReleased) :
      Outcome h h' none
  | mod {h' : Handler κ} {timeout : ℕ} (ht : 0 < timeout) (he : h'.conn.isError = false)
      (hs : h'.conn.connectionState = .connected) (ho : h'.events.epollOneShot = false)
      (hw : h'.conn.writeBuffer ≠ [] → h'.events.epollOut = true) :
      Outcome h h' (some (.mod timeout))
  | leave {h' : Handler κ} : Outcome h h' (some .leave)
  | delete {h' : Handler κ} : Outcome h h' (some .delete)

theorem servedEvents_epollOut (events : EventMask) :
    (servedEvents events).epollOut = events.epollOut := by
  unfold servedEvents
  rw [EventMask.or_epollOut, Bool.or_false]
  split
  · next h => exact h.2.symm
  · rfl

theorem servedEvents_epollOneShot {events : EventMask} (h : events.epollOneShot = false) :
    (servedEvents events).epollOneShot = false := by
  unfold servedEvents
  rw [EventMask.or_epollOneShot, Bool.or_false]
  split
  · rfl
  · exact h

omit [PageCache κ] in
/-- **What `HandleUpdate` asks for**, when output that is left is asked for. -/
theorem handleUpdate_outcome {h₀ h h' : Handler κ} {a : UpdateAction} (ha : Asking h)
    (ho : OutAsked h) (hf : h.fault = none) (hu : handleUpdate h = (h', a)) :
    Outcome h₀ h' (some a) := by
  unfold handleUpdate at hu
  dsimp only [resetTimer] at hu
  split at hu
  · next hc =>
    have he : h.conn.isError = false := by simpa using hc.1
    split at hu
    · obtain ⟨rfl, rfl⟩ := Prod.mk.inj hu
      refine .mod ?_ he hc.2 (servedEvents_epollOneShot ha.oneShot) fun hw => ?_
      · unfold servedTimeout
        split <;> decide
      · exact (servedEvents_epollOut _).trans (ho he hf hw)
    · next hz =>
      obtain ⟨rfl, rfl⟩ := Prod.mk.inj hu
      refine .mod ?_ he hc.2 rfl fun hw => ?_
      · unfold idleTimeout
        split <;> decide
      · exact absurd (EventMask.ne_zero_of_epollOut (ho he hf hw)) hz
  · split at hu
    · obtain ⟨rfl, rfl⟩ := Prod.mk.inj hu
      exact .leave
    · obtain ⟨rfl, rfl⟩ := Prod.mk.inj hu
      exact .delete

theorem handleEvents_outcome {h : Handler κ} {revents : EventMask}
    (hs : h.conn.connectionState = .connected)
    (hw : h.conn.writeBuffer = [] ∨ ignored revents = true ∨ served revents = true)
    (hf : (handleEvents files revents h).1.fault = none) :
    Outcome h (handleEvents files revents h).1 (handleEvents files revents h).2 := by
  have hask : Asking (h.setEvents .zero) := ⟨rfl, fun e => by
    rw [Handler.setEvents_conn, hs] at e
    exact ConnectionState.noConfusion e⟩
  unfold handleEvents at hf ⊢
  dsimp only at hf ⊢
  by_cases hi : ignored revents = true
  · rw [if_pos hi]
    exact .ignored rfl rfl
  · rw [if_neg hi] at hf ⊢
    have hw' : (h.setEvents .zero).conn.writeBuffer = [] ∨ served revents = true :=
      hw.imp_right fun h => h.resolve_left hi
    obtain ⟨ha, ho⟩ := asking_served files hask hw'
    split at hf
    · next hfault =>
      rw [hf] at hfault
      exact absurd hfault (by simp)
    · next hfault =>
      rw [if_neg hfault]
      refine handleUpdate_outcome ha ho ?_ rfl
      have : (writeEvent revents (readEvent files revents (h.setEvents .zero))).fault
          = (readEvent files revents (h.setEvents .zero)).fault := by
        unfold writeEvent
        split
        · exact handleWrite_fault _
        · rfl
      rw [this]
      exact Option.not_isSome_iff_eq_none.mp hfault

end Handlers

/-! ## The invariant -/

namespace EventLoop

variable {Q : Type*} [PriorityQueue Q Timer.expireTime]

/-- **A registered connection is attended to.** -/
structure Attended (s : EventLoop Q) (fd c : ℕ) (conn : Connection) : Prop where
  timer : ∃ tm, s.timerHeap.Holds tm c
  connected : conn.http.connectionState = .connected
  noError : conn.http.isError = false
  pending : conn.http.writeBuffer ≠ [] → ∃ m, s.interest fd = some ⟨m, true⟩ ∧
    m.epollOut = true ∧ m.epollOneShot = false
  watched : s.readyChannels fd = some c → ∃ i, s.interest fd = some i ∧ i.mask = conn.lastEvents ∧
    (i.mask.epollOneShot = false → i.armed = true)

/-- What happens elsewhere leaves a connection attended to. -/
theorem Attended.frame {s s' : EventLoop Q} {fd c : ℕ} {conn : Connection}
    (h : s.Attended fd c conn) (ht : ∀ tm, s.timerHeap.Holds tm c → s'.timerHeap.Holds tm c)
    (hi : s'.interest fd = s.interest fd)
    (hr : s'.readyChannels fd = some c → s.readyChannels fd = some c) : s'.Attended fd c conn := by
  obtain ⟨tm, htm⟩ := h.timer
  refine ⟨⟨tm, ht tm htm⟩, h.connected, h.noError, ?_, fun h' => ?_⟩
  · rw [hi]
    exact h.pending
  · rw [hi]
    exact h.watched (hr h')

/-- Every registered connection is attended to, but for those on a list. -/
def AttendedBut (cs : List ℕ) (s : EventLoop Q) : Prop := ∀ fd c conn,
  s.httpConnections fd = some c → s.connection c = some conn → c ∉ cs → s.Attended fd c conn

section Steps

variable {s : EventLoop Q} {c : ℕ} {conn : Connection} {now : ℕ}

theorem AttendedBut.register (ha : AttendedBut [] s) (h : s.Kept) {fd : ℕ} (dir : Bytes)
    (ok : Bool) :
    AttendedBut [] (s.register fd dir now ok) := by
  intro fd' c' conn' hh hc hno
  have hholds : ∀ tm c', (s.register fd dir now ok).timerHeap.Holds tm c' ↔
      (tm = ⟨s.timerHeap.fresh, now, kDefaultTimeOut⟩ ∧ c' = s.created) ∨ s.timerHeap.Holds tm c' :=
    fun tm c' => h.heap.holds_addTimer
  rcases eq_or_of_update hh with ⟨rfl, e⟩ | ⟨hfd, hh'⟩
  · obtain rfl := Option.some.inj e
    obtain ⟨-, e⟩ | ⟨hne, -⟩ := eq_or_of_update hc
    swap
    · exact absurd rfl hne
    obtain rfl := Option.some.inj e
    refine ⟨⟨_, (hholds _ _).mpr (.inl ⟨rfl, rfl⟩)⟩, rfl, rfl, fun hw => absurd rfl hw,
      fun hr => ?_⟩
    rcases eq_or_of_update hr with ⟨-, e⟩ | ⟨hne, -⟩
    · have hok : ok = true := by
        cases ok
        · exact absurd e (by simp)
        · rfl
      subst hok
      exact ⟨⟨kDefaultEvent, true⟩, Function.update_self .., rfl, fun _ => rfl⟩
    · exact absurd rfl hne
  · have hc' : s.connection c' = some conn' := by
      rcases eq_or_of_update hc with ⟨rfl, -⟩ | ⟨-, e⟩
      · obtain ⟨conn₁, h₁, -⟩ := h.http fd' _ hh'
        exact absurd (h₁.symm.trans (h.fresh _ (Nat.le_refl _))) (by simp)
      · exact e
    refine (ha fd' c' conn' hh' hc' hno).frame (fun tm htm => (hholds tm c').mpr (.inr htm))
      (Function.update_of_ne hfd _ _) fun hr => ?_
    rcases eq_or_of_update hr with ⟨e, -⟩ | ⟨-, e⟩
    · exact absurd e hfd
    · exact e

/-- Deleting a connection takes it off the list. -/
theorem AttendedBut.delete {cs : List ℕ} (ha : AttendedBut (c :: cs) s) (h : s.Kept)
    (hc : s.connection c = some conn) (ok : Bool) : AttendedBut cs (s.delete c conn ok) := by
  intro fd' c' conn' hh hc' hno
  rcases eq_or_of_update hh with ⟨-, e⟩ | ⟨hfd, hh'⟩
  · exact absurd e (by simp)
  · obtain ⟨conn₁, h₁, hfd₁⟩ := h.http fd' c' hh'
    have hcc : c' ≠ c := by
      rintro rfl
      obtain rfl := Option.some.inj (hc.symm.trans h₁)
      exact hfd hfd₁.symm
    have h' : s.connection c' = some conn' := (Function.update_of_ne hcc _ _).symm.trans hc'
    have hno' : c' ∉ c :: cs := by
      rw [List.mem_cons, not_or]
      exact ⟨hcc, hno⟩
    refine (ha fd' c' conn' hh' h' hno').frame (fun _ htm => htm) ?_ fun hr => ?_
    · unfold EventLoop.delete
      dsimp only
      split
      · exact Function.update_of_ne hfd _ _
      · rfl
    · exact (Function.update_of_ne hfd _ _).symm.trans hr

theorem AttendedBut.deleteAll (ok : ℕ → Bool) : ∀ {cs : List ℕ} {s : EventLoop Q}, s.Kept →
    (∀ c ∈ cs, ∀ conn, s.connection c = some conn → s.Unheld c conn) → AttendedBut cs s →
    AttendedBut [] (s.deleteAll ok cs)
  | [], _, _, _, ha => ha
  | c :: cs, s, h, hu, ha => by
      rw [EventLoop.deleteAll, List.foldl_cons]
      rcases hc : s.connection c with _ | conn
      · refine AttendedBut.deleteAll ok h (fun c' hc' => hu c' (List.mem_cons_of_mem _ hc')) ?_
        intro fd' c' conn' hh h' hno
        refine ha fd' c' conn' hh h' ?_
        rw [List.mem_cons, not_or]
        refine ⟨?_, hno⟩
        rintro rfl
        exact absurd (hc.symm.trans h') (by simp)
      · have huc := hu c (List.mem_cons_self ..) conn hc
        exact AttendedBut.deleteAll ok (h.delete huc (ok c)) (fun c' hc' conn' h' =>
          Unheld.delete (hu c' (List.mem_cons_of_mem _ hc') conn') huc (ok c) h')
          (ha.delete h hc (ok c))

theorem AttendedBut.handleExpire (ha : AttendedBut [] s) (h : s.Kept) (hnow : s.now ≤ now)
    (ok : ℕ → Bool) : AttendedBut [] (s.handleExpire now ok) := by
  refine AttendedBut.deleteAll ok (h.dropTimers hnow) h.unheld_dropTimers fun fd c conn hh hc hno =>
    ?_
  have hat := ha fd c conn hh hc List.not_mem_nil
  refine hat.frame (fun tm htm => TimerHeap.holds_handleExpireEvent.mpr ⟨htm, ?_⟩) rfl id
  exact Nat.lt_of_not_le fun hle => hno (TimerHeap.mem_handleExpireEvent_of_holds htm hle)

/-- The handlers of one connection leave the others attended to. -/
theorem Attended.handled {κ : Type*} {fd' c' : ℕ} {conn' : Connection} (h : s.Kept)
    (hc : s.connection c = some conn) (hreg : s.httpConnections conn.fd = some c)
    (hat : s.Attended fd' c' conn') (hh : s.httpConnections fd' = some c') (hcc : c' ≠ c)
    (r : Handler κ) : (s.handled c conn r now).Attended fd' c' conn' := by
  have hfd : fd' ≠ conn.fd := by
    rintro rfl
    exact hcc (Option.some.inj (hh.symm.trans hreg))
  refine hat.frame (fun tm htm => holds_releaseTimer.mpr ⟨htm, fun _ ht => hcc ?_⟩)
    (Function.update_of_ne hfd _ _) id
  obtain ⟨conn₁, h₁, ht₁, -⟩ := h.held tm c' htm
  exact h.timer_inj c' c conn₁ conn tm.id h₁ hc ht₁ ht

/-- What was watched for without `EPOLLONESHOT` still is after a report. -/
theorem Attended.report {fd : ℕ} (hat : s.Attended fd c conn) (hr : s.readyChannels fd = some c) :
    ∃ i, (s.interest fd).map Interest.report = some i ∧ i.mask = conn.lastEvents ∧
      (i.mask.epollOneShot = false → i.armed = true) := by
  obtain ⟨i, hi, hm, harm⟩ := hat.watched hr
  refine ⟨i.report, by rw [hi]; rfl, hm, fun ho => ?_⟩
  have ho' : i.mask.epollOneShot = false := ho
  change (i.armed && !i.mask.epollOneShot) = true
  rw [harm ho', ho']
  rfl

/-- The connection that an event was for is attended to, and so are the others. -/
theorem AttendedBut.of_singleton (ha : AttendedBut [c] s) (h : s.Kept)
    (hc : s.connection c = some conn) (hat : s.Attended conn.fd c conn) : AttendedBut [] s := by
  intro fd c' conn' hh hc' _
  by_cases hcc : c' = c
  · subst hcc
    obtain rfl := Option.some.inj (hc.symm.trans hc')
    obtain ⟨conn₁, h₁, hfd₁⟩ := h.http fd c' hh
    obtain rfl := Option.some.inj (hc.symm.trans h₁)
    exact hfd₁ ▸ hat
  · exact ha fd c' conn' hh hc' fun e => hcc (List.mem_singleton.mp e)

theorem connection_epollMod_self (s : EventLoop Q) (c : ℕ) (conn : Connection) (timeout now : ℕ)
    (ok : Bool) : (s.epollMod c conn timeout now ok).connection c
      = some (noteEvents (addTimer s.timerHeap c conn timeout now).1 timeout now) :=
  Function.update_self ..

/-- What `epoll` watches for after `EpollMod`. -/
theorem interest_epollMod (s : EventLoop Q) (c : ℕ) (conn : Connection) (timeout now : ℕ)
    (ok : Bool) : (s.epollMod c conn timeout now ok).interest conn.fd =
      if conn.lastEvents ≠ conn.events ∧ ok then some ⟨conn.events, true⟩
      else s.interest conn.fd := by
  unfold EventLoop.epollMod
  dsimp only
  split
  · exact Function.update_self ..
  · rfl

/-- `EpollMod` lets `epoll` watch the other descriptors as before. -/
theorem interest_epollMod_of_ne (s : EventLoop Q) (c : ℕ) (conn : Connection) (timeout now : ℕ)
    (ok : Bool) {fd : ℕ} (hfd : fd ≠ conn.fd) :
    (s.epollMod c conn timeout now ok).interest fd = s.interest fd := by
  unfold EventLoop.epollMod
  dsimp only
  split
  · exact Function.update_of_ne hfd _ _
  · rfl

theorem readyChannels_epollMod_of_ne (s : EventLoop Q) (c : ℕ) (conn : Connection)
    (timeout now : ℕ) (ok : Bool) {fd : ℕ} (hfd : fd ≠ conn.fd) :
    (s.epollMod c conn timeout now ok).readyChannels fd = s.readyChannels fd := by
  unfold EventLoop.epollMod
  dsimp only
  split
  · exact Function.update_of_ne hfd _ _
  · rfl

/-- A channel still reports after `EpollMod` only when `epoll` took the new events. -/
theorem ok_of_readyChannels_epollMod {timeout now : ℕ} {ok : Bool}
    (hr : (s.epollMod c conn timeout now ok).readyChannels conn.fd = some c)
    (hch : conn.lastEvents ≠ conn.events) : ok = true := by
  change (if conn.lastEvents ≠ conn.events ∧ (!ok) = true then
    Function.update s.readyChannels conn.fd none else s.readyChannels) conn.fd = some c at hr
  cases ok
  · rw [if_pos ⟨hch, rfl⟩, Function.update_self] at hr
    exact absurd hr (by simp)
  · rfl

/-- **The timers after `EpollMod` with a timeout**: a new one for its connection. -/
theorem holds_epollMod (h : s.Kept) {timeout now : ℕ} (ht : 0 < timeout) {ok : Bool}
    {tm : Timer.Timer} {c' : ℕ} : (s.epollMod c conn timeout now ok).timerHeap.Holds tm c' ↔
      (tm = ⟨s.timerHeap.fresh, now, timeout⟩ ∧ c' = c) ∨ s.timerHeap.Holds tm c' := by
  rw [← h.heap.holds_addTimer]
  unfold EventLoop.epollMod addTimer
  rw [if_pos ht]

/-- **`EpollMod` with a timeout attends to its connection.** -/
theorem AttendedBut.epollMod (ha : AttendedBut [c] s) (h : s.Kept) (hkept : ∀ timeout ok,
      (s.epollMod c conn timeout now ok).Kept)
    (hreg : s.httpConnections conn.fd = some c) {timeout : ℕ} {ok : Bool} (ht : 0 < timeout)
    (he : conn.http.isError = false) (hs : conn.http.connectionState = .connected)
    (ho : conn.events.epollOneShot = false)
    (hw : conn.http.writeBuffer ≠ [] → conn.events.epollOut = true)
    (hmod : conn.http.writeBuffer ≠ [] → conn.lastEvents ≠ conn.events → ok = true)
    (hwatch : ∃ i, s.interest conn.fd = some i ∧ i.mask = conn.lastEvents ∧
      (i.mask.epollOneShot = false → i.armed = true)) :
    AttendedBut [] (s.epollMod c conn timeout now ok) := by
  have hadd : (addTimer s.timerHeap c conn timeout now).1
      = { conn with timer := some s.timerHeap.fresh } := by
    unfold addTimer
    rw [if_pos ht]
    rfl
  -- `epoll` watches for the new events, unless it refused them
  have hnew : (conn.lastEvents ≠ conn.events → ok = true) →
      (s.epollMod c conn timeout now ok).interest conn.fd = some ⟨conn.events, true⟩ := by
    intro hok
    rw [interest_epollMod]
    by_cases hch : conn.lastEvents ≠ conn.events
    · rw [if_pos ⟨hch, hok hch⟩]
    · rw [if_neg fun e => hch e.1]
      obtain ⟨⟨m, armed⟩, hi, hm, harm⟩ := hwatch
      have hm' : m = conn.events := hm.trans (not_ne_iff.mp hch)
      rw [hi, hm', show armed = true from harm (hm' ▸ ho)]
  have hself := connection_epollMod_self s c conn timeout now ok
  rw [hadd] at hself
  refine AttendedBut.of_singleton ?_ (hkept timeout ok) hself
    ⟨⟨_, (holds_epollMod h ht).mpr (.inl ⟨rfl, rfl⟩)⟩, hs, he,
      fun hw' => ⟨conn.events, hnew (hmod hw'), hw hw', ho⟩,
      fun hr => ⟨⟨conn.events, true⟩, hnew (ok_of_readyChannels_epollMod hr), rfl, fun _ => rfl⟩⟩
  intro fd' c' conn' hh h₁ hno
  have hcc : c' ≠ c := fun e => hno (List.mem_singleton.mpr e)
  have hfd : fd' ≠ conn.fd := by
    rintro rfl
    exact hcc (Option.some.inj (hh.symm.trans hreg))
  have h₁' : s.connection c' = some conn' := (Function.update_of_ne hcc _ _).symm.trans h₁
  refine (ha fd' c' conn' hh h₁' hno).frame (fun tm htm => (holds_epollMod h ht).mpr (.inr htm))
    (interest_epollMod_of_ne s c conn timeout now ok hfd) fun hr => ?_
  exact (readyChannels_epollMod_of_ne s c conn timeout now ok hfd).symm.trans hr

/-- **The condition on an event**: it asks for something if output is left, `HandleUpdate` does not
find the peer gone with output asked for, and `epoll` takes the new events if output is left. -/
structure Rearms {κ : Type*} [PageCache κ] (conn : Connection) (x : Exchange κ) (ok : Bool) :
    Prop where
  asked : conn.http.writeBuffer = [] ∨ ignored x.revents = true ∨ served x.revents = true
  updated : (Event.handleEvents x.files x.revents (handler conn x)).2 ≠ some .leave
  modified (timeout : ℕ) :
    (Event.handleEvents x.files x.revents (handler conn x)).2 = some (.mod timeout) →
    (Event.handleEvents x.files x.revents (handler conn x)).1.conn.writeBuffer ≠ [] →
    conn.lastEvents ≠ (Event.handleEvents x.files x.revents (handler conn x)).1.events → ok = true

/-- **An event that meets the condition.** -/
theorem AttendedBut.handleEvents {κ : Type*} [PageCache κ] (ha : AttendedBut [] s) (h : s.Kept)
    (hnow : s.now ≤ now) (hr : s.readyChannels conn.fd = some c) (hc : s.connection c = some conn)
    {x : Exchange κ} {ok : Bool}
    (hx : (Event.handleEvents x.files x.revents (handler conn x)).1.fault = none)
    (hok : Rearms conn x ok) : AttendedBut [] (s.handleEvents c conn x now ok) := by
  have hreg := h.ready _ _ hr
  have hat := ha conn.fd c conn hreg hc List.not_mem_nil
  have hout := handleEvents_outcome x.files (h := handler conn x) hat.connected hok.asked hx
  have hreleased : ∀ a, (Event.handleEvents x.files x.revents (handler conn x)).2 = some a →
      (Event.handleEvents x.files x.revents (handler conn x)).1.timerReleased = true :=
    fun _ => timerReleased_of_update
  obtain ⟨-, hupdated, hmodified⟩ := hok
  unfold EventLoop.handleEvents
  dsimp only
  generalize (Event.handleEvents x.files x.revents (handler conn x)).2 = a
    at hout hupdated hmodified hreleased ⊢
  generalize (Event.handleEvents x.files x.revents (handler conn x)).1 = h'
    at hout hmodified hreleased ⊢
  obtain ⟨hkept, hunheld⟩ := h.handled hnow hc hreg h'
  have hself : (s.handled c conn h' now).connection c = some (afterHandlers conn h') :=
    Function.update_self ..
  have hint : (s.handled c conn h' now).interest conn.fd
      = (s.interest conn.fd).map Interest.report := Function.update_self ..
  have hothers : AttendedBut [c] (s.handled c conn h' now) := by
    intro fd' c' conn' hh h₁ hno
    have hcc : c' ≠ c := fun e => hno (List.mem_singleton.mpr e)
    have h₁' : s.connection c' = some conn' := (Function.update_of_ne hcc _ _).symm.trans h₁
    exact Attended.handled h hc hreg (ha fd' c' conn' hh h₁' List.not_mem_nil) hh hcc h'
  cases hout with
  | ignored hconn ht =>
    have hconn' : (afterHandlers conn h').http = conn.http := hconn
    obtain ⟨tm, htm⟩ := hat.timer
    refine hothers.of_singleton hkept hself ⟨⟨tm, ?_⟩, ?_, ?_, fun hw => ?_, fun _ => ?_⟩
    · exact holds_releaseTimer.mpr ⟨htm, fun e => absurd (ht.symm.trans e) Bool.false_ne_true⟩
    · rw [hconn']
      exact hat.connected
    · rw [hconn']
      exact hat.noError
    · rw [hconn'] at hw
      obtain ⟨m, hi, hout, hone⟩ := hat.pending hw
      refine ⟨m, hint.trans ?_, hout, hone⟩
      rw [hi, Option.map_some, Interest.report, hone]
      rfl
    · obtain ⟨i, hi, hm, harm⟩ := hat.report hr
      exact ⟨i, hint.trans hi, hm, harm⟩
  | @mod timeout ht he hs ho hw =>
    have hu := hunheld (hreleased _ rfl)
    obtain ⟨i, hi, hm, harm⟩ := hat.report hr
    exact hothers.epollMod hkept (fun timeout ok =>
      hkept.epollMod hu hreg (Nat.le_refl _) timeout ok)
      hreg ht he hs ho hw (hmodified timeout rfl) ⟨i, hint.trans hi, hm, harm⟩
  | leave => exact absurd rfl hupdated
  | delete => exact hothers.delete hkept hself ok

/-- **An event that leaves the update undone strands its connection**: it stays registered, and no
timer holds it. -/
theorem Kept.stranded {κ : Type*} [PageCache κ] (h : s.Kept) (hnow : s.now ≤ now)
    (hc : s.connection c = some conn) (hreg : s.httpConnections conn.fd = some c) {x : Exchange κ}
    (hleave : (Event.handleEvents x.files x.revents (handler conn x)).2 = some .leave) (ok : Bool) :
    (s.handleEvents c conn x now ok).httpConnections conn.fd = some c ∧
      ∀ tm, ¬ (s.handleEvents c conn x now ok).timerHeap.Holds tm c := by
  have hu := (h.handled hnow hc hreg _).2 (timerReleased_of_update hleave)
  unfold EventLoop.handleEvents
  dsimp only
  rw [hleave]
  exact ⟨hreg, hu.timer⟩

end Steps

/-! ## Every run -/

/-- **A registered connection that is not stranded**: a timer holds it, and as long as output is
left `epoll` watches for writing. -/
structure Tended (s : EventLoop Q) (c : ℕ) (conn : Connection) : Prop where
  timer : ∃ tm, s.timerHeap.Holds tm c
  output : conn.http.isError = false → conn.http.writeBuffer ≠ [] → ∃ i,
    s.interest conn.fd = some i ∧
    i.mask.epollOut = true ∧ i.armed = true

/-- No registered connection is stranded. -/
def AllTended (s : EventLoop Q) : Prop := ∀ fd c conn, s.httpConnections fd = some c →
  s.connection c = some conn → s.Tended c conn

/-- The condition on a step: every event rearms its connection. -/
def Rearmed {κ : Type*} [PageCache κ] (s : EventLoop Q) (a : ℕ × LoopEvent κ) : Prop :=
  match a.2 with
  | .handleEvents fd x ok => ∀ c conn, s.readyChannels fd = some c → s.connection c = some conn →
      Rearms conn x ok
  | _ => True

/-- What a run of such steps keeps. -/
def KeptAttended (s : EventLoop Q) : Prop := s.Kept ∧ AttendedBut [] s

/-- **One step that rearms what it handles.** -/
theorem KeptAttended.step {κ : Type*} [PageCache κ] {s s' : EventLoop Q} {a : ℕ × LoopEvent κ}
    (h : s.KeptAttended) (hs : guarded Rearmed Step s a s') : s'.KeptAttended := by
  obtain ⟨hok, hs⟩ := hs
  obtain ⟨hk, ha⟩ := h
  refine ⟨hk.step hs, ?_⟩
  cases hs with
  | register hnow hfd => exact ha.register hk _ _
  | handleEvents hnow hfd hc hx =>
    obtain ⟨conn, hc', hfd'⟩ := hk.http _ _ (hk.ready _ _ hfd)
    obtain rfl := Option.some.inj (hc.symm.trans hc')
    exact ha.handleEvents hk hnow (hfd' ▸ hfd) hc hx (hok _ _ hfd hc)
  | handleExpire hnow => exact ha.handleExpire hk hnow _

/-- **No connection is stranded**, in every run whose events rearm what they handle. -/
theorem tended_of_run {κ : Type*} [PageCache κ] {as : List (ℕ × LoopEvent κ)} {s : EventLoop Q}
    (r : Run (guarded Rearmed Step) init as s) : s.AllTended := by
  obtain ⟨hk, ha⟩ := r.invariant (I := KeptAttended) (fun _ _ _ h hs => h.step hs)
    ⟨kept_init, fun _ _ _ h => absurd h (by simp [init])⟩
  intro fd c conn hh hc
  obtain ⟨conn', hc', hfd⟩ := hk.http fd c hh
  obtain rfl := Option.some.inj (hc.symm.trans hc')
  have hat := ha fd c conn hh hc List.not_mem_nil
  refine ⟨hat.timer, fun _ hw => ?_⟩
  obtain ⟨m, hi, hout, -⟩ := hat.pending hw
  exact ⟨⟨m, true⟩, by rw [hfd]; exact hi, hout, rfl⟩

/-- A request whose answer does not fit the socket, with what the client sends after it. -/
def slowClient (after : List ReadResult) : Exchange Cache.LFUCache where
  revents := .EPOLLIN
  files _ := some ⟨.regular (text "x"), true⟩
  cache := Cache.LFUCache.init 10
  reads := .data (text "GET /a HTTP/1.1\r\nHost: h\r\n\r\n") :: after
  writes := [.accept 10, .again]

/-- The only connection of `oneConnection`. -/
def firstConnection (now : ℕ) : Connection where
  fd := 5
  http := { resourceDir := [] }
  events := kDefaultEvent
  lastEvents := kDefaultEvent
  timer := some 0
  granted := (now, kDefaultTimeOut)

theorem connection_oneConnection (now : ℕ) :
    (oneConnection now).connection 0 = some (firstConnection now) := rfl

theorem step_slowClient (after : List ReadResult) (now : ℕ)
    (hx : (Event.handleEvents (slowClient after).files (slowClient after).revents
      (handler (firstConnection now) (slowClient after))).1.fault = none) :
    Step (oneConnection now) (now, .handleEvents 5 (slowClient after) true)
      ((oneConnection now).handleEvents 0 (firstConnection now) (slowClient after) now true) :=
  .handleEvents (Nat.le_refl _) rfl (connection_oneConnection now) hx

/-- **A client that closes before it has read the answer** is stranded. -/
theorem not_tended_slowClient : ¬ ∀ (as : List (ℕ × LoopEvent Cache.LFUCache))
    (s : EventLoop (SortedList Timer.Timer.expireTime)), Run Step init as s → s.AllTended := by
  intro h
  have r₁ := Run.single (step_oneConnection (κ := Cache.LFUCache) 0)
  have hstep := step_slowClient [.data []] 0 (by decide)
  obtain ⟨hreg, hno⟩ := (kept_of_run r₁).stranded (Nat.le_refl _) (connection_oneConnection 0) rfl
    (x := slowClient [.data []]) (by decide) true
  obtain ⟨conn, hconn, -⟩ := ((kept_of_run r₁).step hstep).http _ _ hreg
  obtain ⟨tm, htm⟩ := (h _ _ (r₁.append (.single hstep)) _ _ _ hreg hconn).timer
  exact hno tm htm

/-- A client that stays is tended. -/
theorem tended_slowClient : ∃ (as : List (ℕ × LoopEvent Cache.LFUCache))
    (s : EventLoop (SortedList Timer.Timer.expireTime)), Run (guarded Rearmed Step) init as s ∧
    as.length = 2 ∧ s.httpConnections 5 = some 0 ∧ s.AllTended := by
  have hstep := step_slowClient [.again] 0 (by decide)
  have hok : Rearmed (oneConnection 0) (0, .handleEvents 5 (slowClient [.again]) true) := by
    intro c conn hr hc
    obtain rfl : 0 = c := Option.some.inj hr
    obtain rfl := Option.some.inj ((connection_oneConnection 0).symm.trans hc)
    exact ⟨.inl rfl, by decide, fun _ _ _ _ => rfl⟩
  have r : Run (guarded Rearmed Step) init [(0, .register 5 [] true),
      (0, .handleEvents 5 (slowClient [.again]) true)] _ :=
    .cons ⟨trivial, step_oneConnection 0⟩ (.single ⟨hok, hstep⟩)
  exact ⟨_, _, r, rfl, by decide, tended_of_run r⟩

end EventLoop

end WebServer.Event
