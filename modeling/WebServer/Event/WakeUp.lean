import WebServer.Lib.Run
import Mathlib.Algebra.Group.Nat.Defs
import Mathlib.Logic.Function.Basic

/-!
# Event/WakeUp — functions queued in a loop, and the `eventfd` that wakes it

`QueueInLoop` pushes under `mutex_` and then, unless the loop thread itself calls it from an event
handler, writes to the `eventfd`.  The loop reads the `eventfd` in one of its handlers, takes the
queued functions over afterwards, and calls them.  Any number of threads push and write in between;
`Attended` is what keeps the loop from sleeping over a queued function (`attended_of_run`).
-/

namespace WebServer.Event.WakeUp

/-! ## The `eventfd` -/

/-- The most an `eventfd` counts to. -/
abbrev maxCounter : ℕ := 2 ^ 64 - 2

/-- **An `eventfd`**: its counter, and the unread writes made after `epoll` last reported it. -/
structure EventFd where
  counter : ℕ
  sinceReport : ℕ

namespace EventFd

/-- `WakeUp`: a write of `1`; at the greatest count the kernel answers `EAGAIN`. -/
def write (e : EventFd) : EventFd :=
  if e.counter < maxCounter then ⟨e.counter + 1, e.sinceReport + 1⟩ else e

/-- `epoll` reports it. -/
def report (e : EventFd) : EventFd := { e with sinceReport := 0 }

/-- `EventLoop::HandleRead`: one read takes the whole count. -/
def read (_ : EventFd) : EventFd := ⟨0, 0⟩

/-- All unread writes were made after the last report. -/
def Level (e : EventFd) : Prop := e.sinceReport = e.counter

theorem level_read (e : EventFd) : e.read.Level := rfl

theorem Level.write {e : EventFd} (h : e.Level) : e.write.Level ∧ 0 < e.write.sinceReport := by
  unfold EventFd.write
  split
  · exact ⟨congrArg (· + 1) h, Nat.succ_pos _⟩
  · next hc => exact ⟨h, by rw [h]; exact Nat.lt_of_lt_of_le (by decide) (Nat.le_of_not_lt hc)⟩

end EventFd

/-! ## The loop and the threads -/

/-- A channel that `Poll` returns: the wake-up channel, or another one. -/
inductive Ready
  | wakeup
  | other
  deriving DecidableEq

/-- Where the loop thread is. -/
inductive Position (F : Type*)
  /-- Before `epoll_wait`, or in it. -/
  | polling
  /-- In `HandleEvents`, of the first of these channels. -/
  | handling (ready : List Ready)
  /-- In `PerformPendingFunctions`, before the swap. -/
  | swapping
  /-- Before the call of the first of these functions. -/
  | performing (functions : List F)
  /-- In a function, with these still to be called. -/
  | calling (functions : List F)
  /-- In `HandleExpire`. -/
  | expiring
  /-- Out of `Loop`. -/
  | stopped

/-- **A loop and the threads that queue functions in it.**  `pushed` are the functions in the order
in which they were pushed, `executed` those called so far. -/
structure Loop (F T : Type*) where
  pendingFunctions : List F
  isCallingPendingFunctions : Bool
  isStop : Bool
  eventFd : EventFd
  position : Position F
  /-- The loop thread is between its push and its write. -/
  selfWaking : Bool
  /-- Another thread is between its push and its write. -/
  waking : T → Bool
  pushed : List F
  executed : List F

/-- A loop before its first `epoll_wait`. -/
def Loop.init (F T : Type*) : Loop F T where
  pendingFunctions := []
  isCallingPendingFunctions := false
  isStop := false
  eventFd := ⟨0, 0⟩
  position := .polling
  selfWaking := false
  waking _ := false
  pushed := []
  executed := []

/-- The functions taken over and not yet called. -/
def Position.functions {F : Type*} : Position F → List F
  | .performing fs | .calling fs => fs
  | _ => []

/-- Where the loop thread runs code that can call `QueueInLoop`: an event handler or a pending
function. -/
def Position.RunsHandlers {F : Type*} : Position F → Prop
  | .handling _ | .calling _ => True
  | _ => False

variable {F T : Type*}

/-- What happens next. -/
inductive Action (F T : Type*)
  | push (t : T) (f : F)
  | write (t : T)
  | stop
  | pushSelf (f : F)
  | writeSelf
  | loop

/-- **One step** of the loop thread or of another one. -/
inductive Step [DecidableEq T] : Loop F T → Action F T → Loop F T → Prop
  | push {s : Loop F T} (t : T) (f : F) (h : s.waking t = false) :
      Step s (.push t f) { s with
        pendingFunctions := s.pendingFunctions ++ [f]
        pushed := s.pushed ++ [f]
        waking := Function.update s.waking t true }
  | write {s : Loop F T} {t : T} (h : s.waking t = true) :
      Step s (.write t) { s with
        eventFd := s.eventFd.write
        waking := Function.update s.waking t false }
  | stop {s : Loop F T} : Step s .stop { s with isStop := true, eventFd := s.eventFd.write }
  | pushSelf {s : Loop F T} (f : F) (h : s.position.RunsHandlers) (hw : s.selfWaking = false) :
      Step s (.pushSelf f) { s with
        pendingFunctions := s.pendingFunctions ++ [f]
        pushed := s.pushed ++ [f]
        selfWaking := s.isCallingPendingFunctions }
  | writeSelf {s : Loop F T} (h : s.selfWaking = true) :
      Step s .writeSelf { s with eventFd := s.eventFd.write, selfWaking := false }
  /-- `Poll` returns; `HandleEvents` resets the wake-up channel's report. -/
  | poll {s : Loop F T} (ready : List Ready) (h : s.position = .polling) (hne : ready ≠ []) :
      Step s .loop { s with
        position := .handling ready
        eventFd := if .wakeup ∈ ready then s.eventFd.report else s.eventFd }
  | handle {s : Loop F T} {c : Ready} {ready : List Ready} (h : s.position = .handling (c :: ready))
      (hw : s.selfWaking = false) :
      Step s .loop { s with
        position := .handling ready
        eventFd := if c = .wakeup then s.eventFd.read else s.eventFd }
  | perform {s : Loop F T} (h : s.position = .handling []) (hw : s.selfWaking = false) :
      Step s .loop { s with position := .swapping, isCallingPendingFunctions := true }
  | swap {s : Loop F T} (h : s.position = .swapping) :
      Step s .loop { s with position := .performing s.pendingFunctions, pendingFunctions := [] }
  | call {s : Loop F T} {f : F} {fs : List F} (h : s.position = .performing (f :: fs)) :
      Step s .loop { s with position := .calling fs, executed := s.executed ++ [f] }
  | return {s : Loop F T} {fs : List F} (h : s.position = .calling fs) (hw : s.selfWaking = false) :
      Step s .loop { s with position := .performing fs }
  | performed {s : Loop F T} (h : s.position = .performing []) :
      Step s .loop { s with position := .expiring, isCallingPendingFunctions := false }
  | expire {s : Loop F T} (h : s.position = .expiring) :
      Step s .loop { s with position := if s.isStop then .stopped else .polling }

/-! ## The invariant -/

/-- Somebody is between a push and a write. -/
def Loop.Waking (s : Loop F T) : Prop := s.selfWaking = true ∨ ∃ t, s.waking t = true

/-- The queued functions are taken over before the loop blocks again. -/
def Loop.SwapAhead (s : Loop F T) : Prop :=
  s.position = .swapping ∨ ∃ ready, s.position = .handling ready

/-- **The loop is attended to**: the functions are where they were pushed to; the loop writes for
itself only while it calls functions; the report of the `eventfd` is followed by a read; and a
queued function is ahead of a swap, of a write, or of an unread write. -/
structure Loop.Attended (s : Loop F T) : Prop where
  order : s.executed ++ s.position.functions ++ s.pendingFunctions = s.pushed
  calling : s.isCallingPendingFunctions = true ↔
    s.position = .swapping ∨ (∃ fs, s.position = .performing fs) ∨ ∃ fs, s.position = .calling fs
  self : s.selfWaking = true → ∃ fs, s.position = .calling fs
  level : (∀ ready, s.position = .handling ready → .wakeup ∉ ready) → s.eventFd.Level
  attended : s.pendingFunctions ≠ [] → s.SwapAhead ∨ s.Waking ∨ 0 < s.eventFd.sinceReport

theorem attended_init : (Loop.init F T).Attended where
  order := rfl
  calling := ⟨nofun, by rintro (h | ⟨_, h⟩ | ⟨_, h⟩) <;> exact absurd h nofun⟩
  self := nofun
  level _ := rfl
  attended h := absurd rfl h

variable {s t : Loop F T} {a : Action F T} {as : List (Action F T)}

/-- No read of the `eventfd` is ahead. -/
def Loop.ReadDone (s : Loop F T) : Prop := ∀ ready, s.position = .handling ready → .wakeup ∉ ready

theorem readDone_or_swapAhead (s : Loop F T) : s.ReadDone ∨ s.SwapAhead := by
  by_cases h : s.SwapAhead
  · exact .inr h
  · exact .inl fun ready hp => absurd (.inr ⟨ready, hp⟩) h

/-- While functions are called, and until the loop blocks again, no swap is ahead. -/
theorem not_swapAhead {p : Position F} (h : s.position = p) (hs : p ≠ .swapping)
    (hh : ∀ ready, p ≠ .handling ready) : ¬ s.SwapAhead := by
  rintro (hp | ⟨ready, hp⟩)
  · exact hs (h.symm.trans hp)
  · exact hh ready (h.symm.trans hp)

/-- **A write** leaves an unread write, unless a swap is ahead. -/
theorem Loop.Attended.write (h : s.Attended) : s.SwapAhead ∨ 0 < s.eventFd.write.sinceReport :=
  (readDone_or_swapAhead s).symm.imp_right fun hr => (h.level hr).write.2

/-- Nothing but the loop thread changes: what is kept of the loop thread is kept. -/
theorem Loop.Attended.of_position (h : s.Attended) (hp : t.position = s.position)
    (hc : t.isCallingPendingFunctions = s.isCallingPendingFunctions)
    (ho : t.executed ++ s.position.functions ++ t.pendingFunctions = t.pushed)
    (hself : t.selfWaking = true → ∃ fs, s.position = .calling fs)
    (hl : s.eventFd.Level → t.eventFd.Level)
    (ha : t.pendingFunctions ≠ [] → s.SwapAhead ∨ t.Waking ∨ 0 < t.eventFd.sinceReport) :
    t.Attended where
  order := by rw [hp]; exact ho
  calling := by rw [hc, hp]; exact h.calling
  self := by rw [hp]; exact hself
  level hr := hl (h.level (by rw [← hp]; exact hr))
  attended hne := by rw [Loop.SwapAhead, hp]; exact ha hne

/-- The loop thread is not between a push and a write while it calls no function. -/
theorem Loop.Attended.not_selfWaking (h : s.Attended) {p : Position F} (hp : s.position = p)
    (hc : ∀ fs, p ≠ .calling fs) : ¬ s.selfWaking = true := by
  intro hw
  obtain ⟨fs, hfs⟩ := h.self hw
  exact hc fs (hp.symm.trans hfs)

/-- No read is ahead when no channel is handled. -/
theorem Loop.Attended.level_of (h : s.Attended) {p : Position F} (hp : s.position = p)
    (hh : ∀ ready, p ≠ .handling ready) : s.eventFd.Level :=
  h.level fun ready hr => absurd (hp.symm.trans hr) (hh ready)

/-- **The loop thread goes on** between the swap and the next `epoll_wait`: what is queued and who
is to write stays. -/
theorem Loop.Attended.advance (h : s.Attended) {p : Position F} (hp : s.position = p)
    (hs : p ≠ .swapping) (hh : ∀ ready, p ≠ .handling ready)
    (hpending : t.pendingFunctions = s.pendingFunctions) (hfd : t.eventFd = s.eventFd)
    (hwaking : t.Waking ↔ s.Waking)
    (ho : t.executed ++ t.position.functions ++ t.pendingFunctions = t.pushed)
    (hc : t.isCallingPendingFunctions = true ↔ t.position = .swapping ∨
      (∃ fs, t.position = .performing fs) ∨ ∃ fs, t.position = .calling fs)
    (hself : t.selfWaking = true → ∃ fs, t.position = .calling fs) : t.Attended where
  order := ho
  calling := hc
  self := hself
  level _ := hfd ▸ h.level_of hp hh
  attended hne := by
    rw [hwaking, hfd]
    exact .inr ((h.attended (hpending ▸ hne)).resolve_left (not_swapAhead hp hs hh))

/-- **The loop thread queues a function itself**: in a handler the swap is ahead, and in a function
it writes afterwards. -/
theorem Loop.Attended.pushSelf (h : s.Attended) (f : F) (hr : s.position.RunsHandlers) :
    Loop.Attended { s with
      pendingFunctions := s.pendingFunctions ++ [f]
      pushed := s.pushed ++ [f]
      selfWaking := s.isCallingPendingFunctions } := by
  refine h.of_position rfl rfl ?_ (fun hc => ?_) id fun _ => ?_
  · rw [← List.append_assoc, h.order]
  · rcases h.calling.mp hc with hp | ⟨fs, hp⟩ | hp
    · rw [hp] at hr
      exact hr.elim
    · rw [hp] at hr
      exact hr.elim
    · exact hp
  · cases hp : s.position with
    | handling ready => exact .inl (.inr ⟨ready, hp⟩)
    | calling fs => exact .inr (.inl (.inl (h.calling.mpr (.inr (.inr ⟨fs, hp⟩)))))
    | polling | swapping | performing _ | expiring | stopped =>
      rw [hp] at hr
      exact hr.elim

/-- **`Poll` returns**: the report of the `eventfd` has its read ahead. -/
theorem Loop.Attended.poll (h : s.Attended) (ready : List Ready) (hp : s.position = .polling) :
    Loop.Attended { s with
      position := .handling ready
      eventFd := if .wakeup ∈ ready then s.eventFd.report else s.eventFd } := by
  have horder := h.order
  rw [hp] at horder
  refine ⟨horder, ?_, fun hw => absurd hw (h.not_selfWaking hp nofun), fun hr => ?_,
    fun _ => .inl (.inr ⟨ready, rfl⟩)⟩
  · rw [h.calling, hp]
    simp
  · rw [if_neg (hr ready rfl)]
    exact h.level_of hp nofun

/-- **A channel is handled**: the wake-up channel reads what was reported. -/
theorem Loop.Attended.handle (h : s.Attended) {c : Ready} {ready : List Ready}
    (hp : s.position = .handling (c :: ready)) (hw : s.selfWaking = false) :
    Loop.Attended { s with
      position := .handling ready
      eventFd := if c = .wakeup then s.eventFd.read else s.eventFd } := by
  have horder := h.order
  rw [hp] at horder
  refine ⟨horder, ?_, fun hc => absurd (hw.symm.trans hc) nofun, fun hr => ?_,
    fun _ => .inl (.inr ⟨ready, rfl⟩)⟩
  · rw [h.calling, hp]
    simp
  · by_cases hc : c = .wakeup
    · rw [if_pos hc]
      exact EventFd.level_read s.eventFd
    · rw [if_neg hc]
      refine h.level fun r hp' => ?_
      injection hp.symm.trans hp' with hcr
      rw [← hcr, List.mem_cons, not_or]
      exact ⟨fun e => hc e.symm, hr ready rfl⟩

/-- **The last channel is handled**, and the swap comes next. -/
theorem Loop.Attended.perform (h : s.Attended) (hp : s.position = .handling [])
    (hw : s.selfWaking = false) :
    Loop.Attended { s with position := .swapping, isCallingPendingFunctions := true } := by
  have horder := h.order
  rw [hp] at horder
  refine ⟨horder, ⟨fun _ => .inl rfl, fun _ => rfl⟩, fun hc => absurd (hw.symm.trans hc) nofun,
    fun _ => h.level fun r hp' => ?_, fun _ => .inl (.inl rfl)⟩
  injection hp.symm.trans hp' with hcr
  rw [← hcr]
  exact List.not_mem_nil

/-- **The swap** takes over what is queued. -/
theorem Loop.Attended.swap (h : s.Attended) (hp : s.position = .swapping) :
    Loop.Attended { s with
      position := .performing s.pendingFunctions
      pendingFunctions := [] } := by
  refine ⟨?_, ⟨fun _ => .inr (.inl ⟨_, rfl⟩), fun _ => h.calling.mpr (.inl hp)⟩,
    fun hw => absurd hw (h.not_selfWaking hp nofun), fun _ => h.level_of hp nofun,
    fun hne => absurd rfl hne⟩
  have horder := h.order
  rw [hp] at horder
  simpa [Position.functions] using horder

/-- **The end of a round.** -/
theorem Loop.Attended.expire (h : s.Attended) (hp : s.position = .expiring) :
    Loop.Attended { s with position := if s.isStop then .stopped else .polling } := by
  have hnc : ¬ s.isCallingPendingFunctions = true := by
    rw [h.calling, hp]
    simp
  have horder := h.order
  rw [hp] at horder
  refine h.advance hp nofun nofun rfl rfl .rfl ?_ ?_
    fun hw => absurd hw (h.not_selfWaking hp nofun)
  · dsimp only
    split <;> exact horder
  · dsimp only
    split <;> simp [hnc]

theorem Loop.Attended.step [DecidableEq T] (h : s.Attended) (hs : Step s a t) : t.Attended := by
  have horder := h.order
  cases hs with
  | push t f ht =>
    refine h.of_position rfl rfl ?_ h.self id fun _ =>
      .inr (.inl (.inr ⟨t, Function.update_self ..⟩))
    rw [← List.append_assoc, horder]
  | write ht =>
    refine h.of_position rfl rfl horder h.self (fun hl => hl.write.1) fun _ => ?_
    exact h.write.imp_right .inr
  | stop =>
    refine h.of_position rfl rfl horder h.self (fun hl => hl.write.1) fun _ => ?_
    exact h.write.imp_right .inr
  | pushSelf f hr hw => exact h.pushSelf f hr
  | writeSelf hw =>
    refine h.of_position rfl rfl horder nofun (fun hl => hl.write.1) fun _ => ?_
    exact h.write.imp_right .inr
  | poll ready hp hne => exact h.poll ready hp
  | handle hp hw => exact h.handle hp hw
  | perform hp hw => exact h.perform hp hw
  | swap hp => exact h.swap hp
  | @call f fs hp =>
    refine h.advance hp nofun nofun rfl rfl .rfl ?_
      ⟨fun _ => .inr (.inr ⟨_, rfl⟩), fun _ => h.calling.mpr (.inr (.inl ⟨_, hp⟩))⟩ fun _ =>
        ⟨_, rfl⟩
    rw [hp] at horder
    simpa [Position.functions] using horder
  | @«return» fs hp hw =>
    rw [hp] at horder
    exact h.advance hp nofun nofun rfl rfl .rfl horder
      ⟨fun _ => .inr (.inl ⟨_, rfl⟩), fun _ => h.calling.mpr (.inr (.inr ⟨_, hp⟩))⟩
      fun hc => absurd (hw.symm.trans hc) nofun
  | performed hp =>
    rw [hp] at horder
    refine h.advance hp nofun nofun rfl rfl .rfl horder ⟨nofun, ?_⟩
      fun hw => absurd hw (h.not_selfWaking hp nofun)
    rintro (h | ⟨_, h⟩ | ⟨_, h⟩) <;> exact absurd h nofun
  | expire hp => exact h.expire hp

/-- **No function is lost, and the loop does not sleep over one** — in every run, the functions
called so far are the first ones pushed, in their order, and the others are still taken over or
queued; and when the loop is about to block while a function is queued, the `eventfd` has an unread
write made after its last report, or a thread is between its push and its write. -/
theorem attended_of_run [DecidableEq T] (r : Run Step (.init F T) as s) :
    s.executed ++ s.position.functions ++ s.pendingFunctions = s.pushed ∧
      (s.position = .polling → s.pendingFunctions ≠ [] →
        (0 < s.eventFd.sinceReport ∧ s.eventFd.sinceReport ≤ s.eventFd.counter) ∨
          ∃ t, s.waking t = true) := by
  have h := r.invariant (I := fun s : Loop F T => s.Attended) (fun _ _ _ h hs => h.step hs)
    attended_init
  refine ⟨h.order, fun hp hne => ?_⟩
  have hlevel : s.eventFd.Level := h.level fun _ hp' => absurd (hp.symm.trans hp') nofun
  rcases h.attended hne with (hs | ⟨_, hs⟩) | (hw | hw) | hw
  · exact absurd (hp.symm.trans hs) nofun
  · exact absurd (hp.symm.trans hs) nofun
  · obtain ⟨fs, hc⟩ := h.self hw
    exact absurd (hp.symm.trans hc) nofun
  · exact .inr hw
  · exact .inl ⟨hw, hlevel.le⟩

/-- A function pushed by another thread while the loop handles an event, and its write. -/
theorem attended_push : ∃ s : Loop ℕ Unit, s.pendingFunctions = [5] ∧ s.position = .polling ∧
    ((0 < s.eventFd.sinceReport ∧ s.eventFd.sinceReport ≤ s.eventFd.counter) ∨
      ∃ t, s.waking t = true) := by
  have r : Run Step (.init ℕ Unit) [.loop, .loop, .loop, .loop, .push () 5, .loop, .write (),
    .loop] _ :=
    .cons (.poll [.other] rfl nofun) <| .cons (.handle rfl rfl) <| .cons (.perform rfl rfl) <|
      .cons (.swap rfl) <| .cons (.push () 5 rfl) <| .cons (.performed rfl) <|
      .cons (.write rfl) <| .cons (.expire rfl) <| .nil _
  exact ⟨_, rfl, rfl, (attended_of_run r).2 rfl nofun⟩

end WebServer.Event.WakeUp
