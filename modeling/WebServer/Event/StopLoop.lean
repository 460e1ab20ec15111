import WebServer.Event.WakeUp

/-!
# Event/StopLoop — a loop thread that is asked to stop

`Worker` publishes its loop before it enters `Loop`, and `Loop` begins with `is_stop_ = false`.  A
request that comes in between is forgotten, and the destructor waits for the thread for ever
(`exists_run_forgotten`).  A request that comes later is not: `is_stop_` stays true, `Poll` returns
at most once more, and the thread ends (`Kept.honoured`).
-/

namespace WebServer.Event.StopLoop

open WakeUp (EventFd Ready)

/-! ## The two threads -/

/-- Where the loop thread is, in `Worker` and in `Loop`. -/
inductive Worker
  /-- `Start` has not been called. -/
  | unstarted
  /-- Before `sub_loop_ = &event_loop`. -/
  | constructing
  /-- Before `is_looping_ = true`. -/
  | published
  /-- Before `is_stop_ = false`. -/
  | entering
  /-- Before the test of `is_stop_`. -/
  | testing
  /-- In `Poll`. -/
  | polling
  /-- In `HandleEvents`, of the first of these channels. -/
  | handling (ready : List Ready)
  /-- In `PerformPendingFunctions`. -/
  | performing
  /-- In `HandleExpire`. -/
  | expiring
  /-- Before `is_looping_ = false`. -/
  | leaving
  /-- Before `sub_loop_ = NULL`. -/
  | returning
  | finished

/-- Where the owner of the `EventLoopThread` is. -/
inductive Owner
  | created
  /-- In `StartLoop`, waiting for `sub_loop_`. -/
  | waiting
  /-- `StartLoop` has returned. -/
  | started
  /-- In `StopLoop`, before `is_stop_ = true`. -/
  | stopping
  /-- In `StopLoop`, before `WakeUp`. -/
  | waking
  /-- In `Join`. -/
  | joining
  | joined
  /-- The destructor found no loop. -/
  | skipped

/-- **An `EventLoopThread` and its loop.**  `rounds` counts how often `Poll` has returned since the
request. -/
structure LoopThread where
  subLoop : Bool
  isLooping : Bool
  isStop : Bool
  eventFd : EventFd
  worker : Worker
  owner : Owner
  rounds : ℕ

/-- `EventLoopThread::EventLoopThread` -/
def LoopThread.init : LoopThread where
  subLoop := false
  isLooping := false
  isStop := false
  eventFd := ⟨0, 0⟩
  worker := .unstarted
  owner := .created
  rounds := 0

/-- Who goes on. -/
inductive Action
  | worker
  | owner
  | other

/-- **One step** of the loop thread, of its owner, or of another thread that wakes the loop up. -/
inductive Step : LoopThread → Action → LoopThread → Prop
  | start {s : LoopThread} (h : s.owner = .created) (hw : s.worker = .unstarted) :
      Step s .owner { s with owner := .waiting, worker := .constructing }
  | publish {s : LoopThread} (h : s.worker = .constructing) :
      Step s .worker { s with worker := .published, subLoop := true }
  | startReturn {s : LoopThread} (h : s.owner = .waiting) (hl : s.subLoop = true) :
      Step s .owner { s with owner := .started }
  | enterLoop {s : LoopThread} (h : s.worker = .published) :
      Step s .worker { s with worker := .entering, isLooping := true }
  | reset {s : LoopThread} (h : s.worker = .entering) :
      Step s .worker { s with worker := .testing, isStop := false }
  | goOn {s : LoopThread} (h : s.worker = .testing) (hs : s.isStop = false) :
      Step s .worker { s with worker := .polling }
  /-- `Poll` returns; the wake-up channel is ready if there was a write after its last report. -/
  | poll {s : LoopThread} (ready : List Ready) (h : s.worker = .polling) (hne : ready ≠ [])
      (hw : .wakeup ∈ ready → 0 < s.eventFd.sinceReport) :
      Step s .worker { s with
        worker := .handling ready
        eventFd := if .wakeup ∈ ready then s.eventFd.report else s.eventFd
        rounds := s.rounds + 1 }
  | handle {s : LoopThread} {c : Ready} {ready : List Ready}
    (h : s.worker = .handling (c :: ready)) :
      Step s .worker { s with
        worker := .handling ready
        eventFd := if c = .wakeup then s.eventFd.read else s.eventFd }
  | perform {s : LoopThread} (h : s.worker = .handling []) :
      Step s .worker { s with worker := .performing }
  | performed {s : LoopThread} (h : s.worker = .performing) :
      Step s .worker { s with worker := .expiring }
  | expire {s : LoopThread} (h : s.worker = .expiring) :
      Step s .worker { s with worker := .testing }
  | stopped {s : LoopThread} (h : s.worker = .testing) (hs : s.isStop = true) :
      Step s .worker { s with worker := .leaving }
  | leave {s : LoopThread} (h : s.worker = .leaving) :
      Step s .worker { s with worker := .returning, isLooping := false }
  | return {s : LoopThread} (h : s.worker = .returning) :
      Step s .worker { s with worker := .finished, subLoop := false }
  | destroy {s : LoopThread} (h : s.owner = .started) :
      Step s .owner { s with owner := if s.subLoop then .stopping else .skipped }
  | stop {s : LoopThread} (h : s.owner = .stopping) :
      Step s .owner { s with owner := .waking, isStop := true, rounds := 0 }
  | wake {s : LoopThread} (h : s.owner = .waking) :
      Step s .owner { s with owner := .joining, eventFd := s.eventFd.write }
  | join {s : LoopThread} (h : s.owner = .joining) (hw : s.worker = .finished) :
      Step s .owner { s with owner := .joined }
  | other {s : LoopThread} : Step s .other { s with eventFd := s.eventFd.write }

/-! ## What is asked for -/

/-- `Loop` has executed `is_stop_ = false`. -/
def Worker.Entered : Worker → Prop
  | .unstarted | .constructing | .published | .entering => False
  | _ => True

/-- `StopLoop` has executed `is_stop_ = true`. -/
def Owner.Asked : Owner → Prop
  | .waking | .joining | .joined => True
  | _ => False

/-- **The loop thread ends** by its own steps. -/
def LoopThread.Ends (s : LoopThread) : Prop :=
  ∃ as t, Run Step s as t ∧ (∀ a ∈ as, a = .worker) ∧ t.worker = .finished

/-- **The request is not lost**: it stays set, `Poll` returns at most once more, a loop that blocks
has an unread write, and the thread that `Join` waits for can end. -/
structure LoopThread.Honoured (s : LoopThread) : Prop where
  isStop : s.owner.Asked → s.isStop = true
  rounds : s.owner.Asked → s.rounds ≤ 1
  awake : s.owner = .joining → s.worker = .polling → 0 < s.eventFd.sinceReport
  ends : s.owner = .joining → s.Ends

/-- **The loop is entered** when it is asked to stop. -/
def InLoop (s : LoopThread) (a : Action) : Prop :=
  a = .owner → s.owner = .stopping → s.worker.Entered

/-! ## What a run keeps -/

/-- No read of the `eventfd` is ahead. -/
def LoopThread.ReadDone (s : LoopThread) : Prop :=
  ∀ ready, s.worker = .handling ready → .wakeup ∉ ready

/-- **What every step keeps**, where the loop is entered when it is asked to stop. -/
structure LoopThread.Kept (s : LoopThread) : Prop where
  entered : s.owner.Asked → s.worker.Entered
  isStop : s.owner.Asked → s.isStop = true
  rounds : s.owner.Asked → s.rounds ≤ 1 ∧ (s.worker = .polling → s.rounds = 0)
  level : s.ReadDone → s.eventFd.Level
  awake : s.owner = .joining → s.worker = .polling → 0 < s.eventFd.sinceReport

theorem kept_init : LoopThread.init.Kept where
  entered := False.elim
  isStop := False.elim
  rounds := False.elim
  level _ := rfl
  awake := nofun

variable {s t : LoopThread} {a : Action} {as : List Action}

/-- No read is ahead where no channel is handled. -/
theorem LoopThread.Kept.level_of (k : s.Kept) {w : Worker} (h : s.worker = w)
    (hh : ∀ ready, w ≠ .handling ready) : s.eventFd.Level :=
  k.level fun ready hr => absurd (h.symm.trans hr) (hh ready)

/-- **The loop thread goes on**, and neither enters `Poll` nor handles a channel. -/
theorem LoopThread.Kept.advance (k : s.Kept) {w : Worker} (hl : s.eventFd.Level) (hw : w.Entered)
    (hp : w ≠ .polling) {b b' : Bool} :
    LoopThread.Kept { s with worker := w, isLooping := b, subLoop := b' } where
  entered _ := hw
  isStop := k.isStop
  rounds ha := ⟨(k.rounds ha).1, fun h => absurd h hp⟩
  level _ := hl
  awake _ h := absurd h hp

/-- **The loop thread starts**: nothing was asked for yet. -/
theorem LoopThread.Kept.begin (k : s.Kept) {w w' : Worker} (h : s.worker = w) (hw : ¬ w.Entered)
    (hp : w' ≠ .polling) {b b' b'' : Bool} (hl : s.eventFd.Level) :
    LoopThread.Kept { s with worker := w', isLooping := b, isStop := b', subLoop := b'' } := by
  have hno : ¬ s.owner.Asked := fun ha => hw (h ▸ k.entered ha)
  exact ⟨fun ha => absurd ha hno, fun ha => absurd ha hno, fun ha => absurd ha hno, fun _ => hl,
    fun _ hpoll => absurd hpoll hp⟩

/-- **The owner goes on**, and does not ask. -/
theorem LoopThread.Kept.ownerStep (k : s.Kept) {o : Owner} (ho : o.Asked → s.owner.Asked)
    (hj : o ≠ .joining) : LoopThread.Kept { s with owner := o } where
  entered ha := k.entered (ho ha)
  isStop ha := k.isStop (ho ha)
  rounds ha := k.rounds (ho ha)
  level := k.level
  awake h := absurd h hj

/-- A write to the `eventfd` leaves it unread. -/
theorem LoopThread.Kept.write (k : s.Kept) {o : Owner} (ho : o.Asked ↔ s.owner.Asked) :
    LoopThread.Kept { s with owner := o, eventFd := s.eventFd.write } where
  entered ha := k.entered (ho.mp ha)
  isStop ha := k.isStop (ho.mp ha)
  rounds ha := k.rounds (ho.mp ha)
  level hr := (k.level hr).write.1
  awake _ hp := (k.level_of hp nofun).write.2

/-- **One step keeps it**, if the loop is entered when it is asked to stop. -/
theorem LoopThread.Kept.step (k : s.Kept) (hin : InLoop s a) (h : Step s a t) : t.Kept := by
  cases h with
  | start h hw =>
    exact ⟨False.elim, False.elim, False.elim, fun _ => k.level_of hw nofun, nofun⟩
  | publish h | enterLoop h | reset h => exact k.begin h id (by nofun) (k.level_of h nofun)
  | startReturn h hl => exact k.ownerStep False.elim nofun
  | goOn h hs =>
    have hno : ¬ s.owner.Asked := fun ha => Bool.false_ne_true (hs.symm.trans (k.isStop ha))
    refine ⟨fun _ => trivial, fun ha => absurd ha hno, fun ha => absurd ha hno,
      fun _ => k.level_of h nofun, fun hj => absurd ?_ hno⟩
    rw [show s.owner = .joining from hj]
    trivial
  | poll ready h hne hw =>
    refine ⟨fun _ => trivial, k.isStop, fun ha => ⟨?_, nofun⟩, fun hr => ?_, fun _ => nofun⟩
    · rw [(k.rounds ha).2 h]
    · rw [if_neg (hr ready rfl)]
      exact k.level_of h nofun
  | @handle c ready h =>
    refine ⟨fun _ => trivial, k.isStop, fun ha => ⟨(k.rounds ha).1, nofun⟩, fun hr => ?_,
      fun _ => nofun⟩
    by_cases hc : c = .wakeup
    · rw [if_pos hc]
      exact EventFd.level_read s.eventFd
    · rw [if_neg hc]
      refine k.level fun r hr' => ?_
      injection h.symm.trans hr' with hcr
      rw [← hcr, List.mem_cons, not_or]
      exact ⟨fun e => hc e.symm, hr ready rfl⟩
  | perform h =>
    refine k.advance (k.level fun r hr => ?_) (by trivial) (by nofun)
    injection h.symm.trans hr with hnil
    rw [← hnil]
    exact List.not_mem_nil
  | performed h | expire h | stopped h _ | leave h | «return» h =>
    exact k.advance (k.level_of h nofun) (by trivial) (by nofun)
  | destroy h =>
    refine k.ownerStep (fun ha => ?_) ?_
    · split at ha <;> exact ha.elim
    · split <;> nofun
  | stop h =>
    refine ⟨fun _ => hin rfl h, fun _ => rfl, fun _ => ⟨Nat.zero_le _, fun _ => rfl⟩, k.level,
      nofun⟩
  | wake h => exact k.write (by rw [h]; exact Iff.rfl)
  | join h hw => exact k.ownerStep (fun _ => by rw [h]; trivial) nofun
  | other => exact k.write .rfl

/-! ## The loop thread ends -/

theorem ends_of_finished (h : s.worker = .finished) : s.Ends :=
  ⟨[], s, .nil s, fun _ ha => absurd ha List.not_mem_nil, h⟩

/-- One step more. -/
theorem ends_of_step (h : Step s .worker t) (ht : t.Ends) : s.Ends := by
  obtain ⟨as, u, r, has, hu⟩ := ht
  refine ⟨.worker :: as, u, .cons h r, fun a ha => ?_, hu⟩
  obtain rfl | ha := List.mem_cons.mp ha
  · rfl
  · exact has a ha

/-- From `is_looping_ = false` on. -/
theorem ends_of_leaving (h : s.worker = .leaving) : s.Ends :=
  ends_of_step (.leave h) (ends_of_step (.return rfl) (ends_of_finished rfl))

/-- From a test of `is_stop_` on. -/
theorem ends_of_testing (hs : s.isStop = true) (h : s.worker = .testing) : s.Ends :=
  ends_of_step (.stopped h hs) (ends_of_leaving rfl)

theorem ends_of_expiring (hs : s.isStop = true) (h : s.worker = .expiring) : s.Ends :=
  ends_of_step (.expire h) (ends_of_testing hs rfl)

theorem ends_of_performing (hs : s.isStop = true) (h : s.worker = .performing) : s.Ends :=
  ends_of_step (.performed h) (ends_of_expiring hs rfl)

/-- From the channels of a round on. -/
theorem ends_of_handling : ∀ {ready : List Ready} {s : LoopThread}, s.isStop = true →
    s.worker = .handling ready → s.Ends
  | [], _, hs, h => ends_of_step (.perform h) (ends_of_performing hs rfl)
  | _ :: _, _, hs, h => ends_of_step (.handle h) (ends_of_handling hs rfl)

/-- **A loop that was entered ends** once it is asked to, from wherever it stands. -/
theorem ends_of_isStop (hs : s.isStop = true) (he : s.worker.Entered)
    (hp : s.worker = .polling → 0 < s.eventFd.sinceReport) : s.Ends := by
  match h : s.worker with
  | .unstarted | .constructing | .published | .entering =>
    rw [h] at he
    exact he.elim
  | .testing => exact ends_of_testing hs h
  | .polling =>
    have hpoll := Step.poll [.wakeup] h (List.cons_ne_nil _ _) fun _ => hp h
    exact ends_of_step hpoll (ends_of_handling hs rfl)
  | .handling ready => exact ends_of_handling hs h
  | .performing => exact ends_of_performing hs h
  | .expiring => exact ends_of_expiring hs h
  | .leaving => exact ends_of_leaving h
  | .returning => exact ends_of_step (.return h) (ends_of_finished rfl)
  | .finished => exact ends_of_finished h

theorem LoopThread.Kept.honoured (k : s.Kept) : s.Honoured where
  isStop := k.isStop
  rounds ha := (k.rounds ha).1
  awake := k.awake
  ends hj := by
    have ha : s.owner.Asked := by
      rw [hj]
      trivial
    exact ends_of_isStop (k.isStop ha) (k.entered ha) (k.awake hj)

/-- **A request to a loop that was entered is not lost**, in every run: whatever the interleaving,
it stays set, and the loop thread ends after at most one more round. -/
theorem honoured_of_run (r : Run (guarded InLoop Step) .init as s) : s.Honoured :=
  (r.invariant (I := fun s : LoopThread => s.Kept) (fun _ _ _ k h => k.step h.1 h.2)
    kept_init).honoured

/-- A request that comes while the loop blocks, and the round that it causes. -/
theorem honoured_of_run_blocked : ∃ s : LoopThread,
    s.worker = .handling [.wakeup] ∧ s.owner = .joining ∧
    s.rounds = 1 ∧ s.Honoured := by
  have r : Run (guarded InLoop Step) .init [.owner, .worker, .owner, .worker, .worker, .worker,
      .owner, .owner, .owner, .worker] _ :=
    .cons ⟨nofun, .start rfl rfl⟩ <| .cons ⟨nofun, .publish rfl⟩ <|
      .cons ⟨nofun, .startReturn rfl rfl⟩ <| .cons ⟨nofun, .enterLoop rfl⟩ <|
      .cons ⟨nofun, .reset rfl⟩ <| .cons ⟨nofun, .goOn rfl rfl⟩ <|
      .cons ⟨nofun, .destroy rfl⟩ <| .cons ⟨fun _ _ => trivial, .stop rfl⟩ <|
      .cons ⟨nofun, .wake rfl⟩ <|
      .single ⟨nofun, .poll [.wakeup] rfl (List.cons_ne_nil _ _) fun _ => by decide⟩
  exact ⟨_, rfl, rfl, rfl, honoured_of_run r⟩

/-! ## A request that comes too early -/

/-- **A request before `is_stop_ = false` is cleared** by the next steps of the loop thread. -/
theorem exists_run_cleared (h : s.owner = .stopping)
    (hw : s.worker = .published ∨ s.worker = .entering) :
    ∃ as t, Run Step s (.owner :: as) t ∧ (∀ a ∈ as, a = .worker) ∧ t.owner.Asked ∧
      t.isStop = false := by
  obtain hw | hw := hw
  · refine ⟨[.worker, .worker], _, .cons (.stop h) (.cons (.enterLoop hw) (.single (.reset rfl))),
      fun a ha => ?_, trivial, rfl⟩
    simpa using ha
  · refine ⟨[.worker], _, .cons (.stop h) (.single (.reset hw)), fun a ha => ?_, trivial, rfl⟩
    simpa using ha

/-- **The destructor waits for a loop that has forgotten the request**, and that blocks with nothing
left to read. -/
theorem exists_run_forgotten : ∃ as s, Run Step .init as s ∧ s.owner = .joining ∧
    s.worker = .polling ∧ s.isStop = false ∧ s.eventFd = ⟨0, 0⟩ := by
  have r : Run Step .init [.owner, .worker, .owner, .owner, .owner, .worker, .worker, .owner,
    .worker,
      .worker, .worker, .worker, .worker, .worker, .worker] _ :=
    .cons (.start rfl rfl) <| .cons (.publish rfl) <| .cons (.startReturn rfl rfl) <|
      .cons (.destroy rfl) <| .cons (.stop rfl) <| .cons (.enterLoop rfl) <| .cons (.reset rfl) <|
      .cons (.wake rfl) <| .cons (.goOn rfl rfl) <|
      .cons (.poll [.wakeup] rfl (List.cons_ne_nil _ _) fun _ => by decide) <|
      .cons (.handle rfl) <| .cons (.perform rfl) <| .cons (.performed rfl) <|
      .cons (.expire rfl) <| .single (.goOn rfl rfl)
  exact ⟨_, _, r, rfl, rfl, rfl, rfl⟩

/-- **So a request may be lost.** -/
theorem not_honoured_of_run : ¬ ∀ (as : List Action) (s : LoopThread), Run Step .init as s →
    s.Honoured := by
  intro h
  obtain ⟨as, s, r, hj, -, hstop, -⟩ := exists_run_forgotten
  have hset := (h as s r).isStop (by rw [hj]; trivial)
  exact Bool.false_ne_true (hstop.symm.trans hset)

end WebServer.Event.StopLoop
