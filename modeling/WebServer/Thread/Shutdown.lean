import WebServer.Thread.ThreadPool

/-!
# Thread/Shutdown — who can be left behind by `Destroy`

Here a thread that waits on `condition_` stays there until it is signalled, or woken for no reason.
`Destroy` broadcasts, gives `mutex_` back and joins the threads one after the other.  It gets stuck,
or leaves `mutex_` locked, in three ways: a call that finds `shutdown_` set returns without
unlocking; one that has joined all threads locks `mutex_` in `Free` and destroys it like that; and
an immediate shutdown of an empty queue changes nothing that the threads wait for.  In a run without
these nobody is left behind (`unstuck_run`).
-/

namespace WebServer.Thread

/-! ## What the critical sections do -/

namespace ThreadPool

variable {α : Type*} {p p' : ThreadPool α}

/-- `Add` sets nothing but the queue, and a task that is accepted is one more. -/
theorem add_frame (p : ThreadPool α) (task : α) :
    ((p.add task).1 = 0 ∧ (p.add task).2.shutdown = p.shutdown ∧
      (p.add task).2.count = p.count + 1) ∨ ((p.add task).1 ≠ 0 ∧ (p.add task).2 = p) := by
  obtain h | ⟨-, -, h⟩ := p.add_cases task
  · exact .inr h
  · rw [h]
    exact .inl ⟨rfl, rfl, rfl⟩

/-- A thread waits for a task or for `shutdown_`. -/
theorem look_eq_wait_iff : p.look = .wait ↔ p.count = 0 ∧ p.shutdown = 0 := by
  unfold look
  constructor
  · intro h
    split at h
    · assumption
    · split at h
      · exact absurd h (by simp)
      · split at h <;> exact absurd h (by simp)
  · intro h
    rw [if_pos h]

/-- A thread takes a task only when `shutdown_` is set. -/
theorem shutdown_of_look_take {task : α} (h : p.look = .take task p') :
    p.shutdown ≠ 0 ∧ p'.shutdown = p.shutdown := by
  obtain ⟨hs, -, rfl⟩ := eq_of_look_take h
  exact ⟨hs, rfl⟩

end ThreadPool

/-! ## The system -/

/-- Where a thread of the pool is. -/
inductive PoolThread (α : Type*)
  /-- Before `mutex_`: in front of its loop, or woken. -/
  | ready
  /-- On `condition_`. -/
  | waiting
  | running (task : α)
  /-- Out of its loop. -/
  | left
  deriving DecidableEq

/-- **The pool, its threads and the calls of `Destroy`.**  `joining` counts the calls that are in
`pthread_join`, `destroys` those that ever came there. -/
structure Crew (α : Type*) (n : ℕ) where
  pool : ThreadPool α
  startedThreadCount : ℕ
  thread : Fin n → PoolThread α
  joining : ℕ
  destroys : ℕ
  /-- A call has returned and left `mutex_` locked. -/
  mutexLocked : Bool

/-- The state after `Start`. -/
def Crew.init (α : Type*) (threads size : ℤ) : Crew α (threadNumOf threads) where
  pool := .new α size
  startedThreadCount := threadNumOf threads
  thread _ := .ready
  joining := 0
  destroys := 0
  mutexLocked := false

/-- A thread that is signalled. -/
def PoolThread.wake {α : Type*} : PoolThread α → PoolThread α
  | .waiting => .ready
  | t => t

theorem PoolThread.wake_ne_waiting {α : Type*} (t : PoolThread α) : t.wake ≠ .waiting := by
  cases t <;> nofun

/-- A thread that is not out counts. -/
def PoolThread.started {α : Type*} : PoolThread α → ℕ
  | .left => 0
  | _ => 1

theorem PoolThread.started_wake {α : Type*} (t : PoolThread α) : t.wake.started = t.started := by
  cases t <;> rfl

/-- What happens next. -/
inductive CrewAction (α : Type*) (n : ℕ)
  | add (task : α)
  | look (i : Fin n)
  | wake (i : Fin n)
  | finish (i : Fin n)
  | destroy (option : ShutDownOption)
  | destroyAgain
  | joined (failed : Bool)

variable {α : Type*} {n : ℕ}

namespace Crew

/-- The threads in `woken` are signalled. -/
def signal (s : Crew α n) (woken : Fin n → Bool) : Crew α n :=
  { s with thread := fun i => if woken i then (s.thread i).wake else s.thread i }

/-- `Destroy` sets `shutdown_`, broadcasts, and goes on to join the threads. -/
def beginDestroy (s : Crew α n) (option : ShutDownOption) : Crew α n :=
  { s with
    pool := { s.pool with shutdown := option.value }
    joining := s.joining + 1
    destroys := s.destroys + 1 }.signal fun _ => true

/-- **`Free`**, which is not called by two at once. -/
def free (s : Crew α n) : Crew α n :=
  if s.startedThreadCount > 0 then s else { s with mutexLocked := true }

/-- **One step.**  A signal wakes at least one of the threads that wait, and a broadcast all.  A
join can fail only when two calls join the same threads. -/
inductive Step : Crew α n → CrewAction α n → Crew α n → Prop
  | add {s : Crew α n} (task : α) (woken : Fin n → Bool) (free : s.mutexLocked = false)
      (added : (s.pool.add task).1 = 0)
      (signalled : (∃ i, s.thread i = .waiting) → ∃ i, s.thread i = .waiting ∧ woken i = true) :
      Step s (.add task) ({ s with pool := (s.pool.add task).2 }.signal woken)
  | refused {s : Crew α n} (task : α) (free : s.mutexLocked = false)
      (refused : (s.pool.add task).1 ≠ 0) :
      Step s (.add task) { s with pool := (s.pool.add task).2 }
  | wait {s : Crew α n} {i : Fin n} (free : s.mutexLocked = false) (hi : s.thread i = .ready)
      (h : s.pool.look = .wait) :
      Step s (.look i) { s with thread := Function.update s.thread i .waiting }
  | leave {s : Crew α n} {i : Fin n} (free : s.mutexLocked = false) (hi : s.thread i = .ready)
      (h : s.pool.look = .leave) : Step s (.look i) { s with
        thread := Function.update s.thread i .left
        startedThreadCount := s.startedThreadCount - 1 }
  | take {s : Crew α n} {i : Fin n} {task : α} {p : ThreadPool α} (free : s.mutexLocked = false)
      (hi : s.thread i = .ready) (h : s.pool.look = .take task p) :
      Step s (.look i) { s with pool := p, thread := Function.update s.thread i (.running task) }
  | wake {s : Crew α n} {i : Fin n} (hi : s.thread i = .waiting) :
      Step s (.wake i) { s with thread := Function.update s.thread i .ready }
  | finish {s : Crew α n} {i : Fin n} {task : α} (hi : s.thread i = .running task) :
      Step s (.finish i) { s with thread := Function.update s.thread i .ready }
  | destroy {s : Crew α n} (option : ShutDownOption) (free : s.mutexLocked = false)
      (h : s.pool.shutdown = 0) :
      Step s (.destroy option) (s.beginDestroy option)
  | destroyAgain {s : Crew α n} (free : s.mutexLocked = false) (h : s.pool.shutdown ≠ 0) :
      Step s .destroyAgain { s with mutexLocked := true }
  | joined {s : Crew α n} (free : s.mutexLocked = false) (hj : 0 < s.joining)
      (h : ∀ i, s.thread i = .left) :
      Step s (.joined false) { s with joining := s.joining - 1 }.free
  | joinFailed {s : Crew α n} (hj : 0 < s.joining) (h : ∀ i, s.thread i = .left)
      (two : 1 < s.destroys) : Step s (.joined true) { s with joining := s.joining - 1 }

/-! ## Nobody is left behind -/

/-- **Nothing is stuck**: `mutex_` is not left locked, and while a call of `Destroy` is in
`pthread_join`, no thread waits on `condition_`, where a signal would have to come, or for a
`mutex_` that is not given back. -/
structure Unstuck (s : Crew α n) : Prop where
  unlocked : s.mutexLocked = false
  signalled : 0 < s.joining → ∀ i, s.thread i ≠ .waiting
  unblocked : 0 < s.joining → s.mutexLocked = true → ∀ i, s.thread i ≠ .ready

/-- **The condition** on a step: `Destroy` does not find `shutdown_` set, it does not come to
`Free`, and an immediate shutdown finds a task in the queue. -/
def Allowed (s : Crew α n) : CrewAction α n → Prop
  | .destroy .immediateShutdown => s.pool.count ≠ 0
  | .destroyAgain => False
  | .joined false => False
  | _ => True

/-- **What an allowed step keeps**: `mutex_` is given back, and once a call of `Destroy` joins,
nothing makes a thread wait and none does. -/
structure Roused (s : Crew α n) : Prop where
  unlocked : s.mutexLocked = false
  awake : 0 < s.joining → (s.pool.shutdown ≠ 0 ∨ s.pool.count ≠ 0) ∧ ∀ i, s.thread i ≠ .waiting

theorem Roused.unstuck {s : Crew α n} (h : s.Roused) : s.Unstuck where
  unlocked := h.unlocked
  signalled hj := (h.awake hj).2
  unblocked _ hl := absurd (h.unlocked.symm.trans hl) Bool.false_ne_true

variable {s s' : Crew α n} {a : CrewAction α n}

/-- A signal makes no thread wait. -/
theorem signal_ne_waiting {woken : Fin n → Bool} {i : Fin n} (h : s.thread i ≠ .waiting) :
    (s.signal woken).thread i ≠ .waiting := by
  change (if woken i then (s.thread i).wake else s.thread i) ≠ .waiting
  split
  · exact PoolThread.wake_ne_waiting _
  · exact h

/-- A thread that goes somewhere else does not wait. -/
theorem update_ne_waiting {thread : Fin n → PoolThread α} {i : Fin n} {t : PoolThread α}
    (h : ∀ j, thread j ≠ .waiting) (ht : t ≠ .waiting) (j : Fin n) :
    Function.update thread i t j ≠ .waiting := by
  by_cases hj : j = i
  · rw [hj, Function.update_self]
    exact ht
  · rw [Function.update_of_ne hj]
    exact h j

/-- **An allowed step leaves nobody behind.** -/
theorem Roused.step (h : s.Roused) (ha : s.Allowed a) (hstep : Step s a s') : s'.Roused := by
  obtain ⟨hunlocked, hawake⟩ := h
  cases hstep with
  | add task woken free added signalled =>
    refine ⟨hunlocked, fun hj => ?_⟩
    obtain ⟨hpool, hthread⟩ := hawake hj
    obtain ⟨-, hs, hc⟩ | ⟨hne, -⟩ := s.pool.add_frame task
    · exact ⟨.inr (by change (s.pool.add task).2.count ≠ 0; omega),
        fun i => signal_ne_waiting (hthread i)⟩
    · exact absurd added hne
  | refused task free refused =>
    obtain ⟨h0, -⟩ | ⟨-, hp⟩ := s.pool.add_frame task
    · exact absurd h0 refused
    · rw [hp]
      exact ⟨hunlocked, hawake⟩
  | wait free hi h =>
    refine ⟨hunlocked, fun hj => ?_⟩
    obtain ⟨hc, hs⟩ := ThreadPool.look_eq_wait_iff.mp h
    obtain hs' | hc' := (hawake hj).1
    · exact absurd hs hs'
    · exact absurd hc hc'
  | leave free hi h =>
    exact ⟨hunlocked, fun hj => ⟨(hawake hj).1, update_ne_waiting (hawake hj).2 nofun⟩⟩
  | take free hi h =>
    obtain ⟨hs, hp⟩ := ThreadPool.shutdown_of_look_take h
    exact ⟨hunlocked, fun hj => ⟨.inl (hp ▸ hs), update_ne_waiting (hawake hj).2 nofun⟩⟩
  | wake hi =>
    exact ⟨hunlocked, fun hj => ⟨(hawake hj).1, update_ne_waiting (hawake hj).2 nofun⟩⟩
  | finish hi =>
    exact ⟨hunlocked, fun hj => ⟨(hawake hj).1, update_ne_waiting (hawake hj).2 nofun⟩⟩
  | destroy option free h =>
    refine ⟨hunlocked, fun _ => ⟨?_, fun i => PoolThread.wake_ne_waiting _⟩⟩
    cases option with
    | immediateShutdown => exact .inr ha
    | gracefulShutdown => exact .inl Nat.one_ne_zero
  | destroyAgain free h => exact absurd ha id
  | joined free hj h => exact absurd ha id
  | joinFailed hj h two => exact ⟨hunlocked, fun hj' => hawake hj⟩

theorem roused_init (threads size : ℤ) : (init α threads size).Roused :=
  ⟨rfl, fun h => absurd h (lt_irrefl 0)⟩

/-- **In a run of allowed steps nothing gets stuck**, in any state that it reaches. -/
theorem unstuck_run {threads size : ℤ} {as : List (CrewAction α (threadNumOf threads))}
    {s : Crew α (threadNumOf threads)}
    (h : Run (guarded Allowed Step) (init α threads size) as s) : s.Unstuck :=
  (h.invariant (fun _ _ _ hs hstep => hs.step hstep.1 hstep.2) (roused_init threads size)).unstuck

/-- One graceful shutdown, up to the joins. -/
theorem unstuck_graceful : ((init Unit 1 1).beginDestroy .gracefulShutdown).Unstuck := by
  have h : Run (guarded Allowed Step) (init Unit 1 1) [.destroy .gracefulShutdown]
      ((init Unit 1 1).beginDestroy .gracefulShutdown) := .single ⟨trivial, .destroy _ rfl rfl⟩
  exact unstuck_run h

/-- **A second call of `Destroy`** returns with `mutex_` locked, while the first one joins a thread
that waits for it. -/
theorem not_unstuck_twice : ¬ ∀ as (s : Crew Unit (threadNumOf 1)), Run Step (init Unit 1 1) as s →
    s.Unstuck :=
  fun h => (h [.destroy .gracefulShutdown, .destroyAgain] _ (.cons (.destroy _ rfl rfl)
    (.single (.destroyAgain rfl Nat.one_ne_zero)))).unblocked Nat.one_pos rfl ⟨0, by decide⟩ rfl

/-! ## The condition is needed -/

/-- **What every run keeps**: the count is that of the threads that are not out, and before a task
or a shutdown has come no thread is out or has a task. -/
structure Counted (s : Crew α n) : Prop where
  started : s.startedThreadCount = ∑ i, (s.thread i).started
  unasked : s.pool.count = 0 → s.pool.shutdown = 0 →
    ∀ i, s.thread i = .ready ∨ s.thread i = .waiting

theorem counted_init (threads size : ℤ) : (init α threads size).Counted where
  started := by simp [init, PoolThread.started]
  unasked _ _ _ := .inl rfl

/-- A thread that goes somewhere else. -/
theorem sum_started_update (thread : Fin n → PoolThread α) (i : Fin n) (t : PoolThread α) :
    ∑ j, (Function.update thread i t j).started + (thread i).started
      = ∑ j, (thread j).started + t.started :=
  Monitor.sum_update_add PoolThread.started thread i t

/-- Threads that are signalled count as before, and none of them goes out or gets a task. -/
theorem Counted.signal (h : s.Counted) (woken : Fin n → Bool) : (s.signal woken).Counted where
  started := by
    refine h.started.trans (Finset.sum_congr rfl fun i _ => ?_)
    change _ = (if woken i then (s.thread i).wake else s.thread i).started
    split
    · rw [PoolThread.started_wake]
    · rfl
  unasked hc hs i := by
    change (if woken i then (s.thread i).wake else s.thread i) = _ ∨
      (if woken i then (s.thread i).wake else s.thread i) = _
    obtain hi | hi := h.unasked hc hs i <;> rw [hi] <;> split <;> simp [PoolThread.wake]

/-- A thread that goes elsewhere and still counts. -/
theorem Counted.update (h : s.Counted) {i : Fin n} {t : PoolThread α}
    (ht : t.started = (s.thread i).started)
    (hasked : s.pool.count = 0 → s.pool.shutdown = 0 → t = .ready ∨ t = .waiting) :
    ({ s with thread := Function.update s.thread i t } : Crew α n).Counted where
  started := by
    have hsum := sum_started_update s.thread i t
    have hstarted := h.started
    change s.startedThreadCount = ∑ j, (Function.update s.thread i t j).started
    omega
  unasked hc hs j := by
    change Function.update s.thread i t j = _ ∨ Function.update s.thread i t j = _
    by_cases hj : j = i
    · rw [hj, Function.update_self]
      exact hasked hc hs
    · rw [Function.update_of_ne hj]
      exact h.unasked hc hs j

theorem Counted.step (h : s.Counted) (hstep : Step s a s') : s'.Counted := by
  cases hstep with
  | add task woken free added signalled =>
    obtain ⟨-, -, hc⟩ | ⟨hne, -⟩ := s.pool.add_frame task
    · have hadded : ({ s with pool := (s.pool.add task).2 } : Crew α n).Counted :=
        ⟨h.started, fun hc' => absurd (hc.symm.trans hc') (Nat.succ_ne_zero _)⟩
      exact hadded.signal woken
    · exact absurd added hne
  | refused task free refused =>
    obtain ⟨h0, -⟩ | ⟨-, hp⟩ := s.pool.add_frame task
    · exact absurd h0 refused
    · rw [hp]
      exact h
  | wait free hi hl => exact h.update (by rw [hi]; rfl) fun _ _ => .inr rfl
  | @leave i free hi hl =>
    have hsum := sum_started_update s.thread i .left
    have hstarted := h.started
    rw [hi] at hsum
    refine ⟨?_, fun hc hs => ?_⟩
    · change s.startedThreadCount - 1 = ∑ j, (Function.update s.thread i .left j).started
      change _ + 1 = _ + 0 at hsum
      omega
    · rw [ThreadPool.look_eq_wait_iff.mpr ⟨hc, hs⟩] at hl
      exact absurd hl (by simp)
  | @take i task p free hi hl =>
    obtain ⟨hs, hp⟩ := ThreadPool.shutdown_of_look_take hl
    have hkept := h.update (t := .running task) (by rw [hi]; rfl) fun _ hs' => absurd hs' hs
    exact ⟨hkept.started, fun _ hs' => absurd (hp.symm.trans hs') hs⟩
  | wake hi => exact h.update (by rw [hi]; rfl) fun _ _ => .inl rfl
  | finish hi => exact h.update (by rw [hi]; rfl) fun _ _ => .inl rfl
  | destroy option free hs =>
    have hset : ({ s with
        pool := { s.pool with shutdown := option.value }
        joining := s.joining + 1
        destroys := s.destroys + 1 } : Crew α n).Counted :=
      ⟨h.started, fun hc _ => h.unasked hc hs⟩
    exact hset.signal _
  | destroyAgain free hs => exact ⟨h.started, h.unasked⟩
  | joined free hj hl =>
    rw [Crew.free]
    split <;> exact ⟨h.started, h.unasked⟩
  | joinFailed hj hl two => exact ⟨h.started, h.unasked⟩

/-- **A step that is not allowed leaves somebody behind**, at once or one step later. -/
theorem exists_stuck {threads size : ℤ} {as : List (CrewAction α (threadNumOf threads))}
    {s s' : Crew α (threadNumOf threads)} {a : CrewAction α (threadNumOf threads)}
    (h : Run Step (init α threads size) as s) (hstep : Step s a s') (ha : ¬ s.Allowed a) :
    ∃ bs t, Run Step s' bs t ∧ ¬ t.Unstuck := by
  have hcounted := h.invariant (fun _ _ _ hs hstep => hs.step hstep) (counted_init threads size)
  cases hstep with
  | destroy option free hs =>
    cases option with
    | gracefulShutdown => exact absurd trivial ha
    | immediateShutdown =>
      have hc : s.pool.count = 0 := not_not.mp ha
      -- the first thread is woken, and waits again
      have hready : (s.beginDestroy .immediateShutdown).thread ⟨0, threadNumOf_pos threads⟩
          = .ready := by
        change (s.thread _).wake = _
        obtain hi | hi := hcounted.unasked hc hs ⟨0, threadNumOf_pos threads⟩ <;> rw [hi] <;> rfl
      have hwait : (s.beginDestroy .immediateShutdown).pool.look = .wait :=
        ThreadPool.look_eq_wait_iff.mpr ⟨hc, rfl⟩
      refine ⟨_, _, .single (.wait free hready hwait), fun hu => ?_⟩
      refine hu.signalled (Nat.succ_pos _) ⟨0, threadNumOf_pos threads⟩ ?_
      dsimp only
      exact Function.update_self ..
  | destroyAgain free hs =>
    exact ⟨_, _, .nil _, fun hu => absurd hu.unlocked (by simp)⟩
  | joined free hj hl =>
    have hnone : s.startedThreadCount = 0 := by
      rw [hcounted.started]
      exact Finset.sum_eq_zero fun i _ => by rw [hl]; rfl
    refine ⟨_, _, .nil _, fun hu => absurd hu.unlocked ?_⟩
    rw [Crew.free, if_neg (by simp [hnone])]
    simp
  | _ => exact absurd trivial ha

end Crew

end WebServer.Thread
