import WebServer.Lib.Monitor
import WebServer.Lib.RingBuffer
import WebServer.Lib.Run

/-!
# Thread/ThreadPool — the pool, its workers, and the one who destroys it

`Add`, `Destroy` and each look of a worker at the queue are critical sections.  A worker in
`pthread_cond_wait` may look again at any time, so a signal or a broadcast changes nothing by
itself.  The first of the two shutdown options has the value that `shutdown_` has from the start.
-/

namespace WebServer.Thread

/-- `kMaxThreadNum` -/
abbrev kMaxThreadNum : ℤ := 1024

/-- `kMaxQueueSize` -/
abbrev kMaxQueueSize : ℤ := 65535

/-- `THREAD_POOL_QUEUE_FULL` -/
abbrev threadPoolQueueFull : ℕ := 2

/-- `THREAD_POOL_SHUTDOWN` -/
abbrev threadPoolShutdown : ℕ := 3

/-- `ShutDownOption` -/
inductive ShutDownOption
  | immediateShutdown
  | gracefulShutdown
  deriving DecidableEq

/-- The values of the enumeration. -/
def ShutDownOption.value : ShutDownOption → ℕ
  | .immediateShutdown => 0
  | .gracefulShutdown => 1

/-- **`ThreadPool`**: the queue, and `shutdown_`.  A cell without a task is `none`. -/
structure ThreadPool (α : Type*) where
  queueSize : ℕ
  head : ℕ
  tail : ℕ
  count : ℕ
  shutdown : ℕ
  taskQueue : List (Option α)

/-- How many threads the constructor settles on. -/
def threadNumOf (n : ℤ) : ℕ := if n ≤ 0 ∨ n > kMaxThreadNum then 6 else n.toNat

/-- How many cells the constructor settles on. -/
def queueSizeOf (n : ℤ) : ℕ := if n ≤ 0 ∨ n > kMaxQueueSize then 1024 else n.toNat

theorem threadNumOf_pos (n : ℤ) : 0 < threadNumOf n := by
  unfold threadNumOf
  split <;> omega

theorem queueSizeOf_pos (n : ℤ) : 0 < queueSizeOf n := by
  unfold queueSizeOf
  split <;> omega

namespace ThreadPool

variable {α : Type*}

/-- `ThreadPool::ThreadPool` -/
def new (α : Type*) (size : ℤ) : ThreadPool α :=
  ⟨queueSizeOf size, 0, 0, 0, 0, .replicate (queueSizeOf size) none⟩

/-- **`Add`**, with its answer. -/
def add (p : ThreadPool α) (task : α) : ℕ × ThreadPool α :=
  let next := (p.tail + 1) % p.queueSize
  if p.count = p.queueSize then (threadPoolQueueFull, p)
  else if p.shutdown ≠ 0 then (threadPoolShutdown, p)
  else (0, { p with
    taskQueue := p.taskQueue.set p.tail (some task)
    tail := next
    count := p.count + 1 })

/-- What a worker finds in its critical section. -/
inductive Look (α : Type*)
  /-- It waits on `condition_`. -/
  | wait
  /-- It breaks out of its loop. -/
  | leave
  /-- It takes a task. -/
  | take (task : α) (p : ThreadPool α)
  /-- It takes a cell without a callback, which it cannot call. -/
  | fault

/-- **The critical section of `Run`.** -/
def look (p : ThreadPool α) : Look α :=
  if p.count = 0 ∧ p.shutdown = 0 then .wait
  else if p.shutdown = ShutDownOption.immediateShutdown.value ∨
      (p.shutdown = ShutDownOption.gracefulShutdown.value ∧ p.count = 0) then .leave
  else
    match p.taskQueue[p.head]? with
    | some (some task) => .take task { p with
        taskQueue := p.taskQueue.set p.head none
        head := (p.head + 1) % p.queueSize
        count := p.count - 1 }
    | _ => .fault

/-- **What `Add` does**: it answers an error and leaves the pool, or finds a free cell in a pool
that is not shut down. -/
theorem add_cases (p : ThreadPool α) (task : α) :
    ((p.add task).1 ≠ 0 ∧ (p.add task).2 = p) ∨
      (p.count ≠ p.queueSize ∧ p.shutdown = 0 ∧ p.add task = (0, { p with
        taskQueue := p.taskQueue.set p.tail (some task)
        tail := (p.tail + 1) % p.queueSize
        count := p.count + 1 })) := by
  unfold add
  split
  · exact .inl ⟨Nat.succ_ne_zero _, rfl⟩
  · next hfull =>
    split
    · exact .inl ⟨Nat.succ_ne_zero _, rfl⟩
    · next hs => exact .inr ⟨hfull, not_not.mp hs, rfl⟩

/-- **What a worker that takes a task leaves**; it does so only when `shutdown_` is set. -/
theorem eq_of_look_take {p p' : ThreadPool α} {task : α} (h : p.look = .take task p') :
    p.shutdown ≠ 0 ∧ p.taskQueue[p.head]? = some (some task) ∧ p' = { p with
      taskQueue := p.taskQueue.set p.head none
      head := (p.head + 1) % p.queueSize
      count := p.count - 1 } := by
  unfold look at h
  split at h
  · exact absurd h (by simp)
  · split at h
    · exact absurd h (by simp)
    · next hs =>
      split at h
      · next hcell =>
        obtain ⟨rfl, rfl⟩ := Look.take.inj h
        exact ⟨fun e => hs (.inl e), hcell, rfl⟩
      · exact absurd h (by simp)

end ThreadPool

/-! ## The system -/

/-- Where a worker is. -/
inductive Worker (α : Type*)
  /-- Before `mutex_`, or in the wait. -/
  | looking
  | running (task : α)
  /-- Out of its loop. -/
  | left

/-- Where the caller of `Destroy` is. -/
inductive Destroyer
  | idle
  | joining
  | returned

/-- **The pool, its workers and its destroyer.**  `accepted` are the tasks whose `Add` returned `0`,
`executed` those that have been called. -/
structure System (α : Type*) (n : ℕ) where
  pool : ThreadPool α
  worker : Fin n → Worker α
  destroyer : Destroyer
  /-- `Destroy` returned with an error, without `pthread_mutex_unlock`. -/
  mutexLost : Bool
  accepted : List α
  executed : List α

/-- The state after `Start`. -/
def System.init (α : Type*) (threads size : ℤ) : System α (threadNumOf threads) where
  pool := .new α size
  worker _ := .looking
  destroyer := .idle
  mutexLost := false
  accepted := []
  executed := []

/-- What happens next. -/
inductive Action (α : Type*) (n : ℕ)
  | add (task : α)
  | look (i : Fin n)
  | finish (i : Fin n)
  | destroy (option : ShutDownOption)
  | destroyAgain
  | destroyReturn

variable {α : Type*} {n : ℕ}

/-- **One step**: a critical section, the end of a task, or the end of `Destroy`. -/
inductive Step : System α n → Action α n → System α n → Prop
  | add {s : System α n} (task : α) (free : s.mutexLost = false) :
      Step s (.add task) { s with
        pool := (s.pool.add task).2
        accepted := if (s.pool.add task).1 = 0 then s.accepted ++ [task] else s.accepted }
  | wait {s : System α n} {i : Fin n} (free : s.mutexLost = false) (hi : s.worker i = .looking)
      (h : s.pool.look = .wait) : Step s (.look i) s
  | leave {s : System α n} {i : Fin n} (free : s.mutexLost = false) (hi : s.worker i = .looking)
      (h : s.pool.look = .leave) :
      Step s (.look i) { s with worker := Function.update s.worker i .left }
  | take {s : System α n} {i : Fin n} {task : α} {p : ThreadPool α} (free : s.mutexLost = false)
      (hi : s.worker i = .looking) (h : s.pool.look = .take task p) :
      Step s (.look i) { s with pool := p, worker := Function.update s.worker i (.running task) }
  | finish {s : System α n} {i : Fin n} {task : α} (hi : s.worker i = .running task) :
      Step s (.finish i) { s with
        worker := Function.update s.worker i .looking
        executed := s.executed ++ [task] }
  | destroy {s : System α n} (option : ShutDownOption) (free : s.mutexLost = false)
      (hd : s.destroyer = .idle) (h : s.pool.shutdown = 0) :
      Step s (.destroy option) { s with
        pool := { s.pool with shutdown := option.value }
        destroyer := .joining }
  | destroyAgain {s : System α n} (free : s.mutexLost = false) (h : s.pool.shutdown ≠ 0) :
      Step s .destroyAgain { s with mutexLost := true }
  | destroyReturn {s : System α n} (hd : s.destroyer = .joining) (h : ∀ i, s.worker i = .left) :
      Step s .destroyReturn { s with destroyer := .returned }

end WebServer.Thread
