import WebServer.Thread.Completion

/-!
# Thread/TaskRing — `task_queue_` is first in, first out

The ring as `Add` and `Run` work on it: `int` indices, C remainders, and cells that hold a `Task`
whether or not it is pending.  Every critical section of the ring is one of the `ThreadPool` it is
read off (`enqueue_ofPool`, `run_ofPool`), whose cells hold a queue; so what was enqueued is what
was dequeued and then that queue, in any order of the critical sections (`isFifo_performAll`).
-/

namespace WebServer.Thread

/-! ## The ring -/

/-- `THREAD_POOL_LOCK_FAILURE` -/
abbrev threadPoolLockFailure : ℕ := 1

/-- **`Task`**; either member may be null. -/
structure Task (C A : Type*) where
  callback : Option C
  args : Option A
  deriving DecidableEq

/-- A `Task` as it is built, and as `Run` leaves it. -/
def Task.null {C A : Type*} : Task C A := ⟨none, none⟩

/-- **The members of `ThreadPool`** that are behind `mutex_`. -/
structure TaskRing (C A : Type*) where
  queueSize : ℤ
  head : ℤ
  tail : ℤ
  count : ℤ
  shutdown : ℤ
  taskQueue : List (Task C A)

/-- What a worker comes to in a critical section of `Run`. -/
inductive Turn (C A : Type*)
  /-- It waits on `condition_`. -/
  | wait
  /-- It breaks out of its loop. -/
  | leave
  | take (task : Task C A) (ring : TaskRing C A)

namespace TaskRing

variable {C A : Type*}

/-- A ring of `size` cells, as the constructor leaves it. -/
def new (C A : Type*) (size : ℕ) : TaskRing C A :=
  ⟨size, 0, 0, 0, 0, .replicate size .null⟩

/-- The `do` of `Add` up to the signal: its error, or the ring with the task. -/
def enqueue (r : TaskRing C A) (task : Task C A) : Except ℕ (TaskRing C A) :=
  let next := (r.tail + 1).tmod r.queueSize
  if r.count = r.queueSize then .error threadPoolQueueFull
  else if r.shutdown ≠ 0 then .error threadPoolShutdown
  else .ok { r with
    taskQueue := r.taskQueue.set r.tail.toNat task
    tail := next
    count := r.count + 1 }

/-- **`Add`** once it has the lock, with its answer.  A task stays in the ring when the signal
fails. -/
def add (r : TaskRing C A) (task : Task C A) (signalFails unlockFails : Bool) :
    ℕ × TaskRing C A :=
  let (isError, ring) := match r.enqueue task with
    | .error e => (e, r)
    | .ok ring => (if signalFails then threadPoolLockFailure else 0, ring)
  (if unlockFails then threadPoolLockFailure else isError, ring)

/-- **The critical section of `Run`.** -/
def run (r : TaskRing C A) : Turn C A :=
  if r.count = 0 ∧ r.shutdown = 0 then .wait
  else if r.shutdown = ShutDownOption.immediateShutdown.value ∨
      (r.shutdown = ShutDownOption.gracefulShutdown.value ∧ r.count = 0) then .leave
  else .take (r.taskQueue.getD r.head.toNat .null) { r with
    taskQueue := r.taskQueue.set r.head.toNat .null
    head := (r.head + 1).tmod r.queueSize
    count := r.count - 1 }

/-- **The indices agree.** -/
structure InRange (r : TaskRing C A) : Prop where
  count : 0 ≤ r.count ∧ r.count ≤ r.queueSize
  head : 0 ≤ r.head ∧ r.head < r.queueSize
  tail : 0 ≤ r.tail ∧ r.tail < r.queueSize
  tail_eq : r.tail = (r.head + r.count).tmod r.queueSize

/-- **A pending slot**, one of the `count_` cells from `head_` on. -/
def Pending (r : TaskRing C A) (slot : ℤ) : Prop :=
  ∃ i, 0 ≤ i ∧ i < r.count ∧ slot = (r.head + i).tmod r.queueSize

/-- `task_queue_[slot]` -/
def cell (r : TaskRing C A) (slot : ℤ) : Option (Task C A) := r.taskQueue[slot.toNat]?

end TaskRing

/-! ## The critical sections -/

/-- **A critical section**, of a caller of `Add`, of any worker, or of one who sets `shutdown_`. -/
inductive CriticalSection (W C A : Type*)
  | add (task : Task C A) (signalFails unlockFails : Bool)
  | run (worker : W)
  | shutdown (option : ShutDownOption)

/-- **The ring and what went through it**: the tasks that `Add` enqueued and those that `Run`
dequeued, in order. -/
structure History (C A : Type*) where
  ring : TaskRing C A
  enqueued : List (Task C A)
  dequeued : List (Task C A)

namespace History

variable {W C A : Type*}

/-- A new ring. -/
def new (C A : Type*) (size : ℕ) : History C A := ⟨.new C A size, [], []⟩

/-- **One critical section.** -/
def perform (h : History C A) : CriticalSection W C A → History C A
  | .add task signalFails unlockFails =>
    { h with
      ring := (h.ring.add task signalFails unlockFails).2
      enqueued := match h.ring.enqueue task with
        | .error _ => h.enqueued
        | .ok _ => h.enqueued ++ [task] }
  | .run _ =>
    match h.ring.run with
    | .wait | .leave => h
    | .take task ring => { h with ring := ring, dequeued := h.dequeued ++ [task] }
  | .shutdown option => { h with ring := { h.ring with shutdown := option.value } }

/-- Critical sections, one after the other. -/
def performAll (h : History C A) (sections : List (CriticalSection W C A)) : History C A :=
  sections.foldl perform h

end History

/-! ## The ring of a pool -/

namespace TaskRing

variable {C A : Type*} {p : ThreadPool (Task C A)} {q : List (Task C A)}

/-- **The ring of a pool**; a cell without a task is a null one. -/
def ofPool (p : ThreadPool (Task C A)) : TaskRing C A where
  queueSize := p.queueSize
  head := p.head
  tail := p.tail
  count := p.count
  shutdown := p.shutdown
  taskQueue := p.taskQueue.map (·.getD .null)

/-- A ring without tasks. -/
theorem ofPool_empty (size : ℕ) :
    ofPool ⟨size, 0, 0, 0, 0, .replicate size none⟩ = .new C A size := by
  rw [TaskRing.new, ofPool, List.map_replicate]
  rfl

theorem pending_ofPool_iff {slot : ℤ} :
    (ofPool p).Pending slot ↔ ∃ i < p.count, slot = ((p.head + i) % p.queueSize : ℕ) := by
  constructor
  · rintro ⟨i, h0, hi, rfl⟩
    obtain ⟨i, rfl⟩ := Int.eq_ofNat_of_zero_le h0
    exact ⟨i, Int.ofNat_lt.mp hi, by rw [Int.ofNat_tmod, Int.natCast_add]; rfl⟩
  · rintro ⟨i, hi, rfl⟩
    exact ⟨i, Int.natCast_nonneg i, Int.ofNat_lt.mpr hi, by
      rw [Int.ofNat_tmod, Int.natCast_add]
      rfl⟩

theorem cell_ofPool (i : ℕ) : (ofPool p).cell i = p.taskQueue[i]?.map (·.getD .null) :=
  List.getElem?_map ..

theorem inRange_ofPool (h : p.Queues q) : (ofPool p).InRange where
  count := by
    have hle := h.holds.length_le
    rw [h.size, ← h.count] at hle
    exact ⟨Int.natCast_nonneg _, Int.ofNat_le.mpr hle⟩
  head := by
    have hlt := h.holds.head_lt
    rw [h.size] at hlt
    exact ⟨Int.natCast_nonneg _, Int.ofNat_lt.mpr hlt⟩
  tail := by
    have hlt := RingBuffer.index_lt h.holds q.length
    rw [h.size, ← h.tail] at hlt
    exact ⟨Int.natCast_nonneg _, Int.ofNat_lt.mpr hlt⟩
  tail_eq := by
    change ((p.tail : ℕ) : ℤ) = ((p.head : ℤ) + (p.count : ℤ)).tmod (p.queueSize : ℤ)
    rw [h.tail, Int.ofNat_tmod, Int.natCast_add, h.count]

/-- **`Add` on the ring is `Add` on the pool.** -/
theorem enqueue_ofPool (task : Task C A) : (ofPool p).enqueue task =
    if (p.add task).1 = 0 then .ok (ofPool (p.add task).2) else .error (p.add task).1 := by
  have hcount : (ofPool p).count = (ofPool p).queueSize ↔ p.count = p.queueSize := Int.natCast_inj
  have hshutdown : (ofPool p).shutdown = 0 ↔ p.shutdown = 0 := Int.natCast_eq_zero
  unfold enqueue ThreadPool.add
  by_cases hfull : p.count = p.queueSize
  · rw [if_pos (hcount.mpr hfull), if_pos hfull]
    rfl
  · rw [if_neg (mt hcount.mp hfull), if_neg hfull]
    by_cases hs : p.shutdown = 0
    · rw [if_neg (not_not.mpr (hshutdown.mpr hs)), if_neg (not_not.mpr hs), if_pos rfl, ofPool,
        ofPool, List.map_set]
      rfl
    · rw [if_pos (mt hshutdown.mp hs), if_pos hs]
      rfl

/-- **`Run` on the ring is `Run` on the pool**: a worker waits, leaves, or takes the first task of
the queue. -/
theorem run_ofPool (h : p.Queues q) (hs : p.shutdown = 0 ∨ p.shutdown = 1) :
    (p.look = .wait ∧ (ofPool p).run = .wait) ∨ (p.look = .leave ∧ (ofPool p).run = .leave) ∨
      ∃ task rest p', q = task :: rest ∧ p.look = .take task p' ∧
        (ofPool p).run = .take task (ofPool p') ∧ p'.Queues rest ∧ p'.shutdown = 1 := by
  have hcount : (ofPool p).count = 0 ↔ p.count = 0 := Int.natCast_eq_zero
  obtain hs | hs := hs
  · have hring : (ofPool p).shutdown = 0 := Int.natCast_eq_zero.mpr hs
    rw [ThreadPool.look_of_running hs]
    by_cases hc : p.count = 0
    · exact .inl ⟨if_pos hc, if_pos ⟨hcount.mpr hc, hring⟩⟩
    · refine .inr (.inl ⟨if_neg hc, ?_⟩)
      rw [run, if_neg fun e => hc (hcount.mp e.1), if_pos (.inl hring)]
  · have hring : (ofPool p).shutdown = 1 := congrArg Nat.cast hs
    have h1 : ¬ ((ofPool p).count = 0 ∧ (ofPool p).shutdown = 0) := fun e =>
      absurd (hring.symm.trans e.2) one_ne_zero
    rw [run, if_neg h1]
    obtain ⟨rfl, hlook⟩ | ⟨task, rest, p', rfl, hlook, hq, hs'⟩ := h.look_of_graceful hs
    · exact .inr (.inl ⟨hlook, if_pos (.inr ⟨hring, hcount.mpr h.count⟩)⟩)
    · obtain ⟨-, hcell, hp⟩ := ThreadPool.eq_of_look_take hlook
      have h2 : ¬ ((ofPool p).shutdown = ShutDownOption.immediateShutdown.value ∨
          ((ofPool p).shutdown = ShutDownOption.gracefulShutdown.value ∧
            (ofPool p).count = 0)) := by
        rintro (e | ⟨-, e⟩)
        · exact absurd (hring.symm.trans e) one_ne_zero
        · exact absurd (h.count.symm.trans (hcount.mp e)) (Nat.succ_ne_zero _)
      have hone : 1 ≤ p.count := by
        rw [h.count, List.length_cons]
        exact Nat.le_add_left ..
      have htask : (ofPool p).taskQueue.getD p.head .null = task := by
        rw [List.getD_eq_getElem?_getD, ofPool, List.getElem?_map, hcell]
        rfl
      refine .inr (.inr ⟨task, rest, p', rfl, hlook, ?_, hq, hs'⟩)
      rw [if_neg h2, hp]
      refine congrArg₂ Turn.take htask ?_
      rw [ofPool, ofPool, List.map_set, Int.natCast_sub hone]
      rfl

theorem queueSize_add (p : ThreadPool (Task C A)) (task : Task C A) :
    (p.add task).2.queueSize = p.queueSize := by
  obtain ⟨-, hp⟩ | ⟨-, -, hp⟩ := p.add_cases task <;> rw [hp]

/-- **An `Add` that is refused leaves the ring.** -/
theorem add_eq_of_refused {r : TaskRing C A} {task : Task C A} {signalFails unlockFails : Bool}
    (h : (r.add task signalFails unlockFails).1 = threadPoolQueueFull ∨
      (r.add task signalFails unlockFails).1 = threadPoolShutdown) :
    (r.add task signalFails unlockFails).2 = r := by
  revert h
  unfold add
  cases r.enqueue task with
  | error e => exact fun _ => rfl
  | ok ring => cases signalFails <;> cases unlockFails <;> exact fun h => absurd h (by simp)

/-! ## No pending slot is overwritten -/

theorem getElem?_add (h : p.Queues q) (task : Task C A) {i : ℕ} (hi : i < p.count) :
    (p.add task).2.taskQueue[(p.head + i) % p.queueSize]? =
      p.taskQueue[(p.head + i) % p.queueSize]? := by
  obtain ⟨-, hp⟩ | ⟨hfull, -, hp⟩ := p.add_cases task
  · rw [hp]
  · have hle := h.holds.length_le
    rw [h.size, ← h.count] at hle
    have hlt : p.count < p.queueSize := lt_of_le_of_ne hle hfull
    rw [hp]
    refine List.getElem?_set_ne fun e => hi.ne' ?_
    rw [h.tail, ← h.count] at e
    exact RingBuffer.index_inj hlt (hi.trans hlt) e

theorem getElem?_take (h : p.Queues q) {task : Task C A} {p' : ThreadPool (Task C A)}
    (hl : p.look = .take task p') {i : ℕ} (hi : i < p'.count) :
    p'.taskQueue[(p'.head + i) % p'.queueSize]? = p.taskQueue[(p'.head + i) % p'.queueSize]? := by
  obtain ⟨-, -, rfl⟩ := ThreadPool.eq_of_look_take hl
  have hle := h.holds.length_le
  have hhead := h.holds.head_lt
  rw [h.size] at hle hhead
  rw [← h.count] at hle
  have hi' : i + 1 < p.queueSize := (Nat.add_lt_of_lt_sub hi).trans_le hle
  have hnext : (p.head + (i + 1)) % p.queueSize
    = ((p.head + 1) % p.queueSize + i) % p.queueSize := by
    rw [Nat.mod_add_mod, Nat.add_right_comm, Nat.add_assoc]
  have hfirst : (p.head + 0) % p.queueSize = p.head := Nat.mod_eq_of_lt hhead
  exact List.getElem?_set_ne fun e => Nat.succ_ne_zero i
    (RingBuffer.index_inj hi' (Nat.zero_lt_of_lt hhead) ((hnext.trans e.symm).trans hfirst.symm))

end TaskRing

/-! ## First in, first out -/

namespace History

variable {W C A : Type*} {h : History C A} {size : ℕ}

/-- **The ring is a queue**, first in and first out. -/
structure IsFifo (h : History C A) (size : ℕ) : Prop where
  queueSize : h.ring.queueSize = size
  inRange : h.ring.InRange
  refused {task : Task C A} {signalFails unlockFails : Bool} :
    (h.ring.add task signalFails unlockFails).1 = threadPoolQueueFull ∨
      (h.ring.add task signalFails unlockFails).1 = threadPoolShutdown →
    (h.ring.add task signalFails unlockFails).2 = h.ring
  add_keeps {task : Task C A} {signalFails unlockFails : Bool} {slot : ℤ} :
    h.ring.Pending slot →
      (h.ring.add task signalFails unlockFails).2.cell slot = h.ring.cell slot
  run_keeps {task : Task C A} {ring : TaskRing C A} {slot : ℤ} :
    h.ring.run = .take task ring → ring.Pending slot → ring.cell slot = h.ring.cell slot
  fifo : h.dequeued <+: h.enqueued

/-- **What is kept**: the ring is that of a pool with a queue, and what was enqueued is what was
dequeued and then this queue. -/
structure Ordered (h : History C A) (size : ℕ) (p : ThreadPool (Task C A)) (q : List (Task C A)) :
    Prop where
  ring : h.ring = .ofPool p
  queues : p.Queues q
  shutdown : p.shutdown = 0 ∨ p.shutdown = 1
  queueSize : p.queueSize = size
  enqueued : h.enqueued = h.dequeued ++ q

theorem ordered_new (hsize : 1 ≤ size) :
    (new C A size).Ordered size ⟨size, 0, 0, 0, 0, .replicate size none⟩ [] where
  ring := (TaskRing.ofPool_empty size).symm
  queues :=
    { holds := RingBuffer.holds_nil (by rw [List.length_replicate]; exact hsize)
      size := List.length_replicate
      tail := (Nat.zero_mod _).symm
      count := rfl }
  shutdown := .inl rfl
  queueSize := rfl
  enqueued := rfl

/-- **Every critical section keeps the order.** -/
theorem Ordered.perform {p : ThreadPool (Task C A)} {q : List (Task C A)} (ho : h.Ordered size p q)
    (s : CriticalSection W C A) : ∃ p' q', (h.perform s).Ordered size p' q' := by
  obtain ⟨hring, hq, hs, hsize, hen⟩ := ho
  cases s with
  | add task signalFails unlockFails =>
    rw [History.perform, TaskRing.add, hring, TaskRing.enqueue_ofPool]
    obtain ⟨hcode, -⟩ | ⟨hcode, hq', hs0, hs'⟩ := hq.add task
    · rw [if_neg hcode]
      exact ⟨p, q, rfl, hq, hs, hsize, hen⟩
    · rw [if_pos hcode]
      refine ⟨(p.add task).2, q ++ [task], rfl, hq', .inl (hs'.trans hs0), ?_, ?_⟩
      · rw [TaskRing.queueSize_add, hsize]
      · change h.enqueued ++ [task] = _
        rw [hen, List.append_assoc]
  | run worker =>
    rw [History.perform, hring]
    obtain ⟨-, hrun⟩ | ⟨-, hrun⟩ | ⟨task, rest, p', rfl, hlook, hrun, hq', hs'⟩ :=
      TaskRing.run_ofPool hq hs
    · rw [hrun]
      exact ⟨p, q, hring, hq, hs, hsize, hen⟩
    · rw [hrun]
      exact ⟨p, q, hring, hq, hs, hsize, hen⟩
    · rw [hrun]
      obtain ⟨-, -, hp⟩ := ThreadPool.eq_of_look_take hlook
      refine ⟨p', rest, rfl, hq', .inr hs', by rw [hp]; exact hsize, ?_⟩
      change h.enqueued = h.dequeued ++ [task] ++ rest
      rw [hen, List.append_assoc]
      rfl
  | shutdown option =>
    refine ⟨{ p with shutdown := option.value }, q, ?_,
      ⟨hq.holds, hq.size, hq.tail, hq.count⟩, ?_, hsize, hen⟩
    · rw [History.perform, hring]
      rfl
    · cases option
      · exact .inl rfl
      · exact .inr rfl

theorem Ordered.performAll {p : ThreadPool (Task C A)} {q : List (Task C A)}
    (ho : h.Ordered size p q) (sections : List (CriticalSection W C A)) :
    ∃ p' q', (h.performAll sections).Ordered size p' q' := by
  induction sections generalizing h p q with
  | nil => exact ⟨p, q, ho⟩
  | cons s sections ih =>
    obtain ⟨p', q', ho'⟩ := ho.perform s
    exact ih ho'

/-- **What is enqueued comes out first in, first out.** -/
theorem Ordered.isFifo {p : ThreadPool (Task C A)} {q : List (Task C A)} (ho : h.Ordered size p q) :
    h.IsFifo size := by
  obtain ⟨hring, hq, hs, hsize, hen⟩ := ho
  refine ⟨?_, ?_, TaskRing.add_eq_of_refused, ?_, ?_, ?_⟩
  · rw [hring]
    exact congrArg Nat.cast hsize
  · rw [hring]
    exact TaskRing.inRange_ofPool hq
  · intro task signalFails unlockFails slot hslot
    rw [hring] at hslot ⊢
    obtain ⟨i, hi, rfl⟩ := TaskRing.pending_ofPool_iff.mp hslot
    rw [TaskRing.add, TaskRing.enqueue_ofPool]
    by_cases hcode : (p.add task).1 = 0
    · rw [if_pos hcode]
      change (TaskRing.ofPool (p.add task).2).cell _ = _
      rw [TaskRing.cell_ofPool, TaskRing.cell_ofPool, TaskRing.getElem?_add hq task hi]
    · rw [if_neg hcode]
  · intro task ring slot hrun hslot
    rw [hring] at hrun ⊢
    obtain ⟨-, hno⟩ | ⟨-, hno⟩ | ⟨task', rest, p', rfl, hlook, htake, -, -⟩ :=
      TaskRing.run_ofPool hq hs
    · exact absurd (hno.symm.trans hrun) (by simp)
    · exact absurd (hno.symm.trans hrun) (by simp)
    · obtain ⟨rfl, rfl⟩ := Turn.take.inj (htake.symm.trans hrun)
      obtain ⟨i, hi, rfl⟩ := TaskRing.pending_ofPool_iff.mp hslot
      rw [TaskRing.cell_ofPool, TaskRing.cell_ofPool, TaskRing.getElem?_take hq hlook hi]
  · exact ⟨q, hen.symm⟩

/-- **The task ring is first in, first out** — after any critical sections of `Add` and `Run`, by
any workers and in any order, with `shutdown_` set to either option in between. -/
theorem isFifo_performAll (hsize : 1 ≤ size) (sections : List (CriticalSection W C A)) :
    ((new C A size).performAll sections).IsFifo size := by
  obtain ⟨p, q, ho⟩ := (ordered_new hsize).performAll sections
  exact ho.isFifo

/-- Three tasks through one cell, the second refused. -/
theorem isFifo_three : ((new ℕ Unit 1).performAll (W := Fin 2)
      [.add ⟨some 1, none⟩ false false, .add ⟨some 2, none⟩ false false,
        .shutdown .gracefulShutdown, .run 0, .shutdown .immediateShutdown,
        .add ⟨some 3, none⟩ true false, .shutdown .gracefulShutdown, .run 1]).IsFifo 1 :=
  isFifo_performAll (Nat.le_refl 1) _

end History

end WebServer.Thread
