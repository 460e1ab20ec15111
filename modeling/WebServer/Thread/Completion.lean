import WebServer.Thread.ThreadPool
import Mathlib.Algebra.BigOperators.Fin
import Mathlib.Algebra.Order.Group.Multiset
import Mathlib.Tactic.Abel

/-!
# Thread/Completion — which tasks are executed, and when a worker leaves

While nobody has called `Destroy`, `shutdown_` equals `immediate_shutdown`, so a worker leaves at
the first task it finds instead of taking it.  If no worker finds a task before `Destroy`, all of
them are still there when the graceful shutdown starts, and every accepted task is executed exactly
once (`runs_tasks_iff`).  The tasks are counted as multisets: accepted ones are queued, in the hands
of a worker, or executed.
-/

namespace WebServer.Thread

open RingBuffer

variable {α : Type*} {n : ℕ}

/-! ## The queue -/

/-- **The pool holds a queue**: in its cells, with `tail_` and `count_` to match. -/
structure ThreadPool.Queues (p : ThreadPool α) (q : List α) : Prop where
  holds : Holds p.taskQueue p.head q
  size : p.taskQueue.length = p.queueSize
  tail : p.tail = (p.head + q.length) % p.queueSize
  count : p.count = q.length

theorem queues_new (size : ℤ) : (ThreadPool.new α size).Queues [] where
  holds := holds_nil (by
    rw [ThreadPool.new, List.length_replicate]
    exact queueSizeOf_pos size)
  size := List.length_replicate
  tail := (Nat.zero_mod _).symm
  count := rfl

/-- **`Add`** queues a task, or answers why it does not. -/
theorem ThreadPool.Queues.add {p : ThreadPool α} {q : List α} (h : p.Queues q) (task : α) :
    ((p.add task).1 ≠ 0 ∧ (p.add task).2 = p) ∨
      ((p.add task).1 = 0 ∧ (p.add task).2.Queues (q ++ [task]) ∧ p.shutdown = 0 ∧
        (p.add task).2.shutdown = p.shutdown) := by
  obtain h' | ⟨hfull, hs, hadd⟩ := p.add_cases task
  · exact .inl h'
  · have hlt : q.length < p.taskQueue.length := by
      have := h.holds.length_le
      have := h.size
      have := h.count
      omega
    rw [hadd]
    refine .inr ⟨rfl, ⟨?_, ?_, ?_, ?_⟩, hs, rfl⟩
    · have := h.holds.push hlt task
      rw [h.size, ← h.tail] at this
      exact this
    · rw [List.length_set, h.size]
    · rw [List.length_append, List.length_singleton, h.tail, Nat.mod_add_mod, Nat.add_assoc]
    · rw [List.length_append, List.length_singleton, h.count]

/-- With `shutdown_` as it is from the start, a worker that finds a task leaves. -/
theorem ThreadPool.look_of_running {p : ThreadPool α} (hs : p.shutdown = 0) :
    p.look = if p.count = 0 then .wait else .leave := by
  unfold ThreadPool.look
  by_cases hc : p.count = 0
  · rw [if_pos ⟨hc, hs⟩, if_pos hc]
  · rw [if_neg (fun h => hc h.1), if_pos (.inl hs), if_neg hc]

/-- **After a graceful `Destroy`** a worker takes the first task, and leaves when there is none. -/
theorem ThreadPool.Queues.look_of_graceful {p : ThreadPool α} {q : List α} (h : p.Queues q)
    (hs : p.shutdown = 1) : (q = [] ∧ p.look = .leave) ∨ ∃ task rest p', q = task :: rest ∧
      p.look = .take task p' ∧ p'.Queues rest ∧ p'.shutdown = 1 := by
  have h1 : ¬ (p.count = 0 ∧ p.shutdown = 0) := fun e => absurd (hs.symm.trans e.2) nofun
  unfold ThreadPool.look
  rw [if_neg h1]
  cases q with
  | nil => exact .inl ⟨rfl, if_pos (.inr ⟨hs, h.count⟩)⟩
  | cons task rest =>
    have h2 : ¬ (p.shutdown = ShutDownOption.immediateShutdown.value ∨
        (p.shutdown = ShutDownOption.gracefulShutdown.value ∧ p.count = 0)) := by
      rintro (e | ⟨-, e⟩)
      · exact absurd (hs.symm.trans e) nofun
      · exact absurd (h.count.symm.trans e) nofun
    obtain ⟨hcell, hpop⟩ := h.holds.pop
    rw [if_neg h2, hcell]
    refine .inr ⟨task, rest, _, rfl, rfl, ⟨?_, ?_, ?_, ?_⟩, hs⟩
    · rw [h.size] at hpop
      exact hpop
    · rw [List.length_set, h.size]
    · rw [h.tail, List.length_cons, Nat.mod_add_mod, Nat.add_right_comm, Nat.add_assoc]
    · rw [h.count, List.length_cons, Nat.add_sub_cancel]

/-! ## Where the tasks are -/

/-- The task in the hands of a worker. -/
def Worker.inHand : Worker α → Multiset α
  | .looking => 0
  | .running task => {task}
  | .left => 0

/-- The tasks in the hands of the workers. -/
def inHand (w : Fin n → Worker α) : Multiset α := ∑ i, (w i).inHand

/-- One worker changes its hands. -/
theorem inHand_update (w : Fin n → Worker α) (i : Fin n) (x : Worker α) :
    inHand (Function.update w i x) + (w i).inHand = inHand w + x.inHand :=
  Monitor.sum_update_add Worker.inHand w i x

/-- **What is kept**: the pool holds a queue, and every accepted task is in it, in the hands of a
worker, or executed. -/
structure System.Sound (s : System α n) (q : List α) : Prop where
  queues : s.pool.Queues q
  shutdown : s.pool.shutdown = 0 ∨ s.pool.shutdown = 1
  tasks : (s.accepted : Multiset α) = s.executed + inHand s.worker + q

theorem sound_init (threads size : ℤ) : (System.init α threads size).Sound [] where
  queues := queues_new size
  shutdown := .inl rfl
  tasks := by
    have : inHand (System.init α threads size).worker = 0 := Finset.sum_eq_zero fun _ _ => rfl
    rw [this]
    rfl

variable {s t : System α n} {a : Action α n} {as bs : List (Action α n)}

theorem System.Sound.step {q : List α} (h : s.Sound q) (hs : Step s a t) : ∃ q', t.Sound q' := by
  cases hs with
  | add task free =>
    rcases h.queues.add task with ⟨hcode, hp⟩ | ⟨hcode, hq, -, hsd⟩
    · refine ⟨q, ?_, ?_, ?_⟩
      · rw [hp]
        exact h.queues
      · rw [hp]
        exact h.shutdown
      · rw [if_neg hcode]
        exact h.tasks
    · refine ⟨q ++ [task], hq, by rw [hsd]; exact h.shutdown, ?_⟩
      rw [if_pos hcode, ← Multiset.coe_add, ← Multiset.coe_add, h.tasks, add_assoc]
  | wait free hi hl => exact ⟨q, h⟩
  | @leave i free hi hl =>
    have hin := inHand_update s.worker i .left
    rw [hi, Worker.inHand, Worker.inHand, add_zero, add_zero] at hin
    refine ⟨q, h.queues, h.shutdown, ?_⟩
    rw [hin]
    exact h.tasks
  | @take i task p free hi hl =>
    have hsd : s.pool.shutdown = 1 := h.shutdown.resolve_left fun h0 => by
      rw [ThreadPool.look_of_running h0] at hl
      split at hl <;> exact absurd hl nofun
    obtain ⟨-, hlook⟩ | ⟨task', rest, p', rfl, hlook, hq, hsd'⟩ := h.queues.look_of_graceful hsd
    · exact absurd (hlook.symm.trans hl) nofun
    · injection hlook.symm.trans hl with htask hp
      subst htask hp
      have hin := inHand_update s.worker i (.running task')
      rw [hi, Worker.inHand, Worker.inHand, add_zero] at hin
      refine ⟨rest, hq, .inr hsd', ?_⟩
      rw [hin, h.tasks, ← Multiset.cons_coe, ← Multiset.singleton_add]
      abel
  | @finish i task hi =>
    have hin := inHand_update s.worker i .looking
    rw [hi, Worker.inHand, Worker.inHand, add_zero] at hin
    refine ⟨q, h.queues, h.shutdown, ?_⟩
    rw [h.tasks, ← hin, ← Multiset.coe_add, Multiset.coe_singleton]
    abel
  | destroy option free hd hsd =>
    refine ⟨q, ⟨h.queues.holds, h.queues.size, h.queues.tail, h.queues.count⟩, ?_, h.tasks⟩
    cases option
    · exact .inl rfl
    · exact .inr rfl
  | destroyAgain free hsd => exact ⟨q, h.queues, h.shutdown, h.tasks⟩
  | destroyReturn hd hl => exact ⟨q, h.queues, h.shutdown, h.tasks⟩

/-! ## Before `Destroy` -/

/-- The condition: no worker finds a task while `shutdown_` is as it is from the start. -/
def FindsNone (s : System α n) (a : Action α n) : Prop :=
  ∀ i, a = .look i → s.pool.shutdown = 0 → s.pool.count = 0

/-- A worker that has left although another one moves on had left before. -/
theorem left_of_update {w : Fin n → Worker α} {i j : Fin n} {x : Worker α} (hx : x ≠ .left)
    (h : Function.update w i x j = .left) : w j = .left := by
  by_cases hij : j = i
  · rw [hij, Function.update_self] at h
    exact absurd h hx
  · rwa [Function.update_of_ne hij] at h

/-- A worker that left does not come back. -/
theorem left_step {i : Fin n} (hs : Step s a t) (hi : s.worker i = .left) : t.worker i = .left := by
  have other {j : Fin n} {w x : Worker α} (hj : s.worker j = w) (hw : w ≠ .left) :
      Function.update s.worker j x i = .left := by
    have hij : i ≠ j := fun e => hw (by rw [← hj, ← e, hi])
    rw [Function.update_of_ne hij, hi]
  cases hs with
  | leave free hj hl | take free hj hl | finish hj => exact other hj nofun
  | _ => exact hi

theorem left_run {i : Fin n} (r : Run Step s as t) (hi : s.worker i = .left) :
    t.worker i = .left :=
  r.invariant (I := fun s : System α n => s.worker i = .left)
    (fun _ _ _ hi hs => left_step hs hi) hi

/-- Until `Destroy` is called `shutdown_` is as it is from the start. -/
theorem shutdown_step (hs : Step s a t) (h : s.destroyer = .idle → s.pool.shutdown = 0)
    (ht : t.destroyer = .idle) : s.destroyer = .idle ∧ t.pool.shutdown = 0 := by
  cases hs with
  | add task free =>
    refine ⟨ht, ?_⟩
    have h0 := h ht
    change (s.pool.add task).2.shutdown = 0
    obtain ⟨-, hp⟩ | ⟨-, -, hp⟩ := s.pool.add_cases task <;> rw [hp] <;> exact h0
  | take free hi hl =>
    have h0 := h ht
    rw [ThreadPool.look_of_running h0] at hl
    split at hl <;> exact absurd hl nofun
  | destroy option free hd hsd => exact absurd ht nofun
  | destroyReturn hd hl => exact absurd ht nofun
  | _ => exact ⟨ht, h ht⟩

/-- **While no worker finds a task, none leaves.** -/
theorem noneLeft_step (hs : guarded FindsNone Step s a t)
    (h : s.destroyer = .idle → s.pool.shutdown = 0 ∧ ∀ i, s.worker i ≠ .left)
    (ht : t.destroyer = .idle) : t.pool.shutdown = 0 ∧ ∀ i, t.worker i ≠ .left := by
  obtain ⟨hok, hs⟩ := hs
  obtain ⟨hidle, h0⟩ := shutdown_step hs (fun hd => (h hd).1) ht
  obtain ⟨hsd, hleft⟩ := h hidle
  refine ⟨h0, fun j => ?_⟩
  cases hs with
  | leave free hi hl =>
    rw [ThreadPool.look_of_running hsd, if_pos (hok _ rfl hsd)] at hl
    exact absurd hl nofun
  | @take i task p free hi hl =>
    exact fun hj => hleft j (left_of_update (x := .running task) nofun hj)
  | finish hi => exact fun hj => hleft j (left_of_update (x := .looking) nofun hj)
  | _ => exact hleft j

/-- **A worker that finds a task before `Destroy` leaves.** -/
theorem findsNone_of_noneLeft (r : Run Step s as t) (h : ∀ i, t.worker i ≠ .left) :
    Run (guarded FindsNone Step) s as t := by
  induction r with
  | nil s => exact .nil s
  | @cons s u t a as hs r ih =>
    refine .cons ⟨?_, hs⟩ (ih h)
    rintro i rfl h0
    by_contra hc
    have hl : s.pool.look = .leave := by rw [ThreadPool.look_of_running h0, if_neg hc]
    refine h i (left_run r ?_)
    cases hs with
    | wait free hi hw => exact absurd (hl.symm.trans hw) nofun
    | leave free hi hw => exact Function.update_self ..
    | take free hi hw => exact absurd (hl.symm.trans hw) nofun

/-! ## After a graceful `Destroy` -/

/-- **A graceful shutdown**: nothing more is accepted, and a worker leaves an empty queue. -/
structure System.Draining (s : System α n) (accepted : List α) : Prop where
  sound : ∃ q, s.Sound q
  shutdown : s.pool.shutdown = 1
  accepted : s.accepted = accepted
  left (i : Fin n) : s.worker i = .left → s.pool.count = 0

theorem System.Draining.step {accepted : List α} (h : s.Draining accepted) (hs : Step s a t) :
    t.Draining accepted := by
  obtain ⟨q, hq⟩ := h.sound
  have hq' := hq.step hs
  cases hs with
  | add task free =>
    rcases hq.queues.add task with ⟨hcode, hp⟩ | ⟨-, -, hsd, -⟩
    · refine ⟨hq', ?_, ?_, fun i hi => ?_⟩
      · rw [hp]
        exact h.shutdown
      · rw [if_neg hcode]
        exact h.accepted
      · rw [hp]
        exact h.left i hi
    · exact absurd (h.shutdown.symm.trans hsd) nofun
  | leave free hi hl =>
    refine ⟨hq', h.shutdown, h.accepted, fun _ _ => ?_⟩
    obtain ⟨rfl, -⟩ | ⟨_, _, _, -, hlook, -⟩ := hq.queues.look_of_graceful h.shutdown
    · exact hq.queues.count
    · exact absurd (hlook.symm.trans hl) nofun
  | @take i task p free hi hl =>
    obtain ⟨-, hlook⟩ | ⟨task', rest, p', rfl, hlook, -, hsd⟩ :=
      hq.queues.look_of_graceful h.shutdown
    · exact absurd (hlook.symm.trans hl) nofun
    · injection hlook.symm.trans hl with htask hp
      subst hp
      refine ⟨hq', hsd, h.accepted, fun j hj => ?_⟩
      have hjl := h.left j (left_of_update (x := .running task) nofun hj)
      exact absurd (hq.queues.count.symm.trans hjl) nofun
  | @finish i task hi =>
    exact ⟨hq', h.shutdown, h.accepted,
      fun j hj => h.left j (left_of_update (x := .looking) nofun hj)⟩
  | destroy option free hd hsd => exact absurd (h.shutdown.symm.trans hsd) nofun
  | wait free hi hl => exact h
  | destroyAgain free hsd => exact ⟨hq', h.shutdown, h.accepted, h.left⟩
  | destroyReturn hd hl => exact ⟨hq', h.shutdown, h.accepted, h.left⟩

theorem System.Draining.run {accepted : List α} (h : s.Draining accepted) (r : Run Step s as t) :
    t.Draining accepted :=
  r.invariant (I := fun s : System α n => s.Draining accepted) (fun _ _ _ h hs => h.step hs) h

/-- `Destroy` returns when every worker has left. -/
theorem returned_step (hs : Step s a t) (h : s.destroyer = .returned → ∀ i, s.worker i = .left)
    (ht : t.destroyer = .returned) (i : Fin n) : t.worker i = .left := by
  cases hs with
  | destroy option free hd hsd => exact absurd ht nofun
  | destroyReturn hd hl => exact hl i
  | add task free => exact h ht i
  | wait free hi hl => exact h ht i
  | destroyAgain free hsd => exact h ht i
  | leave free hj hl => exact left_step (.leave free hj hl) (h ht i)
  | take free hj hl => exact left_step (.take free hj hl) (h ht i)
  | finish hj => exact left_step (.finish hj) (h ht i)

/-- **The pool runs its tasks** — in a run with one graceful `Destroy` that returns, no worker left
before it and every task accepted before it was executed exactly once, if and only if no worker
found a task before it. -/
theorem runs_tasks_iff {threads size : ℤ} {s s₁ t : System α (threadNumOf threads)}
    {as bs : List (Action α (threadNumOf threads))} (r : Run Step (.init α threads size) as s)
    (hd : s.destroyer = .idle) (hs : Step s (.destroy .gracefulShutdown) s₁)
    (r' : Run Step s₁ bs t) (ht : t.destroyer = .returned) :
    ((∀ i, s.worker i ≠ .left) ∧ t.executed.Perm s.accepted) ↔
      Run (guarded FindsNone Step) (.init α threads size) as s := by
  constructor
  · exact fun h => findsNone_of_noneLeft r h.1
  · intro rg
    have hinit : ∃ q, (System.init α threads size).Sound q := ⟨[], sound_init threads size⟩
    obtain ⟨-, hleft⟩ := rg.invariant (I := fun s : System α (threadNumOf threads) =>
      s.destroyer = .idle → s.pool.shutdown = 0 ∧ ∀ i, s.worker i ≠ .left)
      (fun _ _ _ h hg => noneLeft_step hg h) (fun _ => ⟨rfl, fun _ => nofun⟩) hd
    refine ⟨hleft, ?_⟩
    obtain ⟨q, hq⟩ := r.invariant
      (I := fun s : System α (threadNumOf threads) => ∃ q, s.Sound q)
      (fun _ _ _ ⟨_, h⟩ hs => h.step hs) hinit
    have hdrain : s₁.Draining s.accepted := by
      refine ⟨hq.step hs, ?_, ?_, fun i hi => ?_⟩ <;> cases hs
      · rfl
      · rfl
      · exact absurd hi (hleft i)
    obtain ⟨⟨q', hq'⟩, -, hacc, hcount⟩ := hdrain.run r'
    have hall := r'.invariant (I := fun s : System α (threadNumOf threads) =>
      s.destroyer = .returned → ∀ i, s.worker i = .left)
      (fun _ _ _ h hs => returned_step hs h) (by cases hs; exact nofun) ht
    have hnil : q' = [] := List.length_eq_zero_iff.mp
      (hq'.queues.count.symm.trans (hcount ⟨0, threadNumOf_pos threads⟩ (hall _)))
    have hhand : inHand t.worker = 0 := Finset.sum_eq_zero fun i _ => by rw [hall i]; rfl
    have htasks := hq'.tasks
    rw [hnil, hhand, hacc, add_zero, Multiset.coe_nil, add_zero] at htasks
    exact (Multiset.coe_eq_coe.mp htasks).symm

/-- With one thread, the thread that moves is every thread. -/
theorem update_one {w : Fin (threadNumOf 1) → Worker ℕ} {x : Worker ℕ} (i : Fin (threadNumOf 1)) :
    Function.update w ⟨0, by decide⟩ x i = x := by
  have hi : i = ⟨0, by decide⟩ := Fin.ext (Nat.lt_one_iff.mp i.isLt)
  rw [hi, Function.update_self]

/-- One worker that finds no task, and then a task and a graceful shutdown. -/
theorem runs_tasks_one : ∃ (s s₁ t : System ℕ (threadNumOf 1)) (as bs : _),
    Run Step (.init ℕ 1 1) as s ∧ s.destroyer = .idle ∧ Step s (.destroy .gracefulShutdown) s₁ ∧
    Run Step s₁ bs t ∧ t.destroyer = .returned ∧ s.accepted = [7] ∧
    (∀ i, s.worker i ≠ .left) ∧ t.executed.Perm s.accepted := by
  obtain ⟨s, as, rg, hd, ha, s₁, hs, t, bs, r', ht⟩ : ∃ (s : System ℕ (threadNumOf 1)) (as : _),
      Run (guarded FindsNone Step) (.init ℕ 1 1) as s ∧ s.destroyer = .idle ∧ s.accepted = [7] ∧
      ∃ s₁, Step s (.destroy .gracefulShutdown) s₁ ∧ ∃ t bs, Run Step s₁ bs t ∧
        t.destroyer = .returned :=
    ⟨_, _, .cons ⟨fun _ _ _ => rfl, .wait (i := ⟨0, by decide⟩) rfl rfl rfl⟩ <|
      .cons ⟨fun _ _ _ => rfl, .add 7 rfl⟩ <| .nil _, rfl, rfl, _, .destroy _ rfl rfl rfl,
      _, _, .cons (.take (i := ⟨0, by decide⟩) rfl rfl rfl) <|
        .cons (.finish (i := ⟨0, by decide⟩) rfl) <|
        .cons (.leave (i := ⟨0, by decide⟩) rfl rfl rfl) <|
        .cons (.destroyReturn rfl update_one) <| .nil _, rfl⟩
  have r := rg.mono fun _ _ _ h => h.2
  exact ⟨s, s₁, t, as, bs, r, hd, hs, r', ht, ha, (runs_tasks_iff r hd hs r' ht).mpr rg⟩

/-- **A task that is never executed**: the only worker finds it, and leaves. -/
theorem not_runs_tasks : ∃ (s s₁ t : System ℕ (threadNumOf 1)) (as bs : _),
    Run Step (.init ℕ 1 1) as s ∧ s.destroyer = .idle ∧ Step s (.destroy .gracefulShutdown) s₁ ∧
    Run Step s₁ bs t ∧ t.destroyer = .returned ∧ (∃ i, s.worker i = .left) ∧
    s.accepted = [7] ∧ t.executed = [] :=
  ⟨_, _, _, _, _, .cons (.add 7 rfl) <| .cons (.leave (i := ⟨0, by decide⟩) rfl rfl rfl) <| .nil _,
    rfl, .destroy _ rfl rfl rfl, .cons (.destroyReturn rfl update_one) <| .nil _, rfl,
    ⟨⟨0, by decide⟩, rfl⟩, rfl, rfl⟩

end WebServer.Thread
