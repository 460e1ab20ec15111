import WebServer.Lib.Monitor
import WebServer.Lib.Run
import Mathlib.Algebra.Order.Group.Multiset
import Mathlib.Data.List.ReduceOption
import Mathlib.Tactic.Abel

/-!
# Thread/BlockQueue — batches of channels, and the workers that handle them

`Push` appends a batch and signals `condition_`; a worker takes the first batch, or waits for one,
and calls `HandleEvents` of every channel in it that is not null.  Each batch goes to one worker, in
the order of the pushes, and a worker handles the channels of its batches in their order
(`delivered_of_run`).  No signal is lost: workers that are left to themselves come to an end, and
then everything that was pushed has been handled (`workedOff_of_run`).
-/

namespace WebServer.Thread

open Monitor

/-! ## The queue -/

/-- A vector of pointers to channels. -/
abbrev Batch (α : Type*) := List (Option α)

/-- **`BlockQueue`.** -/
structure BlockQueue (α : Type*) where
  taskQueue : List (Batch α) := []

namespace BlockQueue

variable {α : Type*}

/-- `Push`, of a vector -/
def push (q : BlockQueue α) (tasks : Batch α) : BlockQueue α := ⟨q.taskQueue ++ [tasks]⟩

/-- `Pop`, once it has `mutex_`; `none` where it waits. -/
def pop (q : BlockQueue α) : Option (Batch α × BlockQueue α) :=
  match q.taskQueue with
  | [] => none
  | task :: rest => some (task, ⟨rest⟩)

/-- `Empty` -/
def empty (q : BlockQueue α) : Bool := q.taskQueue.isEmpty

/-- `Size` -/
def size (q : BlockQueue α) : ℕ := q.taskQueue.length

theorem pop_eq_none_iff {q : BlockQueue α} : q.pop = none ↔ q.taskQueue = [] := by
  unfold pop
  split
  · next h => simp [h]
  · next h => simp [h]

theorem pop_eq_some_iff {q q' : BlockQueue α} {task : Batch α} :
    q.pop = some (task, q') ↔ q.taskQueue = task :: q'.taskQueue := by
  unfold pop
  split
  · next h => simp [h]
  · next h =>
    rw [h, Option.some_inj, Prod.mk.injEq, List.cons.injEq]
    exact and_congr_right fun _ => ⟨fun e => by rw [← e], fun e => by rw [e]⟩

end BlockQueue

/-! ## The workers -/

/-- **The queue and the workers of a `WorkerThreadPool`**: where each of them is, and what is left
of the batch that it handles.  The rest is history: the batches that were pushed, who took which,
and who has handled what. -/
structure WorkerPool (α : Type*) (threadNum : ℕ) where
  queue : BlockQueue α
  place : Fin threadNum → Place (Batch α)
  pushed : List (Batch α)
  popped : List (Fin threadNum × Batch α)
  handled : List (Fin threadNum × α)

/-- What happens next. -/
inductive PoolAction (α : Type*) (threadNum : ℕ)
  | push (tasks : Batch α)
  /-- The critical section of `Pop`. -/
  | look (i : Fin threadNum)
  /-- A step of the loop over a batch. -/
  | handle (i : Fin threadNum)
  /-- A worker is woken for no reason. -/
  | wake (i : Fin threadNum)

/-- A step of a worker. -/
def PoolAction.Own {α : Type*} {n : ℕ} : PoolAction α n → Prop
  | .look _ | .handle _ => True
  | _ => False

namespace WorkerPool

variable {α : Type*} {n : ℕ}

/-- The pool after its constructor. -/
def init (α : Type*) (n : ℕ) : WorkerPool α n := ⟨⟨[]⟩, fun _ => .entering, [], [], []⟩

/-- Worker `i` moves. -/
def goTo (s : WorkerPool α n) (i : Fin n) (p : Place (Batch α)) : WorkerPool α n :=
  { s with place := Function.update s.place i p }

/-- **One step**: a critical section, or a step of `Run`. -/
inductive Step : WorkerPool α n → PoolAction α n → WorkerPool α n → Prop
  | push {s : WorkerPool α n} (tasks : Batch α) (chosen : Fin n → Bool)
      (hs : Signal s.place chosen) : Step s (.push tasks)
        { s with
          queue := s.queue.push tasks
          place := Monitor.wake s.place chosen
          pushed := s.pushed ++ [tasks] }
  | wait {s : WorkerPool α n} {i : Fin n} (hi : (s.place i).Tests) (h : s.queue.pop = none) :
      Step s (.look i) (s.goTo i .asleep)
  | pop {s : WorkerPool α n} {i : Fin n} {tasks : Batch α} {queue : BlockQueue α}
      (hi : (s.place i).Tests) (h : s.queue.pop = some (tasks, queue)) :
      Step s (.look i)
        { s.goTo i (.outside tasks) with queue, popped := s.popped ++ [(i, tasks)] }
  | handle {s : WorkerPool α n} {i : Fin n} {channel : Option α} {rest : Batch α}
      (hi : s.place i = .outside (channel :: rest)) :
      Step s (.handle i)
        { s.goTo i (.outside rest) with
          handled := s.handled ++ (channel.map fun c => (i, c)).toList }
  | again {s : WorkerPool α n} {i : Fin n} (hi : s.place i = .outside []) :
      Step s (.handle i) (s.goTo i .entering)
  | wake {s : WorkerPool α n} {i : Fin n} (hi : s.place i = .asleep) :
      Step s (.wake i) (s.goTo i .woken)

/-! ## What is delivered -/

/-- What a worker has in hand. -/
def inHand : Place (Batch α) → List α
  | .outside tasks => tasks.reduceOption
  | _ => []

theorem inHand_wake (p : Place (Batch α)) : inHand p.wake = inHand p := by cases p <;> rfl

theorem inHand_of_tests {p : Place (Batch α)} (h : p.Tests) : inHand p = [] := by
  rcases h with rfl | rfl <;> rfl

/-- The channels that a worker has handled, in order. -/
def handledBy (s : WorkerPool α n) (i : Fin n) : List α :=
  (s.handled.filter (·.1 = i)).map Prod.snd

/-- The batches that a worker has taken, in order. -/
def batchesOf (s : WorkerPool α n) (i : Fin n) : List (Batch α) :=
  (s.popped.filter (·.1 = i)).map Prod.snd

/-- **What is kept.** -/
structure Kept (s : WorkerPool α n) : Prop where
  fifo : s.popped.map Prod.snd ++ s.queue.taskQueue = s.pushed
  order (i : Fin n) : s.handledBy i ++ inHand (s.place i) = (s.batchesOf i).flatten.reduceOption
  channels : (s.pushed.flatten.reduceOption : Multiset α) =
    (s.handled.map Prod.snd : List α) + ∑ i, (inHand (s.place i) : Multiset α) +
      (s.queue.taskQueue.flatten.reduceOption : List α)
  covered : Covered s.queue.size s.place

theorem kept_init : (init α n).Kept where
  fifo := rfl
  order _ := rfl
  channels := by
    have hsum : ∑ i, (inHand ((init α n).place i) : Multiset α) = 0 :=
      Finset.sum_eq_zero fun _ _ => rfl
    rw [hsum]
    rfl
  covered := covered_zero _

variable {s t : WorkerPool α n} {a : PoolAction α n}

/-- What one worker is noted for, when worker `i` is noted for more. -/
theorem filter_append_of {β : Type*} (l : List (Fin n × β)) (i j : Fin n) (xs : List β) :
    ((l ++ xs.map fun x => (i, x)).filter (·.1 = j)).map Prod.snd
      = (l.filter (·.1 = j)).map Prod.snd ++ if j = i then xs else [] := by
  rw [List.filter_append, List.map_append]
  congr 1
  split
  · next e =>
    rw [List.filter_eq_self.mpr (by simp [e]), List.map_map]
    exact List.map_id xs
  · next e =>
    rw [List.filter_eq_nil_iff.mpr (by simpa using fun _ _ => Ne.symm e), List.map_nil]

/-- What the workers have in hand when one of them moves. -/
theorem sum_goTo (s : WorkerPool α n) (i : Fin n) (p : Place (Batch α)) :
    ∑ j, (inHand ((s.goTo i p).place j) : Multiset α) + (inHand (s.place i) : List α)
      = ∑ j, (inHand (s.place j) : Multiset α) + (inHand p : List α) :=
  sum_update_add (fun p : Place (Batch α) => (inHand p : Multiset α)) s.place i p

theorem place_goTo (s : WorkerPool α n) (i j : Fin n) (p : Place (Batch α)) :
    (s.goTo i p).place j = if j = i then p else s.place j := by
  exact Function.update_apply s.place i p j

/-- **A worker that has nothing in hand** before or after. -/
theorem Kept.idle (h : s.Kept) {i : Fin n} {p : Place (Batch α)} (hi : inHand (s.place i) = [])
    (hp : inHand p = []) (hc : Covered s.queue.size (s.goTo i p).place) : (s.goTo i p).Kept := by
  refine ⟨h.fifo, fun j => ?_, ?_, hc⟩
  · have hj : inHand ((s.goTo i p).place j) = inHand (s.place j) := by
      rw [place_goTo]
      split
      · next e => rw [e, hi, hp]
      · rfl
    rw [hj]
    exact h.order j
  · have hsum := sum_goTo s i p
    rw [hi, hp, Multiset.coe_nil, add_zero, add_zero] at hsum
    rw [hsum]
    exact h.channels

/-- **A batch is pushed**: nobody has anything else in hand. -/
theorem Kept.push (h : s.Kept) (tasks : Batch α) {chosen : Fin n → Bool}
    (hsig : Signal s.place chosen) : Kept { s with
      queue := s.queue.push tasks
      place := Monitor.wake s.place chosen
      pushed := s.pushed ++ [tasks] } := by
  have hplace : ∀ i, inHand (Monitor.wake s.place chosen i) = inHand (s.place i) := fun i => by
    unfold Monitor.wake
    split
    · exact inHand_wake _
    · rfl
  refine ⟨?_, fun i => ?_, ?_, ?_⟩
  · rw [BlockQueue.push, ← List.append_assoc, h.fifo]
  · dsimp only
    rw [hplace]
    exact h.order i
  · dsimp only
    simp only [hplace]
    rw [BlockQueue.push, List.flatten_append, List.flatten_append, List.reduceOption_append,
      List.reduceOption_append, ← Multiset.coe_add, ← Multiset.coe_add, h.channels, add_assoc]
  · have := h.covered.signal hsig
    rwa [BlockQueue.size, BlockQueue.push, List.length_append, List.length_singleton]

/-- **A batch is taken**: it leaves the queue for the hands of a worker. -/
theorem Kept.pop (h : s.Kept) {i : Fin n} {tasks : Batch α} {queue : BlockQueue α}
    (hi : (s.place i).Tests) (hpop : s.queue.pop = some (tasks, queue)) :
    Kept { s.goTo i (.outside tasks) with queue, popped := s.popped ++ [(i, tasks)] } := by
  have hqueue := BlockQueue.pop_eq_some_iff.mp hpop
  have hnil := inHand_of_tests hi
  refine ⟨?_, fun j => ?_, ?_, ?_⟩
  · rw [List.map_append, List.map_singleton, List.append_assoc, List.singleton_append, ← hqueue]
    exact h.fifo
  · change s.handledBy j ++ inHand ((s.goTo i (.outside tasks)).place j)
      = (((s.popped ++ [tasks].map fun x => (i, x)).filter (·.1 = j)).map
        Prod.snd).flatten.reduceOption
    have horder := h.order j
    rw [filter_append_of, place_goTo, List.flatten_append, List.reduceOption_append, ← batchesOf,
      ← horder]
    split
    · next e => rw [e, hnil, List.append_nil, List.flatten_singleton, inHand]
    · rw [List.flatten_nil, List.reduceOption_nil, List.append_nil]
  · have hsum := sum_goTo s i (.outside tasks)
    rw [hnil, Multiset.coe_nil, add_zero] at hsum
    have hchannels := h.channels
    rw [hqueue, List.flatten_cons, List.reduceOption_append, ← Multiset.coe_add] at hchannels
    refine hchannels.trans ?_
    dsimp only
    rw [hsum, inHand, goTo]
    abel
  · have hc := h.covered
    rw [BlockQueue.size, hqueue, List.length_cons] at hc
    exact hc.take nofun

/-- **A channel is handled**, if the pointer is not null. -/
theorem Kept.handle (h : s.Kept) {i : Fin n} {channel : Option α} {rest : Batch α}
    (hi : s.place i = .outside (channel :: rest)) :
    Kept { s.goTo i (.outside rest) with
      handled := s.handled ++ (channel.map fun c => (i, c)).toList } := by
  have hhand : inHand (s.place i) = channel.toList ++ rest.reduceOption := by
    rw [hi, inHand]
    cases channel <;> rfl
  have hnoted : (channel.map fun c => (i, c)).toList = channel.toList.map fun c => (i, c) := by
    cases channel <;> rfl
  refine ⟨h.fifo, fun j => ?_, ?_, h.covered.move (by rw [hi]; rfl) nofun⟩
  · change ((s.handled ++ (channel.map fun c => (i, c)).toList).filter (·.1 = j)).map Prod.snd ++
      inHand ((s.goTo i (.outside rest)).place j) = (s.batchesOf j).flatten.reduceOption
    rw [hnoted, filter_append_of, place_goTo, ← h.order j, ← handledBy]
    split
    · next e => rw [e, hhand, List.append_assoc, inHand]
    · rw [List.append_nil]
  · have hsum := sum_goTo s i (.outside rest)
    rw [hhand, ← Multiset.coe_add, inHand, ← add_assoc, add_left_inj] at hsum
    have hsnd : (channel.toList.map fun c => (i, c)).map Prod.snd = channel.toList := by
      rw [List.map_map]
      exact List.map_id _
    refine h.channels.trans ?_
    dsimp only
    rw [hnoted, List.map_append, hsnd, ← Multiset.coe_add, ← hsum, goTo]
    abel

theorem Kept.step (h : s.Kept) (hs : Step s a t) : t.Kept := by
  cases hs with
  | push tasks chosen hsig => exact h.push tasks hsig
  | wait hi hpop =>
    refine h.idle (inHand_of_tests hi) rfl ?_
    rw [BlockQueue.size, BlockQueue.pop_eq_none_iff.mp hpop]
    exact covered_zero _
  | pop hi hpop => exact h.pop hi hpop
  | handle hi => exact h.handle hi
  | @again i hi =>
    exact h.idle (by rw [hi]; rfl) rfl (h.covered.move (by rw [hi]; rfl) nofun)
  | @wake i hi =>
    exact h.idle (by rw [hi]; rfl) rfl (h.covered.move (by rw [hi]; rfl) nofun)

theorem kept_of_run {as : List (PoolAction α n)} (r : Run Step (init α n) as s) : s.Kept :=
  r.invariant (I := Kept) (fun _ _ _ h hs => h.step hs) kept_init

/-- **First in, first out** — in every run the batches are taken in the order in which they were
pushed, each by one worker, and what a worker has handled, with what it has in hand, are the
channels of the batches that it took, in their order. -/
theorem delivered_of_run {as : List (PoolAction α n)} (r : Run Step (init α n) as s) :
    s.popped.map Prod.snd ++ s.queue.taskQueue = s.pushed ∧
      ∀ i, s.handledBy i ++ inHand (s.place i) = (s.batchesOf i).flatten.reduceOption :=
  have h := kept_of_run r
  ⟨h.fifo, h.order⟩

/-! ## Nobody sleeps over a batch -/

/-- How many steps a worker can take before it sleeps. -/
def steps : Place (Batch α) → ℕ
  | .outside tasks => tasks.length + 2
  | .entering | .woken => 1
  | .asleep => 0

/-- How many steps the workers can take at most. -/
def weight (s : WorkerPool α n) : ℕ :=
  (s.queue.taskQueue.map fun tasks => tasks.length + 2).sum + ∑ i, steps (s.place i)

theorem steps_of_tests {p : Place (Batch α)} (h : p.Tests) : steps p = 1 := by
  rcases h with rfl | rfl <;> rfl

theorem steps_goTo (s : WorkerPool α n) (i : Fin n) (p : Place (Batch α)) :
    ∑ j, steps ((s.goTo i p).place j) + steps (s.place i) = ∑ j, steps (s.place j) + steps p :=
  sum_update_add steps s.place i p

/-- **A worker's step** comes nearer to the end. -/
theorem weight_lt (hs : Step s a t) (ha : a.Own) : t.weight < s.weight := by
  cases hs with
  | push | wake => exact absurd ha id
  | @wait i hi hpop =>
    have := steps_goTo s i .asleep
    rw [steps_of_tests hi] at this
    simp only [weight, steps, goTo] at this ⊢
    omega
  | @pop i tasks queue hi hpop =>
    have := steps_goTo s i (.outside tasks)
    rw [steps_of_tests hi] at this
    simp only [weight, steps, goTo, BlockQueue.pop_eq_some_iff.mp hpop, List.map_cons,
      List.sum_cons] at this ⊢
    omega
  | @handle i channel rest hi =>
    have := steps_goTo s i (.outside rest)
    rw [hi] at this
    simp only [weight, steps, goTo, List.length_cons] at this ⊢
    omega
  | @again i hi =>
    have := steps_goTo s i .entering
    rw [hi] at this
    simp only [weight, steps, goTo, List.length_nil] at this ⊢
    omega

/-- A worker that does not sleep can take a step. -/
theorem exists_own_step {i : Fin n} (hi : s.place i ≠ .asleep) :
    ∃ (a : PoolAction α n) (t : WorkerPool α n), a.Own ∧ Step s a t := by
  have look : (s.place i).Tests → ∃ (a : PoolAction α n) (t : WorkerPool α n), a.Own ∧ Step s a t :=
    fun htests => by
      rcases hpop : s.queue.pop with _ | ⟨tasks, queue⟩
      · exact ⟨.look i, _, trivial, .wait htests hpop⟩
      · exact ⟨.look i, _, trivial, .pop htests hpop⟩
  rcases hp : s.place i with tasks | _ | _ | _
  · cases tasks with
    | nil => exact ⟨.handle i, _, trivial, .again hp⟩
    | cons channel rest => exact ⟨.handle i, _, trivial, .handle hp⟩
  · exact look (.inl hp)
  · exact absurd hp hi
  · exact look (.inr hp)

/-- The workers go on by themselves: nothing is pushed, and nobody is woken for no reason. -/
def OnlyOwn (_ : WorkerPool α n) (a : PoolAction α n) : Prop := a.Own

theorem length_le_weight {bs : List (PoolAction α n)} (r : Run (guarded OnlyOwn Step) s bs t) :
    bs.length + t.weight ≤ s.weight := by
  induction r with
  | nil => exact (Nat.zero_add _).le
  | cons hs _ ih =>
    have := weight_lt hs.2 hs.1
    rw [List.length_cons]
    omega

/-- **No signal is lost** — from any state that a run reaches, the workers by themselves, in any
order, come to an end, and when none of them can go on, all of them wait and everything that was
pushed has been handled once. -/
theorem workedOff_of_run (hn : 0 < n) {as bs : List (PoolAction α n)}
    (r : Run Step (init α n) as s) (r' : Run (guarded OnlyOwn Step) s bs t) :
    bs.length ≤ s.weight ∧ ((∀ a u, a.Own → ¬ Step t a u) → (∀ i, t.place i = .asleep) ∧
      (t.handled.map Prod.snd).Perm t.pushed.flatten.reduceOption) := by
  refine ⟨(Nat.le_add_right _ _).trans (length_le_weight r'), fun hquiet => ?_⟩
  have h : t.Kept := kept_of_run (r.append (r'.mono fun _ _ _ hs => hs.2))
  have hasleep : ∀ i, t.place i = .asleep := fun i => by
    by_contra hi
    obtain ⟨a, u, ha, hs⟩ := exists_own_step hi
    exact hquiet a u ha hs
  have hempty : t.queue.taskQueue = [] := by
    by_contra hne
    have : Nonempty (Fin n) := ⟨⟨0, hn⟩⟩
    obtain ⟨i, hi⟩ := h.covered.exists_awake (List.length_pos_iff.mpr hne)
    exact hi (hasleep i)
  have hnone : ∑ i, (inHand (t.place i) : Multiset α) = 0 :=
    Finset.sum_eq_zero fun i _ => by rw [hasleep i]; rfl
  refine ⟨hasleep, (Multiset.coe_eq_coe.mp ?_).symm⟩
  rw [h.channels, hnone, hempty, add_zero]
  exact add_zero _

/-- Workers that wait go on only when they are woken. -/
theorem not_step_of_asleep (h : ∀ i, s.place i = .asleep) (ha : a.Own) : ¬ Step s a t := by
  intro hs
  cases hs with
  | push | wake => exact ha
  | wait hi | pop hi =>
    rw [h] at hi
    rcases hi with hi | hi <;> exact absurd hi nofun
  | handle hi | again hi => exact absurd ((h _).symm.trans hi) nofun

/-- Two workers: one of them waited, and a batch with a null pointer and a channel was pushed. -/
def signalled : WorkerPool ℕ 2 where
  queue := ⟨[[none, some 7]]⟩
  place := Monitor.wake (Function.update (fun _ => .entering) 1 .asleep) fun i => i = 1
  pushed := [[none, some 7]]
  popped := []
  handled := []

theorem run_signalled : Run Step (init ℕ 2) [.look 1, .push [none, some 7]] signalled :=
  .cons (.wait (.inl rfl) rfl) (.single (.push _ (fun i => i = 1) fun _ => ⟨1, rfl, rfl⟩))

theorem delivered_signalled : signalled.popped.map Prod.snd ++ signalled.queue.taskQueue
    = signalled.pushed ∧ ∀ i, signalled.handledBy i ++ inHand (signalled.place i)
      = (signalled.batchesOf i).flatten.reduceOption := delivered_of_run run_signalled

/-- The worker that was woken handles the channel, and both workers wait. -/
theorem workedOff_signalled : ∃ bs t, Run (guarded OnlyOwn Step) signalled bs t ∧
    bs.length ≤ signalled.weight ∧ (∀ i, t.place i = .asleep) ∧
      (t.handled.map Prod.snd).Perm [7] := by
  have r : Run (guarded OnlyOwn Step) signalled
      [.look 1, .handle 1, .handle 1, .handle 1, .look 1, .look 0] _ :=
    .cons ⟨trivial, .pop (.inr rfl) rfl⟩ <| .cons ⟨trivial, .handle rfl⟩ <|
      .cons ⟨trivial, .handle rfl⟩ <| .cons ⟨trivial, .again rfl⟩ <|
      .cons ⟨trivial, .wait (.inl rfl) rfl⟩ <| .single ⟨trivial, .wait (.inl rfl) rfl⟩
  obtain ⟨hle, hdone⟩ := workedOff_of_run (by decide) run_signalled r
  refine ⟨_, _, r, hle, hdone fun a u ha => not_step_of_asleep (fun i => ?_) ha⟩
  match i with
  | 0 => exact rfl
  | 1 => exact rfl

end WorkerPool

end WebServer.Thread
