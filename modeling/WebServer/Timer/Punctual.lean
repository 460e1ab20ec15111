import WebServer.Timer.TimerHeap
import WebServer.Lib.Run

/-!
# Timer/Punctual — when a timer is late

The clock of the timers starts again every 10000 seconds, and an expire time is not taken back by
them: one that lies beyond the restart is never reached, and one that is missed before the restart
waits for the clock to come round.  `punctual_iff_of_run` says for which timers `HandleExpireEvent`
is in time.
-/

namespace WebServer.Timer

variable {Q ι : Type*} [PriorityQueue Q Timer.expireTime]

/-! ## Runs of a heap -/

/-- A timeout in milliseconds, from the shortest to that of a connection kept alive. -/
abbrev Timeout := { ms : ℕ // 1 ≤ ms ∧ ms ≤ 300000 }

/-- What is done to a heap. -/
inductive HeapCall (ι : Type*)
  | addTimer (httpConnection : ι) (timeout : Timeout)
  | release (id : ℕ)
  | handleExpireEvent

/-- A heap, and the time of the last call. -/
structure Timed (Q ι : Type*) where
  now : ℕ
  heap : TimerHeap Q ι

namespace Timed

def init : Timed Q ι := ⟨0, .init⟩

/-- The effect of a call. -/
def call (h : TimerHeap Q ι) (now : ℕ) : HeapCall ι → TimerHeap Q ι
  | .addTimer c timeout => (h.addTimer c timeout now).2
  | .release id => h.release id
  | .handleExpireEvent => (h.handleExpireEvent now).2

/-- **A call at some time**; the real time never goes back. -/
def Step (s : Timed Q ι) (a : ℕ × HeapCall ι) (s' : Timed Q ι) : Prop :=
  s.now ≤ a.1 ∧ s' = ⟨a.1, call s.heap a.1 a.2⟩

/-- What a run keeps: a timer was made in the past. -/
def Past (s : Timed Q ι) : Prop := ∀ tm ∈ s.heap.timers, tm.created ≤ s.now

theorem Past.step {s s' : Timed Q ι} {a : ℕ × HeapCall ι} (h : s.Past) (hs : Step s a s') :
    s'.Past := by
  obtain ⟨hle, rfl⟩ := hs
  rcases a with ⟨now, c | id | _⟩
  · intro tm htm
    rcases TimerHeap.mem_timers_addTimer.mp htm with rfl | htm
    · exact Nat.le_refl _
    · exact (h tm htm).trans hle
  · exact fun tm htm => (h tm htm).trans hle
  · intro tm htm
    exact (h tm ((s.heap.popped_handleExpireEvent now).mem_before htm)).trans hle

theorem past_of_run {as : List (ℕ × HeapCall ι)} {s : Timed Q ι} (r : Run Step init as s) :
    s.Past := by
  refine r.invariant (I := Past) (fun _ _ _ h hs => h.step hs) fun tm htm => ?_
  rw [init, TimerHeap.timers, TimerHeap.init, PriorityQueue.elems_empty] at htm
  exact absurd htm List.not_mem_nil

end Timed

/-! ## Being in time -/

/-- **No timer is late**: what is not released is not due. -/
def TimerHeap.Punctual (h : TimerHeap Q ι) (now : ℕ) : Prop := ∀ tm, h.Live tm → now < tm.deadline

/-- **When `HandleExpireEvent` leaves no late timer**: exactly when every timer that is due, and is
not released, is in time. -/
theorem punctual_iff_of_run {as : List (ℕ × HeapCall ι)} {s : Timed Q ι}
    (r : Run Timed.Step Timed.init as s) {now : ℕ} (hnow : s.now ≤ now) :
    (s.heap.handleExpireEvent now).2.Punctual now ↔
      ∀ tm, s.heap.Live tm → tm.deadline ≤ now → tm.InTime now := by
  have hpast : ∀ tm, s.heap.Live tm → tm.created ≤ now := fun tm htm =>
    (Timed.past_of_run r tm htm.1).trans hnow
  constructor
  · intro hpunct tm hlive hdue
    rw [← Timer.expireTime_le_clock_iff (hpast tm hlive)]
    refine Nat.le_of_not_lt fun hlt => ?_
    have := hpunct tm (TimerHeap.live_handleExpireEvent.mpr ⟨hlive, hlt⟩)
    omega
  · intro hin tm htm
    obtain ⟨hlive, hlt⟩ := TimerHeap.live_handleExpireEvent.mp htm
    refine Nat.lt_of_not_le fun hdue => ?_
    have := (Timer.expireTime_le_clock_iff (hpast tm hlive)).mpr (hin tm hlive hdue)
    omega

/-- A heap with one timer, of two seconds. -/
def oneTimer (created : ℕ) : Timed (SortedList Timer.expireTime) ℕ :=
  ⟨created, ((TimerHeap.init).addTimer 7 2000 created).2⟩

theorem run_oneTimer (created : ℕ) :
    Run Timed.Step Timed.init [(created, .addTimer 7 ⟨2000, by decide⟩)] (oneTimer created) :=
  .single ⟨Nat.zero_le _, rfl⟩

/-- **A timer that outlives the restart of the clock is late**: it was made half a second before the
restart, two seconds have passed, and it is still in the heap. -/
theorem not_punctual_oneTimer : ¬ ∀ (as : List (ℕ × HeapCall ℕ))
    (s : Timed (SortedList Timer.expireTime) ℕ), Run Timed.Step Timed.init as s →
    ∀ now, s.now ≤ now → (s.heap.handleExpireEvent now).2.Punctual now := by
  intro h
  have hlive : (oneTimer 9999500000).heap.Live ⟨0, 9999500000, 2000⟩ :=
    ⟨List.mem_cons_self .., rfl⟩
  have := h _ _ (run_oneTimer _) 10001500000 (by decide) _
    (TimerHeap.live_handleExpireEvent.mpr ⟨hlive, by decide⟩)
  exact absurd this (by decide)

/-- One second after the start of the clock, the same timer is in time. -/
theorem punctual_oneTimer :
    ((oneTimer 1000000).heap.handleExpireEvent 3000000).2.Punctual 3000000 := by
  refine (punctual_iff_of_run (run_oneTimer _) (by decide)).mpr ?_
  rintro tm ⟨hmem, -⟩ -
  obtain rfl : tm = ⟨0, 1000000, 2000⟩ := by
    rcases TimerHeap.mem_timers_addTimer.mp hmem with h | h
    · exact h
    · exact absurd h List.not_mem_nil
  exact show _ ≤ _ by decide

end WebServer.Timer
