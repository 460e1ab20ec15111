import WebServer.Lib.CInt
import WebServer.Lib.Monitor
import WebServer.Server.WebServer
import WebServer.Lib.Run

/-!
# Thread/Handshake — waiting for threads that start

Two calls return only when another thread has come far enough.  `CountDownLatch::wait` waits until
`count_` is not positive, which the last `count_down` broadcasts: nobody returns too early, and
nobody is left behind (`latch_of_run`).  `EventLoopThreadPool::Start` starts its threads one after
the other and waits for each until it has published its loop: it never sleeps on a loop that is
there, and when it is through, every loop runs and is in `sub_loops_` once (`started_of_run`).
-/

namespace WebServer.Thread

open Monitor

/-! ## `CountDownLatch` -/

/-- Where a thread is that uses a latch: in code of its own it has returned from `wait`, or not. -/
abbrev LatchPlace := Place Bool

/-- **`CountDownLatch`**, with the threads that use it; `downs` counts the calls of `count_down`. -/
structure CountDownLatch (ι : Type*) where
  count : ℤ
  place : ι → LatchPlace
  downs : ℕ

/-- What happens next. -/
inductive LatchAction (ι : Type*)
  | wait (i : ι)
  /-- The critical section of `wait`. -/
  | look (i : ι)
  | countDown
  /-- A thread is woken for no reason. -/
  | wake (i : ι)

namespace CountDownLatch

variable {ι : Type*}

/-- The latch, before anybody uses it. -/
def init (ι : Type*) (count : ℤ) : CountDownLatch ι := ⟨count, fun _ => .outside false, 0⟩

/-- **`count_down`**, to a count: the call that makes `count_` zero broadcasts. -/
def countDown (s : CountDownLatch ι) (count : ℤ) : CountDownLatch ι where
  count := count
  place := if count = 0 then Monitor.wake s.place fun _ => true else s.place
  downs := s.downs + 1

variable [DecidableEq ι]

/-- Thread `i` moves. -/
def goTo (s : CountDownLatch ι) (i : ι) (p : LatchPlace) : CountDownLatch ι :=
  { s with place := Function.update s.place i p }

/-- **One step.**  A call of `count_down` that leaves the range of `count_`, an `int`, is
undefined. -/
inductive Step : CountDownLatch ι → LatchAction ι → CountDownLatch ι → Prop
  | wait {s : CountDownLatch ι} {i : ι} {b : Bool} (hi : s.place i = .outside b) :
      Step s (.wait i) (s.goTo i .entering)
  | sleep {s : CountDownLatch ι} {i : ι} (hi : (s.place i).Tests) (h : s.count > 0) :
      Step s (.look i) (s.goTo i .asleep)
  | return {s : CountDownLatch ι} {i : ι} (hi : (s.place i).Tests) (h : ¬ s.count > 0) :
      Step s (.look i) (s.goTo i (.outside true))
  | countDown {s : CountDownLatch ι} {count : ℤ} (hcount : CInt.add s.count (-1) = some count) :
      Step s .countDown (s.countDown count)
  | wake {s : CountDownLatch ι} {i : ι} (hi : s.place i = .asleep) :
      Step s (.wake i) (s.goTo i .woken)

/-- **What is kept.** -/
structure Kept (count : ℤ) (s : CountDownLatch ι) : Prop where
  count : s.count + s.downs = count
  rested : s.count ≤ 0 → Rested s.place
  returned (i : ι) : s.place i = .outside true → s.count ≤ 0

variable {s t : CountDownLatch ι} {a : LatchAction ι} {count : ℤ}

omit [DecidableEq ι] in
theorem kept_init (count : ℤ) : (init ι count).Kept count where
  count := add_zero _
  rested _ _ := nofun
  returned _ h := absurd h nofun

theorem place_goTo (s : CountDownLatch ι) (i j : ι) (p : LatchPlace) :
    (s.goTo i p).place j = if j = i then p else s.place j := Function.update_apply s.place i p j

/-- **A thread moves**: it sleeps only while `count_` is positive, and returns only when it is
not. -/
theorem Kept.goTo (h : s.Kept count) {i : ι} {p : LatchPlace} (hsleep : p = .asleep → 0 < s.count)
    (hreturn : p = .outside true → s.count ≤ 0) : (s.goTo i p).Kept count where
  count := h.count
  rested hle := (h.rested hle).update fun e => (hsleep e).not_ge hle
  returned j hj := by
    rw [place_goTo] at hj
    split at hj
    · exact hreturn hj
    · exact h.returned j hj

theorem Kept.step (h : s.Kept count) (hs : Step s a t) : t.Kept count := by
  cases hs with
  | wait hi => exact h.goTo (by simp) (by simp)
  | sleep hi hc => exact h.goTo (fun _ => hc) (by simp)
  | «return» hi hc => exact h.goTo (by simp) fun _ => not_lt.mp hc
  | wake hi => exact h.goTo (by simp) (by simp)
  | countDown hadd =>
    obtain rfl := CInt.eq_of_add hadd
    have hcount := h.count
    refine ⟨?_, fun hle => ?_, fun i hi => ?_⟩
    · simp only [CountDownLatch.countDown]
      omega
    · simp only [CountDownLatch.countDown] at hle ⊢
      split
      · exact rested_broadcast
      · exact h.rested (by omega)
    · have hi' : s.place i = .outside true := by
        simp only [CountDownLatch.countDown] at hi
        split at hi
        · by_cases hasleep : s.place i = .asleep
          · simp [Monitor.wake, Place.wake, hasleep] at hi
          · rwa [wake_of_ne hasleep] at hi
        · exact hi
      have := h.returned i hi'
      simp only [CountDownLatch.countDown]
      omega

/-- **The latch** — whatever any number of threads do, in any order: a thread has returned from
`wait` only if there were as many calls of `count_down` as the latch was made for; and once there
were as many, no thread sleeps. -/
theorem latch_of_run {as : List (LatchAction ι)} (r : Run Step (init ι count) as s) :
    (∀ i, s.place i = .outside true → count ≤ s.downs) ∧
      (count ≤ s.downs → ∀ i, s.place i ≠ .asleep) := by
  have h : s.Kept count := r.invariant (I := Kept count) (fun _ _ _ h hs => h.step hs)
    (kept_init count)
  have hcount := h.count
  refine ⟨fun i hi => ?_, fun hle => h.rested (by omega)⟩
  have := h.returned i hi
  omega

/-- A thread waits for two calls, and returns after them. -/
theorem latch_two : ∃ as s, Run Step (init (Fin 2) 2) as s ∧ s.place 0 = .outside true ∧
    (∀ i, s.place i = .outside true → 2 ≤ s.downs) ∧ (2 ≤ s.downs → ∀ i, s.place i ≠ .asleep) := by
  have r : Run Step (init (Fin 2) 2)
      [.wait 0, .look 0, .countDown, .countDown, .look 0] _ :=
    .cons (.wait rfl) <| .cons (.sleep (.inl rfl) (by decide)) <| .cons (.countDown rfl) <|
      .cons (.countDown rfl) <| .single (.return (.inr rfl) (by decide))
  obtain ⟨hreturned, hrested⟩ := latch_of_run r
  exact ⟨_, _, r, rfl, fun i hi => by exact_mod_cast hreturned i hi,
    fun hle => hrested (by exact_mod_cast hle)⟩

end CountDownLatch

/-! ## `EventLoopThreadPool::Start` -/

/-- How far the thread of an `EventLoopThread` is. -/
inductive LoopChild
  | absent
  /-- It makes its `EventLoop`. -/
  | starting
  /-- `sub_loop_` is set. -/
  | looping
  deriving DecidableEq

/-- **A pool that starts**: the thread that is to be started next, or is being waited for, the main
thread in `StartLoop`, the threads, and `sub_loops_`. -/
structure Startup where
  next : ℕ
  main : Place Unit
  child : ℕ → LoopChild
  subLoops : List ℕ

/-- What happens next. -/
inductive StartupAction
  /-- `thread_.Start()` -/
  | create
  /-- The critical section of `StartLoop`. -/
  | look
  /-- The critical section of `Worker`. -/
  | publish (i : ℕ)
  /-- The main thread is woken for no reason. -/
  | wake

namespace Startup

/-- The pool at the beginning of `Start`. -/
def init : Startup := ⟨0, .outside (), fun _ => .absent, []⟩

/-- **One step.**  Each `EventLoopThread` has a condition of its own, so a signal only reaches a
main thread that waits for this one. -/
inductive Step (threadNum : ℕ) : Startup → StartupAction → Startup → Prop
  | create {s : Startup} (hn : s.next < threadNum) (hm : s.main = .outside ()) :
      Step threadNum s .create
        { s with main := .entering, child := Function.update s.child s.next .starting }
  | sleep {s : Startup} (hm : s.main.Tests) (h : s.child s.next ≠ .looping) :
      Step threadNum s .look { s with main := .asleep }
  | found {s : Startup} (hm : s.main.Tests) (h : s.child s.next = .looping) :
      Step threadNum s .look
        { s with main := .outside (), next := s.next + 1, subLoops := s.subLoops ++ [s.next] }
  | publish {s : Startup} {i : ℕ} (hi : s.child i = .starting) :
      Step threadNum s (.publish i)
        { s with
          main := if i = s.next then s.main.wake else s.main
          child := Function.update s.child i .looping }
  | wake {s : Startup} (hm : s.main = .asleep) :
      Step threadNum s .wake { s with main := .woken }

/-- **What is kept.** -/
structure Kept (threadNum : ℕ) (s : Startup) : Prop where
  subLoops : s.subLoops = List.range s.next
  looping (i : ℕ) : i < s.next → s.child i = .looping
  absent (i : ℕ) : s.next < i → s.child i = .absent
  created : s.child s.next = .absent ↔ s.main = .outside ()
  le : s.next ≤ threadNum
  lt : s.main ≠ .outside () → s.next < threadNum
  covered : s.main = .asleep → s.child s.next = .starting

variable {threadNum : ℕ} {s t : Startup} {a : StartupAction}

theorem kept_init : init.Kept threadNum where
  subLoops := rfl
  looping _ h := absurd h (Nat.not_lt_zero _)
  absent _ _ := rfl
  created := ⟨fun _ => rfl, fun _ => rfl⟩
  le := Nat.zero_le _
  lt h := absurd rfl h
  covered := nofun

/-- The thread that publishes its loop is the one that is waited for. -/
theorem Kept.eq_next (h : s.Kept threadNum) {i : ℕ} (hi : s.child i = .starting) : i = s.next := by
  rcases lt_trichotomy i s.next with hlt | heq | hgt
  · exact absurd ((h.looping i hlt).symm.trans hi) nofun
  · exact heq
  · exact absurd ((h.absent i hgt).symm.trans hi) nofun

theorem ne_outside_of_tests {p : Place Unit} (h : p.Tests) : p ≠ .outside () := by
  rcases h with rfl | rfl <;> nofun

theorem Kept.step (h : s.Kept threadNum) (hs : Step threadNum s a t) : t.Kept threadNum := by
  cases hs with
  | create hn hm =>
    refine ⟨h.subLoops, fun i hi => ?_, fun i hi => ?_, ?_, h.le, fun _ => hn, nofun⟩
    · exact (Function.update_of_ne hi.ne _ _).trans (h.looping i hi)
    · exact (Function.update_of_ne hi.ne' _ _).trans (h.absent i hi)
    · dsimp only
      rw [Function.update_self]
      exact ⟨nofun, nofun⟩
  | sleep hm hc =>
    have hne := ne_outside_of_tests hm
    have hstarting : s.child s.next = .starting := by
      rcases hchild : s.child s.next with _ | _ | _
      · exact absurd (h.created.mp hchild) hne
      · rfl
      · exact absurd hchild hc
    refine ⟨h.subLoops, h.looping, h.absent, ?_, h.le, fun _ => h.lt hne, fun _ => hstarting⟩
    rw [hstarting]
    exact ⟨nofun, nofun⟩
  | found hm hc =>
    refine ⟨?_, fun i hi => ?_, fun i hi => h.absent i (Nat.lt_of_succ_lt hi), ?_,
      h.lt (ne_outside_of_tests hm), fun e => absurd rfl e, nofun⟩
    · rw [h.subLoops, ← List.range_succ]
    · rcases Nat.lt_succ_iff_lt_or_eq.mp hi with hlt | rfl
      · exact h.looping i hlt
      · exact hc
    · exact ⟨fun _ => rfl, fun _ => h.absent _ (Nat.lt_succ_self _)⟩
  | publish hi =>
    obtain rfl := h.eq_next hi
    have hne : s.main ≠ .outside () := fun e => absurd (hi.symm.trans (h.created.mpr e)) nofun
    have hmain : s.main.wake ≠ .outside () := fun e => by
      rcases hm : s.main with _ | _ | _ | _
      · exact hne hm
      all_goals
        rw [hm] at e
        exact absurd e nofun
    refine ⟨h.subLoops, fun j hj => ?_, fun j hj => ?_, ?_, h.le, fun _ => h.lt hne, fun e => ?_⟩
    · exact (Function.update_of_ne hj.ne _ _).trans (h.looping j hj)
    · exact (Function.update_of_ne hj.ne' _ _).trans (h.absent j hj)
    · dsimp only
      rw [Function.update_self, if_pos rfl]
      exact ⟨nofun, fun e => absurd e hmain⟩
    · rw [if_pos rfl] at e
      exact absurd e (Place.wake_ne_asleep _)
  | wake hm =>
    have hne : s.main ≠ .outside () := by rw [hm]; nofun
    refine ⟨h.subLoops, h.looping, h.absent, ?_, h.le, fun _ => h.lt hne, nofun⟩
    exact ⟨fun e => absurd (h.created.mp e) hne, nofun⟩

/-! ## `Start` comes through -/

/-- How far the thread is that is being waited for. -/
def stage : Place Unit → LoopChild → ℕ
  | .outside _, _ => 0
  | _, .looping => 3
  | .asleep, _ => 2
  | _, _ => 1

/-- How far `Start` is. -/
def progress (s : Startup) : ℕ := 4 * s.next + stage s.main (s.child s.next)

theorem Kept.progress_le (h : s.Kept threadNum) : s.progress ≤ 4 * threadNum := by
  by_cases hm : s.main = .outside ()
  · rw [progress, hm, stage]
    have := h.le
    omega
  · have hstage : stage s.main (s.child s.next) ≤ 3 := by
      unfold stage
      split <;> decide
    have := h.lt hm
    rw [progress]
    omega

/-- **A step** that is no wake-up for no reason gets further. -/
theorem Kept.progress_lt (h : s.Kept threadNum) (hs : Step threadNum s a t) (ha : a ≠ .wake) :
    s.progress < t.progress := by
  cases hs with
  | create hn hm =>
    simp only [progress, hm, Function.update_self, stage]
    omega
  | sleep hm hc =>
    have hstarting := (h.step (.sleep hm hc)).covered rfl
    dsimp only at hstarting
    rcases hm with hm | hm <;> simp [progress, hm, hstarting, stage]
  | found hm hc =>
    have hstage : stage s.main .looping ≤ 3 := by
      unfold stage
      split <;> decide
    rw [progress, hc]
    change _ < 4 * (s.next + 1) + 0
    omega
  | publish hi =>
    obtain rfl := h.eq_next hi
    have hne : s.main ≠ .outside () := fun e => absurd (hi.symm.trans (h.created.mpr e)) nofun
    simp only [progress, hi, Function.update_self, if_pos]
    rcases hm : s.main with _ | _ | _ | _
    · exact absurd hm hne
    all_goals simp [Place.wake, stage]
  | wake hm => exact absurd rfl ha

/-- No thread is woken for no reason. -/
def NoSpuriousWake (_ : Startup) (a : StartupAction) : Prop := a ≠ .wake

/-- `Start` stops only at its end. -/
theorem Kept.next_of_quiet (h : s.Kept threadNum)
    (hquiet : ∀ a t, a ≠ .wake → ¬ Step threadNum s a t) : s.next = threadNum := by
  by_contra hne
  have look : s.main.Tests → False := fun hm => by
    by_cases hc : s.child s.next = .looping
    · exact hquiet .look _ nofun (.found hm hc)
    · exact hquiet .look _ nofun (.sleep hm hc)
  rcases hm : s.main with _ | _ | _ | _
  · exact hquiet .create _ nofun (.create (lt_of_le_of_ne h.le hne) hm)
  · exact look (.inl hm)
  · exact hquiet (.publish s.next) _ nofun (.publish (h.covered hm))
  · exact look (.inr hm)

/-- Then the pool has as many loops as `GetNextLoop` counts on. -/
theorem Kept.length_of_quiet (h : s.Kept threadNum)
    (hquiet : ∀ a t, a ≠ .wake → ¬ Step threadNum s a t) :
    s.subLoops.length = (Server.EventLoopThreadPool.start { threadNum }).subLoops := by
  rw [h.subLoops, h.next_of_quiet hquiet, List.length_range]
  exact (Nat.zero_add _).symm

theorem Kept.length_le {bs : List StartupAction} (h : s.Kept threadNum)
    (r : Run (guarded NoSpuriousWake (Step threadNum)) s bs t) :
    bs.length + s.progress ≤ t.progress := by
  induction r with
  | nil => exact (Nat.zero_add _).le
  | cons hs _ ih =>
    have hlt := h.progress_lt hs.2 hs.1
    have hrest := ih (h.step hs.2)
    rw [List.length_cons]
    omega

/-- **Every loop is started** — in every run `sub_loops_` has the loops of the threads that have
published theirs, each once and in order, and the main thread sleeps only while the thread that it
waits for is still to do so.  Without wake-ups for no reason `Start` takes at most four steps a
thread, and it stops only when all its loops run: as many as `GetNextLoop` counts on. -/
theorem started_of_run {as : List StartupAction} (r : Run (Step threadNum) init as s) :
    s.subLoops = List.range s.next ∧ (∀ i ∈ s.subLoops, s.child i = .looping) ∧
      (s.main = .asleep → s.child s.next = .starting) ∧
      ∀ bs t, Run (guarded NoSpuriousWake (Step threadNum)) s bs t → bs.length ≤ 4 * threadNum ∧
        ((∀ a u, a ≠ .wake → ¬ Step threadNum t a u) → t.subLoops = List.range threadNum ∧
          t.subLoops.length = (Server.EventLoopThreadPool.start { threadNum }).subLoops) := by
  have h : s.Kept threadNum := r.invariant (I := Kept threadNum) (fun _ _ _ h hs => h.step hs)
    kept_init
  refine ⟨h.subLoops, fun i hi => h.looping i (by rwa [h.subLoops, List.mem_range] at hi),
    h.covered, fun bs t r' => ?_⟩
  have ht : t.Kept threadNum :=
    r'.invariant (I := Kept threadNum) (fun _ _ _ h hs => h.step hs.2) h
  have hlength := h.length_le r'
  have hle := ht.progress_le
  refine ⟨by omega, fun hquiet => ⟨?_, ht.length_of_quiet hquiet⟩⟩
  rw [ht.subLoops, ht.next_of_quiet hquiet]

/-- A pool of two: the main thread sleeps until the first loop is there, and finds the second. -/
theorem started_two : ∃ as s, Run (Step 2) init as s ∧ s.next = 2 ∧
    s.subLoops = List.range s.next ∧ (∀ i ∈ s.subLoops, s.child i = .looping) ∧
      (s.main = .asleep → s.child s.next = .starting) ∧
      ∀ bs t, Run (guarded NoSpuriousWake (Step 2)) s bs t → bs.length ≤ 4 * 2 ∧
        ((∀ a u, a ≠ .wake → ¬ Step 2 t a u) → t.subLoops = List.range 2 ∧
          t.subLoops.length = (Server.EventLoopThreadPool.start { threadNum := 2 }).subLoops) := by
  have r : Run (Step 2) init
      [.create, .look, .publish 0, .look, .create, .publish 1, .look] _ :=
    .cons (.create (by decide) rfl) <| .cons (.sleep (.inl rfl) nofun) <|
      .cons (.publish rfl) <| .cons (.found (.inr rfl) rfl) <|
      .cons (.create (by decide) rfl) <| .cons (.publish rfl) <| .single (.found (.inl rfl) rfl)
  exact ⟨_, _, r, rfl, started_of_run r⟩

end Startup

end WebServer.Thread
