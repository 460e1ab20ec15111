import WebServer.Lib.PriorityQueue
import Mathlib.Logic.Function.Basic

/-!
# Timer/TimerHeap — timers, and the heap that expires them

A timer holds a connection until it is released or expires.  Times are microseconds since the epoch;
the clock of a timer counts whole milliseconds and starts again every 10000 seconds.  The heap keeps
released timers until they come to its top, so `handleExpireEvent` is described by what it does to
the timers that are not released (`live_handleExpireEvent`).
-/

namespace WebServer.Timer

/-! ## Timers -/

/-- **The clock of the timers**, read at `now`: seconds modulo 10000, in milliseconds. -/
def clock (now : ℕ) : ℕ := now / 1000000 % 10000 * 1000 + now % 1000000 / 1000

theorem clock_eq (now : ℕ) : clock now = now / 1000 % 10000000 := by
  unfold clock
  omega

/-- **A timer**, without the members that change: its address, when it was made and with which
timeout, in milliseconds.  The server's timeouts are at most 300000, so their sums with the clock
fit an `int`. -/
structure Timer where
  id : ℕ
  created : ℕ
  timeout : ℕ

namespace Timer

/-- `expire_time_` -/
def expireTime (tm : Timer) : ℕ := clock tm.created + tm.timeout

/-- `is_expired`, without its effect on a timer that is dropped at once. -/
def isExpired (tm : Timer) (now : ℕ) : Bool := tm.expireTime ≤ clock now

/-- The time at which the timeout is over. -/
def deadline (tm : Timer) : ℕ := tm.created + tm.timeout * 1000

/-- **A timer is in time**: since it was made, its timeout has passed on the millisecond clock, and
10000 seconds more for every time the seconds counter has started again. -/
def InTime (tm : Timer) (now : ℕ) : Prop :=
  tm.created / 1000 + tm.timeout + 10000000 * (now / 10000000000 - tm.created / 10000000000)
    ≤ now / 1000

/-- **The clock has reached the expire time** of exactly the timers that are in time. -/
theorem expireTime_le_clock_iff {tm : Timer} {now : ℕ} (h : tm.created ≤ now) :
    tm.expireTime ≤ clock now ↔ tm.InTime now := by
  rw [expireTime, InTime, clock_eq, clock_eq]
  omega

end Timer

/-- The members of a timer that change. -/
structure TimerState (ι : Type*) where
  httpConnection : Option ι
  isDeleted : Bool

/-! ## The heap -/

/-- **The timer heap**, and the timers its pointers lead to. -/
structure TimerHeap (Q ι : Type*) where
  queue : Q
  state : ℕ → TimerState ι
  fresh : ℕ

namespace TimerHeap

open PriorityQueue

variable {Q ι : Type*} [PriorityQueue Q Timer.expireTime]

def init : TimerHeap Q ι := ⟨empty, fun _ => ⟨none, false⟩, 0⟩

/-- `AddTimer`: the address of the new timer, which the connection remembers. -/
def addTimer (h : TimerHeap Q ι) (httpConnection : ι) (timeout now : ℕ) :
    ℕ × TimerHeap Q ι :=
  (h.fresh,
    { queue := push ⟨h.fresh, now, timeout⟩ h.queue
      state := Function.update h.state h.fresh ⟨some httpConnection, false⟩
      fresh := h.fresh + 1 })

/-- `Timer::Release` -/
def release (h : TimerHeap Q ι) (id : ℕ) : TimerHeap Q ι :=
  { h with state := Function.update h.state id ⟨none, true⟩ }

/-- Whether the timer at the top goes. -/
def goes (h : TimerHeap Q ι) (now : ℕ) (tm : Timer) : Bool :=
  (h.state tm.id).isDeleted || tm.isExpired now

/-- **`HandleExpireEvent`**: the connections that the dropped timers still hold, and the heap.  The
destructor of a timer deletes its connection, which changes nothing about the other timers. -/
def handleExpireEvent (h : TimerHeap Q ι) (now : ℕ) : List ι × TimerHeap Q ι :=
  ((popWhile (h.goes now) h.queue).1.filterMap fun tm => (h.state tm.id).httpConnection,
    { h with queue := (popWhile (h.goes now) h.queue).2 })

/-- The timers in the heap. -/
def timers (h : TimerHeap Q ι) : List Timer := elems h.queue

/-- A timer in the heap that is not released. -/
def Live (h : TimerHeap Q ι) (tm : Timer) : Prop :=
  tm ∈ h.timers ∧ (h.state tm.id).isDeleted = false

theorem mem_timers_addTimer {h : TimerHeap Q ι} {c : ι} {timeout now : ℕ} {tm : Timer} :
    tm ∈ (h.addTimer c timeout now).2.timers ↔ tm = ⟨h.fresh, now, timeout⟩ ∨ tm ∈ h.timers :=
  mem_push

theorem popped_handleExpireEvent (h : TimerHeap Q ι) (now : ℕ) :
    Popped Timer.expireTime (h.goes now) h.timers (popWhile (h.goes now) h.queue).1
      (h.handleExpireEvent now).2.timers := popped_popWhile _ _

/-- **Expiring, seen from the timers that are not released**: those stay whose expire time the clock
has not reached. -/
theorem live_handleExpireEvent {h : TimerHeap Q ι} {now : ℕ} {tm : Timer} :
    (h.handleExpireEvent now).2.Live tm ↔ h.Live tm ∧ clock now < tm.expireTime := by
  have hpop := h.popped_handleExpireEvent now
  constructor
  · rintro ⟨hmem, hlive⟩
    obtain ⟨top, -, hstay, hle⟩ := hpop.blocked tm hmem
    refine ⟨⟨hpop.mem_before hmem, hlive⟩, ?_⟩
    rw [goes, Bool.or_eq_false_iff, Timer.isExpired, decide_eq_false_iff_not] at hstay
    omega
  · rintro ⟨⟨hmem, hlive⟩, hlt⟩
    refine ⟨hpop.mem_after hmem ?_, hlive⟩
    rw [goes, hlive, Bool.false_or, Timer.isExpired, decide_eq_false_iff_not]
    omega

/-! ## Who holds a connection -/

/-- **A timer that is not released holds a connection.** -/
def Holds (h : TimerHeap Q ι) (tm : Timer) (c : ι) : Prop :=
  h.Live tm ∧ (h.state tm.id).httpConnection = some c

/-- The timers in the heap have addresses of their own, and a released one holds nothing. -/
structure Sound (h : TimerHeap Q ι) : Prop where
  nodup : (h.timers.map Timer.id).Nodup
  lt_fresh (tm : Timer) : tm ∈ h.timers → tm.id < h.fresh
  released (tm : Timer) : tm ∈ h.timers → (h.state tm.id).isDeleted = true →
    (h.state tm.id).httpConnection = none

theorem timers_init : (init : TimerHeap Q ι).timers = [] := elems_empty

theorem sound_init : (init : TimerHeap Q ι).Sound := by
  constructor <;> rw [timers_init]
  · exact .nil
  · exact fun _ h => absurd h List.not_mem_nil
  · exact fun _ h => absurd h List.not_mem_nil

section Steps

variable {h : TimerHeap Q ι} {tm : Timer} {c c' : ι} {id timeout now : ℕ}

theorem Sound.eq_of_id (hs : h.Sound) {tm tm' : Timer} (hm : tm ∈ h.timers) (hm' : tm' ∈ h.timers)
    (hid : tm.id = tm'.id) : tm = tm' := List.inj_on_of_nodup_map hs.nodup hm hm' hid

theorem Sound.addTimer (hs : h.Sound) (c : ι) (timeout now : ℕ) :
    (h.addTimer c timeout now).2.Sound := by
  have hne : ∀ tm ∈ h.timers, tm.id ≠ h.fresh := fun tm htm => (hs.lt_fresh tm htm).ne
  refine ⟨?_, fun tm htm => ?_, fun tm htm hd => ?_⟩
  · have hperm : (h.addTimer c timeout now).2.timers.Perm (⟨h.fresh, now, timeout⟩ :: h.timers) :=
      push_perm _ _
    refine (hperm.map _).nodup_iff.mpr (List.nodup_cons.mpr ⟨fun hm => ?_, hs.nodup⟩)
    obtain ⟨tm, htm, hid⟩ := List.mem_map.mp hm
    exact hne tm htm hid
  · rcases mem_timers_addTimer.mp htm with rfl | htm
    · exact Nat.lt_succ_self _
    · exact (hs.lt_fresh tm htm).trans (Nat.lt_succ_self _)
  · simp only [TimerHeap.addTimer] at hd ⊢
    rcases mem_timers_addTimer.mp htm with rfl | htm
    · rw [Function.update_self] at hd
      exact Bool.noConfusion hd
    · rw [Function.update_of_ne (hne tm htm)] at hd ⊢
      exact hs.released tm htm hd

/-- The new timer holds its connection, the others hold what they held. -/
theorem Sound.holds_addTimer (hs : h.Sound) : (h.addTimer c timeout now).2.Holds tm c' ↔
    (tm = ⟨h.fresh, now, timeout⟩ ∧ c' = c) ∨ h.Holds tm c' := by
  have hne : ∀ tm ∈ h.timers, tm.id ≠ h.fresh := fun tm htm => (hs.lt_fresh tm htm).ne
  unfold Holds Live
  rw [mem_timers_addTimer]
  simp only [TimerHeap.addTimer]
  constructor
  · rintro ⟨⟨rfl | hm, hd⟩, hc⟩
    · rw [Function.update_self] at hc
      exact .inl ⟨rfl, (Option.some.inj hc).symm⟩
    · rw [Function.update_of_ne (hne tm hm)] at hd hc
      exact .inr ⟨⟨hm, hd⟩, hc⟩
  · rintro (⟨rfl, rfl⟩ | ⟨⟨hm, hd⟩, hc⟩)
    · rw [Function.update_self]
      exact ⟨⟨.inl rfl, rfl⟩, rfl⟩
    · rw [Function.update_of_ne (hne tm hm)]
      exact ⟨⟨.inr hm, hd⟩, hc⟩

theorem Sound.release (hs : h.Sound) (id : ℕ) : (h.release id).Sound := by
  refine ⟨hs.nodup, hs.lt_fresh, fun tm htm hd => ?_⟩
  simp only [TimerHeap.release] at hd ⊢
  by_cases hid : tm.id = id
  · rw [hid, Function.update_self]
  · rw [Function.update_of_ne hid] at hd ⊢
    exact hs.released tm htm hd

/-- A released timer holds nothing any more. -/
theorem holds_release : (h.release id).Holds tm c ↔ h.Holds tm c ∧ tm.id ≠ id := by
  unfold Holds Live
  simp only [release]
  by_cases hid : tm.id = id
  · rw [hid, Function.update_self]
    exact ⟨fun hc => absurd hc.2 (by simp), fun hc => absurd rfl hc.2⟩
  · rw [Function.update_of_ne hid]
    exact ⟨fun hc => ⟨hc, hid⟩, fun hc => hc.1⟩

theorem Sound.handleExpireEvent (hs : h.Sound) (now : ℕ) : (h.handleExpireEvent now).2.Sound := by
  have hpop := h.popped_handleExpireEvent now
  refine ⟨?_, fun tm htm => hs.lt_fresh tm (hpop.mem_before htm), fun tm htm =>
    hs.released tm (hpop.mem_before htm)⟩
  have hnd := (hpop.perm.map Timer.id).nodup_iff.mp hs.nodup
  rw [List.map_append] at hnd
  exact (List.nodup_append.mp hnd).2.1

/-- Expiring leaves a connection to the timers whose expire time the clock has not reached. -/
theorem holds_handleExpireEvent : (h.handleExpireEvent now).2.Holds tm c ↔
    h.Holds tm c ∧ clock now < tm.expireTime := by
  unfold Holds
  rw [live_handleExpireEvent]
  exact ⟨fun ⟨⟨hl, hlt⟩, hc⟩ => ⟨⟨hl, hc⟩, hlt⟩, fun ⟨⟨hl, hc⟩, hlt⟩ => ⟨⟨hl, hlt⟩, hc⟩⟩

/-- **A timer deletes its connection only when the clock has reached the expire time.** -/
theorem Sound.mem_handleExpireEvent (hs : h.Sound) (hc : c ∈ (h.handleExpireEvent now).1) :
    ∃ tm, h.Holds tm c ∧ tm.expireTime ≤ clock now := by
  obtain ⟨tm, htm, hhold⟩ := List.mem_filterMap.mp hc
  have hpop := h.popped_handleExpireEvent now
  have hmem : tm ∈ h.timers := hpop.perm.mem_iff.mpr (List.mem_append_left _ htm)
  have hgoes := hpop.pass tm htm
  rcases hd : (h.state tm.id).isDeleted with _ | _
  · rw [goes, hd, Bool.false_or, Timer.isExpired, decide_eq_true_eq] at hgoes
    exact ⟨tm, ⟨⟨hmem, hd⟩, hhold⟩, hgoes⟩
  · rw [hs.released tm hmem hd] at hhold
    exact absurd hhold (by simp)

/-- **A timer whose expire time the clock has reached deletes its connection.** -/
theorem mem_handleExpireEvent_of_holds (ht : h.Holds tm c) (hle : tm.expireTime ≤ clock now) :
    c ∈ (h.handleExpireEvent now).1 := by
  have hpop := h.popped_handleExpireEvent now
  have hout : tm ∉ (h.handleExpireEvent now).2.timers := fun hm => by
    have := (live_handleExpireEvent.mp ⟨hm, ht.1.2⟩).2
    omega
  have hmem := (List.mem_append.mp (hpop.perm.mem_iff.mp ht.1.1)).resolve_right hout
  exact List.mem_filterMap.mpr ⟨tm, hmem, ht.2⟩

end Steps

end TimerHeap

end WebServer.Timer
