import WebServer.Event.EventLoop

/-!
# Event/Ownership — who keeps a connection alive, and when a timer ends it

A connection that is registered is in `http_connections_`, and the timer that holds it is the one it
points to.  `Kept` says so of every connection; each thing the loop does keeps it.  Hence no two
timers hold one connection, a channel is only found while its connection exists, and a timer ends a
connection only after the timeout of its last `EpollAdd` or `EpollMod` (`owned_of_run`).
-/

namespace WebServer.Event

open Http Timer

namespace EventLoop

variable {Q : Type*} [PriorityQueue Q Timer.expireTime]

/-! ## The invariant -/

/-- **What a loop keeps.** -/
structure Kept (s : EventLoop Q) : Prop where
  heap : s.timerHeap.Sound
  past (tm : Timer.Timer) : tm ∈ s.timerHeap.timers → tm.created ≤ s.now
  fresh (c : ℕ) : s.created ≤ c → s.connection c = none
  held (tm : Timer.Timer) (c : ℕ) : s.timerHeap.Holds tm c → ∃ conn, s.connection c = some conn ∧
    conn.timer = some tm.id ∧ conn.granted = (tm.created, tm.timeout) ∧
    s.httpConnections conn.fd = some c
  timer_lt (c : ℕ) (conn : Connection) (id : ℕ) : s.connection c = some conn →
    conn.timer = some id → id < s.timerHeap.fresh
  timer_inj (c c' : ℕ) (conn conn' : Connection) (id : ℕ) : s.connection c = some conn →
    s.connection c' = some conn' → conn.timer = some id → conn'.timer = some id → c = c'
  http (fd c : ℕ) : s.httpConnections fd = some c → ∃ conn,
    s.connection c = some conn ∧ conn.fd = fd
  ready (fd c : ℕ) : s.readyChannels fd = some c → s.httpConnections fd = some c

theorem kept_init : (init : EventLoop Q).Kept where
  heap := TimerHeap.sound_init
  past tm h := by
    rw [init, TimerHeap.timers_init] at h
    exact absurd h List.not_mem_nil
  fresh _ _ := rfl
  held tm c h := by
    have hmem := h.1.1
    rw [init, TimerHeap.timers_init] at hmem
    exact absurd hmem List.not_mem_nil
  timer_lt _ _ _ h := absurd h (by simp [init])
  timer_inj _ _ _ _ _ h := absurd h (by simp [init])
  http _ _ h := absurd h (by simp [init])
  ready _ _ h := absurd h (by simp [init])

/-- A connection that no timer holds, and whose descriptor no other connection is registered for. -/
structure Unheld (s : EventLoop Q) (c : ℕ) (conn : Connection) : Prop where
  connection : s.connection c = some conn
  timer (tm : Timer.Timer) : ¬ s.timerHeap.Holds tm c
  fd (c' : ℕ) : s.httpConnections conn.fd = some c' → c' = c

/-! ## What the loop does -/

section Steps

variable {s : EventLoop Q} {c : ℕ} {conn : Connection} {now : ℕ}

/-- What a lookup after an update can find. -/
theorem eq_or_of_update {α : Type*} {f : ℕ → Option α} {a b : ℕ} {x : Option α} {y : α}
    (h : Function.update f a x b = some y) : (b = a ∧ x = some y) ∨ (b ≠ a ∧ f b = some y) := by
  by_cases hb : b = a
  · subst hb
    rw [Function.update_self] at h
    exact .inl ⟨rfl, h⟩
  · rw [Function.update_of_ne hb] at h
    exact .inr ⟨hb, h⟩

/-- **Releasing the timer** of a connection, if it is asked for. -/
theorem holds_releaseTimer {heap : TimerHeap Q ℕ} {released : Bool} {tm : Timer.Timer} {c' : ℕ} :
    (releaseTimer heap conn released).Holds tm c' ↔
      heap.Holds tm c' ∧ (released = true → conn.timer ≠ some tm.id) := by
  unfold releaseTimer
  split
  · next id hid =>
    rw [hid]
    split
    · next hr =>
      rw [TimerHeap.holds_release, hr]
      exact and_congr_right fun _ => ⟨fun h _ e => h (Option.some.inj e).symm,
        fun h e => h rfl (congrArg some e.symm)⟩
    · next hr => exact ⟨fun h => ⟨h, fun e => absurd e hr⟩, fun h => h.1⟩
  · next hid =>
    rw [hid]
    exact ⟨fun h => ⟨h, fun _ => by simp⟩, fun h => h.1⟩

theorem timers_releaseTimer (heap : TimerHeap Q ℕ) (conn : Connection) (released : Bool) :
    (releaseTimer heap conn released).timers = heap.timers ∧
      (releaseTimer heap conn released).fresh = heap.fresh := by
  unfold releaseTimer
  split
  · split <;> exact ⟨rfl, rfl⟩
  · exact ⟨rfl, rfl⟩

theorem sound_releaseTimer {heap : TimerHeap Q ℕ} (h : heap.Sound) (conn : Connection)
    (released : Bool) : (releaseTimer heap conn released).Sound := by
  unfold releaseTimer
  split
  · split
    · exact h.release _
    · exact h
  · exact h

/-- **Timers that an earlier state has** are told apart as there. -/
theorem Kept.timers_of (h : s.Kept) (s' : EventLoop Q)
    (hfresh : s'.timerHeap.fresh = s.timerHeap.fresh)
    (hold : ∀ c conn id, s'.connection c = some conn → conn.timer = some id →
      ∃ conn', s.connection c = some conn' ∧ conn'.timer = some id) :
    (∀ c conn id, s'.connection c = some conn → conn.timer = some id → id < s'.timerHeap.fresh) ∧
      ∀ c c' conn conn' id, s'.connection c = some conn → s'.connection c' = some conn' →
        conn.timer = some id → conn'.timer = some id → c = c' := by
  refine ⟨fun c conn id hc hid => ?_, fun c₁ c₂ conn₁ conn₂ id h₁ h₂ hid₁ hid₂ => ?_⟩
  · obtain ⟨conn', hc', hid'⟩ := hold c conn id hc hid
    rw [hfresh]
    exact h.timer_lt c conn' id hc' hid'
  · obtain ⟨conn₁', h₁', hid₁'⟩ := hold c₁ conn₁ id h₁ hid₁
    obtain ⟨conn₂', h₂', hid₂'⟩ := hold c₂ conn₂ id h₂ hid₂
    exact h.timer_inj c₁ c₂ conn₁' conn₂' id h₁' h₂' hid₁' hid₂'

/-- **One connection is replaced**; the others, and what is registered, stay. -/
structure Replaced (s s' : EventLoop Q) (c : ℕ) (conn conn' : Connection) : Prop where
  before : s.connection c = some conn
  connection : s'.connection = Function.update s.connection c (some conn')
  fd : conn'.fd = conn.fd
  created : s'.created = s.created
  http : s'.httpConnections = s.httpConnections

namespace Replaced

variable {s' : EventLoop Q} {conn' : Connection}

omit [PriorityQueue Q Timer.expireTime] in
theorem self (p : Replaced s s' c conn conn') : s'.connection c = some conn' := by
  rw [p.connection, Function.update_self]

omit [PriorityQueue Q Timer.expireTime] in
theorem of_ne (p : Replaced s s' c conn conn') {c' : ℕ} (hcc : c' ≠ c) :
    s'.connection c' = s.connection c' := by
  rw [p.connection, Function.update_of_ne hcc]

theorem fresh (p : Replaced s s' c conn conn') (h : s.Kept) (c' : ℕ) (hle : s'.created ≤ c') :
    s'.connection c' = none := by
  rw [p.created] at hle
  refine (p.of_ne ?_).trans (h.fresh c' hle)
  rintro rfl
  exact absurd (p.before.symm.trans (h.fresh c' hle)) (by simp)

theorem registered (p : Replaced s s' c conn conn') (h : s.Kept) (fd c' : ℕ)
    (hh : s'.httpConnections fd = some c') : ∃ conn'', s'.connection c' = some conn'' ∧
      conn''.fd = fd := by
  rw [p.http] at hh
  obtain ⟨conn'', hc', hfd⟩ := h.http fd c' hh
  by_cases hcc : c' = c
  · subst hcc
    obtain rfl : conn = conn'' := Option.some.inj (p.before.symm.trans hc')
    exact ⟨conn', p.self, p.fd.trans hfd⟩
  · exact ⟨conn'', (p.of_ne hcc).trans hc', hfd⟩

omit [PriorityQueue Q Timer.expireTime] in
/-- A timer of the replaced connection, or of another one. -/
theorem timers (p : Replaced s s' c conn conn')
    (ht : ∀ id, conn'.timer = some id → conn.timer = some id) :
    ∀ c₁ conn₁ id, s'.connection c₁ = some conn₁ → conn₁.timer = some id →
      ∃ conn₂, s.connection c₁ = some conn₂ ∧ conn₂.timer = some id := by
  intro c₁ conn₁ id h₁ hid
  by_cases hcc : c₁ = c
  · subst hcc
    obtain rfl := Option.some.inj (p.self.symm.trans h₁)
    exact ⟨conn, p.before, ht id hid⟩
  · exact ⟨conn₁, (p.of_ne hcc).symm.trans h₁, hid⟩

end Replaced

/-- **The handlers of a connection** leave its place in the loop; if they reset its timer, no timer
holds it afterwards. -/
theorem Kept.handled {κ : Type*} (h : s.Kept) (hnow : s.now ≤ now) (hc : s.connection c = some conn)
    (hreg : s.httpConnections conn.fd = some c) (r : Handler κ) : (s.handled c conn r now).Kept ∧
      (r.timerReleased = true →
        (s.handled c conn r now).Unheld c (afterHandlers conn r)) := by
  obtain ⟨htimers, hfresh⟩ := timers_releaseTimer s.timerHeap conn r.timerReleased
  have p : Replaced s (s.handled c conn r now) c conn (afterHandlers conn r) :=
    ⟨hc, rfl, rfl, rfl, rfl⟩
  obtain ⟨hlt, hinj⟩ := h.timers_of (s.handled c conn r now) hfresh (p.timers fun id hid => by
    unfold afterHandlers at hid
    dsimp only at hid
    split at hid
    · exact absurd hid (by simp)
    · exact hid)
  refine ⟨⟨sound_releaseTimer h.heap conn _, ?_, p.fresh h, ?_, hlt, hinj, p.registered h, h.ready⟩,
    fun hr => ⟨p.self, ?_, ?_⟩⟩
  · intro tm htm
    exact (h.past tm (htimers ▸ htm)).trans hnow
  · intro tm c' hhold
    obtain ⟨hold, hrel⟩ := holds_releaseTimer.mp hhold
    obtain ⟨conn', hc', ht, hg, hh⟩ := h.held tm c' hold
    by_cases hcc : c' = c
    · subst hcc
      obtain rfl : conn = conn' := Option.some.inj (hc.symm.trans hc')
      refine ⟨afterHandlers conn r, p.self, ?_, hg, hh⟩
      unfold afterHandlers
      dsimp only
      rw [if_neg fun hr => hrel hr ht]
      exact ht
    · exact ⟨conn', (p.of_ne hcc).trans hc', ht, hg, hh⟩
  · intro tm hhold
    obtain ⟨hold, hrel⟩ := holds_releaseTimer.mp hhold
    obtain ⟨conn', hc', ht, -, -⟩ := h.held tm c hold
    obtain rfl : conn = conn' := Option.some.inj (hc.symm.trans hc')
    exact hrel hr ht
  · exact fun c' hc' => Option.some.inj (hc'.symm.trans hreg)

/-- A connection that no timer holds is replaced by one with a new timer. -/
theorem Kept.addTimer {s' : EventLoop Q} {conn' : Connection} {t : ℕ} (h : s.Kept)
    (hu : s.Unheld c conn) (p : Replaced s s' c conn conn')
    (hreg : s.httpConnections conn.fd = some c) (hle : now ≤ s.now) (hnow : s'.now = s.now)
    (hheap : s'.timerHeap = (s.timerHeap.addTimer c t now).2)
    (hid : conn'.timer = some s.timerHeap.fresh) (hg : conn'.granted = (now, t))
    (hready : ∀ fd c', s'.readyChannels fd = some c' → s'.httpConnections fd = some c') :
    s'.Kept := by
  have hfresh : s'.timerHeap.fresh = s.timerHeap.fresh + 1 := by
    rw [hheap]
    rfl
  have hold : ∀ c' conn₁ id, c' ≠ c → s'.connection c' = some conn₁ → conn₁.timer = some id →
      id < s.timerHeap.fresh := fun c' conn₁ id hcc h₁ hid₁ =>
    h.timer_lt c' conn₁ id ((p.of_ne hcc).symm.trans h₁) hid₁
  have hown : ∀ conn₁ id, s'.connection c = some conn₁ → conn₁.timer = some id →
      id = s.timerHeap.fresh := by
    intro conn₁ id h₁ hid₁
    obtain rfl := Option.some.inj (p.self.symm.trans h₁)
    exact Option.some.inj (hid₁.symm.trans hid)
  refine ⟨hheap ▸ h.heap.addTimer .., ?_, p.fresh h, ?_, ?_, ?_, p.registered h, hready⟩
  · intro tm htm
    rw [hheap] at htm
    rw [hnow]
    rcases TimerHeap.mem_timers_addTimer.mp htm with rfl | htm
    · exact hle
    · exact h.past tm htm
  · intro tm c' hhold
    rw [hheap, h.heap.holds_addTimer] at hhold
    rcases hhold with ⟨rfl, rfl⟩ | hhold
    · exact ⟨conn', p.self, hid, hg, by rw [p.http, p.fd]; exact hreg⟩
    · have hcc : c' ≠ c := by
        rintro rfl
        exact hu.timer tm hhold
      rw [p.of_ne hcc, p.http]
      exact h.held tm c' hhold
  · intro c' conn₁ id h₁ hid₁
    rw [hfresh]
    by_cases hcc : c' = c
    · subst hcc
      rw [hown conn₁ id h₁ hid₁]
      exact Nat.lt_succ_self _
    · exact Nat.lt_succ_of_lt (hold c' conn₁ id hcc h₁ hid₁)
  · intro c₁ c₂ conn₁ conn₂ id h₁ h₂ hid₁ hid₂
    by_cases hc₁ : c₁ = c <;> by_cases hc₂ : c₂ = c
    · rw [hc₁, hc₂]
    · subst hc₁
      exact absurd (hown conn₁ id h₁ hid₁) (hold c₂ conn₂ id hc₂ h₂ hid₂).ne
    · subst hc₂
      exact absurd (hown conn₂ id h₂ hid₂) (hold c₁ conn₁ id hc₁ h₁ hid₁).ne
    · rw [p.of_ne hc₁] at h₁
      rw [p.of_ne hc₂] at h₂
      exact h.timer_inj c₁ c₂ conn₁ conn₂ id h₁ h₂ hid₁ hid₂

/-- A connection that no timer holds is replaced by one with the same timer. -/
theorem Kept.noTimer {s' : EventLoop Q} {conn' : Connection} (h : s.Kept) (hu : s.Unheld c conn)
    (p : Replaced s s' c conn conn') (hnow : s'.now = s.now)
    (hheap : s'.timerHeap = s.timerHeap) (hid : conn'.timer = conn.timer)
    (hready : ∀ fd c', s'.readyChannels fd = some c' → s'.httpConnections fd = some c') :
    s'.Kept := by
  obtain ⟨hlt, hinj⟩ := h.timers_of s' (by rw [hheap]) (p.timers fun id h => hid ▸ h)
  refine ⟨hheap ▸ h.heap, ?_, p.fresh h, ?_, hlt, hinj, p.registered h, hready⟩
  · rw [hheap, hnow]
    exact h.past
  · intro tm c' hhold
    rw [hheap] at hhold
    have hcc : c' ≠ c := by
      rintro rfl
      exact hu.timer tm hhold
    rw [p.of_ne hcc, p.http]
    exact h.held tm c' hhold

/-- **A new timer for a connection that no timer holds.** -/
theorem Kept.grant {s' : EventLoop Q} {t : ℕ} (h : s.Kept) (hu : s.Unheld c conn)
    (hreg : s.httpConnections conn.fd = some c) (hle : now ≤ s.now)
    (hnow : s'.now = s.now) (hcreated : s'.created = s.created)
    (hconn : s'.connection = Function.update s.connection c
      (some (noteEvents (EventLoop.addTimer s.timerHeap c conn t now).1 t now)))
    (hheap : s'.timerHeap = (EventLoop.addTimer s.timerHeap c conn t now).2)
    (hhttp : s'.httpConnections = s.httpConnections)
    (hready : ∀ fd c', s'.readyChannels fd = some c' → s.readyChannels fd = some c' ∨
      fd = conn.fd ∧ c' = c) : s'.Kept := by
  have hready' : ∀ fd c', s'.readyChannels fd = some c' → s'.httpConnections fd = some c' := by
    intro fd c' hr
    rw [hhttp]
    rcases hready fd c' hr with hr | ⟨rfl, rfl⟩
    · exact h.ready fd c' hr
    · exact hreg
  unfold EventLoop.addTimer at hconn hheap
  split at hheap
  · next ht =>
    rw [if_pos ht] at hconn
    exact h.addTimer hu ⟨hu.connection, hconn, rfl, hcreated, hhttp⟩ hreg hle hnow hheap rfl rfl
      hready'
  · next ht =>
    rw [if_neg ht] at hconn
    exact h.noTimer hu ⟨hu.connection, hconn, rfl, hcreated, hhttp⟩ hnow hheap rfl hready'

theorem Kept.epollMod (h : s.Kept) (hu : s.Unheld c conn)
    (hreg : s.httpConnections conn.fd = some c) (hle : now ≤ s.now) (timeout : ℕ) (ok : Bool) :
    (s.epollMod c conn timeout now ok).Kept := by
  refine h.grant hu hreg hle rfl rfl rfl rfl rfl fun fd c' hr => .inl ?_
  unfold EventLoop.epollMod at hr
  dsimp only at hr
  split at hr
  · rcases eq_or_of_update hr with ⟨-, e⟩ | ⟨-, e⟩
    · exact absurd e (by simp)
    · exact e
  · exact hr

/-- **Deleting a connection that no timer holds.** -/
theorem Kept.delete (h : s.Kept) (hu : s.Unheld c conn) (ok : Bool) :
    (s.delete c conn ok).Kept := by
  obtain ⟨hlt, hinj⟩ := h.timers_of (s.delete c conn ok) rfl fun c' conn' id h₁ hid => by
    rcases eq_or_of_update h₁ with ⟨rfl, e⟩ | ⟨-, e⟩
    · obtain rfl := Option.some.inj e
      exact ⟨conn, hu.connection, hid⟩
    · exact ⟨conn', e, hid⟩
  refine ⟨h.heap, h.past, ?_, ?_, hlt, hinj, ?_, ?_⟩
  · intro c' hle
    refine (Function.update_of_ne ?_ _ _).trans (h.fresh c' hle)
    rintro rfl
    exact absurd (hu.connection.symm.trans (h.fresh c' hle)) (by simp)
  · intro tm c' hhold
    have hcc : c' ≠ c := by
      rintro rfl
      exact hu.timer tm hhold
    obtain ⟨conn', hc', ht, hg, hh⟩ := h.held tm c' hhold
    refine ⟨conn', (Function.update_of_ne hcc _ _).trans hc', ht, hg, ?_⟩
    refine (Function.update_of_ne ?_ _ _).trans hh
    intro e
    rw [e] at hh
    exact hcc (hu.fd c' hh)
  · intro fd c' hh
    rcases eq_or_of_update hh with ⟨-, e⟩ | ⟨hfd, e⟩
    · exact absurd e (by simp)
    · obtain ⟨conn', hc', hfd'⟩ := h.http fd c' e
      refine ⟨conn', (Function.update_of_ne ?_ _ _).trans hc', hfd'⟩
      rintro rfl
      obtain rfl := Option.some.inj (hu.connection.symm.trans hc')
      exact hfd hfd'.symm
  · intro fd c' hr
    rcases eq_or_of_update hr with ⟨-, e⟩ | ⟨hfd, e⟩
    · exact absurd e (by simp)
    · exact (Function.update_of_ne hfd _ _).trans (h.ready fd c' e)

/-- The object of a new connection, before it has a timer. -/
theorem Kept.create (h : s.Kept) (hnow : s.now ≤ now) {s₁ : EventLoop Q}
    (hfd : ∀ c, s.Alive c → ∀ conn', s.connection c = some conn' → conn'.fd ≠ conn.fd)
    (ht : conn.timer = none) (hs₁ : s₁ = { s with
      now := now
      created := s.created + 1
      connection := Function.update s.connection s.created (some conn)
      httpConnections := Function.update s.httpConnections conn.fd (some s.created) }) :
    s₁.Kept ∧ s₁.Unheld s.created conn := by
  have hfree : ∀ c', s.httpConnections conn.fd ≠ some c' := by
    intro c' hh
    obtain ⟨conn', hc', hfd'⟩ := h.http conn.fd c' hh
    exact hfd c' (.inl ⟨_, hh⟩) conn' hc' hfd'
  have hnew : ∀ {c' conn'}, s.connection c' = some conn' → c' ≠ s.created := by
    rintro c' conn' hc' rfl
    exact absurd (hc'.symm.trans (h.fresh _ (Nat.le_refl _))) (by simp)
  have hself : s₁.connection s.created = some conn := by
    rw [hs₁]
    exact Function.update_self ..
  have hold : ∀ {c' conn'}, s.connection c' = some conn' → s₁.connection c' = some conn' :=
    fun hc' => by rw [hs₁]; exact (Function.update_of_ne (hnew hc') _ _).trans hc'
  have hholds : ∀ {tm c'}, s₁.timerHeap.Holds tm c' → s.timerHeap.Holds tm c' :=
    fun hhold => by rw [hs₁] at hhold; exact hhold
  obtain ⟨hlt, hinj⟩ := h.timers_of s₁ (by rw [hs₁]) fun c' conn' id hc' hid => by
    rw [hs₁] at hc'
    rcases eq_or_of_update hc' with ⟨-, e⟩ | ⟨-, e⟩
    · obtain rfl := Option.some.inj e
      exact absurd (ht.symm.trans hid) (by simp)
    · exact ⟨conn', e, hid⟩
  refine ⟨⟨by rw [hs₁]; exact h.heap, ?_, ?_, ?_, hlt, hinj, ?_, ?_⟩, hself, ?_, ?_⟩
  · rw [hs₁]
    exact fun tm htm => (h.past tm htm).trans hnow
  · intro c' hle
    rw [hs₁] at hle ⊢
    have hlt : s.created < c' := hle
    exact (Function.update_of_ne hlt.ne' _ _).trans (h.fresh c' hlt.le)
  · intro tm c' hhold
    obtain ⟨conn', hc', ht, hg, hh⟩ := h.held tm c' (hholds hhold)
    refine ⟨conn', hold hc', ht, hg, ?_⟩
    rw [hs₁]
    exact (Function.update_of_ne (hfd c' (.inl ⟨_, hh⟩) conn' hc') _ _).trans hh
  · intro fd c' hh
    rw [hs₁] at hh
    rcases eq_or_of_update hh with ⟨rfl, e⟩ | ⟨-, e⟩
    · obtain rfl := Option.some.inj e
      exact ⟨conn, hself, rfl⟩
    · obtain ⟨conn', hc', hfd'⟩ := h.http fd c' e
      exact ⟨conn', hold hc', hfd'⟩
  · intro fd c' hr
    rw [hs₁] at hr ⊢
    have hh := h.ready fd c' hr
    refine (Function.update_of_ne ?_ _ _).trans hh
    rintro rfl
    exact hfree c' hh
  · intro tm hhold
    obtain ⟨conn', hc', -⟩ := h.held tm _ (hholds hhold)
    exact hnew hc' rfl
  · intro c' hh
    rw [hs₁] at hh
    rcases eq_or_of_update hh with ⟨-, e⟩ | ⟨hne, -⟩
    · exact (Option.some.inj e).symm
    · exact absurd rfl hne

/-- **A new connection**, on a descriptor that no connection object has open. -/
theorem Kept.register (h : s.Kept) (hnow : s.now ≤ now) {fd : ℕ}
    (hfd : ∀ c, s.Alive c → ∀ conn, s.connection c = some conn → conn.fd ≠ fd) (dir : Bytes)
    (ok : Bool) : (s.register fd dir now ok).Kept := by
  obtain ⟨conn, hconn⟩ : ∃ conn : Connection, conn =
    { fd := fd, http := { resourceDir := dir }, events := kDefaultEvent } := ⟨_, rfl⟩
  have hcfd : conn.fd = fd := by rw [hconn]
  obtain ⟨s₁, hs₁⟩ : ∃ s₁ : EventLoop Q, s₁ = { s with
    now := now
    created := s.created + 1
    connection := Function.update s.connection s.created (some conn)
    httpConnections := Function.update s.httpConnections conn.fd (some s.created) } := ⟨_, rfl⟩
  obtain ⟨h₁, hu⟩ := h.create hnow (hcfd.symm ▸ hfd) (by rw [hconn]) hs₁
  have hreg : s₁.httpConnections conn.fd = some s.created := by
    rw [hs₁]
    exact Function.update_self ..
  refine h₁.grant (t := kDefaultTimeOut) hu hreg (by rw [hs₁]) ?_ ?_ ?_ ?_ ?_ ?_
  · rw [hs₁]; rfl
  · rw [hs₁]; rfl
  · rw [hs₁, hconn]
    exact (Function.update_idem ..).symm
  · rw [hs₁, hconn]
    rfl
  · rw [hs₁, hconn]
    rfl
  · intro fd' c' hr
    rcases eq_or_of_update hr with ⟨rfl, e⟩ | ⟨-, e⟩
    · cases ok
      · exact absurd e (by simp)
      · exact .inr ⟨hcfd.symm, (Option.some.inj e).symm⟩
    · exact .inl (by rw [hs₁]; exact e)

/-- Deleting one connection leaves the others unheld. -/
theorem Unheld.delete {c' : ℕ} {conn' : Connection} (hu : s.connection c' = some conn' →
      s.Unheld c' conn') (hu' : s.Unheld c conn) (ok : Bool)
    (hc : (s.delete c conn ok).connection c' = some conn') :
    (s.delete c conn ok).Unheld c' conn' := by
  refine ⟨hc, ?_, fun c'' hh => ?_⟩
  · rcases eq_or_of_update hc with ⟨rfl, -⟩ | ⟨-, e⟩
    · exact hu'.timer
    · exact (hu e).timer
  · rcases eq_or_of_update hh with ⟨-, e⟩ | ⟨-, e⟩
    · exact absurd e (by simp)
    · rcases eq_or_of_update hc with ⟨rfl, e'⟩ | ⟨-, e'⟩
      · obtain rfl := Option.some.inj e'
        exact hu'.fd c'' e
      · exact (hu e').fd c'' e

theorem Kept.deleteAll {s : EventLoop Q} (h : s.Kept) (ok : ℕ → Bool) : ∀ {cs : List ℕ},
    (∀ c ∈ cs, ∀ conn, s.connection c = some conn → s.Unheld c conn) → (s.deleteAll ok cs).Kept
  | [], _ => h
  | c :: cs, hu => by
      rw [EventLoop.deleteAll, List.foldl_cons]
      rcases hc : s.connection c with _ | conn
      · exact h.deleteAll ok fun c' hc' => hu c' (List.mem_cons_of_mem _ hc')
      · have huc := hu c (List.mem_cons_self ..) conn hc
        exact (h.delete huc (ok c)).deleteAll ok fun c' hc' conn' h' =>
          Unheld.delete (hu c' (List.mem_cons_of_mem _ hc') conn') huc (ok c) h'

/-- A timer that goes has held its connection alone. -/
theorem Kept.timer_eq (h : s.Kept) {tm tm' : Timer.Timer} (ht : s.timerHeap.Holds tm c)
    (ht' : s.timerHeap.Holds tm' c) : tm = tm' := by
  obtain ⟨conn, hc, hid, -⟩ := h.held tm c ht
  obtain ⟨conn', hc', hid', -⟩ := h.held tm' c ht'
  obtain rfl := Option.some.inj (hc.symm.trans hc')
  exact h.heap.eq_of_id ht.1.1 ht'.1.1 (Option.some.inj (hid.symm.trans hid'))

/-- **Dropping timers.** -/
theorem Kept.dropTimers (h : s.Kept) (hnow : s.now ≤ now) : (s.dropTimers now).Kept := by
  refine ⟨h.heap.handleExpireEvent now, fun tm htm => ?_, h.fresh, fun tm c' hhold => ?_,
    h.timer_lt,
    h.timer_inj, h.http, h.ready⟩
  · exact (h.past tm ((s.timerHeap.popped_handleExpireEvent now).mem_before htm)).trans hnow
  · exact h.held tm c' (TimerHeap.holds_handleExpireEvent.mp hhold).1

/-- The connections of the timers that go are held by no other timer. -/
theorem Kept.unheld_dropTimers (h : s.Kept) : ∀ c ∈ (s.timerHeap.handleExpireEvent now).1,
    ∀ conn, (s.dropTimers now).connection c = some conn → (s.dropTimers now).Unheld c conn := by
  intro c hc conn hconn
  obtain ⟨tm, hhold, hexp⟩ := h.heap.mem_handleExpireEvent hc
  obtain ⟨conn', hconn', -, -, hh⟩ := h.held tm c hhold
  obtain rfl : conn = conn' := Option.some.inj (hconn.symm.trans hconn')
  refine ⟨hconn, fun tm' hhold' => ?_, fun c' hh' => Option.some.inj (hh'.symm.trans hh)⟩
  obtain ⟨hold, hlt⟩ := TimerHeap.holds_handleExpireEvent.mp hhold'
  obtain rfl := h.timer_eq hhold hold
  omega

/-- **Expiring timers** and deleting their connections. -/
theorem Kept.handleExpire (h : s.Kept) (hnow : s.now ≤ now) (ok : ℕ → Bool) :
    (s.handleExpire now ok).Kept := (h.dropTimers hnow).deleteAll ok h.unheld_dropTimers

theorem handleUpdate_timerReleased {κ : Type*} (r : Handler κ) :
    (handleUpdate r).1.timerReleased = true := by
  obtain ⟨_, he⟩ := exists_handleUpdate r
  rw [he]
  rfl

/-- What the handlers ask for, the loop can do: a timer is only made after the old one was reset. -/
theorem timerReleased_of_update {κ : Type*} [PageCache κ] {files : FileSystem} {revents : EventMask}
    {r : Handler κ} {a : UpdateAction} (h : (Event.handleEvents files revents r).2 = some a) :
    (Event.handleEvents files revents r).1.timerReleased = true := by
  unfold Event.handleEvents at h ⊢
  dsimp only at h ⊢
  by_cases hi : ignored revents = true
  · rw [if_pos hi] at h
    exact absurd h (by simp)
  · rw [if_neg hi] at h ⊢
    split at h
    · exact absurd h (by simp)
    · next hf =>
      rw [if_neg hf]
      exact handleUpdate_timerReleased _

theorem Kept.handleEvents {κ : Type*} [PageCache κ] (h : s.Kept) (hnow : s.now ≤ now)
    (hc : s.connection c = some conn) (hreg : s.httpConnections conn.fd = some c) (x : Exchange κ)
    (ok : Bool) : (s.handleEvents c conn x now ok).Kept := by
  obtain ⟨h', hu⟩ := h.handled hnow hc hreg
    (Event.handleEvents x.files x.revents (handler conn x)).1
  unfold EventLoop.handleEvents
  dsimp only
  rcases ha : (Event.handleEvents x.files x.revents (handler conn x)).2 with _ | a
  · exact h'
  · have hu' := hu (timerReleased_of_update ha)
    cases a with
    | mod timeout => exact h'.epollMod hu' hreg (Nat.le_refl _) timeout ok
    | leave => exact h'
    | delete => exact h'.delete hu' ok

end Steps

/-! ## Every run -/

/-- **One step of the loop keeps it.** -/
theorem Kept.step {κ : Type*} [PageCache κ] {s s' : EventLoop Q} {a : ℕ × LoopEvent κ} (h : s.Kept)
    (hs : Step s a s') : s'.Kept := by
  cases hs with
  | register hnow hfd => exact h.register hnow hfd _ _
  | handleEvents hnow hfd hc hx =>
    obtain ⟨conn, hc', hfd'⟩ := h.http _ _ (h.ready _ _ hfd)
    obtain rfl := Option.some.inj (hc.symm.trans hc')
    exact h.handleEvents hnow hc (hfd' ▸ h.ready _ _ hfd) _ _
  | handleExpire hnow => exact h.handleExpire hnow _

theorem kept_of_run {κ : Type*} [PageCache κ] {as : List (ℕ × LoopEvent κ)} {s : EventLoop Q}
    (r : Run Step init as s) : s.Kept :=
  r.invariant (I := Kept) (fun _ _ _ h hs => h.step hs) kept_init

/-- **Connections are owned**: by one timer at most, and by the array as long as their channel can
be found; and when a timer deletes one, the timeout that it was given last is over, on a clock of
whole milliseconds. -/
structure Owned (s : EventLoop Q) : Prop where
  one (tm tm' : Timer.Timer) (c : ℕ) : s.timerHeap.Holds tm c → s.timerHeap.Holds tm' c → tm = tm'
  ready (fd c : ℕ) : s.readyChannels fd = some c → s.httpConnections fd = some c
  timeout (now c : ℕ) : s.now ≤ now → c ∈ (s.timerHeap.handleExpireEvent now).1 →
    ∃ conn, s.connection c = some conn ∧ conn.granted.1 / 1000 + conn.granted.2 ≤ now / 1000

/-- **Every run of a loop keeps its connections owned.** -/
theorem owned_of_run {κ : Type*} [PageCache κ] {as : List (ℕ × LoopEvent κ)} {s : EventLoop Q}
    (r : Run Step init as s) : s.Owned := by
  have h := kept_of_run r
  refine ⟨fun _ _ _ => h.timer_eq, h.ready, fun now c hnow hc => ?_⟩
  obtain ⟨tm, hhold, hexp⟩ := h.heap.mem_handleExpireEvent hc
  obtain ⟨conn, hconn, -, hg, -⟩ := h.held tm c hhold
  refine ⟨conn, hconn, ?_⟩
  have hin : tm.created / 1000 + tm.timeout + _ ≤ now / 1000 :=
    (Timer.Timer.expireTime_le_clock_iff ((h.past tm hhold.1.1).trans hnow)).mp hexp
  rw [hg]
  exact le_trans (Nat.le_add_right _ _) hin

/-- A loop with one connection, on descriptor 5. -/
def oneConnection (now : ℕ) : EventLoop (SortedList Timer.Timer.expireTime) :=
  (init).register 5 [] now true

theorem step_oneConnection {κ : Type*} [PageCache κ] (now : ℕ) : Step init
    (now, (.register 5 [] true : LoopEvent κ)) (oneConnection now) := by
  refine .register (Nat.zero_le _) fun c hc => ?_
  rcases hc with ⟨fd, hfd⟩ | ⟨tm, htm, -⟩
  · exact absurd hfd (by simp [init])
  · rw [init, TimerHeap.timers_init] at htm
    exact absurd htm List.not_mem_nil

/-- **A connection may be closed up to a millisecond early**: registered 999 microseconds after the
start of a millisecond, it is closed 1999001 microseconds later. -/
theorem not_timeout_oneConnection : ¬ ∀ (as : List (ℕ × LoopEvent Cache.LFUCache))
    (s : EventLoop (SortedList Timer.Timer.expireTime)), Run Step init as s → ∀ now c, s.now ≤ now →
    c ∈ (s.timerHeap.handleExpireEvent now).1 → ∃ conn, s.connection c = some conn ∧
      conn.granted.1 + conn.granted.2 * 1000 ≤ now := by
  intro h
  obtain ⟨conn, hconn, hle⟩ := h _ _ (.single (step_oneConnection 999)) 2000000 0 (by decide)
    (by decide)
  have hg : (oneConnection 999).connection 0 = some conn → conn.granted = (999, 2000) := by
    intro e
    obtain rfl := Option.some.inj e
    rfl
  rw [hg hconn] at hle
  exact absurd hle (by decide)

/-- A connection that is registered, and whose timer is not over. -/
theorem owned_oneConnection : ∃ (as : List (ℕ × LoopEvent Cache.LFUCache))
    (s : EventLoop (SortedList Timer.Timer.expireTime)), Run Step init as s ∧ as.length = 2 ∧
    s.httpConnections 5 = some 0 ∧ s.Owned := by
  have r : Run Step init [(999, (.register 5 [] true : LoopEvent Cache.LFUCache)),
      (1000000, .handleExpire fun _ => true)] _ :=
    .cons (step_oneConnection 999) (.single (.handleExpire (by decide)))
  exact ⟨_, _, r, rfl, by decide, owned_of_run r⟩

end EventLoop

end WebServer.Event
