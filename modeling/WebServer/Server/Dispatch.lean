import WebServer.Event.Ownership
import WebServer.Server.WebServer

/-!
# Server/Dispatch — the main loop hands connections to the sub loops

The main loop accepts and pushes the `Register` of each connection into `pending_functions_` of the
next loop; every loop handles events, swaps these functions to a local vector, calls them and
expires its timers, all at its own pace.  The kernel numbers a new connection with any descriptor
that no connection object of the process has open.  So no descriptor ever has two owners
(`oneOwner_of_run`), each loop runs as if it were the only one (`loops_of_run`), and it registers
what it was handed, once and in that order (`handedOver_of_run`).
-/

namespace WebServer.Server

open Event Http Timer

/-! ## The threads -/

/-- **A connection object that waits for its `Register`**, bound in a function. -/
structure Registration where
  fd : ℕ
  resourceDir : Bytes

/-- Where a loop is in a round of `Loop`. -/
inductive Phase
  /-- At the events that `Poll` has returned. -/
  | handling
  /-- In `PerformPendingFunctions`, with the functions that are still to be called. -/
  | performing (functions : List Registration)
  /-- Before `HandleExpire`. -/
  | expiring

/-- **A loop with its thread.**  `registered` are the connections it has registered, in order. -/
structure LoopThread (Q : Type*) where
  loop : EventLoop Q
  pendingFunctions : List Registration
  phase : Phase
  registered : List Registration

/-- What a loop does next, at a time. -/
inductive ThreadAction (κ : Type*)
  | handle (now fd : ℕ) (x : Exchange κ) (ok : Bool)
  | swap
  | call (now : ℕ) (ok : Bool)
  | finish
  | expire (now : ℕ) (ok : ℕ → Bool)

namespace LoopThread

variable {Q : Type*} [PriorityQueue Q Timer.expireTime] {κ : Type*} [PageCache κ]

/-- The loop of a thread that has just entered `Loop`. -/
def init : LoopThread Q := ⟨.init, [], .handling, []⟩

/-- The functions that are still to be called, in the order of the calls. -/
def waiting (t : LoopThread Q) : List Registration :=
  (match t.phase with
    | .performing functions => functions
    | _ => []) ++ t.pendingFunctions

/-- `QueueInLoop` -/
def queue (t : LoopThread Q) (r : Registration) : LoopThread Q :=
  { t with pendingFunctions := t.pendingFunctions ++ [r] }

/-- **One step of a loop.**  Nothing is said about the descriptor of a connection that is
registered. -/
inductive Step : LoopThread Q → ThreadAction κ → LoopThread Q → Prop
  | handle {t : LoopThread Q} {now fd : ℕ} {x : Exchange κ} {ok : Bool} {loop : EventLoop Q}
      (hp : t.phase = .handling) (h : EventLoop.Step t.loop (now, .handleEvents fd x ok) loop) :
      Step t (.handle now fd x ok) { t with loop := loop }
  | swap {t : LoopThread Q} (hp : t.phase = .handling) :
      Step t .swap { t with phase := .performing t.pendingFunctions, pendingFunctions := [] }
  | call {t : LoopThread Q} {now : ℕ} {ok : Bool} {r : Registration} {rest : List Registration}
      (hp : t.phase = .performing (r :: rest)) (hnow : t.loop.now ≤ now) :
      Step t (.call now ok)
        { t with
          loop := t.loop.register r.fd r.resourceDir now ok
          phase := .performing rest
          registered := t.registered ++ [r] }
  | finish {t : LoopThread Q} (hp : t.phase = .performing []) :
      Step t .finish { t with phase := .expiring }
  | expire {t : LoopThread Q} {now : ℕ} {ok : ℕ → Bool} {loop : EventLoop Q}
      (hp : t.phase = .expiring)
      (h : EventLoop.Step t.loop (now, (.handleExpire ok : EventLoop.LoopEvent κ)) loop) :
      Step t (.expire now ok) { t with loop := loop, phase := .handling }

end LoopThread

/-- **A descriptor that a connection object of a loop has open.** -/
def OpenIn {Q : Type*} [PriorityQueue Q Timer.expireTime] (loop : EventLoop Q) (fd : ℕ) :
    Prop :=
  ∃ c conn, loop.Alive c ∧ loop.connection c = some conn ∧ conn.fd = fd

/-- What has a descriptor open: the connection that waits at a place, or one of the loop. -/
inductive Owner
  | waiting (place : ℕ)
  | connection (c : ℕ)

/-- **A descriptor that a thread has open**, and through what. -/
def LoopThread.OwnedBy {Q : Type*} [PriorityQueue Q Timer.expireTime] (t : LoopThread Q) :
    Owner → ℕ → Prop
  | .waiting place, fd => (t.waiting.map Registration.fd)[place]? = some fd
  | .connection c, fd => t.loop.Alive c ∧ ∃ conn, t.loop.connection c = some conn ∧ conn.fd = fd

/-- **A descriptor that a thread has open.** -/
def LoopThread.Owns {Q : Type*} [PriorityQueue Q Timer.expireTime] (t : LoopThread Q)
    (fd : ℕ) : Prop :=
  fd ∈ t.waiting.map Registration.fd ∨ OpenIn t.loop fd

/-! ## The server -/

/-- **One round of `HandleNewConnect`**: the pool, and the loop and the descriptor if a connection
is handed over. -/
def acceptRound (pool : EventLoopThreadPool) : AcceptResult →
    EventLoopThreadPool × Option (LoopId × ℕ)
  | .failed _ => (pool.getNextLoop.2, none)
  | .connection fd nonBlocking =>
    if fd ≥ MAX_FD_NUM then (pool.getNextLoop.2, none)
    else if !nonBlocking then (pool.getNextLoop.2, none)
    else (pool.getNextLoop.2, some (pool.getNextLoop.1, fd))

/-- **The running server.**  `handed` are the connections in the order in which they were accepted,
each with the loop that it was handed to. -/
structure Dispatch (Q : Type*) where
  pool : EventLoopThreadPool
  thread : LoopId → LoopThread Q
  handed : List (LoopId × Registration)

/-- What happens next in the server. -/
inductive DispatchAction (κ : Type*)
  | accept (result : AcceptResult) (resourceDir : Bytes)
  | thread (i : LoopId) (a : ThreadAction κ)

namespace Dispatch

variable {Q : Type*} [PriorityQueue Q Timer.expireTime] {κ : Type*} [PageCache κ]

/-- The server after `Start`. -/
def start (threadNum : ℕ) : Dispatch Q where
  pool := EventLoopThreadPool.start { threadNum := threadNum }
  thread := fun _ => .init
  handed := []

/-- What a round of accepting does to the loops. -/
def accepted (s : Dispatch Q) (result : AcceptResult) (resourceDir : Bytes) : Dispatch Q :=
  match acceptRound s.pool result with
  | (pool, none) => { s with pool := pool }
  | (pool, some (i, fd)) =>
    { pool := pool
      thread := Function.update s.thread i ((s.thread i).queue ⟨fd, resourceDir⟩)
      handed := s.handed ++ [(i, ⟨fd, resourceDir⟩)] }

/-- The rounds that one call of `HandleNewConnect` takes from a script. -/
def rounds : List AcceptResult → List AcceptResult
  | [] => [.failed .again]
  | .failed error :: _ => [.failed error]
  | .connection fd nonBlocking :: rest =>
    if fd ≥ MAX_FD_NUM then [.connection fd nonBlocking]
    else if !nonBlocking then [.connection fd nonBlocking]
    else .connection fd nonBlocking :: rounds rest

omit [PriorityQueue Q Timer.expireTime] in
/-- **A call of `HandleNewConnect` is its rounds**, one after the other. -/
theorem accepted_rounds (resourceDir : Bytes) : ∀ (script : List AcceptResult) (s : Dispatch Q),
    ((rounds script).foldl (fun s result => s.accepted result resourceDir) s).pool
        = (acceptLoop s.pool script).pool ∧
      ((rounds script).foldl (fun s result => s.accepted result resourceDir) s).handed
        = s.handed ++ (acceptLoop s.pool script).queued.map fun q => (q.1, ⟨q.2, resourceDir⟩)
  | [], s => ⟨rfl, (List.append_nil _).symm⟩
  | .failed error :: rest, s => ⟨rfl, (List.append_nil _).symm⟩
  | .connection fd nonBlocking :: rest, s => by
      by_cases hfd : fd ≥ MAX_FD_NUM
      · simp [rounds, acceptLoop, accepted, acceptRound, hfd]
      by_cases hblock : nonBlocking
      · obtain ⟨hpool, hhanded⟩ := accepted_rounds resourceDir rest
          (s.accepted (.connection fd nonBlocking) resourceDir)
        have hround : s.accepted (.connection fd nonBlocking) resourceDir
            = { pool := s.pool.getNextLoop.2
                thread := Function.update s.thread s.pool.getNextLoop.1
                  ((s.thread s.pool.getNextLoop.1).queue ⟨fd, resourceDir⟩)
                handed := s.handed ++ [(s.pool.getNextLoop.1, ⟨fd, resourceDir⟩)] } := by
          simp [accepted, acceptRound, hfd, hblock]
        rw [rounds, acceptLoop, if_neg hfd, if_neg hfd, hblock, if_neg (by simp),
          if_neg (by simp), List.foldl_cons, ← hblock, hpool, hhanded, hround]
        exact ⟨rfl, by rw [List.map_cons, List.append_assoc, List.singleton_append]⟩
      · simp [rounds, acceptLoop, accepted, acceptRound, hfd, hblock]

/-- A descriptor that no connection object of the process has open. -/
def Free (s : Dispatch Q) (fd : ℕ) : Prop := ∀ i, ¬ (s.thread i).Owns fd

/-- **One step of the server**: a round of accepting, or a step of one loop. -/
inductive Step : Dispatch Q → DispatchAction κ → Dispatch Q → Prop
  | accept {s : Dispatch Q} {result : AcceptResult} {resourceDir : Bytes}
      (hfree : ∀ fd nonBlocking, result = .connection fd nonBlocking → s.Free fd) :
      Step s (.accept result resourceDir) (s.accepted result resourceDir)
  | thread {s : Dispatch Q} {i : LoopId} {a : ThreadAction κ} {t : LoopThread Q}
      (h : LoopThread.Step (s.thread i) a t) :
      Step s (.thread i a) { s with thread := Function.update s.thread i t }

end Dispatch

/-! ## What a loop has open -/

section Open

variable {Q : Type*} [PriorityQueue Q Timer.expireTime] {κ : Type*} [PageCache κ]
  {s s' : EventLoop Q} {fd : ℕ}

/-- **Every connection object is in the array**, under its descriptor. -/
theorem httpConnections_of_alive (h : s.Kept) {c : ℕ} {conn : Connection} (halive : s.Alive c)
    (hc : s.connection c = some conn) : s.httpConnections conn.fd = some c := by
  obtain ⟨fd', hfd'⟩ | ⟨tm, htm, hstate⟩ := halive
  · obtain ⟨conn', hc', rfl⟩ := h.http fd' c hfd'
    obtain rfl := Option.some.inj (hc.symm.trans hc')
    exact hfd'
  · have hlive : (s.timerHeap.state tm.id).isDeleted = false := by
      by_contra hd
      have hnone := h.heap.released tm htm (Bool.eq_true_of_not_eq_false hd)
      exact absurd (hnone.symm.trans hstate) (by simp)
    obtain ⟨conn', hc', -, -, hreg⟩ := h.held tm c ⟨⟨htm, hlive⟩, hstate⟩
    obtain rfl := Option.some.inj (hc.symm.trans hc')
    exact hreg

theorem openIn_iff (h : s.Kept) : OpenIn s fd ↔ s.httpConnections fd ≠ none := by
  constructor
  · rintro ⟨c, conn, halive, hc, rfl⟩ hnone
    exact absurd ((httpConnections_of_alive h halive hc).symm.trans hnone) (by simp)
  · intro hne
    obtain ⟨c, hc⟩ := Option.ne_none_iff_exists'.mp hne
    obtain ⟨conn, hconn, hfd⟩ := h.http fd c hc
    exact ⟨c, conn, .inl ⟨fd, hc⟩, hconn, hfd⟩

theorem httpConnections_perform {c now : ℕ} {conn : Connection} {ok : Bool}
    {a : Option UpdateAction} (h : (s.perform c conn now ok a).httpConnections fd ≠ none) :
    s.httpConnections fd ≠ none := by
  rcases a with _ | (timeout | _ | _)
  · exact h
  · exact h
  · exact h
  · intro hnone
    refine h ?_
    change Function.update s.httpConnections conn.fd none fd = none
    by_cases hfd : fd = conn.fd
    · rw [hfd, Function.update_self]
    · rw [Function.update_of_ne hfd, hnone]

theorem httpConnections_deleteAll {ok : ℕ → Bool} : ∀ {cs : List ℕ} {s : EventLoop Q},
    (s.deleteAll ok cs).httpConnections fd ≠ none → s.httpConnections fd ≠ none
  | [], _, h => h
  | c :: cs, s, h => by
      rw [EventLoop.deleteAll, List.foldl_cons] at h
      have hrest := httpConnections_deleteAll h
      rcases hc : s.connection c with _ | conn
      · rw [hc] at hrest
        exact hrest
      · rw [hc] at hrest
        have hdelete : (s.perform c conn 0 (ok c) (some .delete)).httpConnections fd ≠ none := hrest
        exact httpConnections_perform hdelete

/-- **A step of a loop opens nothing** but the descriptor that it registers. -/
theorem httpConnections_register {dir : Bytes} {now fd' : ℕ} {ok : Bool}
    (h : (s.register fd' dir now ok).httpConnections fd ≠ none) :
    fd = fd' ∨ s.httpConnections fd ≠ none := by
  by_cases hfd : fd = fd'
  · exact .inl hfd
  · refine .inr fun hnone => h ?_
    change Function.update s.httpConnections fd' (some s.created) fd = none
    rw [Function.update_of_ne hfd, hnone]

theorem openIn_of_step (h : s.Kept) {a : ℕ × EventLoop.LoopEvent κ}
    (hs : EventLoop.Step s a s') (ha : ∀ fd dir ok, a.2 ≠ .register fd dir ok)
    (ho : OpenIn s' fd) : OpenIn s fd := by
  rw [openIn_iff (h.step hs)] at ho
  rw [openIn_iff h]
  cases hs with
  | register hnow hfd => exact absurd rfl (ha _ _ _)
  | handleEvents hnow hfd hc hx =>
    rw [EventLoop.handleEvents] at ho
    have hhandled := httpConnections_perform ho
    exact hhandled
  | handleExpire hnow =>
    rw [EventLoop.handleExpire] at ho
    have hdropped := httpConnections_deleteAll ho
    exact hdropped

theorem openIn_of_register {dir : Bytes} {now fd' : ℕ} {ok : Bool} (h : s.Kept)
    (hnow : s.now ≤ now) (hfree : ¬ OpenIn s fd') (ho : OpenIn (s.register fd' dir now ok) fd) :
    fd = fd' ∨ OpenIn s fd := by
  have hfd : ∀ c, s.Alive c → ∀ conn, s.connection c = some conn → conn.fd ≠ fd' :=
    fun c hc conn hconn e => hfree ⟨c, conn, hc, hconn, e⟩
  rw [openIn_iff (h.register hnow hfd dir ok)] at ho
  rw [openIn_iff h]
  exact httpConnections_register ho

end Open

/-! ## A thread keeps its loop -/

/-- The connections that a run of a loop registers, in order. -/
def registrations {κ : Type*} (as : List (ℕ × EventLoop.LoopEvent κ)) : List Registration :=
  as.filterMap fun
    | (_, .register fd resourceDir _) => some ⟨fd, resourceDir⟩
    | _ => none

namespace LoopThread

variable {Q : Type*} [PriorityQueue Q Timer.expireTime] {κ : Type*} [PageCache κ]
  {t t' : LoopThread Q} {a : ThreadAction κ}

/-- **What a thread keeps**: a run of its loop alone comes to the same state, and what waits to be
registered is open nowhere else. -/
structure Sound (κ : Type*) [PageCache κ] (t : LoopThread Q) : Prop where
  reached : ∃ as : List (ℕ × EventLoop.LoopEvent κ),
    Run EventLoop.Step .init as t.loop ∧ registrations as = t.registered
  nodup : (t.waiting.map Registration.fd).Nodup
  apart (fd : ℕ) : fd ∈ t.waiting.map Registration.fd → ¬ OpenIn t.loop fd

theorem Sound.kept (h : t.Sound κ) : t.loop.Kept := by
  obtain ⟨as, r, -⟩ := h.reached
  exact EventLoop.kept_of_run r

/-- **What a step can do**: the connection that waits first is registered, or the loop handles
events, expires timers or does nothing, and nothing is registered. -/
theorem step_cases (hs : Step t a t') :
    (∃ r now ok, t.waiting = r :: t'.waiting ∧ t'.registered = t.registered ++ [r] ∧
      t.loop.now ≤ now ∧ t'.loop = t.loop.register r.fd r.resourceDir now ok) ∨
    (t'.waiting = t.waiting ∧ t'.registered = t.registered ∧
      (t'.loop = t.loop ∨ ∃ b : ℕ × EventLoop.LoopEvent κ, EventLoop.Step t.loop b t'.loop ∧
        ∀ fd dir ok, b.2 ≠ .register fd dir ok)) := by
  cases hs with
  | handle hp h => exact .inr ⟨rfl, rfl, .inr ⟨_, h, fun _ _ _ => by simp⟩⟩
  | swap hp =>
    refine .inr ⟨?_, rfl, .inl rfl⟩
    rw [waiting, waiting, hp]
    exact List.append_nil _
  | @call now ok r rest hp hnow =>
    refine .inl ⟨r, now, ok, ?_, rfl, hnow, rfl⟩
    rw [waiting, waiting, hp]
    rfl
  | finish hp =>
    refine .inr ⟨?_, rfl, .inl rfl⟩
    rw [waiting, waiting, hp]
  | expire hp h =>
    refine .inr ⟨?_, rfl, .inr ⟨_, h, fun _ _ _ => by simp⟩⟩
    rw [waiting, waiting, hp]

/-- **A thread opens nothing of its own.** -/
theorem owns_of_step (h : t.Sound κ) (hs : Step t a t') {fd : ℕ} (ho : t'.Owns fd) :
    t.Owns fd := by
  obtain ⟨r, now, ok, hwait, -, hnow, hloop⟩ | ⟨hwait, -, hloop⟩ := step_cases hs
  · have hfree : ¬ OpenIn t.loop r.fd := h.apart r.fd (by rw [hwait]; exact List.mem_cons_self)
    rcases ho with hmem | hopen
    · exact .inl (by rw [hwait]; exact List.mem_cons_of_mem _ hmem)
    rw [hloop] at hopen
    rcases openIn_of_register h.kept hnow hfree hopen with rfl | hopen
    · exact .inl (by rw [hwait]; exact List.mem_cons_self)
    · exact .inr hopen
  · rw [Owns, hwait] at ho
    rcases hloop with hloop | ⟨b, hb, hreg⟩
    · rwa [hloop] at ho
    · exact ho.imp id (openIn_of_step h.kept hb hreg)

theorem registered_of_step (hs : Step t a t') :
    t'.registered ++ t'.waiting = t.registered ++ t.waiting := by
  obtain ⟨r, now, ok, hwait, hreg, -, -⟩ | ⟨hwait, hreg, -⟩ := step_cases hs
  · rw [hreg, hwait, List.append_assoc, List.singleton_append]
  · rw [hreg, hwait]

theorem Sound.step (h : t.Sound κ) (hs : Step t a t') : t'.Sound κ := by
  obtain ⟨as, run, hregs⟩ := h.reached
  obtain ⟨r, now, ok, hwait, hreg, hnow, hloop⟩ | ⟨hwait, hreg, hloop⟩ := step_cases hs
  · have hnodup := h.nodup
    rw [hwait, List.map_cons, List.nodup_cons] at hnodup
    have hfree : ¬ OpenIn t.loop r.fd := h.apart r.fd (by rw [hwait]; exact List.mem_cons_self)
    have hstep : EventLoop.Step t.loop
        (now, (.register r.fd r.resourceDir ok : EventLoop.LoopEvent κ)) t'.loop := by
      rw [hloop]
      exact .register hnow fun c hc conn hconn e => hfree ⟨c, conn, hc, hconn, e⟩
    refine ⟨⟨_, run.append (.single hstep), ?_⟩, hnodup.2, fun fd hmem hopen => ?_⟩
    · rw [registrations, List.filterMap_append, ← registrations, hregs, hreg]
      rfl
    · rw [hloop] at hopen
      rcases openIn_of_register h.kept hnow hfree hopen with rfl | hopen
      · exact hnodup.1 hmem
      · exact h.apart fd (by rw [hwait]; exact List.mem_cons_of_mem _ hmem) hopen
  · rcases hloop with hloop | ⟨b, hb, hb'⟩
    · refine ⟨⟨as, hloop ▸ run, hregs.trans hreg.symm⟩, by rw [hwait]; exact h.nodup, ?_⟩
      rw [hwait, hloop]
      exact h.apart
    · refine ⟨⟨_, run.append (.single hb), ?_⟩, by rw [hwait]; exact h.nodup, ?_⟩
      · rw [registrations, List.filterMap_append, ← registrations, hregs, hreg]
        obtain ⟨time, event⟩ := b
        cases event with
        | register fd dir ok => exact absurd rfl (hb' fd dir ok)
        | handleEvents fd x ok => exact List.append_nil _
        | handleExpire ok => exact List.append_nil _
      · rw [hwait]
        exact fun fd hmem hopen => h.apart fd hmem (openIn_of_step h.kept hb hb' hopen)

/-- **A connection is queued** that nothing of the thread has open. -/
theorem Sound.queue (h : t.Sound κ) {r : Registration} (hfree : ¬ t.Owns r.fd) :
    (t.queue r).Sound κ := by
  have hwait : (t.queue r).waiting = t.waiting ++ [r] := (List.append_assoc _ _ _).symm
  refine ⟨h.reached, ?_, fun fd hmem => ?_⟩
  · rw [hwait, List.map_append, List.nodup_append]
    refine ⟨h.nodup, List.nodup_singleton _, fun a ha b hb e => hfree (.inl ?_)⟩
    rw [List.map_cons, List.map_nil, List.mem_singleton] at hb
    rwa [← hb, ← e]
  · rw [hwait, List.map_append, List.mem_append] at hmem
    rcases hmem with hmem | hmem
    · exact h.apart fd hmem
    · rw [List.map_cons, List.map_nil, List.mem_singleton] at hmem
      exact fun hopen => hfree (.inr (hmem ▸ hopen))

end LoopThread

/-! ## Every order of steps -/

namespace Dispatch

variable {Q : Type*} [PriorityQueue Q Timer.expireTime] {κ : Type*} [PageCache κ]
  {s s' : Dispatch Q}

/-- The connections that were handed to a loop, in order. -/
def handedTo (s : Dispatch Q) (i : LoopId) : List Registration :=
  (s.handed.filter (·.1 = i)).map Prod.snd

/-- **What the server keeps.** -/
structure Kept (κ : Type*) [PageCache κ] (s : Dispatch Q) : Prop where
  sound (i : LoopId) : (s.thread i).Sound κ
  apart (i j : LoopId) (fd : ℕ) : (s.thread i).Owns fd → (s.thread j).Owns fd → i = j
  bound (i : LoopId) (fd : ℕ) : (s.thread i).Owns fd → fd < MAX_FD_NUM
  handed (i : LoopId) : (s.thread i).registered ++ (s.thread i).waiting = s.handedTo i

theorem not_owns_init (fd : ℕ) : ¬ (LoopThread.init : LoopThread Q).Owns fd := by
  rintro (h | h)
  · exact absurd h List.not_mem_nil
  · exact (openIn_iff EventLoop.kept_init).mp h rfl

theorem kept_start (κ : Type*) [PageCache κ] (n : ℕ) : (start n : Dispatch Q).Kept κ where
  sound _ := ⟨⟨[], .nil _, rfl⟩, List.nodup_nil, fun _ h => absurd h List.not_mem_nil⟩
  apart _ _ fd h := absurd h (not_owns_init fd)
  bound _ fd h := absurd h (not_owns_init fd)
  handed _ := rfl

/-- **A thread takes a step**, and the other threads do not see it. -/
theorem Kept.thread (h : s.Kept κ) {i : LoopId} {a : ThreadAction κ} {t : LoopThread Q}
    (hs : LoopThread.Step (s.thread i) a t) :
    Kept κ { s with thread := Function.update s.thread i t } := by
  have howns : ∀ j fd, (Function.update s.thread i t j).Owns fd → (s.thread j).Owns fd := by
    intro j fd ho
    by_cases hj : j = i
    · subst hj
      rw [Function.update_self] at ho
      exact LoopThread.owns_of_step (h.sound j) hs ho
    · rwa [Function.update_of_ne hj] at ho
  refine ⟨fun j => ?_, fun j k fd hj hk => h.apart j k fd (howns j fd hj) (howns k fd hk),
    fun j fd hj => h.bound j fd (howns j fd hj), fun j => ?_⟩
  · by_cases hj : j = i
    · subst hj
      dsimp only
      rw [Function.update_self]
      exact (h.sound j).step hs
    · dsimp only
      rw [Function.update_of_ne hj]
      exact h.sound j
  · by_cases hj : j = i
    · subst hj
      dsimp only
      rw [Function.update_self, LoopThread.registered_of_step hs]
      exact h.handed j
    · dsimp only
      rw [Function.update_of_ne hj]
      exact h.handed j

/-- What a queued connection adds to its thread. -/
theorem owns_queue {t : LoopThread Q} {r : Registration} {fd : ℕ} (h : (t.queue r).Owns fd) :
    fd = r.fd ∨ t.Owns fd := by
  rcases h with hmem | hopen
  · have hwait : (t.queue r).waiting = t.waiting ++ [r] := (List.append_assoc _ _ _).symm
    rw [hwait, List.map_append, List.mem_append] at hmem
    rcases hmem with hmem | hmem
    · exact .inr (.inl hmem)
    · exact .inl (List.mem_singleton.mp hmem)
  · exact .inr (.inr hopen)

/-- **A connection is handed over.** -/
theorem Kept.hand (h : s.Kept κ) {i : LoopId} {r : Registration} (hfree : s.Free r.fd)
    (hr : r.fd < MAX_FD_NUM) (pool : EventLoopThreadPool) :
    Kept κ { pool := pool
             thread := Function.update s.thread i ((s.thread i).queue r)
             handed := s.handed ++ [(i, r)] } := by
  have howns : ∀ j fd, (Function.update s.thread i ((s.thread i).queue r) j).Owns fd →
      (j = i ∧ fd = r.fd) ∨ (s.thread j).Owns fd := by
    intro j fd ho
    by_cases hj : j = i
    · subst hj
      rw [Function.update_self] at ho
      exact (owns_queue ho).imp_left fun e => ⟨rfl, e⟩
    · rw [Function.update_of_ne hj] at ho
      exact .inr ho
  refine ⟨fun j => ?_, fun j k fd hj hk => ?_, fun j fd hj => ?_, fun j => ?_⟩
  · by_cases hj : j = i
    · subst hj
      dsimp only
      rw [Function.update_self]
      exact (h.sound j).queue (hfree j)
    · dsimp only
      rw [Function.update_of_ne hj]
      exact h.sound j
  · rcases howns j fd hj with ⟨hji, hfd⟩ | hj'
    · rcases howns k fd hk with ⟨hki, -⟩ | hk'
      · rw [hji, hki]
      · exact absurd (hfd ▸ hk') (hfree k)
    · rcases howns k fd hk with ⟨-, hfd⟩ | hk'
      · exact absurd (hfd ▸ hj') (hfree j)
      · exact h.apart j k fd hj' hk'
  · rcases howns j fd hj with ⟨-, rfl⟩ | hj
    · exact hr
    · exact h.bound j fd hj
  · rw [handedTo, List.filter_append, List.map_append, ← handedTo, ← h.handed j]
    by_cases hj : j = i
    · subst hj
      dsimp only
      rw [Function.update_self, List.filter_cons_of_pos (by simp)]
      exact congrArg _ (List.append_assoc _ _ _).symm |>.trans (List.append_assoc _ _ _).symm
    · dsimp only
      rw [Function.update_of_ne hj, List.filter_cons_of_neg (by simpa using Ne.symm hj)]
      exact (List.append_nil _).symm

theorem Kept.step {a : DispatchAction κ} (h : s.Kept κ) (hs : Step s a s') : s'.Kept κ := by
  cases hs with
  | thread hs => exact h.thread hs
  | @accept result dir hfree =>
    -- a round that hands nothing over only moves the cursor of the pool
    have hmoved : ∀ pool, Kept κ { s with pool := pool } := fun _ =>
      ⟨h.sound, h.apart, h.bound, h.handed⟩
    rw [accepted]
    rcases result with ⟨fd, nonBlocking⟩ | error
    · rw [acceptRound]
      split_ifs with hfd hblock
      · exact hmoved _
      · exact hmoved _
      · exact h.hand (r := ⟨fd, dir⟩) (hfree fd nonBlocking rfl) (not_le.mp hfd) _
    · exact hmoved _

theorem kept_of_run {n : ℕ} {as : List (DispatchAction κ)} (r : Run Step (start n) as s) :
    s.Kept κ :=
  r.invariant (I := Kept κ) (fun _ _ _ h hs => h.step hs) (kept_start κ n)

/-- **Each loop runs as if it were alone**: whatever the order of the steps, its state is one that a
run of the loop by itself reaches, and what this run registers, with what still waits, is what the
loop was handed, in that order. -/
theorem loops_of_run {n : ℕ} {as : List (DispatchAction κ)} (r : Run Step (start n) as s)
    (i : LoopId) : ∃ bs : List (ℕ × EventLoop.LoopEvent κ),
      Run EventLoop.Step .init bs (s.thread i).loop ∧
        registrations bs ++ (s.thread i).waiting = s.handedTo i := by
  have h := kept_of_run r
  obtain ⟨bs, run, hregs⟩ := (h.sound i).reached
  exact ⟨bs, run, by rw [hregs, h.handed i]⟩

theorem owns_of_ownedBy {t : LoopThread Q} {o : Owner} {fd : ℕ} (h : t.OwnedBy o fd) :
    t.Owns fd := by
  cases o with
  | waiting place => exact .inl (List.mem_of_getElem? h)
  | connection c => exact .inr ⟨c, h.2.choose, h.1, h.2.choose_spec⟩

/-- **A thread has a descriptor open once.** -/
theorem owner_unique {t : LoopThread Q} (h : t.Sound κ) {o o' : Owner} {fd : ℕ}
    (ho : t.OwnedBy o fd) (ho' : t.OwnedBy o' fd) : o = o' := by
  have hwaits : ∀ {place c}, t.OwnedBy (.waiting place) fd → ¬ t.OwnedBy (.connection c) fd :=
    fun hp hc => h.apart fd (List.mem_of_getElem? hp) ⟨_, hc.2.choose, hc.1, hc.2.choose_spec⟩
  cases o with
  | waiting place =>
    cases o' with
    | waiting place' =>
      have hlt := (List.getElem?_eq_some_iff.mp ho).1
      exact congrArg _ ((List.getElem?_inj hlt h.nodup).mp (Eq.trans ho (Eq.symm ho')))
    | connection c => exact absurd ho' (hwaits ho)
  | connection c =>
    cases o' with
    | waiting place => exact absurd ho (hwaits ho')
    | connection c' =>
      obtain ⟨halive, conn, hc, rfl⟩ := ho
      obtain ⟨halive', conn', hc', hfd⟩ := ho'
      have hreg := httpConnections_of_alive h.kept halive hc
      rw [← hfd, httpConnections_of_alive h.kept halive' hc'] at hreg
      exact congrArg _ (Option.some.inj hreg).symm

/-- **A descriptor has one owner** in the whole process, and `http_connections_` has a place for it:
no two connection objects, of two loops or of one, whether they wait for their `Register` or not,
ever have the same descriptor open. -/
theorem oneOwner_of_run {n : ℕ} {as : List (DispatchAction κ)} (r : Run Step (start n) as s)
    {i j : LoopId} {o o' : Owner} {fd : ℕ} (hi : (s.thread i).OwnedBy o fd)
    (hj : (s.thread j).OwnedBy o' fd) : i = j ∧ o = o' ∧ fd < MAX_FD_NUM := by
  have h := kept_of_run r
  obtain rfl := h.apart i j fd (owns_of_ownedBy hi) (owns_of_ownedBy hj)
  exact ⟨rfl, owner_unique (h.sound i) hi hj, h.bound i fd (owns_of_ownedBy hi)⟩

/-! ## A server with one sub loop -/

/-- One sub loop, with the thread `t`. -/
def serving (t : LoopThread (SortedList Timer.Timer.expireTime))
    (handed : List (LoopId × Registration)) : Dispatch (SortedList Timer.Timer.expireTime) where
  pool := { threadNum := 1, subLoops := 1 }
  thread := Function.update (fun _ => .init) (.sub 0) t
  handed := handed

variable {t t' : LoopThread (SortedList Timer.Timer.expireTime)} {h : List (LoopId × Registration)}

theorem serving_self : (serving t h).thread (.sub 0) = t := by
  simp only [serving, Function.update_self]

theorem start_eq_serving : start 1 = serving .init [] := by
  rw [serving, Function.update_eq_self]
  rfl

theorem serving_thread {a : ThreadAction κ} (hs : LoopThread.Step t a t') :
    Step (serving t h) (.thread (.sub 0) a) (serving t' h) := by
  have hstep := Step.thread (s := serving t h) (i := .sub 0) (a := a) (t := t')
    (by rwa [serving_self])
  rwa [serving, Function.update_idem, ← serving] at hstep

theorem serving_accept {fd : ℕ} (hfd : fd < MAX_FD_NUM) (hfree : ¬ t.Owns fd) :
    Step (κ := κ) (serving t h) (.accept (.connection fd true) [])
      (serving (t.queue ⟨fd, []⟩) (h ++ [(.sub 0, ⟨fd, []⟩)])) := by
  have hstep : Step (κ := κ) (serving t h) (.accept (.connection fd true) [])
      (accepted (serving t h) (.connection fd true) []) := .accept fun fd' _ e i => by
      obtain ⟨rfl, -⟩ := AcceptResult.connection.inj e
      by_cases hi : i = .sub 0
      · rwa [hi, serving_self]
      · rw [serving]
        dsimp only
        rw [Function.update_of_ne hi]
        exact not_owns_init fd
  have hround : acceptRound (serving t h).pool (.connection fd true)
      = ((serving t h).pool, some (.sub 0, fd)) := by
    rw [acceptRound, if_neg (not_le.mpr hfd), if_neg (by simp)]
    simp [serving, EventLoopThreadPool.getNextLoop]
  rw [accepted, hround] at hstep
  dsimp only at hstep
  rw [serving_self, serving, Function.update_idem, ← serving] at hstep
  exact hstep

/-- A sub loop has registered a connection on descriptor 5, and another one waits. -/
theorem run_twoConnections : ∃ (as : List (DispatchAction Cache.LFUCache))
    (s : Dispatch (SortedList Timer.Timer.expireTime)), Run Step (start 1) as s ∧
      s.handedTo (.sub 0) = [⟨5, []⟩, ⟨6, []⟩] ∧ (s.thread (.sub 0)).OwnedBy (.waiting 0) 6 ∧
        (s.thread (.sub 0)).OwnedBy (.connection 0) 5 := by
  have hcall := @LoopThread.Step.call (SortedList Timer.Timer.expireTime) _ Cache.LFUCache _
    ⟨.init, [], .performing [⟨5, []⟩], []⟩ 999 true ⟨5, []⟩ [] rfl (Nat.zero_le _)
  have registered : Run (Step (κ := Cache.LFUCache)) (start 1)
      [.accept (.connection 5 true) [], .thread (.sub 0) .swap, .thread (.sub 0) (.call 999 true)]
      (serving ⟨EventLoop.oneConnection 999, [], .performing [], [⟨5, []⟩]⟩
        [(.sub 0, ⟨5, []⟩)]) := by
    rw [start_eq_serving]
    exact .cons (serving_accept (by decide) (not_owns_init 5)) <| .cons (serving_thread (.swap rfl))
      <| .single (serving_thread hcall)
  have hkept : (EventLoop.oneConnection 999).Kept :=
    (EventLoop.kept_init).step (EventLoop.step_oneConnection (κ := Cache.LFUCache) 999)
  have hfree : ¬ (⟨EventLoop.oneConnection 999, [], .performing [], [⟨5, []⟩]⟩ :
      LoopThread (SortedList Timer.Timer.expireTime)).Owns 6 := by
    rintro (hmem | hopen)
    · exact absurd hmem List.not_mem_nil
    · exact (openIn_iff hkept).mp hopen rfl
  refine ⟨_, _, registered.append (.single (serving_accept (by decide) hfree)), rfl, ?_, ?_⟩
  · rw [serving_self]
    rfl
  · rw [serving_self]
    exact ⟨.inl ⟨5, rfl⟩, _, rfl, rfl⟩

theorem loops_twoConnections : ∃ (as : List (DispatchAction Cache.LFUCache))
    (s : Dispatch (SortedList Timer.Timer.expireTime)), Run Step (start 1) as s ∧
      ∃ bs : List (ℕ × EventLoop.LoopEvent Cache.LFUCache),
        Run EventLoop.Step .init bs (s.thread (.sub 0)).loop ∧
          registrations bs ++ (s.thread (.sub 0)).waiting = [⟨5, []⟩, ⟨6, []⟩] := by
  obtain ⟨as, s, r, hhanded, -⟩ := run_twoConnections
  exact ⟨as, s, r, hhanded ▸ loops_of_run r (.sub 0)⟩

theorem oneOwner_twoConnections : ∃ (as : List (DispatchAction Cache.LFUCache))
    (s : Dispatch (SortedList Timer.Timer.expireTime)), Run Step (start 1) as s ∧
      ∀ j o, (s.thread j).OwnedBy o 6 →
        LoopId.sub 0 = j ∧ Owner.waiting 0 = o ∧ 6 < MAX_FD_NUM := by
  obtain ⟨as, s, r, -, howned, -⟩ := run_twoConnections
  exact ⟨as, s, r, fun j o hj => oneOwner_of_run r howned hj⟩

end Dispatch

end WebServer.Server
