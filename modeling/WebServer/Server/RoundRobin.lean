import WebServer.Lib.Turns
import WebServer.Server.WebServer

/-!
# Server/RoundRobin — how evenly connections are spread

Each round of the accept loop takes the next sub loop, also the last round, which accepts nothing.
So a call that accepts `k` connections takes `k + 1` turns, and the last of them is lost: calls of
the wrong sizes keep losing the turns of the same loop.  Where the turns are lost is a matter of the
numbers of connections alone, and the spread stays even exactly if they are lost evenly
(`balanced_iff`).
-/

namespace WebServer.Server

open Turns

/-! ## One call -/

/-- **The answers to one call**: the connections it accepts, and the error that ends it. -/
structure Batch where
  fds : List ℕ
  error : AcceptError
  fds_lt : ∀ fd ∈ fds, fd < MAX_FD_NUM

/-- What `accept` answers. -/
def Batch.script (b : Batch) : List AcceptResult :=
  b.fds.map (.connection · true) ++ [.failed b.error]

/-- A pool that runs. -/
structure Started (p : EventLoopThreadPool) : Prop where
  subLoops : p.subLoops = p.threadNum
  next_lt : p.next < p.threadNum

namespace Started

variable {p : EventLoopThreadPool}

theorem start {n : ℕ} (hn : 0 < n) : Started (EventLoopThreadPool.start { threadNum := n }) :=
  ⟨Nat.zero_add n, hn⟩

theorem getNextLoop_eq (h : Started p) :
    p.getNextLoop = (.sub p.next, { p with next := (p.next + 1) % p.threadNum }) := by
  have hne : p.subLoops ≠ 0 := by
    rw [h.subLoops]
    exact (Nat.zero_lt_of_lt h.next_lt).ne'
  rw [EventLoopThreadPool.getNextLoop, if_neg hne]

theorem moved (h : Started p) (next : ℕ) : Started { p with next := next % p.threadNum } :=
  ⟨h.subLoops, Nat.mod_lt _ (Nat.zero_lt_of_lt h.next_lt)⟩

end Started

/-- **The connections go to the loops in turn**, and the cursor takes one step more than there are
connections. -/
theorem acceptLoop_batch : ∀ {fds : List ℕ} {p : EventLoopThreadPool}, Started p →
    (∀ fd ∈ fds, fd < MAX_FD_NUM) → ∀ error,
      let r := acceptLoop p (fds.map (.connection · true) ++ [.failed error])
      r.pool = { p with next := (p.next + (fds.length + 1)) % p.threadNum } ∧
        r.queued.map Prod.fst
          = (List.range fds.length).map fun t => .sub ((p.next + t) % p.threadNum)
  | [], p, h, _, error => by
      rw [List.map_nil, List.nil_append, acceptLoop, h.getNextLoop_eq]
      exact ⟨rfl, rfl⟩
  | fd :: fds, p, h, hfds, error => by
      obtain ⟨hfd, hfds⟩ := List.forall_mem_cons.mp hfds
      obtain ⟨hpool, hqueued⟩ := acceptLoop_batch (h.moved (p.next + 1)) hfds error
      rw [List.map_cons, List.cons_append, acceptLoop, if_neg (not_le.mpr hfd), if_neg (by simp),
        h.getNextLoop_eq]
      dsimp only at hpool hqueued ⊢
      constructor
      · rw [hpool, Nat.mod_add_mod, List.length_cons]
        congr 2
        omega
      · rw [List.map_cons, hqueued, List.length_cons, List.range_succ_eq_map, List.map_cons,
          List.map_map]
        congr 1
        · rw [Nat.add_zero, Nat.mod_eq_of_lt h.next_lt]
        refine List.map_congr_left fun t _ => ?_
        rw [Nat.mod_add_mod, Function.comp_apply, Nat.add_assoc, Nat.add_comm 1]

/-! ## Any number of calls -/

/-- The server, and the loops that its connections were given to. -/
structure Spread where
  server : WebServer
  assigned : List LoopId := []

namespace Spread

/-- **One call** of `HandleNewConnect`. -/
def call (s : Spread) (b : Batch) : Spread :=
  let r := s.server.handleNewConnect b.script
  ⟨r.2, s.assigned ++ r.1.queued.map Prod.fst⟩

/-- The server after some calls, from its start with `n` sub loops. -/
def after (n : ℕ) (bs : List Batch) : Spread := bs.foldl call { server := .start n }

/-- How many connections sub loop `i` was given. -/
def assignedTo (s : Spread) (i : ℕ) : ℕ := s.assigned.count (.sub i)

/-- **The connections are balanced**: of any two sub loops, neither was given two more. -/
def Balanced (s : Spread) : Prop := Turns.Even s.server.pool.threadNum s.assignedTo

/-- The turns that calls of these sizes take: one for each connection, and one for each call. -/
def turns (ks : List ℕ) : ℕ := ks.sum + ks.length

/-- **The turns lost at loop `i`**: the `l`-th of the calls, from `0` on, ends in turn
`k₀ + … + k_l + l`. -/
def lost (n : ℕ) (ks : List ℕ) (i : ℕ) : ℕ :=
  Nat.count (fun l => ((ks.take (l + 1)).sum + l) % n = i) ks.length

variable {s : Spread} {b : Batch}

theorem call_pool (h : Started s.server.pool) (b : Batch) : (s.call b).server.pool
    = { s.server.pool with
        next := (s.server.pool.next + (b.fds.length + 1)) % s.server.pool.threadNum } :=
  (acceptLoop_batch h b.fds_lt b.error).1

/-- **What a call gives to each loop.** -/
theorem call_assignedTo (h : Started s.server.pool) (b : Batch) (i : ℕ) : (s.call b).assignedTo i
      = s.assignedTo i
        + Nat.count (fun t => (s.server.pool.next + t) % s.server.pool.threadNum = i)
            b.fds.length := by
  have hqueued := (acceptLoop_batch h b.fds_lt b.error).2
  change List.count _ (s.assigned ++ (acceptLoop s.server.pool b.script).queued.map Prod.fst) = _
  rw [Batch.script, hqueued, List.count_append, Nat.count, assignedTo]
  congr 1
  rw [List.count_eq_countP, List.countP_map]
  refine List.countP_congr fun t _ => ?_
  simp

theorem turns_append (ks : List ℕ) (k : ℕ) : turns (ks ++ [k]) = turns ks + k + 1 := by
  rw [turns, turns, List.sum_append, List.sum_singleton, List.length_append, List.length_singleton]
  omega

/-- **The turn a further call loses** is the one after its connections. -/
theorem lost_append (n : ℕ) (ks : List ℕ) (k i : ℕ) :
    lost n (ks ++ [k]) i = lost n ks i + if (turns ks + k) % n = i then 1 else 0 := by
  rw [lost, List.length_append, List.length_singleton, Nat.count_succ]
  congr 1
  · rw [lost, Nat.count_eq_card_filter_range, Nat.count_eq_card_filter_range]
    congr 1
    refine Finset.filter_congr fun l hl => ?_
    rw [List.take_append_of_le_length (Finset.mem_range.mp hl)]
  · rw [List.take_of_length_le (by simp), List.sum_append, List.sum_singleton, turns,
      Nat.add_right_comm]

theorem after_append (n : ℕ) (bs : List Batch) (b : Batch) :
    after n (bs ++ [b]) = (after n bs).call b := by
  rw [after, List.foldl_append]
  rfl

/-- The pool runs, with `n` loops. -/
theorem after_pool {n : ℕ} (hn : 0 < n) (bs : List Batch) :
    Started (after n bs).server.pool ∧ (after n bs).server.pool.threadNum = n := by
  induction bs using List.reverseRecOn with
  | nil => exact ⟨.start hn, rfl⟩
  | append_singleton bs b ih =>
    rw [after_append, call_pool ih.1]
    exact ⟨ih.1.moved _, ih.2⟩

/-- **Every turn is accounted for**: the cursor stands after the turns of all calls, and of the
turns at each loop those that were not lost gave it a connection. -/
theorem after_turns {n : ℕ} (hn : 0 < n) (bs : List Batch) :
    (after n bs).server.pool.next = turns (bs.map (·.fds.length)) % n ∧
      ∀ i, (after n bs).assignedTo i + lost n (bs.map (·.fds.length)) i
        = Nat.count (fun t => t % n = i) (turns (bs.map (·.fds.length))) := by
  induction bs using List.reverseRecOn with
  | nil => exact ⟨(Nat.zero_mod n).symm, fun i => rfl⟩
  | append_singleton bs b ih =>
    obtain ⟨hstarted, hnum⟩ := after_pool hn bs
    obtain ⟨hnext, hcount⟩ := ih
    rw [after_append, List.map_append, List.map_singleton, turns_append]
    constructor
    · rw [call_pool hstarted]
      change (_ + (b.fds.length + 1)) % _ = _
      rw [hnum, hnext, Nat.mod_add_mod, Nat.add_assoc]
    · intro i
      rw [call_assignedTo hstarted, lost_append, Nat.count_succ, ← Turns.count_turns_add,
        ← hcount i, hnum, hnext]
      omega

theorem balanced_after_iff {n : ℕ} (hn : 0 < n) (bs : List Batch) :
    (after n bs).Balanced ↔
      EvenlyLost n (turns (bs.map (·.fds.length))) (lost n (bs.map (·.fds.length))) := by
  rw [Balanced, (after_pool hn bs).2]
  exact even_iff_evenlyLost fun i _ => (after_turns hn bs).2 i

/-- **Connections are spread round robin** after each call exactly if the calls lose their turns
evenly, after each of them. -/
theorem balanced_iff {n : ℕ} (hn : 0 < n) (bs : List Batch) :
    (∀ bs', bs' <+: bs → (after n bs').Balanced) ↔
      ∀ ks, ks <+: bs.map (·.fds.length) → EvenlyLost n (turns ks) (lost n ks) := by
  constructor
  · intro h ks hks
    obtain ⟨bs', hbs', rfl⟩ := List.prefix_map_iff.mp hks
    exact (balanced_after_iff hn bs').mp (h bs' hbs')
  · intro h bs' hbs'
    exact (balanced_after_iff hn bs').mpr (h _ (hbs'.map _))

/-- A call that accepts one connection. -/
def oneConnection : Batch := ⟨[5], .again, by decide⟩

/-- **Two calls, each of one connection**, give both to the first of two loops. -/
theorem not_balanced_one_one : ¬ (after 2 [oneConnection, oneConnection]).Balanced := by
  unfold Balanced
  decide

/-- **Three calls, each of one connection**, go round three loops. -/
theorem balanced_three : (after 3 [oneConnection, oneConnection, oneConnection]).Balanced := by
  refine (balanced_iff (by decide) [oneConnection, oneConnection, oneConnection]).mpr ?_ _
    List.prefix_rfl
  intro ks hks
  rw [← List.mem_inits] at hks
  revert ks
  decide

end Spread

end WebServer.Server
