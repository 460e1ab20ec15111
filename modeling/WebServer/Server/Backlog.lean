import WebServer.Lib.Run
import WebServer.Server.WebServer

/-!
# Server/Backlog — whether an accept call leaves connections behind

An edge-triggered socket is reported once for what has arrived.  So an accept call has to go on to
`EAGAIN`, or have `epoll` armed again.  The events it sets are always the last ones, so `EpollMod`
never calls `epoll_ctl` for it (`not_rearmed`), and an accept loop that ends for another reason
leaves the backlog as it is (`drained_or_rearmed_iff`).
-/

namespace WebServer.Server

open Event

/-! ## The answers of an accept call -/

/-- An answer that the accept loop goes on behind. -/
def AcceptResult.Usable : AcceptResult → Prop
  | .connection fd nonBlocking => fd < MAX_FD_NUM ∧ nonBlocking = true
  | .failed _ => False

instance : DecidablePred AcceptResult.Usable := fun r => by
  unfold AcceptResult.Usable
  split <;> infer_instance

/-- **The backlog is empty**: the last `accept` answered `EAGAIN`. -/
def AcceptReport.Drained (r : AcceptReport) : Prop := r.last = .failed .again

/-- **The condition**: the first answer that cannot be used is `EAGAIN`. -/
def EndsAgain (script : List AcceptResult) : Prop :=
  ∀ r ∈ script.find? (¬ ·.Usable), r = .failed .again

instance (script : List AcceptResult) : Decidable (EndsAgain script) := by
  unfold EndsAgain
  infer_instance

/-- **The accept loop drains the backlog** exactly if it ends at `EAGAIN`. -/
theorem drained_acceptLoop_iff : ∀ {script : List AcceptResult} {p : EventLoopThreadPool},
    (acceptLoop p script).Drained ↔ EndsAgain script
  | [], p => iff_of_true rfl nofun
  | .failed error :: rest, p => by
      rw [acceptLoop, AcceptReport.Drained, EndsAgain,
        List.find?_cons_of_pos (by simp [AcceptResult.Usable])]
      simp
  | .connection fd nonBlocking :: rest, p => by
      by_cases hu : (AcceptResult.connection fd nonBlocking).Usable
      · rw [acceptLoop, if_neg (not_le.mpr hu.1), if_neg (by simp [hu.2]), EndsAgain,
          List.find?_cons_of_neg (by simpa using hu)]
        exact drained_acceptLoop_iff (p := p.getNextLoop.2)
      · have hlast : (acceptLoop p (.connection fd nonBlocking :: rest)).last
            = .connection fd nonBlocking := by
          rw [acceptLoop]
          by_cases hfd : fd ≥ MAX_FD_NUM
          · rw [if_pos hfd]
          · have hnb : nonBlocking ≠ true := fun e => hu ⟨not_le.mp hfd, e⟩
            rw [if_neg hfd, if_pos (by simpa using hnb)]
        rw [AcceptReport.Drained, hlast, EndsAgain, List.find?_cons_of_pos (by simpa using hu)]
        simp

/-! ## The listening socket, over any run -/

namespace WebServer

/-- What `epoll` can report for the listening socket, which it watches for `EPOLLIN`: this, an error
or a hang-up. -/
structure Reported (revents : EventMask) : Prop where
  any : revents.epollIn ∨ revents.epollErr ∨ revents.epollHup
  pri : revents.epollPri = false
  out : revents.epollOut = false
  rdHup : revents.epollRdHup = false

/-- **A step of the main loop**: an event of the listening socket is handled. -/
inductive Step : WebServer → EventMask × List AcceptResult → WebServer → Prop
  | handleEvents {s : WebServer} {revents : EventMask} {script : List AcceptResult}
      (h : Reported revents) : Step s (revents, script) (s.handleEvents revents script)

/-- **A server that was started** and has handled some events. -/
def Reachable (threadNum : ℕ) (s : WebServer) : Prop := ∃ es, Run Step (start threadNum) es s

variable {s s' : WebServer} {threadNum : ℕ}

/-- The mask that the listening socket is watched for. -/
def Watched (s : WebServer) : Prop := s.acceptChannel.lastEvents = .EPOLLIN ||| .EPOLLET

/-- An event that is reported is ignored or accepted for. -/
theorem Reported.cases {revents : EventMask} (h : Reported revents) :
    ignored revents = true ∨ readable revents = true := by
  rw [ignored, readable]
  by_cases hin : revents.epollIn
  · exact .inr (by simp [hin])
  · obtain h' | h' | h' := h.any
    · exact absurd h' hin
    · exact .inl (by simp [h'])
    · exact .inl (by simp [h', hin])

theorem Watched.step {e : EventMask × List AcceptResult} (hs : s.Watched) (h : Step s e s') :
    s'.Watched := by
  obtain ⟨hr⟩ := h
  rw [handleEvents]
  split
  · exact hs
  · next hi =>
    rw [if_pos (hr.cases.resolve_left hi)]
    rfl

theorem Reachable.watched (h : Reachable threadNum s) : s.Watched := by
  obtain ⟨es, hrun⟩ := h
  exact hrun.invariant (fun _ _ _ hs hstep => hs.step hstep) rfl

/-- **`epoll` is never armed again** for the listening socket. -/
theorem Reachable.not_rearmed (h : Reachable threadNum s) (script : List AcceptResult) :
    (s.clearEvents.accept script).2.1 = false := by
  have hw : s.acceptChannel.lastEvents = .EPOLLIN ||| .EPOLLET := h.watched
  change (!decide (s.acceptChannel.lastEvents = .EPOLLIN ||| .EPOLLET)) = false
  rw [hw, decide_eq_true rfl]
  rfl

/-- **What an accept call owes**: the backlog is empty, or `epoll` is armed again. -/
def DrainedOrRearmed (s : WebServer) (script : List AcceptResult) : Prop :=
  (s.clearEvents.accept script).1.Drained ∨ (s.clearEvents.accept script).2.1 = true

/-- **An accept call leaves no connection behind** exactly if the first answer that it cannot use is
`EAGAIN`. -/
theorem drained_or_rearmed_iff (h : Reachable threadNum s) (script : List AcceptResult) :
    s.DrainedOrRearmed script ↔ EndsAgain script := by
  rw [DrainedOrRearmed, h.not_rearmed, or_iff_left Bool.false_ne_true]
  exact drained_acceptLoop_iff

theorem reachable_start (threadNum : ℕ) : Reachable threadNum (start threadNum) := ⟨[], .nil _⟩

/-- Two connections, and then nothing more. -/
theorem drained_two : (start 4).DrainedOrRearmed [.connection 5 true, .connection 6 true] :=
  (drained_or_rearmed_iff (reachable_start 4) _).mpr (by decide)

/-- **An interrupted `accept`** leaves the connections that wait behind it, and nothing reports
them. -/
theorem not_drained_interrupted :
    ¬ (start 4).DrainedOrRearmed [.failed .interrupted, .connection 5 true] := by
  unfold DrainedOrRearmed AcceptReport.Drained
  decide

end WebServer

end WebServer.Server
