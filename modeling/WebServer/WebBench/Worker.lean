import WebServer.Lib.Run
import Mathlib

/-!
# WebBench/Worker — a client that makes one request after the other

`Worker` makes requests until an alarm has gone off, over one connection or over one for each.  Each
pass of its loop is counted once, except that it forgives itself the last failure, and no socket is
left open but one for each lookup of the server's name that failed (`accounted_of_run`).  The alarm
ends it within six calls, unless it has lost its connection: then it does not look at the alarm
before it has another one (`ends_of_run`).

The counters are `int`s, which wrap around; they are right as long as there are fewer than `2³¹`
passes.
-/

namespace WebServer.WebBench

/-! ## The loop -/

/-- **The options** that `Worker` reads. -/
structure Mode where
  isKeepAlive : Bool
  force : Bool
  httpVersion : ℤ

/-- Where `Worker` is. -/
inductive Point
  /-- In `while (client_sockfd == -1)`. -/
  | connecting
  /-- At the head of its loop. -/
  | test
  | connect
  | write
  | shutdown
  /-- At the head of the loop that reads. -/
  | readTest
  | read
  | close
  | returned
  deriving DecidableEq

namespace Point

/-- The attempts that are on their way: neither successes nor failures yet. -/
def midway : Point → ℕ
  | connecting | test | returned => 0
  | connect | write | shutdown | readTest | read | close => 1

/-- The requests that are out and have not been counted. -/
def awaiting : Point → ℕ
  | connecting | test | connect | write | returned => 0
  | shutdown | readTest | read | close => 1

/-- The worker holds no socket here. -/
def released (isKeepAlive : Bool) : Point → Bool
  | connecting | connect => true
  | test | returned => !isKeepAlive
  | write | shutdown | readTest | read | close => false

/-- How many answers it takes from here to the end, at most, when the alarm has gone off. -/
def toEnd : Point → ℕ
  | returned => 0
  | test => 1
  | connecting | close => 2
  | readTest | read => 3
  | shutdown => 4
  | write => 5
  | connect => 6

end Point

/-- What `socket`, `inet_addr`, `gethostbyname` and `connect` answer to `ConnectServer`. -/
structure Attempt where
  socket : Option ℕ
  isAddress : Bool
  isResolved : Bool
  isConnected : Bool

namespace Attempt

/-- The server has no address. -/
def lookupFails (c : Attempt) : Bool := !c.isAddress && !c.isResolved

/-- The socket is neither returned nor closed. -/
def leaks (c : Attempt) : Bool := c.socket.isSome && c.lookupFails

/-- The socket is returned. -/
def succeeds (c : Attempt) : Bool := c.socket.isSome && !c.lookupFails && c.isConnected

end Attempt

/-- What the process comes across next: the alarm, or the answer to the call it is at. -/
inductive Reply
  | alarm
  /-- A test of `is_expired`. -/
  | go
  | connect (attempt : Attempt)
  | write (complete : Bool)
  | shutdown (ok : Bool)
  | read (bytes : Option ℕ)
  | close (ok : Bool)

namespace Reply

/-- A socket is lost. -/
def leaks : Reply → Bool
  | .connect c => c.leaks
  | _ => false

/-- How much is read. -/
def bytes : Reply → ℕ
  | .read (some n) => n
  | _ => 0

/-- After the alarm, the worker comes nearer to its end: it tries no longer to get back a connection
that it is to keep. -/
def progresses (mode : Mode) : Reply → Bool
  | .alarm => false
  | .connect c => !mode.isKeepAlive || c.succeeds
  | _ => true

end Reply

/-- **A child process** that runs `Worker`.  The last three are history: the sockets that were lost
to a lookup, the requests that were written and the passes through the loop. -/
structure Worker where
  point : Point
  /-- `client_sockfd`; `none` stands for `-1`. -/
  clientSockfd : Option ℕ
  isExpired : Bool
  successCount : Int32
  failedCount : Int32
  totalBytes : Int32
  sockets : Finset ℕ
  leaked : Finset ℕ
  sent : ℕ
  attempts : ℕ

namespace Worker

/-- The worker before its loop. -/
def init (mode : Mode) : Worker where
  point := if mode.isKeepAlive then .connecting else .test
  clientSockfd := none
  isExpired := false
  successCount := 0
  failedCount := 0
  totalBytes := 0
  sockets := ∅
  leaked := ∅
  sent := 0
  attempts := 0

/-- `ConnectServer` -/
def connectServer (w : Worker) (c : Attempt) : Worker :=
  match c.socket with
  | none => { w with clientSockfd := none }
  | some fd =>
    if c.lookupFails then
      -- returns without a `close`
      { w with clientSockfd := none, sockets := insert fd w.sockets, leaked := insert fd w.leaked }
    else if c.isConnected then { w with clientSockfd := some fd, sockets := insert fd w.sockets }
    else { w with clientSockfd := none }

/-- `close(client_sockfd)` -/
def closeSocket (w : Worker) : Worker :=
  { w with sockets := match w.clientSockfd with
      | some fd => w.sockets.erase fd
      | none => w.sockets }

/-- Where the worker goes on. -/
def goTo (w : Worker) (point : Point) : Worker := { w with point := point }

/-- `failed_count++` -/
def fail (w : Worker) : Worker := { w with failedCount := w.failedCount + 1 }

/-- `success_count++` -/
def succeed (w : Worker) : Worker := { w with successCount := w.successCount + 1 }

/-- A pass of the loop begins. -/
def beginPass (w : Worker) : Worker := { w with attempts := w.attempts + 1 }

/-- The request is written. -/
def written (w : Worker) : Worker := { w with sent := w.sent + 1 }

/-- **The head of the loop.** -/
def loopTest (mode : Mode) (w : Worker) : Worker :=
  if w.isExpired then
    { w with
      failedCount := if w.failedCount > 0 then w.failedCount - 1 else w.failedCount
      point := .returned }
  else
    if mode.isKeepAlive then
      if w.clientSockfd = none then w.beginPass.fail.goTo .test else w.beginPass.goTo .write
    else w.beginPass.goTo .connect

/-- The answer has been read, or nobody waits for one. -/
def answered (mode : Mode) (w : Worker) : Worker :=
  if mode.isKeepAlive then w.succeed.goTo .test else w.goTo .close

/-- The request is out. -/
def afterSend (mode : Mode) (w : Worker) : Worker :=
  if mode.force then w.answered mode else w.goTo .readTest

/-- The request could not be written. -/
def writeFails (mode : Mode) (w : Worker) : Worker :=
  if mode.isKeepAlive then { w.fail.closeSocket with clientSockfd := none, point := .connecting }
  else w.fail.closeSocket.goTo .test

/-- **One step of a worker.** -/
def step (mode : Mode) (w : Worker) : Reply → Option Worker
  | .alarm => some { w with isExpired := true }
  | .go =>
    match w.point with
    | .test => some (w.loopTest mode)
    | .readTest => some (if w.isExpired then w.answered mode else w.goTo .read)
    | _ => none
  | .connect c =>
    let w' := w.connectServer c
    match w.point with
    | .connecting => some (w'.goTo (if w'.clientSockfd = none then .connecting else .test))
    | .connect => some (if w'.clientSockfd = none then w'.fail.goTo .test else w'.goTo .write)
    | _ => none
  | .write complete =>
    match w.point with
    | .write =>
      some (if !complete then w.writeFails mode
        else if !mode.isKeepAlive ∧ mode.httpVersion = 0 then w.written.goTo .shutdown
        else w.written.afterSend mode)
    | _ => none
  | .shutdown ok =>
    match w.point with
    | .shutdown => some (if ok then w.afterSend mode else w.fail.closeSocket.goTo .test)
    | _ => none
  | .read bytes =>
    match w.point, bytes with
    | .read, none => some (w.fail.closeSocket.goTo .test)
    | .read, some n => some ({ w with totalBytes := w.totalBytes + Int32.ofNat n }.answered mode)
    | _, _ => none
  | .close ok =>
    match w.point with
    | .close => some ((if ok then w.closeSocket.succeed else w.closeSocket.fail).goTo .test)
    | _ => none

/-- **What the system can answer**: a new socket is none that is open, and a request can be written
to an open one alone. -/
def Possible (w : Worker) : Reply → Prop
  | .connect c => ∀ fd, c.socket = some fd → fd ∉ w.sockets
  | .write true => ∃ fd ∈ w.sockets, w.clientSockfd = some fd
  | _ => True

/-- **A step**, with an answer that the system can give. -/
def Step (mode : Mode) (w : Worker) (a : Reply) (w' : Worker) : Prop :=
  w.Possible a ∧ w.step mode a = some w'

variable {mode : Mode} {w w' : Worker} {a : Reply} {p : Point} {k m : ℕ}

/-- **What a step does**, by the call that it answers. -/
inductive Moved (mode : Mode) (w : Worker) : Reply → Worker → Prop
  | alarm : Moved mode w .alarm { w with isExpired := true }
  | test (hp : w.point = .test) : Moved mode w .go (w.loopTest mode)
  | readTest (hp : w.point = .readTest) :
      Moved mode w .go (if w.isExpired then w.answered mode else w.goTo .read)
  | reconnect (c : Attempt) (hp : w.point = .connecting) : Moved mode w (.connect c)
      ((w.connectServer c).goTo
        (if (w.connectServer c).clientSockfd = none then .connecting else .test))
  | connect (c : Attempt) (hp : w.point = .connect) : Moved mode w (.connect c)
      (if (w.connectServer c).clientSockfd = none then (w.connectServer c).fail.goTo .test
        else (w.connectServer c).goTo .write)
  | write (complete : Bool) (hp : w.point = .write) : Moved mode w (.write complete)
      (if !complete then w.writeFails mode
        else if !mode.isKeepAlive ∧ mode.httpVersion = 0 then w.written.goTo .shutdown
        else w.written.afterSend mode)
  | shutdown (ok : Bool) (hp : w.point = .shutdown) : Moved mode w (.shutdown ok)
      (if ok then w.afterSend mode else w.fail.closeSocket.goTo .test)
  | readFails (hp : w.point = .read) : Moved mode w (.read none) (w.fail.closeSocket.goTo .test)
  | read (n : ℕ) (hp : w.point = .read) : Moved mode w (.read (some n))
      ({ w with totalBytes := w.totalBytes + Int32.ofNat n }.answered mode)
  | close (ok : Bool) (hp : w.point = .close) : Moved mode w (.close ok)
      ((if ok then w.closeSocket.succeed else w.closeSocket.fail).goTo .test)

/-- **There are no other steps.** -/
theorem moved_of_step (hs : w.step mode a = some w') : Moved mode w a w' := by
  cases a with
  | alarm =>
    obtain rfl := Option.some.inj hs
    exact .alarm
  | go =>
    simp only [step] at hs
    split at hs
    · next hp =>
      obtain rfl := Option.some.inj hs
      exact .test hp
    · next hp =>
      obtain rfl := Option.some.inj hs
      exact .readTest hp
    · exact absurd hs.symm (Option.some_ne_none _)
  | connect c =>
    simp only [step] at hs
    split at hs
    · next hp =>
      obtain rfl := Option.some.inj hs
      exact .reconnect c hp
    · next hp =>
      obtain rfl := Option.some.inj hs
      exact .connect c hp
    · exact absurd hs.symm (Option.some_ne_none _)
  | write complete =>
    simp only [step] at hs
    split at hs
    · next hp =>
      obtain rfl := Option.some.inj hs
      exact .write complete hp
    · exact absurd hs.symm (Option.some_ne_none _)
  | shutdown ok =>
    simp only [step] at hs
    split at hs
    · next hp =>
      obtain rfl := Option.some.inj hs
      exact .shutdown ok hp
    · exact absurd hs.symm (Option.some_ne_none _)
  | read bytes =>
    simp only [step] at hs
    split at hs
    · next hp =>
      obtain rfl := Option.some.inj hs
      exact .readFails hp
    · next n hp =>
      obtain rfl := Option.some.inj hs
      exact .read n hp
    · exact absurd hs.symm (Option.some_ne_none _)
  | close ok =>
    simp only [step] at hs
    split at hs
    · next hp =>
      obtain rfl := Option.some.inj hs
      exact .close ok hp
    · exact absurd hs.symm (Option.some_ne_none _)

/-! ## What is kept -/

/-- **The sockets**: those that are lost, and at most the one in `client_sockfd`. -/
structure Sockets (w : Worker) : Prop where
  owned : w.sockets = w.leaked ∨ ∃ fd, w.clientSockfd = some fd ∧ w.sockets = insert fd w.leaked
  apart (fd : ℕ) : w.clientSockfd = some fd → fd ∉ w.leaked

/-- **The counters**, with `awaiting` requests that are out and `midway` attempts on their way. -/
def Balance (w : Worker) (awaiting midway : ℕ) : Prop :=
  ∃ s f : ℕ, w.successCount = .ofNat s ∧ w.failedCount = .ofNat f ∧ s + awaiting ≤ w.sent ∧
    s + f + midway = w.attempts

/-- `failed_count` at the end: the last failure is forgiven. -/
def forgive (failedCount : Int32) : Int32 :=
  if failedCount > 0 then failedCount - 1 else failedCount

/-- **The counters at the end.** -/
structure Final (w : Worker) : Prop where
  isExpired : w.isExpired = true
  counts : ∃ s f : ℕ, w.successCount = .ofNat s ∧ w.failedCount = forgive (.ofNat f) ∧
    s ≤ w.sent ∧ s + f = w.attempts

/-- **What is kept.** -/
structure Kept (mode : Mode) (w : Worker) : Prop where
  sockets : w.Sockets
  released : w.point.released mode.isKeepAlive = true → w.sockets = w.leaked
  connecting : w.point = .connecting → mode.isKeepAlive = true
  balance : w.point ≠ .returned → w.Balance w.point.awaiting w.point.midway
  final : w.point = .returned → w.Final

theorem Balance.fail (h : w.Balance k 1) : w.fail.Balance 0 0 := by
  obtain ⟨s, f, hs, hf, hsent, hcounted⟩ := h
  refine ⟨s, f + 1, hs, ?_, Nat.le_of_add_right_le hsent, hcounted⟩
  exact (congrArg (· + 1) hf).trans (Int32.ofNat_add f 1).symm

theorem Balance.succeed (h : w.Balance 1 1) : w.succeed.Balance 0 0 := by
  obtain ⟨s, f, hs, hf, hsent, hcounted⟩ := h
  refine ⟨s + 1, f, ?_, hf, hsent, (Nat.add_right_comm s 1 f).trans hcounted⟩
  exact (congrArg (· + 1) hs).trans (Int32.ofNat_add s 1).symm

theorem kept_init (mode : Mode) : (init mode).Kept mode := by
  refine ⟨⟨.inl rfl, nofun⟩, fun _ => rfl, fun h => ?_, fun _ => ?_, fun h => ?_⟩
  · cases hk : mode.isKeepAlive with
    | true => rfl
    | false => simp [init, hk] at h
  · refine ⟨0, 0, rfl, rfl, ?_⟩
    cases hk : mode.isKeepAlive <;> simp [init, hk, Point.awaiting, Point.midway]
  · cases hk : mode.isKeepAlive <;> simp [init, hk] at h

/-- A worker that does not return keeps what holds of its sockets and of the place it goes to. -/
theorem kept_goTo (hs : w.Sockets) (hp : p ≠ .returned)
    (hc : p = .connecting → mode.isKeepAlive = true) (hb : w.Balance p.awaiting p.midway)
    (hr : p.released mode.isKeepAlive = true → w.sockets = w.leaked) : (w.goTo p).Kept mode :=
  ⟨⟨hs.owned, hs.apart⟩, hr, hc, fun _ => hb, fun h => absurd h hp⟩

/-- **A close** leaves the lost sockets. -/
theorem Sockets.sockets_closeSocket (h : w.Sockets) : w.closeSocket.sockets = w.leaked := by
  rw [closeSocket]
  rcases h.owned with he | ⟨fd, hfd, he⟩
  · cases hc : w.clientSockfd with
    | none => exact he
    | some fd =>
      dsimp only
      rw [he, Finset.erase_eq_of_notMem (h.apart fd hc)]
  · rw [hfd]
    dsimp only
    rw [he, Finset.erase_insert (h.apart fd hfd)]

theorem Sockets.closeSocket (h : w.Sockets) : w.closeSocket.Sockets :=
  ⟨.inl h.sockets_closeSocket, h.apart⟩

/-- A failure after which the socket is closed. -/
theorem kept_failed (hs : w.Sockets) (hb : w.Balance k 1) :
    (w.fail.closeSocket.goTo .test).Kept mode := by
  have hs' : w.fail.Sockets := ⟨hs.owned, hs.apart⟩
  exact kept_goTo hs'.closeSocket (by simp) (by simp) hb.fail
    fun _ => hs'.sockets_closeSocket

theorem kept_answered (hs : w.Sockets) (hb : w.Balance 1 1) : (w.answered mode).Kept mode := by
  rw [answered]
  split
  · next hk =>
    exact kept_goTo ⟨hs.owned, hs.apart⟩ (by simp) (by simp) hb.succeed
      (by simp [Point.released, hk])
  · exact kept_goTo hs (by simp) (by simp) hb (by simp [Point.released])

theorem kept_afterSend (hs : w.Sockets) (hb : w.Balance 1 1) :
    (w.afterSend mode).Kept mode := by
  rw [afterSend]
  split
  · exact kept_answered hs hb
  · exact kept_goTo hs (by simp) (by simp) hb (by simp [Point.released])

theorem kept_writeFails (hs : w.Sockets) (hb : w.Balance 0 1) :
    (w.writeFails mode).Kept mode := by
  rw [writeFails]
  split
  · next hk =>
    have hs' : w.fail.Sockets := ⟨hs.owned, hs.apart⟩
    exact kept_goTo (w := { w.fail.closeSocket with clientSockfd := none })
      ⟨.inl hs'.sockets_closeSocket, nofun⟩ (by simp) (fun _ => hk) hb.fail
      fun _ => hs'.sockets_closeSocket
  · exact kept_failed hs hb

/-- **`ConnectServer`** adds one socket at most, to the worker or to those that are lost. -/
theorem sockets_connectServer {c : Attempt} (hc : ∀ fd, c.socket = some fd → fd ∉ w.sockets)
    (hw : w.sockets = w.leaked) :
    (w.connectServer c).Sockets ∧
      ((w.connectServer c).clientSockfd = none →
        (w.connectServer c).sockets = (w.connectServer c).leaked) := by
  rw [connectServer]
  split
  · exact ⟨⟨.inl hw, nofun⟩, fun _ => hw⟩
  · next fd hfd =>
    have hfresh := hc fd hfd
    rw [hw] at hfresh
    split
    · exact ⟨⟨.inl (by rw [hw]), nofun⟩, fun _ => by rw [hw]⟩
    · split
      · refine ⟨⟨.inr ⟨fd, rfl, by rw [hw]⟩, fun fd' he => ?_⟩, nofun⟩
        rwa [← Option.some.inj he]
      · exact ⟨⟨.inl hw, nofun⟩, fun _ => hw⟩

theorem Balance.connectServer (c : Attempt) (h : w.Balance k m) :
    (w.connectServer c).Balance k m := by
  rw [Worker.connectServer]
  split
  · exact h
  · split
    · exact h
    · split <;> exact h

theorem Kept.loopTest (h : w.Kept mode) (hp : w.point = .test) : (w.loopTest mode).Kept mode := by
  have hb := h.balance (by simp [hp])
  have hr := h.released
  rw [hp] at hb hr
  rw [Worker.loopTest]
  split
  · next he =>
    obtain ⟨s, f, hs, hf, hsent, hcounted⟩ := hb
    refine ⟨⟨h.sockets.owned, h.sockets.apart⟩, hr, by simp, fun hne => absurd rfl hne, fun _ => ?_⟩
    exact ⟨he, s, f, hs, congrArg forgive hf, hsent, hcounted⟩
  · have hs : w.beginPass.Sockets := ⟨h.sockets.owned, h.sockets.apart⟩
    have hb' : w.beginPass.Balance 0 1 := by
      obtain ⟨s, f, hs, hf, hsent, hcounted⟩ := hb
      exact ⟨s, f, hs, hf, hsent, congrArg Nat.succ hcounted⟩
    split
    · next hk =>
      split
      · exact kept_goTo ⟨hs.owned, hs.apart⟩ (by simp) (by simp) hb'.fail
          (by simp [Point.released, hk])
      · exact kept_goTo hs (by simp) (by simp) hb' (by simp [Point.released])
    · next hk =>
      exact kept_goTo hs (by simp) (by simp) hb' fun _ => hr (by simpa [Point.released] using hk)

theorem Kept.step (h : w.Kept mode) (hs : Step mode w a w') : w'.Kept mode := by
  obtain ⟨hposs, hs⟩ := hs
  have hat (q : Point) (hq : w.point = q) (hne : q ≠ .returned) : w.Balance q.awaiting q.midway :=
    hq ▸ h.balance (hq ▸ hne)
  cases moved_of_step hs with
  | alarm =>
    exact ⟨⟨h.sockets.owned, h.sockets.apart⟩, h.released, h.connecting,
      fun hp => h.balance hp, fun hp => ⟨rfl, (h.final hp).counts⟩⟩
  | test hp => exact h.loopTest hp
  | readTest hp =>
    have hb := hat _ hp (by simp)
    split
    · exact kept_answered h.sockets hb
    · exact kept_goTo h.sockets (by simp) (by simp) hb (by simp [Point.released])
  | reconnect c hp =>
    have hk := h.connecting hp
    have hb := (hat _ hp (by simp)).connectServer c
    obtain ⟨hsock, hnone⟩ :=
      sockets_connectServer hposs (h.released (by simp [hp, Point.released]))
    split
    · next hfd => exact kept_goTo hsock (by simp) (fun _ => hk) hb fun _ => hnone hfd
    · exact kept_goTo hsock (by simp) (by simp) hb (by simp [Point.released, hk])
  | connect c hp =>
    have hb := (hat _ hp (by simp)).connectServer c
    obtain ⟨hsock, hnone⟩ :=
      sockets_connectServer hposs (h.released (by simp [hp, Point.released]))
    split
    · next hfd =>
      exact kept_goTo ⟨hsock.owned, hsock.apart⟩ (by simp) (by simp) hb.fail fun _ => hnone hfd
    · exact kept_goTo hsock (by simp) (by simp) hb (by simp [Point.released])
  | write complete hp =>
    have hb := hat _ hp (by simp)
    have hs : w.written.Sockets := ⟨h.sockets.owned, h.sockets.apart⟩
    have hb' : w.written.Balance 1 1 := by
      obtain ⟨s, f, hs, hf, hsent, hcounted⟩ := hb
      exact ⟨s, f, hs, hf, Nat.succ_le_succ hsent, hcounted⟩
    split
    · exact kept_writeFails h.sockets hb
    · split
      · exact kept_goTo hs (by simp) (by simp) hb' (by simp [Point.released])
      · exact kept_afterSend hs hb'
  | shutdown ok hp =>
    have hb := hat _ hp (by simp)
    split
    · exact kept_afterSend h.sockets hb
    · exact kept_failed h.sockets hb
  | readFails hp => exact kept_failed h.sockets (hat _ hp (by simp))
  | read n hp =>
    have hb := hat _ hp (by simp)
    exact kept_answered ⟨h.sockets.owned, h.sockets.apart⟩ hb
  | close ok hp =>
    have hb := hat _ hp (by simp)
    have hcl := h.sockets.sockets_closeSocket
    have hs := h.sockets.closeSocket
    split
    · exact kept_goTo ⟨hs.owned, hs.apart⟩ (by simp) (by simp)
        (Balance.succeed (w := w.closeSocket) hb) fun _ => hcl
    · exact kept_goTo ⟨hs.owned, hs.apart⟩ (by simp) (by simp)
        (Balance.fail (w := w.closeSocket) hb) fun _ => hcl

theorem kept_of_run {as : List Reply} (r : Run (Step mode) (init mode) as w) : w.Kept mode :=
  r.invariant (I := Kept mode) (fun _ _ _ h hs => h.step hs) (kept_init mode)

/-! ## What it comes to -/

/-- What a step does not change, but for a lookup that fails and for what is read. -/
structure Same (w w' : Worker) : Prop where
  leaked : w'.leaked = w.leaked
  totalBytes : w'.totalBytes = w.totalBytes

theorem same_answered (mode : Mode) (w : Worker) : w.Same (w.answered mode) := by
  rw [answered]
  split <;> exact ⟨rfl, rfl⟩

theorem same_afterSend (mode : Mode) (w : Worker) : w.Same (w.afterSend mode) := by
  rw [afterSend]
  split
  · exact same_answered mode w
  · exact ⟨rfl, rfl⟩

theorem same_writeFails (mode : Mode) (w : Worker) : w.Same (w.writeFails mode) := by
  rw [writeFails]
  split <;> exact ⟨rfl, rfl⟩

theorem same_loopTest (mode : Mode) (w : Worker) : w.Same (w.loopTest mode) := by
  rw [Worker.loopTest]
  split
  · exact ⟨rfl, rfl⟩
  · split
    · split <;> exact ⟨rfl, rfl⟩
    · exact ⟨rfl, rfl⟩

/-- **`ConnectServer`** loses the new socket if the lookup fails. -/
theorem card_leaked_connectServer {c : Attempt} (h : ∀ fd, c.socket = some fd → fd ∉ w.leaked) :
    (w.connectServer c).leaked.card = w.leaked.card + c.leaks.toNat ∧
      (w.connectServer c).totalBytes = w.totalBytes := by
  rw [Worker.connectServer]
  split
  · next hc => simp [Attempt.leaks, hc]
  · next fd hc =>
    split
    · next hl => simp [Attempt.leaks, hc, hl, Finset.card_insert_of_notMem (h fd hc)]
    · next hl =>
      split <;> simp [Attempt.leaks, hc, hl]

/-- **What a step adds** to the lost sockets and to what was read. -/
theorem Kept.adds (h : w.Kept mode) (hs : Step mode w a w') :
    w'.leaked.card = w.leaked.card + a.leaks.toNat ∧
      w'.totalBytes = w.totalBytes + .ofNat a.bytes := by
  have hsame {u v : Worker} (hu : u.Same v) : v.leaked.card = u.leaked.card ∧
      v.totalBytes = u.totalBytes + .ofNat 0 :=
    ⟨by rw [hu.leaked], hu.totalBytes.trans (Int32.add_zero _).symm⟩
  have hconnect (c : Attempt) (hp : w.point.released mode.isKeepAlive = true)
      (hposs : w.Possible (.connect c)) :
      (w.connectServer c).leaked.card = w.leaked.card + c.leaks.toNat ∧
        (w.connectServer c).totalBytes = w.totalBytes + .ofNat 0 := by
    obtain ⟨hcard, hbytes⟩ := card_leaked_connectServer (w := w) (c := c) (h.released hp ▸ hposs)
    exact ⟨hcard, hbytes.trans (Int32.add_zero _).symm⟩
  obtain ⟨hposs, hs⟩ := hs
  cases moved_of_step hs with
  | alarm => exact hsame ⟨rfl, rfl⟩
  | test hp => exact hsame (same_loopTest mode w)
  | readTest hp =>
    split
    · exact hsame (same_answered mode w)
    · exact hsame (v := w.goTo .read) ⟨rfl, rfl⟩
  | reconnect c hp =>
    have hreleased : w.point.released mode.isKeepAlive = true := by rw [hp]; rfl
    exact hconnect c hreleased hposs
  | connect c hp =>
    have hreleased : w.point.released mode.isKeepAlive = true := by rw [hp]; rfl
    split <;> exact hconnect c hreleased hposs
  | write complete hp =>
    split
    · exact hsame (same_writeFails mode w)
    · split
      · exact hsame (v := w.written.goTo .shutdown) ⟨rfl, rfl⟩
      · exact hsame (u := w.written) (same_afterSend mode w.written)
  | shutdown ok hp =>
    split
    · exact hsame (same_afterSend mode w)
    · exact hsame (v := w.fail.closeSocket.goTo .test) ⟨rfl, rfl⟩
  | readFails hp => exact hsame (v := w.fail.closeSocket.goTo .test) ⟨rfl, rfl⟩
  | read n hp =>
    have hanswered := same_answered mode { w with totalBytes := w.totalBytes + .ofNat n }
    exact ⟨congrArg Finset.card hanswered.leaked, hanswered.totalBytes⟩
  | close ok hp =>
    split
    · exact hsame (v := w.closeSocket.succeed.goTo .test) ⟨rfl, rfl⟩
    · exact hsame (v := w.closeSocket.fail.goTo .test) ⟨rfl, rfl⟩

theorem toInt_forgive {f : ℕ} (h : f < 2 ^ 31) : (forgive (.ofNat f)).toInt = (f - 1 : ℕ) := by
  cases f with
  | zero => rfl
  | succ f =>
    have hpos : Int32.ofNat (f + 1) > 0 := by
      rw [gt_iff_lt, Int32.lt_iff_toInt_lt, Int32.toInt_ofNat_of_lt h]
      exact Int.natCast_succ_pos f
    have hsub : Int32.ofNat (f + 1) - 1 = Int32.ofNat f := by
      rw [Int32.ofNat_add]
      exact Int32.add_sub_cancel _ _
    rw [forgive, if_pos hpos, hsub, Int32.toInt_ofNat_of_lt (Nat.lt_of_succ_lt h),
      Nat.add_sub_cancel]

/-- **The successes** were written, and are passes. -/
theorem Kept.successCount (h : w.Kept mode) (hlt : w.attempts < 2 ^ 31) :
    0 ≤ w.successCount.toInt ∧ w.successCount.toInt ≤ w.sent := by
  have hcounts : ∃ s : ℕ, w.successCount = .ofNat s ∧ s ≤ w.sent ∧ s ≤ w.attempts := by
    by_cases hp : w.point = .returned
    · obtain ⟨-, s, f, hs, -, hsent, hcounted⟩ := h.final hp
      exact ⟨s, hs, hsent, hcounted ▸ Nat.le_add_right s f⟩
    · obtain ⟨s, f, hs, -, hsent, hcounted⟩ := h.balance hp
      refine ⟨s, hs, Nat.le_of_add_right_le hsent, ?_⟩
      exact (Nat.le_add_right s f).trans (Nat.le_of_add_right_le hcounted.le)
  obtain ⟨s, hs, hsent, hattempts⟩ := hcounts
  rw [hs, Int32.toInt_ofNat_of_lt (hattempts.trans_lt hlt)]
  exact ⟨Int.natCast_nonneg s, Int.ofNat_le.mpr hsent⟩

/-- **The counters of a worker that has returned**, in numbers. -/
theorem Final.toInt (h : w.Final) (hlt : w.attempts < 2 ^ 31) :
    w.successCount.toInt ≤ w.attempts ∧
      w.failedCount.toInt = max 0 (w.attempts - w.successCount.toInt - 1) := by
  obtain ⟨s, f, hs, hf, -, hcounted⟩ := h.counts
  rw [hs, hf, Int32.toInt_ofNat_of_lt (by omega), toInt_forgive (by omega)]
  omega

/-- **Nothing is lost but to a lookup, and everything is counted** — after every run of a worker the
open sockets are one for each lookup that failed, and one more at most; `total_bytes` is the sum of
what was read, as an `int`.  When it has returned, the alarm had gone off, and if it does not keep
its connection, that socket is closed.  As long as there are fewer than `2³¹` passes, a request that
counts as a success was written, and at the end every pass was a success or a failure, but for one
failure that is forgiven. -/
theorem accounted_of_run {as : List Reply} (r : Run (Step mode) (init mode) as w) :
    w.sockets.card ≤ as.countP Reply.leaks + 1 ∧
      w.totalBytes = .ofNat (as.map Reply.bytes).sum ∧
      (w.attempts < 2 ^ 31 → 0 ≤ w.successCount.toInt ∧ w.successCount.toInt ≤ w.sent) ∧
      (w.point = .returned → w.isExpired = true ∧
        (mode.isKeepAlive = false → w.sockets.card = as.countP Reply.leaks) ∧
        (w.attempts < 2 ^ 31 → w.successCount.toInt ≤ w.attempts ∧
          w.failedCount.toInt = max 0 (w.attempts - w.successCount.toInt - 1))) := by
  have hk := kept_of_run r
  have hadd : w.leaked.card = as.countP Reply.leaks ∧
      w.totalBytes = .ofNat (as.map Reply.bytes).sum := by
    refine Run.history (I := fun bs u => u.leaked.card = bs.countP Reply.leaks ∧
      u.totalBytes = .ofNat (bs.map Reply.bytes).sum) ?_ (Run.nil (init mode)) ⟨rfl, rfl⟩ r
    intro bs u a v before hu hs
    obtain ⟨hl, hb⟩ := (kept_of_run before).adds hs
    refine ⟨?_, ?_⟩
    · rw [hl, hu.1, List.countP_append, List.countP_singleton]
      cases a.leaks <;> rfl
    · rw [hb, hu.2, List.map_append, List.sum_append, List.map_singleton, List.sum_singleton,
        Int32.ofNat_add]
  refine ⟨?_, hadd.2, hk.successCount, fun hp => ?_⟩
  · rw [← hadd.1]
    rcases hk.sockets.owned with he | ⟨fd, _, he⟩
    · rw [he]
      exact Nat.le_succ _
    · rw [he]
      exact Finset.card_insert_le fd _
  · refine ⟨(hk.final hp).isExpired, fun ha => ?_, (hk.final hp).toInt⟩
    rw [hk.released (by rw [hp, Point.released, ha]; rfl), hadd.1]

/-- One request, over a connection of its own. -/
theorem accounted_oneRequest : ∃ as w, Run (Step ⟨false, false, 1⟩) (init ⟨false, false, 1⟩) as w ∧
    w.point = .returned ∧ w.sockets.card ≤ 1 ∧ w.totalBytes = 5 ∧ w.isExpired = true ∧
      w.successCount.toInt ≤ w.sent ∧
      w.failedCount.toInt = max 0 (w.attempts - w.successCount.toInt - 1) := by
  have r : Run (Step ⟨false, false, 1⟩) (init ⟨false, false, 1⟩)
      [.go, .connect ⟨some 3, true, false, true⟩, .write true, .go, .read (some 5), .close true,
        .alarm, .go] _ :=
    .cons ⟨trivial, rfl⟩ <| .cons ⟨fun _ _ => Finset.notMem_empty _, rfl⟩ <|
      .cons ⟨⟨3, Finset.mem_insert_self .., rfl⟩, rfl⟩ <| .cons ⟨trivial, rfl⟩ <|
      .cons ⟨trivial, rfl⟩ <| .cons ⟨trivial, rfl⟩ <| .cons ⟨trivial, rfl⟩ <|
      .single ⟨trivial, rfl⟩
  obtain ⟨hcard, hbytes, hsent, hreturned⟩ := accounted_of_run r
  obtain ⟨hexpired, -, hcounted⟩ := hreturned rfl
  exact ⟨_, _, r, rfl, hcard, hbytes, hexpired, (hsent (by decide)).2, (hcounted (by decide)).2⟩

/-! ## How it ends -/

theorem isExpired_answered (mode : Mode) (w : Worker) :
    (w.answered mode).isExpired = w.isExpired ∧ (w.answered mode).point.toEnd ≤ 2 := by
  rw [answered]
  split
  · exact ⟨rfl, Nat.le_succ 1⟩
  · exact ⟨rfl, le_rfl⟩

theorem isExpired_afterSend (mode : Mode) (w : Worker) :
    (w.afterSend mode).isExpired = w.isExpired ∧ (w.afterSend mode).point.toEnd ≤ 3 := by
  rw [afterSend]
  split
  · exact ⟨(isExpired_answered mode w).1, Nat.le_succ_of_le (isExpired_answered mode w).2⟩
  · exact ⟨rfl, le_rfl⟩

theorem isExpired_writeFails (mode : Mode) (w : Worker) :
    (w.writeFails mode).isExpired = w.isExpired ∧ (w.writeFails mode).point.toEnd ≤ 2 := by
  rw [writeFails]
  split
  · exact ⟨rfl, le_rfl⟩
  · exact ⟨rfl, Nat.le_succ 1⟩

theorem isExpired_connectServer (c : Attempt) (w : Worker) :
    (w.connectServer c).isExpired = w.isExpired ∧
      ((w.connectServer c).clientSockfd = none ↔ c.succeeds = false) := by
  rw [Worker.connectServer]
  split
  · next hc => simp [Attempt.succeeds, hc]
  · next hc =>
    split
    · next hl => simp [Attempt.succeeds, hc, hl]
    · next hl => split <;> simp_all [Attempt.succeeds]

/-- What comes nearer to the end by one. -/
theorem nearer {v : Worker} (hx : v.isExpired = w.isExpired) (he : w.isExpired = true) (b : Bool)
    (hp : w.point = p) (hn : v.point.toEnd + 1 ≤ p.toEnd) :
    v.isExpired = true ∧ v.point.toEnd + b.toNat ≤ w.point.toEnd := by
  rw [hp]
  exact ⟨hx.trans he, (Nat.add_le_add_left (Bool.toNat_le b) _).trans hn⟩

/-- **A step after the alarm** comes nearer to the end, if it is not one of those that do not. -/
theorem Kept.toEnd_le (h : w.Kept mode) (he : w.isExpired = true) (hs : Step mode w a w') :
    w'.isExpired = true ∧ w'.point.toEnd + (a.progresses mode).toNat ≤ w.point.toEnd := by
  obtain ⟨-, hs⟩ := hs
  cases moved_of_step hs with
  | alarm => exact ⟨rfl, Nat.le_refl _⟩
  | test hp =>
    rw [Worker.loopTest, if_pos he]
    refine nearer ?_ he _ hp ?_
    · exact rfl
    · exact le_rfl
  | readTest hp =>
    obtain ⟨hx, hn⟩ := isExpired_answered mode w
    rw [if_pos he]
    refine nearer ?_ he _ hp ?_
    · exact hx
    · exact Nat.succ_le_succ hn
  | reconnect c hp =>
    obtain ⟨hx, hn⟩ := isExpired_connectServer c w
    split
    · next hfd =>
      -- the attempt to get the connection back has failed
      refine ⟨hx.trans he, ?_⟩
      rw [Reply.progresses, h.connecting hp, hn.mp hfd, hp]
      exact le_rfl
    · refine nearer ?_ he _ hp ?_
      · exact hx
      · exact le_rfl
  | connect c hp =>
    obtain ⟨hx, hn⟩ := isExpired_connectServer c w
    split
    · refine nearer ?_ he _ hp ?_
      · exact hx
      · exact Nat.le_of_ble_eq_true rfl
    · refine nearer ?_ he _ hp ?_
      · exact hx
      · exact le_rfl
  | write complete hp =>
    split
    · obtain ⟨hx, hn⟩ := isExpired_writeFails mode w
      refine nearer ?_ he _ hp ?_
      · exact hx
      · exact Nat.succ_le_succ (hn.trans (Nat.le_add_right 2 2))
    · split
      · refine nearer ?_ he _ hp ?_
        · exact rfl
        · exact le_rfl
      · obtain ⟨hx, hn⟩ := isExpired_afterSend mode w.written
        refine nearer ?_ he _ hp ?_
        · exact hx
        · exact Nat.succ_le_succ (Nat.le_succ_of_le hn)
  | shutdown ok hp =>
    split
    · obtain ⟨hx, hn⟩ := isExpired_afterSend mode w
      refine nearer ?_ he _ hp ?_
      · exact hx
      · exact Nat.succ_le_succ hn
    · refine nearer ?_ he _ hp ?_
      · exact rfl
      · exact Nat.le_of_ble_eq_true rfl
  | readFails hp =>
    refine nearer ?_ he _ hp ?_
    · exact rfl
    · exact Nat.le_of_ble_eq_true rfl
  | read n hp =>
    obtain ⟨hx, hn⟩ := isExpired_answered mode { w with totalBytes := w.totalBytes + Int32.ofNat n }
    refine nearer ?_ he _ hp ?_
    · exact hx
    · exact Nat.succ_le_succ hn
  | close ok hp =>
    refine nearer ?_ he _ hp ?_
    · split <;> rfl
    · exact Nat.le_refl _

/-- **A lost connection** is tried for until there is one. -/
theorem connecting_of_step (hp : w.point = .connecting)
    (ha : ∀ c, a = .connect c → c.succeeds = false) (hs : Step mode w a w') :
    w'.point = .connecting := by
  obtain ⟨-, hs⟩ := hs
  cases moved_of_step hs with
  | alarm => exact hp
  | reconnect c _ => exact if_pos ((isExpired_connectServer c w).2.mpr (ha c rfl))
  | test hq | readTest hq | connect _ hq | write _ hq | shutdown _ hq | readFails hq | read _ hq
  | close _ hq => exact Point.noConfusion (hp.symm.trans hq)

/-- **The alarm ends the benchmark, except for a client that has lost its server** — once the alarm
has gone off, a worker comes across at most `toEnd` more answers, which are six, apart from attempts
to get a connection back that it is to keep; but as long as none of these succeeds, nothing ends
it. -/
theorem ends_of_run {before as : List Reply} (r : Run (Step mode) (init mode) before w)
    (he : w.isExpired = true) (r' : Run (Step mode) w as w') :
    w'.point.toEnd + as.countP (Reply.progresses mode) ≤ w.point.toEnd ∧ w.point.toEnd ≤ 6 ∧
      (w.point = .connecting → (∀ c, .connect c ∈ as → c.succeeds = false) →
        w'.point = .connecting) := by
  have hk := kept_of_run r
  clear r
  refine ⟨?_, ?_, ?_⟩
  · induction r' with
    | nil => exact le_rfl
    | @cons u v x a as hs _ ih =>
      obtain ⟨he', hn⟩ := hk.toEnd_le he hs
      have := ih he' (hk.step hs)
      rw [List.countP_cons]
      cases ha : a.progresses mode <;> simp only [ha, Bool.toNat_true, Bool.toNat_false] at hn ⊢ <;>
        simp <;> omega
  · cases w.point <;> decide
  · intro hp hfails
    induction r' with
    | nil => exact hp
    | cons hs _ ih =>
      have hp' := connecting_of_step hp (fun c hc => hfails c (hc ▸ List.mem_cons_self)) hs
      obtain ⟨he', -⟩ := hk.toEnd_le he hs
      exact ih he' (hk.step hs) hp' fun c hc => hfails c (List.mem_cons_of_mem _ hc)

/-- The connection is lost, and the alarm goes off between two attempts. -/
theorem ends_lost : ∃ before as w w', Run (Step ⟨true, false, 2⟩) (init ⟨true, false, 2⟩) before w ∧
    w.isExpired = true ∧ Run (Step ⟨true, false, 2⟩) w as w' ∧ as.length = 2 ∧
      w'.point = .connecting := by
  let lost : Worker := ⟨.connecting, none, true, 0, 1, 0, ∅, ∅, 0, 1⟩
  have r : Run (Step ⟨true, false, 2⟩) (init ⟨true, false, 2⟩)
      [.connect ⟨some 3, true, false, true⟩, .go, .write false, .alarm] lost :=
    .cons ⟨fun _ _ => Finset.notMem_empty _, rfl⟩ <| .cons ⟨trivial, rfl⟩ <|
      .cons ⟨trivial, rfl⟩ <| .single ⟨trivial, rfl⟩
  have r' : Run (Step ⟨true, false, 2⟩) lost
      [.connect ⟨some 4, true, false, false⟩, .connect ⟨some 4, true, false, false⟩] lost :=
    .cons ⟨fun fd _ => Finset.notMem_empty fd, rfl⟩ <|
      .single ⟨fun fd _ => Finset.notMem_empty fd, rfl⟩
  refine ⟨_, _, _, _, r, rfl, r', rfl, (ends_of_run r rfl r').2.2 rfl fun c hc => ?_⟩
  simp only [List.mem_cons, List.not_mem_nil, or_false, or_self] at hc
  obtain rfl := Reply.connect.inj hc
  rfl

end Worker

end WebServer.WebBench
