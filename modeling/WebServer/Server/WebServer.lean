import WebServer.Event.Channel

/-!
# Server/WebServer — accepting connections

The listening socket is watched edge-triggered.  `HandleNewConnect` accepts until something goes
wrong, and hands each connection to the next sub loop; `HandelCurConnect` then asks the main loop to
watch the socket on.  What `accept` and `SetSocketNonBlocking` answer is a script, one entry a
round; an exhausted script reads as `EAGAIN`.
-/

namespace WebServer.Server

open Event

/-! ## The sub loops -/

/-- A loop, by its place in `sub_loops_`. -/
inductive LoopId
  | main
  | sub (i : ℕ)
  deriving DecidableEq

/-- **`EventLoopThreadPool`**: how many loops it is to have, how many have been started, and the
cursor of `GetNextLoop`. -/
structure EventLoopThreadPool where
  threadNum : ℕ
  subLoops : ℕ := 0
  next : ℕ := 0

namespace EventLoopThreadPool

/-- `EventLoopThreadPool::Start` -/
def start (p : EventLoopThreadPool) : EventLoopThreadPool :=
  { p with subLoops := p.subLoops + p.threadNum }

/-- **`GetNextLoop`.** -/
def getNextLoop (p : EventLoopThreadPool) : LoopId × EventLoopThreadPool :=
  if p.subLoops = 0 then (.main, p)
  else (.sub p.next, { p with next := (p.next + 1) % p.threadNum })

end EventLoopThreadPool

/-! ## Accepting -/

/-- Why `accept` answers a negative value. -/
inductive AcceptError
  | again
  | interrupted
  | connectionAborted
  | other
  deriving DecidableEq

/-- **One round of accepting**: a descriptor, and whether it can be made non-blocking, or an error.
-/
inductive AcceptResult
  | connection (fd : ℕ) (nonBlocking : Bool)
  | failed (error : AcceptError)
  deriving DecidableEq

/-- `MAX_FD_NUM` -/
def MAX_FD_NUM : ℕ := 100000

/-- **What the accept loop leaves**: the pool, the connections that were handed to a loop, those
that were closed, the answer that ended it and the script that remains. -/
structure AcceptReport where
  pool : EventLoopThreadPool
  queued : List (LoopId × ℕ) := []
  closed : List ℕ := []
  last : AcceptResult
  rest : List AcceptResult

/-- **The loop of `HandleNewConnect`.**  The next loop is asked for before the answer of `accept` is
looked at. -/
def acceptLoop (pool : EventLoopThreadPool) : List AcceptResult → AcceptReport
  | [] => { pool := pool.getNextLoop.2, last := .failed .again, rest := [] }
  | .failed error :: rest => { pool := pool.getNextLoop.2, last := .failed error, rest := rest }
  | .connection fd nonBlocking :: rest =>
    if fd ≥ MAX_FD_NUM then
      { pool := pool.getNextLoop.2
        closed := [fd]
        last := .connection fd nonBlocking
        rest := rest }
    else if !nonBlocking then
      { pool := pool.getNextLoop.2
        closed := [fd]
        last := .connection fd nonBlocking
        rest := rest }
    else
      let r := acceptLoop pool.getNextLoop.2 rest
      { r with queued := (pool.getNextLoop.1, fd) :: r.queued }

/-! ## The listening socket -/

/-- The channel of the listening socket. -/
structure AcceptChannel where
  events : EventMask := .zero
  lastEvents : EventMask := .zero

namespace AcceptChannel

/-- `update_last_events`: it answers whether the events are the last ones. -/
def updateLastEvents (c : AcceptChannel) : Bool × AcceptChannel :=
  (c.lastEvents = c.events, { c with lastEvents := c.events })

/-- **`EpollMod`**, without a timer: whether `epoll_ctl` is called, and the channel. -/
def epollMod (c : AcceptChannel) : Bool × AcceptChannel :=
  (!c.updateLastEvents.1, c.updateLastEvents.2)

end AcceptChannel

/-- **`WebServer`.** -/
structure WebServer where
  pool : EventLoopThreadPool
  acceptChannel : AcceptChannel := {}

namespace WebServer

/-- `Start`: the loops run, and the listening socket is added to `epoll`. -/
def start (threadNum : ℕ) : WebServer where
  pool := EventLoopThreadPool.start { threadNum := threadNum }
  acceptChannel := (AcceptChannel.updateLastEvents { events := .EPOLLIN ||| .EPOLLET }).2

/-- **`HandleNewConnect`.** -/
def handleNewConnect (s : WebServer) (script : List AcceptResult) : AcceptReport × WebServer :=
  let r := acceptLoop s.pool script
  (r, { pool := r.pool, acceptChannel := { s.acceptChannel with events := .EPOLLIN ||| .EPOLLET } })

/-- **`HandelCurConnect`**: whether `epoll` is armed again, and the server. -/
def handelCurConnect (s : WebServer) : Bool × WebServer :=
  (s.acceptChannel.epollMod.1, { s with acceptChannel := s.acceptChannel.epollMod.2 })

/-- Accepting, and what follows it. -/
def accept (s : WebServer) (script : List AcceptResult) : AcceptReport × Bool × WebServer :=
  let r := s.handleNewConnect script
  (r.1, r.2.handelCurConnect)

/-- `Poll` and `HandleEvents` clear the events. -/
def clearEvents (s : WebServer) : WebServer :=
  { s with acceptChannel := { s.acceptChannel with events := .zero } }

/-- **`HandleEvents`** of the listening socket's channel, which has no write and no error handler.
-/
def handleEvents (s : WebServer) (revents : EventMask) (script : List AcceptResult) : WebServer :=
  if ignored revents then s.clearEvents
  else if readable revents then (s.clearEvents.accept script).2.2
  else s.clearEvents.handelCurConnect.2

end WebServer

end WebServer.Server
