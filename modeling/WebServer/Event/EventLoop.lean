import WebServer.Event.Channel
import WebServer.Timer.TimerHeap
import WebServer.Lib.Run

/-!
# Event/EventLoop — one event loop: its poller, its timers and its connections

A connection object is kept alive by two kinds of owners: the array `http_connections_`, indexed by
descriptor, and the timers in the heap.  The channel of a connection is found through a second
array, `ready_channels_`; what `epoll` watches is a third.  A step of the loop registers a
connection, handles one ready event or expires the timers.
-/

namespace WebServer.Event

open Http Timer

/-! ## The state -/

/-- **A connection object**, with its channel.  `timer` is the weak pointer to its timer; `granted`
records the time and the timeout of the last `EpollAdd` or `EpollMod`. -/
structure Connection where
  fd : ℕ
  http : HttpConnection
  events : EventMask := .zero
  lastEvents : EventMask := .zero
  timer : Option ℕ := none
  granted : ℕ × ℕ := (0, 0)

/-- What `epoll` watches a descriptor for, and whether it still reports it: a mask with
`EPOLLONESHOT` is disarmed by its first report. -/
structure Interest where
  mask : EventMask
  armed : Bool

/-- A report disarms a mask with `EPOLLONESHOT`. -/
def Interest.report (i : Interest) : Interest := { i with armed := i.armed && !i.mask.epollOneShot }

/-- **An event loop.**  Connections are named by numbers, in the order of their creation. -/
structure EventLoop (Q : Type*) where
  now : ℕ
  connection : ℕ → Option Connection
  created : ℕ
  readyChannels : ℕ → Option ℕ
  httpConnections : ℕ → Option ℕ
  interest : ℕ → Option Interest
  timerHeap : TimerHeap Q ℕ

/-- `kDefaultEvent` -/
def kDefaultEvent : EventMask := .EPOLLIN ||| .EPOLLET ||| .EPOLLONESHOT

namespace EventLoop

variable {Q : Type*} [PriorityQueue Q Timer.expireTime]

def init : EventLoop Q where
  now := 0
  connection := fun _ => none
  created := 0
  readyChannels := fun _ => none
  httpConnections := fun _ => none
  interest := fun _ => none
  timerHeap := .init

/-- **A connection object exists** as long as the array or a timer in the heap holds it; then its
destructor closes the descriptor. -/
def Alive (s : EventLoop Q) (c : ℕ) : Prop :=
  (∃ fd, s.httpConnections fd = some c) ∨
    ∃ tm ∈ s.timerHeap.timers, (s.timerHeap.state tm.id).httpConnection = some c

/-! ## The poller -/

/-- `Poller::AddTimer` and `TimerHeap::AddTimer`, for a timeout that is not `0`: the connection,
which remembers its timer, and the heap. -/
def addTimer (heap : TimerHeap Q ℕ) (c : ℕ) (conn : Connection) (timeout now : ℕ) :
    Connection × TimerHeap Q ℕ :=
  if timeout > 0 then
    ({ conn with timer := some (heap.addTimer c timeout now).1 }, (heap.addTimer c timeout now).2)
  else (conn, heap)

/-- The channel notes the events it is watched for. -/
def noteEvents (conn : Connection) (timeout now : ℕ) : Connection :=
  { conn with lastEvents := conn.events, granted := (now, timeout) }

/-- **`EpollAdd`**, for the channel of connection `c`; `ok` is whether `epoll_ctl` succeeds. -/
def epollAdd (s : EventLoop Q) (c : ℕ) (conn : Connection) (timeout now : ℕ) (ok : Bool) :
    EventLoop Q :=
  let r := addTimer s.timerHeap c conn timeout now
  { s with
    connection := Function.update s.connection c (some (noteEvents r.1 timeout now))
    timerHeap := r.2
    httpConnections :=
      if timeout > 0 then Function.update s.httpConnections conn.fd (some c) else s.httpConnections
    readyChannels := Function.update s.readyChannels conn.fd (if ok then some c else none)
    interest := Function.update s.interest conn.fd (if ok then some ⟨conn.events, true⟩ else none) }

/-- **`EpollMod`**: `epoll` is only called when the events are not the last ones. -/
def epollMod (s : EventLoop Q) (c : ℕ) (conn : Connection) (timeout now : ℕ) (ok : Bool) :
    EventLoop Q :=
  let r := addTimer s.timerHeap c conn timeout now
  { s with
    connection := Function.update s.connection c (some (noteEvents r.1 timeout now))
    timerHeap := r.2
    readyChannels :=
      if conn.lastEvents ≠ conn.events ∧ !ok then Function.update s.readyChannels conn.fd none
      else s.readyChannels
    interest :=
      if conn.lastEvents ≠ conn.events ∧ ok then
        Function.update s.interest conn.fd (some ⟨conn.events, true⟩)
      else s.interest }

/-- **`HttpConnection::Delete`** and `EpollDel`. -/
def delete (s : EventLoop Q) (c : ℕ) (conn : Connection) (ok : Bool) : EventLoop Q :=
  { s with
    connection := Function.update s.connection c
      (some { conn with http := { conn.http with connectionState := .disconnected } })
    readyChannels := Function.update s.readyChannels conn.fd none
    httpConnections := Function.update s.httpConnections conn.fd none
    interest := if ok then Function.update s.interest conn.fd none else s.interest }

/-- The destructors of the timers that were dropped delete their connections. -/
def deleteAll (s : EventLoop Q) (ok : ℕ → Bool) (cs : List ℕ) : EventLoop Q :=
  cs.foldl (fun s c =>
    match s.connection c with
    | some conn => s.delete c conn (ok c)
    | none => s) s

/-! ## The steps -/

/-- **`Register`**, for a new connection object on a descriptor. -/
def register (s : EventLoop Q) (fd : ℕ) (resourceDir : Bytes) (now : ℕ) (ok : Bool) : EventLoop Q :=
  { s.epollAdd s.created
      { fd := fd, http := { resourceDir := resourceDir }, events := kDefaultEvent }
      kDefaultTimeOut now ok with
    now := now
    created := s.created + 1 }

/-- What the handlers of a connection run on: `Poll` has cleared the events. -/
def handler {κ : Type*} (conn : Connection) (x : Exchange κ) : Handler κ where
  conn := conn.http
  cache := x.cache
  reads := x.reads
  writes := x.writes

/-- The connection after its handlers have run. -/
def afterHandlers {κ : Type*} (conn : Connection) (h : Handler κ) : Connection :=
  { conn with
    http := h.conn
    events := h.events
    timer := if h.timerReleased then none else conn.timer }

/-- `ResetTimer`, if it was called: the weak pointer leads to a timer in the heap, or to none. -/
def releaseTimer (heap : TimerHeap Q ℕ) (conn : Connection) (released : Bool) : TimerHeap Q ℕ :=
  match conn.timer with
  | some id => if released then heap.release id else heap
  | none => heap

/-- The loop when the handlers of connection `c` have run. -/
def handled {κ : Type*} (s : EventLoop Q) (c : ℕ) (conn : Connection) (h : Handler κ) (now : ℕ) :
    EventLoop Q :=
  { s with
    now := now
    connection := Function.update s.connection c (some (afterHandlers conn h))
    timerHeap := releaseTimer s.timerHeap conn h.timerReleased
    interest := Function.update s.interest conn.fd ((s.interest conn.fd).map Interest.report) }

/-- What `HandleUpdate` asked for is done. -/
def perform (s : EventLoop Q) (c : ℕ) (conn : Connection) (now : ℕ) (ok : Bool) :
    Option UpdateAction → EventLoop Q
  | some (.mod timeout) => s.epollMod c conn timeout now ok
  | some .delete => s.delete c conn ok
  | some .leave => s
  | none => s

/-- **`HandleEvents`** of the channel of connection `c`. -/
def handleEvents {κ : Type*} [PageCache κ] (s : EventLoop Q) (c : ℕ) (conn : Connection)
    (x : Exchange κ) (now : ℕ) (ok : Bool) : EventLoop Q :=
  let r := Event.handleEvents x.files x.revents (handler conn x)
  (s.handled c conn r.1 now).perform c (afterHandlers conn r.1) now ok r.2

/-- The loop when the timers that go are off the heap. -/
def dropTimers (s : EventLoop Q) (now : ℕ) : EventLoop Q :=
  { s with now := now, timerHeap := (s.timerHeap.handleExpireEvent now).2 }

/-- **`HandleExpire`**. -/
def handleExpire (s : EventLoop Q) (now : ℕ) (ok : ℕ → Bool) : EventLoop Q :=
  (s.dropTimers now).deleteAll ok (s.timerHeap.handleExpireEvent now).1

/-- What happens to a loop. -/
inductive LoopEvent (κ : Type*)
  | register (fd : ℕ) (resourceDir : Bytes) (ok : Bool)
  | handleEvents (fd : ℕ) (x : Exchange κ) (ok : Bool)
  | handleExpire (ok : ℕ → Bool)

/-- **A step of the loop**, at a time that is not before the last one.  A descriptor is given to a
new connection only when no connection object has it open; a ready event goes to the channel found
by descriptor; a handler that breaks off ends the server, so it has no next state. -/
inductive Step {κ : Type*} [PageCache κ] : EventLoop Q → ℕ × LoopEvent κ → EventLoop Q → Prop
  | register {s : EventLoop Q} {now fd : ℕ} {dir : Bytes} {ok : Bool} (hnow : s.now ≤ now)
      (hfd : ∀ c, s.Alive c → ∀ conn, s.connection c = some conn → conn.fd ≠ fd) :
      Step s (now, .register fd dir ok) (s.register fd dir now ok)
  | handleEvents {s : EventLoop Q} {now fd c : ℕ} {conn : Connection} {x : Exchange κ} {ok : Bool}
      (hnow : s.now ≤ now) (hfd : s.readyChannels fd = some c) (hc : s.connection c = some conn)
      (hx : (Event.handleEvents x.files x.revents (handler conn x)).1.fault = none) :
      Step s (now, .handleEvents fd x ok) (s.handleEvents c conn x now ok)
  | handleExpire {s : EventLoop Q} {now : ℕ} {ok : ℕ → Bool} (hnow : s.now ≤ now) :
      Step s (now, .handleExpire ok) (s.handleExpire now ok)

end EventLoop

end WebServer.Event
