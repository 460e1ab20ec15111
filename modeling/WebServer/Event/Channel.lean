import WebServer.Http.Answer

/-!
# Event/Channel — one ready event on a connection

`Channel::HandleEvents` calls the handlers of a connection and then `HandleUpdate`, which decides
what the event loop does with the connection.  What it asks of the loop is an `UpdateAction`; the
loop itself is elsewhere.
-/

namespace WebServer.Event

open Http Utility

/-- What `HandleUpdate` asks of the event loop. -/
inductive UpdateAction
  /-- `PollerMod`, with a new timer. -/
  | mod (timeout : ℕ)
  /-- Nothing: the events are set, but not handed to `epoll`. -/
  | leave
  /-- `Delete` -/
  | delete
  deriving DecidableEq

/-- **One event**: its bits, the files and the cache at that time, and what the socket answers. -/
structure Exchange (κ : Type*) where
  revents : EventMask
  files : FileSystem
  cache : κ
  reads : List ReadResult
  writes : List WriteResult

section Channel

variable {κ : Type*}

/-- `ResetTimer` -/
def resetTimer (h : Handler κ) : Handler κ := { h with timerReleased := true }

/-- The events of a connection that is served on: of reading and writing only writing is kept. -/
def servedEvents (events : EventMask) : EventMask :=
  (if events.epollIn ∧ events.epollOut then .EPOLLOUT else events) ||| .EPOLLET

/-- The timeout of a connection that is waited for. -/
def idleTimeout (isKeepAlive : Bool) : ℕ :=
  if isKeepAlive then kDefaultKeepAliveTime else kDefaultKeepAliveTime >>> 1

/-- The timeout of a connection that is served. -/
def servedTimeout (isKeepAlive : Bool) : ℕ :=
  if isKeepAlive then kDefaultKeepAliveTime else kDefaultTimeOut

/-- **`HandleUpdate`.** -/
def handleUpdate (h : Handler κ) : Handler κ × UpdateAction :=
  let h := resetTimer h
  if !h.conn.isError ∧ h.conn.connectionState = .connected then
    if h.events ≠ .zero then
      (h.setEvents (servedEvents h.events), .mod (servedTimeout h.conn.isKeepAlive))
    else (h.setEvents (.EPOLLIN ||| .EPOLLET), .mod (idleTimeout h.conn.isKeepAlive))
  else if !h.conn.isError ∧ h.conn.connectionState = .disconnecting ∧ h.events.epollOut then
    (h.setEvents (.EPOLLOUT ||| .EPOLLET), .leave)
  else (h, .delete)

/-- **`HandleUpdate` sets the events**, and nothing else but the timer. -/
theorem exists_handleUpdate (h : Handler κ) :
    ∃ events, (handleUpdate h).1 = (resetTimer h).setEvents events := by
  unfold handleUpdate
  dsimp only
  split
  · split <;> exact ⟨_, rfl⟩
  · split
    · exact ⟨_, rfl⟩
    · exact ⟨h.events, rfl⟩

/-- An event that is answered by no handler: a hang-up without input, or an error; the connections
set no error handler. -/
def ignored (revents : EventMask) : Bool :=
  (revents.epollHup && !revents.epollIn) || revents.epollErr

/-- An event that is read for. -/
def readable (revents : EventMask) : Bool :=
  revents.epollIn || revents.epollPri || revents.epollRdHup

section HandleEvents

variable [PageCache κ] (files : FileSystem)

/-- The part of `HandleEvents` that reads. -/
def readEvent (revents : EventMask) (h : Handler κ) : Handler κ :=
  if readable revents then handleRead files h else h

/-- The part of `HandleEvents` that writes. -/
def writeEvent (revents : EventMask) (h : Handler κ) : Handler κ :=
  if revents.epollOut then handleWrite h else h

/-- **`Channel::HandleEvents`.**  A handler that breaks off leaves nothing to be done. -/
def handleEvents (revents : EventMask) (h : Handler κ) : Handler κ × Option UpdateAction :=
  let h := h.setEvents .zero
  if ignored revents then (h, none)
  else if (readEvent files revents h).fault.isSome then (readEvent files revents h, none)
  else
    let r := handleUpdate (writeEvent revents (readEvent files revents h))
    (r.1, some r.2)

end HandleEvents

end Channel

end WebServer.Event
