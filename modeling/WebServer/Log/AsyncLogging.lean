import WebServer.Log.LogStream
import WebServer.Lib.Run

/-!
# Log/AsyncLogging — callers that fill buffers, and the `Worker` that writes them

`WriteLog` is one critical section; the `Worker` takes the filled buffers over in another and writes
them outside of it.  The `Worker` is split at its lock boundaries, at its loop test and at every
write.  A timed wait may end at any time, so a `notify` changes nothing by itself.  A caller with a
fatal text keeps `mutex_` for good: it goes from the critical section into `Stop` and from there to
`abort()`.
-/

namespace WebServer.Log

/-- `AsyncLogging::Buffer` -/
abbrev Buffer := FixedBuffer kLargeBufferSize

/-! ## The two sides -/

/-- The members of `AsyncLogging` that its callers and its `Worker` share; a null pointer is
`none`. -/
structure AsyncLogging where
  isRunning : Bool
  currentBuffer : Option Buffer
  nextBuffer : Option Buffer
  buffers : List Buffer

/-- `AsyncLogging::AsyncLogging`, and then the first line of `Start`. -/
def AsyncLogging.started : AsyncLogging := ⟨true, some (.new _), some (.new _), []⟩

/-- **`WriteLog`**, up to the test for a fatal text; `none` where it reads a null pointer. -/
def AsyncLogging.writeLog (a : AsyncLogging) (line : Bytes) : Option AsyncLogging :=
  match a.currentBuffer with
  | none => none
  | some current =>
    if current.capacity > line.length then
      some { a with currentBuffer := some (current.write line) }
    else
      some { a with
        buffers := a.buffers ++ [current]
        currentBuffer := some ((a.nextBuffer.getD (.new _)).write line)
        nextBuffer := none }

/-- Where the `Worker` is. -/
inductive Position
  /-- At the loop test. -/
  | loopTest
  /-- At the top of the loop, before `mutex_`. -/
  | enter
  /-- In the timed wait. -/
  | waiting
  /-- Out of the critical section. -/
  | batch
  /-- Before the write of `buffers[i]`. -/
  | writing (i : ℕ)
  /-- After the last write. -/
  | refill
  /-- Out of the function. -/
  | exited
  deriving DecidableEq

/-- The local variables of `Worker`. -/
structure Worker where
  position : Position
  newBuffer1 : Option Buffer
  newBuffer2 : Option Buffer
  buffers : List Buffer

/-- `Worker` after `count_down()`. -/
def Worker.started : Worker := ⟨.loopTest, some (.new _), some (.new _), []⟩

/-- **The critical section of `Worker`**, after the wait; `none` where it copies a null pointer. -/
def Worker.swap (w : Worker) (a : AsyncLogging) : Option (Worker × AsyncLogging) :=
  match a.currentBuffer with
  | none => none
  | some current =>
    let w₁ := { w with position := .batch, newBuffer1 := none, buffers := a.buffers ++ [current] }
    let a₁ := { a with currentBuffer := w.newBuffer1, buffers := w.buffers }
    match a.nextBuffer with
    | some _ => some (w₁, a₁)
    | none => some ({ w₁ with newBuffer2 := none }, { a₁ with nextBuffer := w.newBuffer2 })

/-- Of a batch of more than 25 buffers only two are kept. -/
def Worker.cut (w : Worker) : Worker :=
  if w.buffers.length > 25 then { w with buffers := w.buffers.take 2 } else w

/-- The last buffer of a batch, emptied; `none` where the assertion fails. -/
def takeBack (buffers : List Buffer) : Option (Buffer × List Buffer) :=
  buffers.getLast?.map fun b => (b.reset, buffers.dropLast)

/-- **The refill**: each of the two new buffers that was given away comes back out of the batch, and
the batch is cleared; `none` where one of the assertions fails. -/
def Worker.refill (w : Worker) : Option Worker := do
  let (new1, rest) ← match w.newBuffer1 with
    | some b => some (b, w.buffers)
    | none => takeBack w.buffers
  let (new2, _) ← match w.newBuffer2 with
    | some b => some (b, rest)
    | none => takeBack rest
  return ⟨.loopTest, some new1, some new2, []⟩

/-- Before the critical section: the next step needs `mutex_`. -/
def Worker.Due (w : Worker) : Prop := w.position = .enter ∨ w.position = .waiting

/-- The buffers of the batch that are not yet written. -/
def Worker.unwritten (w : Worker) : List Buffer :=
  match w.position with
  | .batch => w.buffers
  | .writing i => w.buffers.drop i
  | _ => []

/-! ## The system -/

/-- A caller with a fatal text: how far it is. -/
inductive Fatal
  | idle
  /-- The text is in the buffer, `Stop` is next. -/
  | holding (line : Bytes)
  /-- In `Join`. -/
  | joining (line : Bytes)
  /-- At `abort()`. -/
  | aborted (line : Bytes)

/-- A caller of `Stop`: how far it is. -/
inductive Stopper
  | idle
  | joining
  | returned
  deriving DecidableEq

/-- A text that a caller passes.  The callers pass the contents of a `LogStream`, a
`FixedBuffer<kSmallBufferSize>`. -/
structure Line where
  bytes : Bytes
  short : bytes.length < kLargeBufferSize

/-- What a `LogStream` holds is such a text. -/
def Line.ofStream (stream : FixedBuffer kSmallBufferSize) : Line :=
  ⟨stream.data, lt_of_le_of_lt stream.fits (by decide)⟩

/-- **The whole system.**  `accepted` are the texts in the order in which their callers took
`mutex_`, and `overflowed` tells whether a batch was ever cut. -/
structure System where
  log : AsyncLogging
  worker : Worker
  file : LogFile
  fatal : Fatal
  stopper : Stopper
  isJoined : Bool
  accepted : List Line
  overflowed : Bool

namespace System

/-- The state in which `Start` returns. -/
def init : System where
  log := .started
  worker := .started
  file := .new
  fatal := .idle
  stopper := .idle
  isJoined := false
  accepted := []
  overflowed := false

/-- `mutex_` is free between two critical sections, unless a fatal text was written. -/
def MutexFree (s : System) : Prop := s.fatal = .idle

/-- The `Worker` moves on inside its own code. -/
def goTo (s : System) (p : Position) : System :=
  { s with worker := { s.worker with position := p } }

/-- The bytes of the accepted texts. -/
def acceptedBytes (s : System) : Bytes := (s.accepted.map (·.bytes)).flatten

/-- The bytes in `current_buffer_`. -/
def currentBytes (s : System) : Bytes := (s.log.currentBuffer.map (·.data)).getD []

end System

/-- What happens next. -/
inductive Action
  | writeLog (line : Line)
  | writeFatal (line : Line)
  | fatalStop
  | abort
  | stop
  | stopReturn
  /-- The critical section of `Worker`. -/
  | swap
  /-- Any other step of `Worker`. -/
  | worker

/-- **One step**: a critical section, or a step of `Worker` between two of them. -/
inductive Step : System → Action → System → Prop
  | writeLog {s : System} (line : Line) {log : AsyncLogging} (free : s.MutexFree)
      (h : s.log.writeLog line.bytes = some log) :
      Step s (.writeLog line) { s with log, accepted := s.accepted ++ [line] }
  | writeFatal {s : System} (line : Line) {log : AsyncLogging} (free : s.MutexFree)
      (h : s.log.writeLog line.bytes = some log) :
      Step s (.writeFatal line)
        { s with log, accepted := s.accepted ++ [line], fatal := .holding line.bytes }
  | fatalStop {s : System} {line : Bytes} (h : s.fatal = .holding line) (hj : s.isJoined = false) :
      Step s .fatalStop
        { s with
          log := { s.log with isRunning := false }
          fatal := .joining line
          isJoined := true }
  | abort {s : System} {line : Bytes} (h : s.fatal = .joining line)
      (he : s.worker.position = .exited) : Step s .abort { s with fatal := .aborted line }
  | stop {s : System} (h : s.stopper = .idle) (hj : s.isJoined = false) :
      Step s .stop
        { s with log := { s.log with isRunning := false }, stopper := .joining, isJoined := true }
  | stopReturn {s : System} (h : s.stopper = .joining) (he : s.worker.position = .exited) :
      Step s .stopReturn { s with stopper := .returned }
  | loop {s : System} (h : s.worker.position = .loopTest) (hr : s.log.isRunning = true) :
      Step s .worker (s.goTo .enter)
  | leave {s : System} (h : s.worker.position = .loopTest) (hr : s.log.isRunning = false) :
      Step s .worker { s.goTo .exited with file := s.file.flush }
  | wait {s : System} (h : s.worker.position = .enter) (free : s.MutexFree)
      (he : s.log.buffers = []) : Step s .worker (s.goTo .waiting)
  | swap {s : System} {w : Worker} {log : AsyncLogging}
      (h : s.worker.Due) (he : s.worker.position = .enter → s.log.buffers ≠ [])
      (free : s.MutexFree) (hw : s.worker.swap s.log = some (w, log)) :
      Step s .swap { s with worker := w, log }
  | cut {s : System} (h : s.worker.position = .batch) :
      Step s .worker
        { s with
          worker := { s.worker.cut with position := .writing 0 }
          overflowed := s.overflowed || decide (s.worker.buffers.length > 25) }
  | write {s : System} {i : ℕ} {b : Buffer} (h : s.worker.position = .writing i)
      (hb : s.worker.buffers[i]? = some b) :
      Step s .worker { s.goTo (.writing (i + 1)) with file := s.file.write b.data }
  | written {s : System} {i : ℕ} (h : s.worker.position = .writing i)
      (hb : s.worker.buffers[i]? = none) : Step s .worker (s.goTo .refill)
  | refill {s : System} {w : Worker} (h : s.worker.position = .refill)
      (hw : s.worker.refill = some w) :
      Step s .worker { s with worker := w, file := s.file.flush }

end WebServer.Log
