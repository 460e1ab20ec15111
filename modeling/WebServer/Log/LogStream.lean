import WebServer.Lib.Bytes

/-!
# Log/LogStream — fixed buffers, and the log file

`FixedBuffer` takes a text only while that leaves it one byte free, and drops it otherwise.
`FileUtils` is a `FILE*`: what was written waits in its own buffer until it is flushed.  The stream
takes every byte it is given.
-/

namespace WebServer.Log

/-- `kSmallBufferSize` -/
abbrev kSmallBufferSize : ℕ := 4000

/-- `kLargeBufferSize` -/
abbrev kLargeBufferSize : ℕ := 4000 * 1000

/-! ## Fixed buffers -/

/-- **`FixedBuffer<buffer_size>`**: the bytes before `current_buffer_`. -/
structure FixedBuffer (bufferSize : ℕ) where
  data : Bytes
  fits : data.length ≤ bufferSize

namespace FixedBuffer

variable {n : ℕ}

/-- A new buffer. -/
def new (n : ℕ) : FixedBuffer n := ⟨[], n.zero_le⟩

/-- `size_` -/
def size (b : FixedBuffer n) : ℕ := b.data.length

/-- `capacity()` -/
def capacity (b : FixedBuffer n) : ℕ := n - b.size

/-- **`write`.** -/
def write (b : FixedBuffer n) (line : Bytes) : FixedBuffer n :=
  if h : b.capacity > line.length then
    ⟨b.data ++ line, by
      rw [capacity, size] at h
      rw [List.length_append]
      omega⟩
  else b

/-- `reset` -/
def reset (_ : FixedBuffer n) : FixedBuffer n := new n

@[simp] theorem data_new : (new n).data = [] := rfl

@[simp] theorem size_new : (new n).size = 0 := rfl

@[simp] theorem data_reset (b : FixedBuffer n) : b.reset.data = [] := rfl

theorem data_write {b : FixedBuffer n} {line : Bytes} (h : b.capacity > line.length) :
    (b.write line).data = b.data ++ line := by rw [write, dif_pos h]

/-- An empty buffer takes every text that is shorter than the buffer. -/
theorem data_write_of_empty {b : FixedBuffer n} {line : Bytes} (hb : b.data = [])
    (h : line.length < n) : (b.write line).data = line := by
  rw [data_write, hb, List.nil_append]
  rw [capacity, size, hb, List.length_nil]
  exact h

end FixedBuffer

/-- The bytes of a row of buffers, in order. -/
def contents {n : ℕ} (buffers : List (FixedBuffer n)) : Bytes := (buffers.map (·.data)).flatten

@[simp] theorem contents_nil {n : ℕ} : contents ([] : List (FixedBuffer n)) = [] := rfl

@[simp] theorem contents_cons {n : ℕ} (b : FixedBuffer n) (bs : List (FixedBuffer n)) :
    contents (b :: bs) = b.data ++ contents bs := rfl

@[simp] theorem contents_append {n : ℕ} (as bs : List (FixedBuffer n)) :
    contents (as ++ bs) = contents as ++ contents bs := by
  rw [contents, contents, contents, List.map_append, List.flatten_append]

/-! ## The log file -/

/-- **`FileUtils`**: the bytes that reached the file, and those in the buffer of the stream. -/
structure FileUtils where
  disk : Bytes
  buffer : Bytes

/-- What was written, flushed or not. -/
def FileUtils.written (f : FileUtils) : Bytes := f.disk ++ f.buffer

/-- `FileUtils::Write` -/
def FileUtils.write (f : FileUtils) (b : Bytes) : FileUtils := { f with buffer := f.buffer ++ b }

/-- `FileUtils::Flush` -/
def FileUtils.flush (f : FileUtils) : FileUtils := ⟨f.disk ++ f.buffer, []⟩

/-- **`LogFile`**: it flushes with every `flush_every_n_`-th write. -/
structure LogFile where
  flushEveryN : ℕ
  count : ℕ
  file : FileUtils

namespace LogFile

/-- `LogFile::LogFile`, with the default interval. -/
def new : LogFile := ⟨1024, 0, ⟨[], []⟩⟩

/-- `LogFile::Write` -/
def write (f : LogFile) (b : Bytes) : LogFile :=
  if f.flushEveryN ≤ f.count + 1 then { f with count := 0, file := (f.file.write b).flush }
  else { f with count := f.count + 1, file := f.file.write b }

/-- `LogFile::Flush` -/
def flush (f : LogFile) : LogFile := { f with file := f.file.flush }

/-- The bytes in the file itself. -/
def disk (f : LogFile) : Bytes := f.file.disk

/-- The bytes written so far. -/
def written (f : LogFile) : Bytes := f.file.written

@[simp] theorem written_new : new.written = [] := rfl

@[simp] theorem written_write (f : LogFile) (b : Bytes) : (f.write b).written = f.written ++ b := by
  unfold write written
  split <;> simp [FileUtils.written, FileUtils.write, FileUtils.flush]

@[simp] theorem written_flush (f : LogFile) : f.flush.written = f.written := by
  simp [written, flush, FileUtils.written, FileUtils.flush]

@[simp] theorem disk_flush (f : LogFile) : f.flush.disk = f.written := rfl

end LogFile

end WebServer.Log
