import WebServer.Lib.Bytes

/-!
# Utility/SocketUtils — reading and writing a non-blocking socket

`utility::Read` and `utility::Write` call the kernel until it answers `EAGAIN`.  What the kernel
answers is a script, one entry a call; an exhausted script reads as `EAGAIN` and, when writing, as
a socket that takes everything that is left.  The byte counters are unbounded integers.
-/

namespace WebServer.Utility

/-- The most one `read` asks for. -/
def maxBufferSize : ℕ := 4096

/-- What one `read` answers.  No bytes is end of file. -/
inductive ReadResult
  | data (bytes : Bytes)
  | interrupted
  | again
  | failed
  deriving DecidableEq

/-- What one `write` answers: how many of the offered bytes it takes, or why it takes none. -/
inductive WriteResult
  | accept (n : ℕ)
  | interrupted
  | again
  | failed
  deriving DecidableEq

/-- What `Read` leaves: its result, the buffer, the flag and the script that remains. -/
structure ReadReport where
  count : ℤ
  buffer : Bytes
  isReadZeroBytes : Bool
  rest : List ReadResult

/-- **`Read(int, std::string&, bool&)`**, from a partial sum. -/
def readLoop : List ReadResult → Bytes → ℕ → ReadReport
  | [], buffer, sum => ⟨sum, buffer, false, []⟩
  | .data b :: rs, buffer, sum =>
      if b = [] then ⟨sum, buffer, true, rs⟩ else readLoop rs (buffer ++ b) (sum + b.length)
  | .interrupted :: rs, buffer, sum => readLoop rs buffer sum
  | .again :: rs, buffer, sum => ⟨sum, buffer, false, rs⟩
  | .failed :: rs, buffer, _ => ⟨-1, buffer, false, rs⟩

/-- `Read(int, std::string&, bool&)` -/
def read (script : List ReadResult) (buffer : Bytes) : ReadReport := readLoop script buffer 0

/-- The loop of `Write`: whether it failed, the bytes the kernel took and the script that
remains. -/
def writeLoop : List WriteResult → Bytes → Bytes → Bool × Bytes × List WriteResult
  | rs, [], taken => (false, taken, rs)
  | [], b, taken => (false, taken ++ b, [])
  | .accept n :: rs, b, taken => writeLoop rs (b.drop n) (taken ++ b.take n)
  | .interrupted :: rs, b, taken => writeLoop rs b taken
  | .again :: rs, _, taken => (false, taken, rs)
  | .failed :: rs, _, taken => (true, taken, rs)

/-- What `Write` leaves: its result, the bytes the kernel took, the buffer and the script. -/
structure WriteReport where
  count : ℤ
  accepted : Bytes
  buffer : Bytes
  rest : List WriteResult

/-- **`Write(int, std::string&)`.**  On a failure the buffer keeps the bytes already taken. -/
def write (script : List WriteResult) (buffer : Bytes) : WriteReport :=
  let (failed, taken, rest) := writeLoop script buffer []
  if failed then ⟨-1, taken, buffer, rest⟩
  else ⟨taken.length, taken,
    if taken.length = buffer.length then [] else buffer.drop taken.length, rest⟩

/-! ## What a read brings in -/

/-- The bytes a script still holds, in the order they arrive. -/
def pending : List ReadResult → Bytes
  | .data b :: rs => b ++ pending rs
  | _ :: rs => pending rs
  | [] => []

/-- A read takes bytes from the script and appends them; none is lost. -/
theorem readLoop_conserves : ∀ (rs : List ReadResult) (buffer : Bytes) (sum : ℕ),
    (readLoop rs buffer sum).buffer ++ pending (readLoop rs buffer sum).rest = buffer ++ pending rs
  | [], _, _ => rfl
  | .data b :: rs, buffer, sum => by
      by_cases hb : b = []
      · simp [readLoop, pending, hb]
      · simp only [readLoop, hb, if_false, pending]
        rw [readLoop_conserves rs, List.append_assoc]
  | .interrupted :: rs, buffer, sum => readLoop_conserves rs buffer sum
  | .again :: rs, _, _ => rfl
  | .failed :: rs, _, _ => rfl

theorem read_conserves (rs : List ReadResult) (buffer : Bytes) :
    (read rs buffer).buffer ++ pending (read rs buffer).rest = buffer ++ pending rs :=
  readLoop_conserves rs buffer 0

/-- The pieces in which `read` hands over one segment of the stream. -/
def pieces (segment : Bytes) : List Bytes :=
  if _ : segment = [] then []
  else segment.take maxBufferSize :: pieces (segment.drop maxBufferSize)
termination_by segment.length
decreasing_by
  have := List.length_pos_iff.mpr ‹¬segment = []›
  rw [List.length_drop, maxBufferSize]
  omega

/-- **One segment**: its pieces, and then `EAGAIN`. -/
def deliver (segment : Bytes) : List ReadResult := (pieces segment).map .data ++ [.again]

theorem flatten_pieces (segment : Bytes) : (pieces segment).flatten = segment := by
  induction segment using pieces.induct with
  | case1 => rw [pieces, dif_pos rfl, List.flatten_nil]
  | case2 segment h ih => rw [pieces, dif_neg h, List.flatten_cons, ih, List.take_append_drop]

theorem ne_nil_of_mem_pieces {segment p : Bytes} (hp : p ∈ pieces segment) : p ≠ [] := by
  induction segment using pieces.induct with
  | case1 =>
    rw [pieces, dif_pos rfl] at hp
    exact absurd hp List.not_mem_nil
  | case2 segment h ih =>
    rw [pieces, dif_neg h] at hp
    obtain rfl | hp := List.mem_cons.mp hp
    · rw [Ne, List.take_eq_nil_iff]
      exact not_or.mpr ⟨by decide, h⟩
    · exact ih hp

theorem readLoop_pieces : ∀ (ps : List Bytes) (rs : List ReadResult) (buffer : Bytes) (sum : ℕ),
    (∀ p ∈ ps, p ≠ []) → readLoop (ps.map .data ++ .again :: rs) buffer sum
      = ⟨(sum + ps.flatten.length : ℕ), buffer ++ ps.flatten, false, rs⟩
  | [], rs, buffer, sum, _ => by simp [readLoop]
  | p :: ps, rs, buffer, sum, hne => by
      have hp : p ≠ [] := hne p (by simp)
      simp only [List.map_cons, List.cons_append, readLoop, hp, if_false]
      rw [readLoop_pieces ps rs _ _ fun q hq => hne q (List.mem_cons_of_mem _ hq)]
      simp [Nat.add_assoc]

/-- **A read takes in the whole segment.** -/
theorem read_deliver (segment buffer : Bytes) :
    read (deliver segment) buffer = ⟨segment.length, buffer ++ segment, false, []⟩ := by
  rw [read, deliver, readLoop_pieces _ _ _ _ fun _ => ne_nil_of_mem_pieces, flatten_pieces,
    Nat.zero_add]

/-! ## What a write sends -/

theorem writeLoop_spec : ∀ (rs : List WriteResult) (b taken : Bytes),
    ∃ sent left, (writeLoop rs b taken).2.1 = taken ++ sent ∧ b = sent ++ left
  | rs, [], taken => ⟨[], [], by cases rs <;> simp [writeLoop], rfl⟩
  | [], c :: b, taken => ⟨c :: b, [], rfl, by simp⟩
  | .accept n :: rs, c :: b, taken => by
      obtain ⟨sent, left, hs, hb⟩ := writeLoop_spec rs ((c :: b).drop n) (taken ++ (c :: b).take n)
      refine ⟨(c :: b).take n ++ sent, left, ?_, ?_⟩
      · rw [writeLoop, hs, List.append_assoc]
        exact fun h => List.cons_ne_nil _ _ h
      · rw [List.append_assoc, ← hb, List.take_append_drop]
  | .interrupted :: rs, c :: b, taken => by
      obtain ⟨sent, left, hs, hb⟩ := writeLoop_spec rs (c :: b) taken
      exact ⟨sent, left, hs, hb⟩
  | .again :: rs, c :: b, taken => ⟨[], c :: b, by simp [writeLoop], rfl⟩
  | .failed :: rs, c :: b, taken => ⟨[], c :: b, by simp [writeLoop], rfl⟩

/-- A socket that accepts every write takes the whole buffer. -/
theorem write_nil (b : Bytes) : write [] b = ⟨b.length, b, [], []⟩ := by
  have : writeLoop [] b [] = (false, b, []) := by cases b <;> rfl
  simp [write, this]

/-- **What the kernel takes is a first part of the buffer.** -/
theorem write_accepted_isPrefix (rs : List WriteResult) (b : Bytes) :
    (write rs b).accepted <+: b := by
  obtain ⟨sent, left, hs, hb⟩ := writeLoop_spec rs b []
  have ht : (writeLoop rs b []).2.1 = sent := by simpa using hs
  have : (write rs b).accepted = sent := by
    rw [← ht]
    simp only [write]
    split <;> rfl
  exact ⟨left, by rw [this]; exact hb.symm⟩

/-- **A write that does not fail keeps exactly what it did not send.** -/
theorem write_conserves {rs : List WriteResult} {b : Bytes} (h : 0 ≤ (write rs b).count) :
    (write rs b).accepted ++ (write rs b).buffer = b := by
  obtain ⟨sent, left, hs, hb⟩ := writeLoop_spec rs b []
  have ht : (writeLoop rs b []).2.1 = sent := by simpa using hs
  cases hf : (writeLoop rs b []).1 with
  | true => simp [write, hf] at h
  | false =>
    simp only [write, hf, ht, Bool.false_eq_true, if_false]
    split
    · next hlen =>
      have hleft : left = [] := by
        rw [hb, List.length_append] at hlen
        exact List.length_eq_zero_iff.mp (by omega)
      rw [hb, hleft]
    · rw [hb]
      simp

end WebServer.Utility
