import WebServer.Lib.CInt
import WebServer.Lib.TracedMemory
import WebServer.Log.Logging

/-!
# Log/RawStream — a log stream in its memory

`FixedBuffer` as it is: the characters of `buffer_` at their addresses, a pointer to where the next
one goes, and `size_`.  `write` copies behind one test of the capacity; `FormatInt` and the
floating-point overloads store at the pointer behind another, digits first and the null after them,
and move the pointer then.  The stream of `Log/Logging` is what is read off the memory
(`Represents`), and no byte is ever stored outside `buffer_` (`never_overruns`).
-/

namespace WebServer.Log

/-! ## The buffer -/

/-- **`FixedBuffer<buffer_size>`**: the memory it is in, the address of `buffer_`, and the other two
members. -/
structure RawBuffer (bufferSize : ℕ) where
  memory : TracedMemory
  buffer : ℕ
  currentBuffer : ℕ
  size : ℤ

namespace RawBuffer

variable {n : ℕ} (b : RawBuffer n)

/-- `FixedBuffer::FixedBuffer`, at an address in a memory. -/
def new (n : ℕ) (memory : Memory) (buffer : ℕ) : RawBuffer n :=
  ⟨(⟨memory, []⟩ : TracedMemory).copy buffer (.replicate n 0), buffer, buffer, 0⟩

/-- `capacity()` -/
def capacity : ℤ := n - b.size

/-- `add` -/
def add (size : ℕ) : RawBuffer n :=
  { b with currentBuffer := b.currentBuffer + size, size := CInt.convert (b.size + size) }

/-- **`write`**, of the first `size` characters. -/
def write (buffer : Bytes) (size : ℤ) : RawBuffer n :=
  if b.capacity > size then
    { b with memory := b.memory.copy b.currentBuffer (buffer.take size.toNat) }.add size.toNat
  else b

/-- `reset` -/
def reset : RawBuffer n := { b with currentBuffer := b.buffer, size := 0 }

end RawBuffer

/-! ## Numbers -/

/-- The loop of `IntToString` from `buf` on: the memory, `buf` and `number` after it. -/
def storeDigits (m : TracedMemory) (buf : ℕ) (number : ℤ) : TracedMemory × ℕ × ℤ :=
  let index := number.tmod 10
  let number' := number.tdiv 10
  if _h : number' ≠ 0 then storeDigits (m.poke buf (zero index)) (buf + 1) number'
  else (m.poke buf (zero index), buf + 1, number')
termination_by number.natAbs
decreasing_by
  have hdiv : (number.tdiv 10).natAbs = number.natAbs / 10 := Int.natAbs_tdiv number 10
  have hne : number.tdiv 10 ≠ 0 := _h
  omega

/-- **`IntToString`** at an address, with what it returns. -/
def storeInt (m : TracedMemory) (buffer : ℕ) (number : ℤ) : TracedMemory × ℕ :=
  let (m, buf, number) := storeDigits m buffer number
  let (m, buf) := if number < 0 then (m.copy buf (text "-"), buf + 1) else (m, buf)
  ((m.poke buf 0).reverse buffer buf, buf - buffer)

/-- What `snprintf` leaves at an address, and what it returns, for a number with these
characters. -/
def snprintf (m : TracedMemory) (buffer : ℕ) (characters : NumberText) : TracedMemory × ℕ :=
  (m.copy buffer (characters.1 ++ [0]), characters.1.length)

/-! ## The stream -/

/-- The `FixedBuffer` of a `LogStream`, in its memory. -/
abbrev RawStream := RawBuffer kSmallBufferSize

namespace RawStream

variable (b : RawStream)

/-- The body of `FormatInt`, and of `operator<<` for a floating-point number: `store` leaves the
number at an address and returns its size. -/
def format (store : TracedMemory → ℕ → TracedMemory × ℕ) : RawStream :=
  if b.capacity ≥ kMaxNumberSize then
    let (m, size) := store b.memory b.currentBuffer
    { b with memory := m }.add size
  else b

/-- **`operator<<`.** -/
def insert : Piece → RawStream
  | .bool express => b.write (if express then text "1" else text "0") 1
  | .integer number => format b fun m buffer => storeInt m buffer number.1
  | .floating characters => format b fun m buffer => snprintf m buffer characters
  | .char str => b.write [str] 1
  | .cString (some str) => b.write str.1 (CInt.convert (str.1.takeWhile (· ≠ 0)).length)
  | .cString none => b.write (text "(null)") 6
  | .string str => b.write str.1 (CInt.convert str.1.length)

end RawStream

/-- What a stream is asked for. -/
inductive StreamCall
  | insert (p : Piece)
  | resetBuffer

/-- **One call** on the stream in its memory. -/
def RawStream.perform (b : RawStream) : StreamCall → RawStream
  | .insert p => b.insert p
  | .resetBuffer => b.reset

/-- The pieces that a stream holds after one more call: those that fitted since it was reset. -/
def holding (kept : List Piece) : StreamCall → List Piece
  | .insert p =>
    if (kept.flatMap Piece.bytes).length + p.need ≤ kSmallBufferSize then kept ++ [p] else kept
  | .resetBuffer => []

/-! ## What `IntToString` stores -/

open TracedMemory

/-- **The loop stores its characters** one after the other. -/
theorem storeDigits_eq (m : TracedMemory) (buf : ℕ) (number : ℤ) :
    storeDigits m buf number = (m.copy buf (digitLoop number).1,
      buf + (digitLoop number).1.length, (digitLoop number).2) := by
  induction m, buf, number using storeDigits.induct with
  | case1 m buf number index number' hne ih =>
    have hloop : digitLoop number = (zero index :: (digitLoop number').1,
      (digitLoop number').2) := by
      rw [digitLoop, dif_pos hne]
    rw [storeDigits, dif_pos hne, ih, hloop, copy, List.length_cons, Nat.add_assoc, Nat.add_comm 1]
  | case2 m buf number number' hz =>
    rw [storeDigits, dif_neg hz, digitLoop, dif_neg hz]
    rfl

/-- **`IntToString` at an address** leaves its characters and the null there, and stores nowhere
else. -/
theorem storeInt_spec (m : TracedMemory) (a : ℕ) (number : ℤ) :
    (storeInt m a number).2 = (intToString number).2 ∧
      Within m (storeInt m a number).1 a (a + ((intToString number).2 + 1)) ∧
      (storeInt m a number).1.read a ((intToString number).2 + 1) = (intToString number).1 := by
  have hend : (digitLoop number).2 = 0 := by rw [digitLoop_eq]
  unfold storeInt intToString
  rw [storeDigits_eq]
  dsimp only
  rw [hend, if_neg (Int.lt_irrefl 0), if_neg (Int.lt_irrefl 0)]
  generalize (digitLoop number).1 = cs
  have hcopy : Within m (m.copy a cs) a (a + (cs.length + 1)) :=
    within_copy.mono (Nat.le_refl a) (by omega)
  have hreverse : Within ((m.copy a cs).poke (a + cs.length) 0)
      (((m.copy a cs).poke (a + cs.length) 0).reverse a (a + cs.length)) a (a + cs.length) :=
    within_reverse (Nat.le_add_right ..)
  refine ⟨Nat.add_sub_cancel_left .., ?_, ?_⟩
  · exact (hcopy.trans (within_poke _ 0 (by omega))).trans
      (hreverse.mono (Nat.le_refl a) (by omega))
  · have hdigits : ((m.copy a cs).poke (a + cs.length) 0).read a cs.length = cs := by
      refine (read_congr fun x _ hx => ?_).trans (read_copy (m := m))
      rw [bytes_poke, if_neg hx.ne]
    have hnull : (((m.copy a cs).poke (a + cs.length) 0).reverse a (a + cs.length)).read
        (a + cs.length) 1 = [0] := by
      rw [read_succ, hreverse.frame _ (.inr (Nat.le_refl _)), bytes_poke, if_pos rfl]
      rfl
    rw [read_add, read_reverse, hdigits, hnull]

theorem length_integerText {t : IntType} (number : t.Value) :
    (integerText number).1.length = (intToString number.1).2 := by
  rw [integerText, List.length_take, intToString]
  simp

/-- The characters of an integer are read at the address. -/
theorem read_storeInt (m : TracedMemory) (a : ℕ) {t : IntType} (number : t.Value) :
    (storeInt m a number.1).1.read a (integerText number).1.length = (integerText number).1 := by
  obtain ⟨-, -, hread⟩ := storeInt_spec m a number.1
  have htext : (integerText number).1 = (intToString number.1).1.take (intToString number.1).2 :=
    rfl
  rw [length_integerText, htext, ← hread, read_add, List.take_left' length_read]

/-! ## The stream in its memory -/

/-- The constructor clears `buffer_`, and nothing else. -/
theorem RawBuffer.within_new (n : ℕ) (memory : Memory) (buffer : ℕ) :
    Within ⟨memory, []⟩ (new n memory buffer).memory buffer (buffer + n) := by
  have hclear : Within ⟨memory, []⟩ (new n memory buffer).memory buffer
      (buffer + (List.replicate n (0 : UInt8)).length) := within_copy
  rw [List.length_replicate] at hclear
  exact hclear

namespace RawStream

/-- **A stream and its memory**: `size_` and the pointer agree with the characters before it. -/
structure Represents (r : RawStream) (b : LogStream) (base : ℕ) : Prop where
  buffer : r.buffer = base
  currentBuffer : r.currentBuffer = base + b.size
  size : r.size = b.size
  data : r.memory.read base b.size = b.data

variable {r : RawStream} {b b' : LogStream} {base : ℕ}

/-- **Characters that stand at the pointer**, and the pointer moved behind them. -/
theorem Represents.add (h : r.Represents b base) {m : TracedMemory} {s : Bytes} {hi : ℕ}
    (hw : Within r.memory m r.currentBuffer hi) (hs : m.read r.currentBuffer s.length = s)
    (hb : b'.data = b.data ++ s) :
    Represents ({ r with memory := m }.add s.length) b' base := by
  have hsize : b'.size = b.size + s.length := by
    rw [FixedBuffer.size, hb, List.length_append]
    rfl
  have hfits : b'.size ≤ 4000 := b'.fits
  refine ⟨h.buffer, ?_, ?_, ?_⟩
  · change r.currentBuffer + s.length = _
    rw [h.currentBuffer, hsize, Nat.add_assoc]
  · change CInt.convert (r.size + s.length) = _
    rw [h.size, hsize, Int.natCast_add, CInt.convert_of_lt (by omega) (by omega)]
  · change m.read base b'.size = _
    have hold : m.read base b.size = b.data :=
      (read_congr fun x _ hx => hw.frame x (.inl (by rw [h.currentBuffer]; exact hx))).trans h.data
    rw [hb, hsize, read_add, hold, ← h.currentBuffer, hs]

/-- The free characters. -/
theorem Represents.capacity (h : r.Represents b base) : r.capacity = (b.capacity : ℕ) := by
  have hfits : b.size ≤ kSmallBufferSize := b.fits
  rw [RawBuffer.capacity, FixedBuffer.capacity, h.size]
  omega

/-- **One stream comes out of another** by stores in `buffer_`, and represents this one. -/
structure Becomes (r r' : RawStream) (b : LogStream) (base : ℕ) : Prop where
  represents : r'.Represents b base
  within : Within r.memory r'.memory base (base + kSmallBufferSize)

theorem Represents.stay (h : r.Represents b base) : Becomes r r b base := ⟨h, .refl ..⟩

/-- **Stores at the pointer** stay in `buffer_` if there is room for them. -/
theorem Represents.store (h : r.Represents b base) {m : TracedMemory} {s : Bytes} {k : ℕ}
    (hw : Within r.memory m r.currentBuffer (r.currentBuffer + k))
    (hs : m.read r.currentBuffer s.length = s) (hk : b.size + k ≤ kSmallBufferSize)
    (hb : b'.data = b.data ++ s) :
    Becomes r ({ r with memory := m }.add s.length) b' base := by
  refine ⟨h.add hw hs hb, ?_⟩
  rw [h.currentBuffer] at hw
  exact hw.mono (Nat.le_add_right ..) (by omega)

/-- **`write`** into the memory. -/
theorem Represents.write (h : r.Represents b base) {buffer s : Bytes}
    (hs : buffer.take s.length = s) : Becomes r (r.write buffer s.length) (b.write s) base := by
  unfold RawBuffer.write
  by_cases hroom : b.capacity > s.length
  · have hraw : r.capacity > s.length := by
      rw [h.capacity]
      exact Int.ofNat_lt.mpr hroom
    have hfits : b.size + s.length ≤ kSmallBufferSize := by
      rw [FixedBuffer.capacity] at hroom
      omega
    rw [if_pos hraw, Int.toNat_natCast, hs]
    exact h.store within_copy read_copy hfits (FixedBuffer.data_write hroom)
  · have hraw : ¬ r.capacity > s.length := by
      rw [h.capacity]
      exact mt Int.ofNat_lt.mp hroom
    rw [if_neg hraw, FixedBuffer.write, dif_neg hroom]
    exact h.stay

/-- **A number** in the memory: its characters at the pointer, and whatever else is stored there
within `kMaxNumberSize` bytes. -/
theorem Represents.format (h : r.Represents b base) {s : NumberText}
    {store : TracedMemory → ℕ → TracedMemory × ℕ}
    (hw : Within r.memory (store r.memory r.currentBuffer).1 r.currentBuffer
      (r.currentBuffer + kMaxNumberSize))
    (hs : (store r.memory r.currentBuffer).1.read r.currentBuffer s.1.length = s.1)
    (hsize : (store r.memory r.currentBuffer).2 = s.1.length) :
    Becomes r (RawStream.format r store) (LogStream.format b s) base := by
  unfold RawStream.format
  by_cases hroom : b.capacity ≥ kMaxNumberSize
  · have hraw : r.capacity ≥ kMaxNumberSize := by
      rw [h.capacity]
      exact Int.ofNat_le.mpr hroom
    have hfits : b.size + kMaxNumberSize ≤ kSmallBufferSize := by
      rw [FixedBuffer.capacity] at hroom
      have : b.size ≤ kSmallBufferSize := b.fits
      omega
    rw [if_pos hraw]
    dsimp only
    rw [hsize]
    refine h.store hw hs hfits ?_
    rw [LogStream.data_format, if_pos hfits]
  · have hraw : ¬ r.capacity ≥ kMaxNumberSize := by
      rw [h.capacity]
      exact mt Int.ofNat_le.mp hroom
    rw [if_neg hraw, LogStream.format, dif_neg hroom]
    exact h.stay

/-- A string whose size is converted to `int`. -/
theorem Represents.write_convert (h : r.Represents b base) {buffer s : Bytes}
    (hs : buffer.take s.length = s) (hlen : s.length < 2 ^ 31) :
    Becomes r (r.write buffer (CInt.convert s.length)) (b.write s) base := by
  rw [CInt.convert_of_lt (Int.natCast_nonneg _) (by omega)]
  exact h.write hs

theorem Represents.integer (h : r.Represents b base) {t : IntType} (number : t.Value) :
    Becomes r (RawStream.format r fun m buffer => storeInt m buffer number.1)
      (LogStream.format b (integerText number)) base := by
  obtain ⟨hsize, hw, -⟩ := storeInt_spec r.memory r.currentBuffer number.1
  have hroom : (intToString number.1).2 + 1 ≤ kMaxNumberSize :=
    (length_intToString_le number.2).trans (by decide)
  exact h.format (hw.mono (Nat.le_refl _) (Nat.add_le_add_left hroom _))
    (read_storeInt r.memory r.currentBuffer number)
    (hsize.trans (length_integerText number).symm)

theorem Represents.floating (h : r.Represents b base) (characters : NumberText) :
    Becomes r (RawStream.format r fun m buffer => snprintf m buffer characters)
      (LogStream.format b characters) base := by
  refine h.format (within_copy.mono (Nat.le_refl _) ?_) ?_ rfl
  · have := characters.2
    rw [List.length_append, List.length_singleton]
    omega
  · have hread : (r.memory.copy r.currentBuffer (characters.1 ++ [0])).read r.currentBuffer
        (characters.1 ++ [0]).length = characters.1 ++ [0] := read_copy
    rw [List.length_append, read_add] at hread
    exact (List.append_inj hread length_read).1

/-- **Every insertion** is the one of the stream, and stores in `buffer_` only. -/
theorem Represents.insert (h : r.Represents b base) : ∀ p : Piece,
    Becomes r (r.insert p) (LogStream.insert b p) base
  | .bool true => h.write (s := text "1") rfl
  | .bool false => h.write (s := text "0") rfl
  | .integer number => h.integer number
  | .floating characters => h.floating characters
  | .char str => h.write (s := [str]) rfl
  | .cString (some str) =>
    h.write_convert (List.prefix_iff_eq_take.mp (List.takeWhile_prefix _)).symm
      (lt_of_le_of_lt (List.takeWhile_prefix _).length_le str.2)
  | .cString none => h.write (s := text "(null)") rfl
  | .string str => h.write_convert List.take_length str.2

theorem Represents.reset (h : r.Represents b base) : Represents r.reset b.reset base where
  buffer := h.buffer
  currentBuffer := h.buffer
  size := rfl
  data := rfl

theorem represents_new (memory : Memory) (base : ℕ) :
    Represents (RawBuffer.new kSmallBufferSize memory base) LogStream.new base :=
  ⟨rfl, rfl, rfl, rfl⟩

/-! ## Any calls on a stream -/

/-- **A stream that has not overrun**: its members agree, nothing is stored outside `buffer_`, and
what it holds are these pieces, in order. -/
structure Sound (r : RawStream) (base : ℕ) (kept : List Piece) : Prop where
  buffer : r.buffer = base
  size : 0 ≤ r.size ∧ r.size ≤ kSmallBufferSize
  currentBuffer : (r.currentBuffer : ℤ) = r.buffer + r.size
  written (a : ℕ) : a ∈ r.memory.written → r.buffer ≤ a ∧ a < r.buffer + kSmallBufferSize
  data : r.memory.read r.buffer r.size.toNat = kept.flatMap Piece.bytes

/-- **What every call keeps**: the memory is that of a stream that holds these pieces, and was
written in `buffer_` only. -/
structure Holds (r : RawStream) (base : ℕ) (kept : List Piece) : Prop where
  represents : ∃ b, r.Represents b base ∧ b.data = kept.flatMap Piece.bytes
  written (a : ℕ) : a ∈ r.memory.written → base ≤ a ∧ a < base + kSmallBufferSize

variable {kept : List Piece}

/-- Stores in `buffer_` stay in `buffer_`. -/
theorem written_of_within {m m' : TracedMemory} {lo hi : ℕ} (hw : Within m m' lo hi)
    (h : ∀ a ∈ m.written, lo ≤ a ∧ a < hi) : ∀ a ∈ m'.written, lo ≤ a ∧ a < hi := by
  obtain ⟨new, hnew, hin⟩ := hw.written
  rw [hnew]
  exact fun a ha => (List.mem_append.mp ha).elim (hin a) (h a)

theorem holds_new (memory : Memory) (base : ℕ) :
    Holds (RawBuffer.new kSmallBufferSize memory base) base [] where
  represents := ⟨LogStream.new, represents_new memory base, rfl⟩
  written := written_of_within (RawBuffer.within_new kSmallBufferSize memory base)
    fun _ ha => absurd ha List.not_mem_nil

/-- **Every call keeps the pieces that fit.** -/
theorem Holds.perform (h : r.Holds base kept) (c : StreamCall) :
    Holds (r.perform c) base (holding kept c) := by
  obtain ⟨⟨b, hb, hdata⟩, hwritten⟩ := h
  cases c with
  | insert p =>
    obtain ⟨hinsert, hw⟩ := hb.insert p
    refine ⟨⟨b.insert p, hinsert, ?_⟩, written_of_within hw hwritten⟩
    rw [LogStream.data_insert, holding, FixedBuffer.size, hdata]
    split
    · rw [List.flatMap_append, List.flatMap_singleton]
    · rfl
  | resetBuffer => exact ⟨⟨b.reset, hb.reset, rfl⟩, hwritten⟩

theorem Holds.performAll (h : r.Holds base kept) (calls : List StreamCall) :
    Holds (calls.foldl RawStream.perform r) base (calls.foldl holding kept) := by
  induction calls generalizing r kept with
  | nil => exact h
  | cons c calls ih => exact ih (h.perform c)

theorem Holds.sound (h : r.Holds base kept) : r.Sound base kept := by
  obtain ⟨⟨b, hb, hdata⟩, hwritten⟩ := h
  have hsize : r.size = (b.size : ℕ) := hb.size
  refine ⟨hb.buffer, ?_, ?_, ?_, ?_⟩
  · rw [hsize]
    exact ⟨Int.natCast_nonneg _, Int.ofNat_le.mpr b.fits⟩
  · rw [hb.currentBuffer, hb.buffer, hsize, Int.natCast_add]
  · rw [hb.buffer]
    exact hwritten
  · rw [hb.buffer, hsize, Int.toNat_natCast, hb.data, hdata]

/-- **A log stream never overruns its buffer** — after any insertions and resets, at any address in
any memory. -/
theorem never_overruns (memory : Memory) (base : ℕ) (calls : List StreamCall) :
    (calls.foldl perform (RawBuffer.new kSmallBufferSize memory base)).Sound base
      (calls.foldl holding []) :=
  ((holds_new memory base).performAll calls).sound

end RawStream

end WebServer.Log
