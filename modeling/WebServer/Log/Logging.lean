import WebServer.Log.AsyncLogging
import WebServer.Log.IntToString
import Mathlib.Data.List.DropRight

/-!
# Log/Logging — one statement, one line

A `Logging` inserts its prefix, then takes what the statement inserts, and inserts a newline when it
is destroyed.  An insertion that finds no room is dropped, the newline like every other: a number
asks for `kMaxNumberSize` free bytes, a string for one more than it has.

So the stream is a run of insertions, each of which appends its bytes or nothing (`data_insert`); it
never holds more than 3999 bytes, and exactly there a newline is dropped.
-/

namespace WebServer.Log

/-! ## The stream -/

/-- The `FixedBuffer` of a `LogStream`. -/
abbrev LogStream := FixedBuffer kSmallBufferSize

/-- A string whose size is an `int`. -/
abbrev ShortString := { s : Bytes // s.length < 2 ^ 31 }

/-- The characters of a number that `FormatInt` and `snprintf` write: they and their null fit into
`kMaxNumberSize` bytes. -/
abbrev NumberText := { s : Bytes // s.length < kMaxNumberSize }

/-- A value of an integer type. -/
abbrev IntType.Value (t : IntType) := { n : ℤ // t.InRange n }

/-- The characters that `IntToString` leaves and counts. -/
def integerText {t : IntType} (number : t.Value) : NumberText :=
  ⟨(intToString number).1.take (intToString number).2,
    lt_of_le_of_lt (List.length_take_le ..)
      (Nat.lt_of_succ_le ((length_intToString_le number.2).trans (by decide)))⟩

/-- **What a statement inserts**, by the overload of `operator<<` that takes it.  A floating-point
number comes as the characters that `snprintf` writes for it, at most 20. -/
inductive Piece
  | bool (express : Bool)
  | integer {t : IntType} (number : t.Value)
  | floating (characters : NumberText)
  | char (str : UInt8)
  | cString (str : Option ShortString)
  | string (str : ShortString)

namespace LogStream

/-- A new stream. -/
def new : LogStream := FixedBuffer.new kSmallBufferSize

/-- The body of `FormatInt`, and of `operator<<` for a floating-point number. -/
def format (b : LogStream) (s : NumberText) : LogStream :=
  if h : b.capacity ≥ kMaxNumberSize then
    ⟨b.data ++ s.1, by
      have hs := s.2
      rw [FixedBuffer.capacity, FixedBuffer.size] at h
      rw [List.length_append]
      omega⟩
  else b

/-- **`operator<<`.** -/
def insert (b : LogStream) : Piece → LogStream
  | .bool express => b.write (if express then text "1" else text "0")
  | .integer number => format b (integerText number)
  | .floating characters => format b characters
  | .char str => b.write [str]
  | .cString (some str) => b.write (str.1.takeWhile (· ≠ 0))
  | .cString none => b.write (text "(null)")
  | .string str => b.write str.1

/-- A row of insertions. -/
def insertAll (b : LogStream) (pieces : List Piece) : LogStream := pieces.foldl insert b

end LogStream

/-! ## The statement -/

/-- The escape sequences of the colours. -/
def escape (code : String) : Bytes := 27 :: text code

/-- `FormatLevel`: `level_str_`, `log_color_` and `is_fatal_`. -/
def formatLevel : ℤ → ShortString × Bytes × Bool
  | 0 => (⟨text " [Debug]: ", by decide⟩, escape "[0;37m", false)
  | 1 => (⟨text " [Info]: ", by decide⟩, escape "[1;32m", false)
  | 2 => (⟨text " [Warning]: ", by decide⟩, escape "[1m", false)
  | 3 => (⟨text " [Error]: ", by decide⟩, escape "[1;31m", false)
  | 4 => (⟨text " [Fatal]: ", by decide⟩, escape "[0;31m", false)
  | _ => (⟨text " [Info]: ", by decide⟩, escape "[0;37m", true)

/-- What follows the last `/`. -/
def baseName (fileName : ShortString) : ShortString :=
  ⟨fileName.1.rtakeWhile (· ≠ Chr.slash),
    lt_of_le_of_lt (List.rtakeWhile_suffix _ _).length_le fileName.2⟩

/-- `time_str_`, with its null. -/
abbrev TimeStr := { s : Bytes // s.length < 26 }

/-- The arguments of `operator<<` for `char*` in the class itself. -/
def literal (s : Bytes) (h : s.length < 2 ^ 31) : Piece := .cString (some ⟨s, h⟩)

/-- **`Logging::Impl`.** -/
structure Impl where
  fileName : ShortString
  line : IntType.int.Value
  level : ℤ
  time : TimeStr
  stream : LogStream

namespace Impl

variable (i : Impl)

def levelStr : ShortString := (formatLevel i.level).1

def logColor : Bytes := (formatLevel i.level).2.1

def isFatal : Bool := (formatLevel i.level).2.2

/-- **What the constructor of `Logging` inserts.** -/
def header : List Piece :=
  [literal i.time.1 (i.time.2.trans (by decide)), literal (text " ") (by decide),
    .string i.fileName, .char Chr.colon, .integer i.line, .string i.levelStr]

end Impl

/-- **A log statement**: where it stands, when it runs, and what it inserts. -/
structure Statement where
  fileName : ShortString
  line : IntType.int.Value
  level : ℤ
  time : TimeStr
  pieces : List Piece

/-- The static members of `Logging` that the destructor reads.  It does not read `open_log_`: what
it tests is the function `open_log` itself. -/
structure Settings where
  minLogLevel : ℤ
  logToStderr : Bool
  colorLogToStderr : Bool

/-- What `~Logging` does: the call of `WriteLog`, what it prints, and `abort()`. -/
structure Destroyed where
  record : Option (Line × Bool)
  printed : Bytes
  aborts : Bool

namespace Statement

variable (st : Statement)

/-- `Impl::Impl` -/
def impl : Impl := ⟨baseName st.fileName, st.line, st.level, st.time, LogStream.new⟩

/-- **The stream before `~Logging`.** -/
def stream : LogStream := ((st.impl.stream.insertAll st.impl.header).insertAll st.pieces)

/-- **`~Logging`.** -/
def destroy (settings : Settings) : Destroyed :=
  if st.level ≥ settings.minLogLevel then
    let buffer := LogStream.insert st.stream (literal (text "\n") (by decide))
    { record := some (Line.ofStream buffer, st.impl.isFatal)
      printed :=
        if settings.logToStderr then
          if settings.colorLogToStderr then st.impl.logColor ++ buffer.data ++ escape "[0m"
          else buffer.data
        else []
      aborts := st.impl.isFatal }
  else ⟨none, [], false⟩

end Statement

/-! ## Pieces by their size -/

namespace Piece

/-- The bytes of an insertion. -/
def bytes : Piece → Bytes
  | bool express => if express then text "1" else text "0"
  | integer number => (integerText number).1
  | floating characters => characters.1
  | char str => [str]
  | cString (some str) => str.1.takeWhile (· ≠ 0)
  | cString none => text "(null)"
  | string str => str.1

/-- The room that an insertion asks for. -/
def need : Piece → ℕ
  | integer _ | floating _ => kMaxNumberSize
  | p => p.bytes.length + 1

/-- The size of a stream after an insertion. -/
def fill (size : ℕ) (p : Piece) : ℕ :=
  if size + p.need ≤ kSmallBufferSize then size + p.bytes.length else size

end Piece

/-! ## One line -/

/-- **The prefix of a statement**: time, file, line and level. -/
def Statement.header (st : Statement) : Bytes := (st.impl.header.map Piece.bytes).flatten

/-- **A record is one line**: it ends with a newline, and starts with the prefix of its statement if
the prefix fits into the buffer. -/
structure OneLine (header record : Bytes) : Prop where
  newline : record.getLast? = some Chr.lf
  starts : header.length < kSmallBufferSize → header <+: record

/-- The prefix up to the number of the line. -/
def Statement.place (st : Statement) : Bytes :=
  ((st.impl.header.take 4).map Piece.bytes).flatten

/-- **Where a statement finds room**: its insertions leave the newline a byte, or end with a newline
of their own; and a prefix that fits leaves the number of the line the room it asks for. -/
structure Statement.HasRoom (st : Statement) : Prop where
  newline : (st.impl.header ++ st.pieces).foldl Piece.fill 0 + 1 < kSmallBufferSize ∨
    st.stream.data.getLast? = some Chr.lf
  line : st.header.length < kSmallBufferSize → st.place.length + kMaxNumberSize ≤ kSmallBufferSize

/-! ## Insertions -/

namespace LogStream

variable {b : LogStream} {p : Piece} {ps : List Piece}

theorem data_write (s : Bytes) :
    (b.write s).data =
      if b.size + (s.length + 1) ≤ kSmallBufferSize then b.data ++ s else b.data := by
  split
  · next h => exact FixedBuffer.data_write (Nat.lt_sub_of_add_lt (by omega))
  · next h =>
    rw [FixedBuffer.write, dif_neg]
    rw [FixedBuffer.capacity]
    omega

theorem data_format (s : NumberText) :
    (format b s).data =
      if b.size + kMaxNumberSize ≤ kSmallBufferSize then b.data ++ s.1 else b.data := by
  have hfits : b.size ≤ kSmallBufferSize := b.fits
  rw [format]
  split
  · next h => rw [if_pos (by rw [FixedBuffer.capacity] at h; omega)]
  · next h => rw [if_neg (by rw [FixedBuffer.capacity] at h; omega)]

/-- **What an insertion does.** -/
theorem data_insert (b : LogStream) : ∀ p : Piece,
    (insert b p).data =
      if b.size + p.need ≤ kSmallBufferSize then b.data ++ p.bytes else b.data
  | .integer _ | .floating _ => data_format _
  | .bool _ | .char _ | .cString (some _) | .cString none | .string _ => data_write _

/-- An insertion that finds room appends its bytes. -/
theorem data_insert_of_le (h : b.size + p.need ≤ kSmallBufferSize) :
    (insert b p).data = b.data ++ p.bytes := by rw [data_insert, if_pos h]

/-- **An insertion that finds none is dropped.** -/
theorem data_insert_of_lt (h : kSmallBufferSize < b.size + p.need) :
    (insert b p).data = b.data := by rw [data_insert, if_neg (not_le.mpr h)]

theorem size_insert : (insert b p).size = p.fill b.size := by
  rw [FixedBuffer.size, data_insert, Piece.fill]
  split
  · exact List.length_append
  · rfl

theorem prefix_insert : b.data <+: (insert b p).data := by
  rw [data_insert]
  split
  · exact List.prefix_append ..
  · exact List.prefix_rfl

/-- **The size after a row of insertions.** -/
theorem size_insertAll (b : LogStream) : (b.insertAll ps).size = ps.foldl Piece.fill b.size := by
  induction ps generalizing b with
  | nil => rfl
  | cons p ps ih =>
    rw [insertAll, List.foldl_cons, List.foldl_cons, ← size_insert]
    exact ih (insert b p)

/-- A row of insertions keeps what there is. -/
theorem prefix_insertAll (b : LogStream) : b.data <+: (b.insertAll ps).data := by
  induction ps generalizing b with
  | nil => exact List.prefix_rfl
  | cons p ps ih => exact prefix_insert.trans (ih (insert b p))

@[simp] theorem insertAll_singleton : b.insertAll [p] = insert b p := rfl

theorem insertAll_concat (q r : Piece) :
    b.insertAll (ps ++ [q, r]) = insert (insert (b.insertAll ps) q) r := by
  simp only [insertAll, List.foldl_append, List.foldl_cons, List.foldl_nil]

theorem insertAll_append (qs : List Piece) :
    b.insertAll (ps ++ qs) = (b.insertAll ps).insertAll qs :=
  List.foldl_append

/-- Strings that fit together are all taken. -/
theorem data_insertAll_of_lt (b : LogStream) (hs : ∀ p ∈ ps, p.need = p.bytes.length + 1)
    (h : b.size + ((ps.map Piece.bytes).flatten).length < kSmallBufferSize) :
    (b.insertAll ps).data = b.data ++ (ps.map Piece.bytes).flatten := by
  induction ps generalizing b with
  | nil => exact (List.append_nil _).symm
  | cons p ps ih =>
    rw [List.map_cons, List.flatten_cons, List.length_append] at h
    have hdata : (insert b p).data = b.data ++ p.bytes := data_insert_of_le (by
      rw [hs p (List.mem_cons_self ..)]
      omega)
    have hsize : (insert b p).size = b.size + p.bytes.length := by
      rw [FixedBuffer.size, hdata, List.length_append, FixedBuffer.size]
    rw [insertAll, List.foldl_cons, ← insertAll, List.map_cons, List.flatten_cons,
      ih (insert b p) (fun q hq => hs q (List.mem_cons_of_mem p hq)) (by rw [hsize]; omega), hdata,
      List.append_assoc]

end LogStream

/-! ## The prefix -/

theorem integerText_eq {t : IntType} (number : t.Value) :
    (integerText number).1 = numeral number.1.natAbs := by
  have htake : (intToString number.1).1.take (intToString number.1).2
    = numeral number.1.natAbs := by
    rw [intToString_eq]
    exact List.take_left' rfl
  exact htake

/-- Every level is written behind a blank. -/
theorem formatLevel_eq_cons (level : ℤ) : ∃ s, (formatLevel level).1.1 = Chr.space :: s := by
  unfold formatLevel
  split <;> exact ⟨_, rfl⟩

/-- A level does not read like a number. -/
theorem not_formatLevel_prefix {t : IntType} (level : ℤ) (number : t.Value) (s : Bytes) :
    ¬ (formatLevel level).1.1 <+: (integerText number).1 ++ s := by
  obtain ⟨l, hl⟩ := formatLevel_eq_cons level
  obtain ⟨c, d, hcd, -⟩ := (isNumeral_numeral number.1.natAbs).leading
  have hc := (isNumeral_numeral number.1.natAbs).digit c (by rw [hcd]; exact List.mem_cons_self ..)
  rw [hl, integerText_eq, hcd, List.cons_append, List.cons_prefix_cons]
  rintro ⟨rfl, -⟩
  exact absurd hc.1 (by decide)

namespace Statement

variable {st : Statement}

/-- The stream that the constructor leaves. -/
def built (st : Statement) : LogStream := LogStream.new.insertAll st.impl.header

theorem header_eq (st : Statement) :
    st.header = st.place ++ ((integerText st.line).1 ++ (formatLevel st.level).1.1) := by
  simp only [header, place, Impl.header, List.take_succ_cons, List.take_zero, List.map_cons,
    List.map_nil, List.flatten_cons, List.flatten_nil, List.append_nil, List.append_assoc]
  rfl

/-- The prefix up to the number of the line is taken where the whole fits. -/
theorem data_place (h : st.header.length < kSmallBufferSize) :
    (LogStream.new.insertAll (st.impl.header.take 4)).data = st.place := by
  rw [header_eq, List.length_append] at h
  refine LogStream.data_insertAll_of_lt LogStream.new (fun p hp => ?_) ?_
  · simp only [Impl.header, List.take_succ_cons, List.take_zero, List.mem_cons,
      List.not_mem_nil, or_false] at hp
    obtain rfl | rfl | rfl | rfl := hp <;> rfl
  · rw [LogStream.new, FixedBuffer.size_new, Nat.zero_add]
    exact lt_of_le_of_lt (Nat.le_add_right ..) h

/-- The number and the level follow. -/
theorem built_eq (st : Statement) :
    st.built = LogStream.insert
      (LogStream.insert (LogStream.new.insertAll (st.impl.header.take 4)) (.integer st.line))
      (.string (formatLevel st.level).1) := by
  have hcut : st.impl.header = st.impl.header.take 4 ++
      [.integer st.line, .string (formatLevel st.level).1] := rfl
  exact (congrArg LogStream.new.insertAll hcut).trans (LogStream.insertAll_concat _ _)

/-- **A prefix that finds room is written.** -/
theorem data_built_of_le (h : st.header.length < kSmallBufferSize)
    (hl : st.place.length + kMaxNumberSize ≤ kSmallBufferSize) : st.built.data = st.header := by
  have hplace := data_place h
  have hline : (LogStream.insert (LogStream.new.insertAll (st.impl.header.take 4))
      (.integer st.line)).data = st.place ++ (integerText st.line).1 := by
    rw [LogStream.data_insert_of_le, hplace]
    · rfl
    · rw [FixedBuffer.size, hplace]
      exact hl
  rw [header_eq] at h ⊢
  rw [built_eq, LogStream.data_insert_of_le, hline, List.append_assoc]
  · rfl
  · rw [FixedBuffer.size, hline]
    rw [← List.append_assoc, List.length_append] at h
    exact h

/-- **A number that finds no room is left out of the prefix.** -/
theorem data_built_of_lt (h : st.header.length < kSmallBufferSize)
    (hl : kSmallBufferSize < st.place.length + kMaxNumberSize) :
    st.built.data = st.place ++ (formatLevel st.level).1.1 := by
  have hplace := data_place h
  have hline : (LogStream.insert (LogStream.new.insertAll (st.impl.header.take 4))
      (.integer st.line)).data = st.place := by
    rw [LogStream.data_insert_of_lt, hplace]
    rw [FixedBuffer.size, hplace]
    exact hl
  rw [header_eq, List.length_append, List.length_append] at h
  rw [built_eq, LogStream.data_insert_of_le, hline]
  · rfl
  · have hlast : st.place.length + ((formatLevel st.level).1.1.length + 1) ≤ kSmallBufferSize := by
      omega
    rw [FixedBuffer.size, hline]
    exact hlast

/-! ## The record -/

/-- What the destructor writes. -/
def closed (st : Statement) : LogStream :=
  LogStream.insert st.stream (literal (text "\n") (by decide))

/-- The record of a statement at an enabled level. -/
theorem oneLine_record_iff {settings : Settings} (h : settings.minLogLevel ≤ st.level) :
    (∃ line isFatal, (st.destroy settings).record = some (line, isFatal) ∧
        OneLine st.header line.bytes) ↔ OneLine st.header st.closed.data := by
  rw [destroy, if_pos h]
  constructor
  · rintro ⟨line, isFatal, hrecord, hone⟩
    obtain ⟨rfl, -⟩ := Prod.ext_iff.mp (Option.some.inj hrecord)
    exact hone
  · exact fun hone => ⟨_, _, rfl, hone⟩

theorem stream_eq_built (st : Statement) : st.stream = st.built.insertAll st.pieces := rfl

theorem stream_eq (st : Statement) :
    st.stream = LogStream.new.insertAll (st.impl.header ++ st.pieces) :=
  (LogStream.insertAll_append st.pieces).symm

theorem size_stream (st : Statement) :
    st.stream.size = (st.impl.header ++ st.pieces).foldl Piece.fill 0 := by
  rw [stream_eq, LogStream.size_insertAll, LogStream.new, FixedBuffer.size_new]

theorem built_prefix (st : Statement) : st.built.data <+: st.closed.data :=
  (LogStream.prefix_insertAll st.built).trans LogStream.prefix_insert

/-- **When a record ends with a newline.** -/
theorem newline_iff (st : Statement) :
    st.closed.data.getLast? = some Chr.lf ↔
      (st.impl.header ++ st.pieces).foldl Piece.fill 0 + 1 < kSmallBufferSize ∨
        st.stream.data.getLast? = some Chr.lf := by
  rw [← size_stream]
  by_cases h : st.stream.size + 1 < kSmallBufferSize
  · have hdata : st.closed.data = st.stream.data ++ [Chr.lf] := LogStream.data_insert_of_le h
    rw [hdata, List.getLast?_concat]
    exact iff_of_true rfl (.inl h)
  · have hdata : st.closed.data = st.stream.data :=
      LogStream.data_insert_of_lt (lt_of_not_ge h)
    rw [hdata, or_iff_right h]

/-- **When a record starts with a prefix that fits.** -/
theorem header_prefix_iff (h : st.header.length < kSmallBufferSize) :
    st.header <+: st.closed.data ↔ st.place.length + kMaxNumberSize ≤ kSmallBufferSize := by
  constructor
  · intro hpre
    by_contra hl
    have hbuilt := data_built_of_lt h (not_le.mp hl)
    have hlen : st.built.data.length ≤ st.header.length := by
      rw [hbuilt, header_eq, List.length_append, List.length_append, List.length_append]
      omega
    have hcut := List.prefix_of_prefix_length_le st.built_prefix hpre hlen
    rw [hbuilt, header_eq, List.prefix_append_right_inj] at hcut
    exact not_formatLevel_prefix _ _ _ hcut
  · intro hl
    rw [← data_built_of_le h hl]
    exact st.built_prefix

theorem oneLine_closed_iff (st : Statement) :
    OneLine st.header st.closed.data ↔ st.HasRoom :=
  ⟨fun h => ⟨st.newline_iff.mp h.newline, fun hh => (header_prefix_iff hh).mp (h.starts hh)⟩,
    fun h => ⟨st.newline_iff.mpr h.newline, fun hh => (header_prefix_iff hh).mpr (h.line hh)⟩⟩

/-! ## One statement, one line -/

/-- **Exactly the statements that find room are one line**: of a statement at an enabled level, the
record that the destructor passes on. -/
theorem oneLine_iff_hasRoom (st : Statement) (settings : Settings)
    (h : settings.minLogLevel ≤ st.level) :
    (∃ line isFatal, (st.destroy settings).record = some (line, isFatal) ∧
        OneLine st.header line.bytes) ↔ st.HasRoom := by
  rw [oneLine_record_iff h, oneLine_closed_iff]

/-- A statement in `a.cpp`, line 7, at the level `INFO`. -/
def sample (pieces : List Piece) : Statement where
  fileName := ⟨text "src/a.cpp", by decide⟩
  line := ⟨7, by decide⟩
  level := 1
  time := ⟨text "2024-01-01 00:00:00", by decide⟩
  pieces := pieces

/-- The settings the program starts with. -/
def Settings.default : Settings := ⟨0, false, false⟩

/-- A text, a character, a `bool` and a null pointer. -/
def insertions : List Piece :=
  [.string ⟨text "count", by decide⟩, .char 61, .bool true, .cString none]

/-- A statement with insertions. -/
theorem oneLine_insertions :
    ∃ line isFatal, ((sample insertions).destroy Settings.default).record = some (line, isFatal) ∧
      OneLine (sample insertions).header line.bytes :=
  ((sample insertions).oneLine_iff_hasRoom Settings.default (by decide)).mpr
    ⟨.inl (by decide +kernel), fun _ => by decide +kernel⟩

/-- **A string that fills the buffer up to its last byte takes the place of the newline.** -/
theorem newline_lost {c : UInt8} {s : ShortString} (hp : st.pieces = [.string s])
    (hfull : st.built.size + s.1.length + 1 = kSmallBufferSize) (hs : s.1.getLast? = some c)
    (hc : c ≠ Chr.lf) : st.closed.data.getLast? ≠ some Chr.lf := by
  have hneed : (Piece.string s).need = s.1.length + 1 := rfl
  have hdata : st.stream.data = st.built.data ++ s.1 := by
    rw [stream_eq_built, hp, LogStream.insertAll_singleton, LogStream.data_insert_of_le]
    · rfl
    · rw [hneed, ← Nat.add_assoc, hfull]
  rw [Ne, newline_iff, ← size_stream, FixedBuffer.size, hdata, List.length_append,
    List.getLast?_append, hs]
  rintro (hroom | hlast)
  · exact absurd hfull (by rw [FixedBuffer.size]; exact hroom.ne)
  · exact hc (Option.some.inj hlast)

/-- A string that fills the sample's stream up to its last byte. -/
def filler : ShortString :=
  ⟨List.replicate 3963 120, lt_of_eq_of_lt List.length_replicate (by decide)⟩

/-- **A statement that leaves the newline no byte.**  The prefix takes 36 bytes, the string 3963. -/
theorem not_oneLine_filler :
    ¬ ∀ (st : Statement) (settings : Settings), settings.minLogLevel ≤ st.level →
      ∃ line isFatal, (st.destroy settings).record = some (line, isFatal) ∧
        OneLine st.header line.bytes := by
  intro hall
  have hlevel : Settings.default.minLogLevel ≤ (sample [.string filler]).level := by decide
  have hone := (oneLine_record_iff hlevel).mp (hall _ _ hlevel)
  have hbuilt : ∀ pieces, (sample pieces).built.size = 36 := fun pieces => by
    rw [built, LogStream.size_insertAll]
    exact (by decide +kernel : (sample []).impl.header.foldl Piece.fill 0 = 36)
  refine newline_lost (c := 120) (s := filler) rfl ?_ ?_ (by decide) hone.newline
  · rw [hbuilt, filler, List.length_replicate]
  · rw [filler, List.getLast?_replicate, if_neg (by decide)]

end Statement

end WebServer.Log
