import WebServer.Lib.CInt
import WebServer.Utility.SocketUtils

/-!
# Utility/Conservation — the two loops with the counters they keep

`Read` and `Write` once more, with `int` counters, and `Write` with the pointer into its buffer.  A
call that overflows a counter is undefined, and one whose script ends inside its loop goes on
calling the kernel; of every other call `read` and `write` are the closed form (`readLoop_eq`,
`write_eq`), so whatever happened in between, a call that does not fail leaves every byte on one
side of the socket (`loops_conserve`).
-/

namespace WebServer.Utility.Counted

/-- Why a call has not returned. -/
inductive Unfinished
  /-- Its script ends, and the loop goes on. -/
  | blocked
  /-- A counter overflows. -/
  | overflow
  deriving DecidableEq

/-! ## Reading -/

/-- The loop of **`Read(int, std::string&, bool&)`**. -/
def readLoop : List ReadResult → Bytes → ℤ → Bool → Except Unfinished ReadReport
  | [], _, _, _ => .error .blocked
  | .data b :: rs, readBuffer, readSumBytes, isReadZeroBytes =>
    if b.length = 0 then .ok ⟨readSumBytes, readBuffer, true, rs⟩
    else
      match CInt.add readSumBytes b.length with
      | none => .error .overflow
      | some sum => readLoop rs (readBuffer ++ b) sum isReadZeroBytes
  | .interrupted :: rs, readBuffer, readSumBytes, isReadZeroBytes =>
    readLoop rs readBuffer readSumBytes isReadZeroBytes
  | .again :: rs, readBuffer, readSumBytes, isReadZeroBytes =>
    .ok ⟨readSumBytes, readBuffer, isReadZeroBytes, rs⟩
  | .failed :: rs, readBuffer, _, isReadZeroBytes => .ok ⟨-1, readBuffer, isReadZeroBytes, rs⟩

/-- **`Read(int, std::string&, bool&)`**; the flag is only ever set. -/
def read (script : List ReadResult) (readBuffer : Bytes) (isReadZeroBytes : Bool) :
    Except Unfinished ReadReport :=
  readLoop script readBuffer 0 isReadZeroBytes

/-! ## Writing -/

/-- **The locals of `Write`**, the pointer as an offset into the string, and what the kernel has
accepted so far. -/
structure Locals where
  size : ℤ
  writeSumBytes : ℤ
  buffer : ℕ
  accepted : Bytes

/-- A call of `write` that takes `n` bytes, but no more than it is offered. -/
def Locals.transfer (l : Locals) (writeBuffer : Bytes) (n : ℕ) : Except Unfinished Locals :=
  let writeBytes := min n l.size.toNat
  match CInt.add l.writeSumBytes writeBytes with
  | none => .error .overflow
  | some sum => .ok
    { size := l.size - writeBytes
      writeSumBytes := sum
      buffer := l.buffer + writeBytes
      accepted := l.accepted ++ (writeBuffer.drop l.buffer).take writeBytes }

/-- The loop of **`Write(int, std::string&)`**: whether it returns from within, and the script that
remains. -/
def writeLoop (writeBuffer : Bytes) :
    List WriteResult → Locals → Except Unfinished (Bool × Locals × List WriteResult)
  | [], l => if l.size > 0 then .error .blocked else .ok (false, l, [])
  | r :: rs, l =>
    if l.size > 0 then
      match r with
      | .accept n =>
        match l.transfer writeBuffer n with
        | .error e => .error e
        | .ok l' => writeLoop writeBuffer rs l'
      | .interrupted => writeLoop writeBuffer rs l
      | .again => .ok (false, l, rs)
      | .failed => .ok (true, l, rs)
    else .ok (false, l, r :: rs)

/-- **`Write(int, std::string&)`.** -/
def write (script : List WriteResult) (writeBuffer : Bytes) : Except Unfinished WriteReport :=
  match writeLoop writeBuffer script ⟨CInt.convert writeBuffer.length, 0, 0, []⟩ with
  | .error e => .error e
  | .ok (true, l, rest) => .ok ⟨-1, l.accepted, writeBuffer, rest⟩
  | .ok (false, l, rest) => .ok ⟨l.writeSumBytes, l.accepted,
      if l.writeSumBytes = writeBuffer.length then []
      else substr writeBuffer l.writeSumBytes.toNat none, rest⟩

/-! ## What a read brings in -/

/-- **A call of `Read` that returns is `read`.** -/
theorem readLoop_eq : ∀ {rs : List ReadResult} {buffer : Bytes} {sum : ℕ} {flag : Bool}
    {r : ReadReport}, readLoop rs buffer sum flag = .ok r →
      r = { Utility.readLoop rs buffer sum with
        isReadZeroBytes := flag || (Utility.readLoop rs buffer sum).isReadZeroBytes }
  | [], _, _, _, _, h => absurd h (by simp [readLoop])
  | .data b :: rs, buffer, sum, flag, r, h => by
      rw [readLoop] at h
      rw [Utility.readLoop]
      by_cases hb : b = []
      · rw [if_pos (List.length_eq_zero_iff.mpr hb)] at h
        rw [if_pos hb, Bool.or_true]
        exact (Except.ok.inj h).symm
      · rw [if_neg (mt List.length_eq_zero_iff.mp hb)] at h
        rw [if_neg hb]
        cases hadd : CInt.add sum b.length with
        | none =>
          rw [hadd] at h
          exact absurd h (by simp)
        | some c =>
          rw [hadd, CInt.eq_of_add hadd, ← Int.natCast_add] at h
          exact readLoop_eq h
  | .interrupted :: rs, _, _, _, _, h => by
      rw [readLoop] at h
      rw [Utility.readLoop]
      exact readLoop_eq h
  | .again :: rs, _, _, flag, _, h => by
      rw [Utility.readLoop, Bool.or_false]
      exact (Except.ok.inj h).symm
  | .failed :: rs, _, _, flag, _, h => by
      rw [Utility.readLoop, Bool.or_false]
      exact (Except.ok.inj h).symm

/-- **A read that is brought less than `2³¹` bytes overflows nothing.** -/
theorem readLoop_ne_overflow : ∀ {rs : List ReadResult} {buffer : Bytes} {sum : ℕ} {flag : Bool},
    sum + (pending rs).length < 2 ^ 31 → readLoop rs buffer sum flag ≠ .error .overflow
  | [], _, _, _, _ => by simp [readLoop]
  | .data b :: rs, buffer, sum, flag, h => by
      rw [pending, List.length_append] at h
      rw [readLoop]
      split
      · simp
      · rw [CInt.add_of_lt (by omega) (by omega), ← Int.natCast_add]
        exact readLoop_ne_overflow (by omega)
  | .interrupted :: rs, _, _, _, h => by
      rw [readLoop]
      exact readLoop_ne_overflow h
  | .again :: _, _, _, _, _ => by simp [readLoop]
  | .failed :: _, _, _, _, _ => by simp [readLoop]

/-- **What the calls of a read leave**: the bytes that they brought in, appended and counted, and
end of file if it was seen. -/
structure Leaves (r : ReadReport) (rs : List ReadResult) (buffer : Bytes) (sum : ℕ)
    (calls : List ReadResult) : Prop where
  script : rs = calls ++ r.rest
  buffer : r.buffer = buffer ++ pending calls
  count : r.count < 0 ∨ r.count = (sum + (pending calls).length : ℕ)
  flag : r.isReadZeroBytes = true ↔ .data [] ∈ calls

variable {r : ReadReport} {x : ReadResult} {rs calls : List ReadResult} {buffer : Bytes} {sum : ℕ}

/-- A call after which the loop goes on. -/
theorem Leaves.cons (h : Leaves r rs (buffer ++ pending [x]) (sum + (pending [x]).length) calls)
    (hx : x ≠ .data []) : Leaves r (x :: rs) buffer sum (x :: calls) where
  script := by rw [h.script, List.cons_append]
  buffer := by
    rw [h.buffer, List.append_assoc]
    cases x <;> simp [pending]
  count := by
    have hlen : (pending (x :: calls)).length = (pending [x]).length + (pending calls).length := by
      cases x <;> simp [pending]
    rw [hlen, ← Nat.add_assoc]
    exact h.count
  flag := by
    rw [h.flag, List.mem_cons, or_iff_right hx.symm]

theorem readLoop_leaves : ∀ (rs : List ReadResult) (buffer : Bytes) (sum : ℕ),
    ∃ calls, Leaves (Utility.readLoop rs buffer sum) rs buffer sum calls
  | [], buffer, sum => ⟨[], rfl, (List.append_nil _).symm, .inr rfl, by simp [Utility.readLoop]⟩
  | .data b :: rs, buffer, sum => by
      rw [Utility.readLoop]
      by_cases hb : b = []
      · rw [if_pos hb, hb]
        exact ⟨[.data []], rfl, (List.append_nil _).symm, .inr rfl, by simp⟩
      · rw [if_neg hb]
        obtain ⟨calls, h⟩ := readLoop_leaves rs (buffer ++ b) (sum + b.length)
        have hpending : pending [.data b] = b := List.append_nil b
        refine ⟨.data b :: calls, Leaves.cons ?_ fun e => hb (ReadResult.data.inj e)⟩
        rw [hpending]
        exact h
  | .interrupted :: rs, buffer, sum => by
      obtain ⟨calls, h⟩ := readLoop_leaves rs buffer sum
      have hpending : pending [.interrupted] = [] := rfl
      refine ⟨.interrupted :: calls, Leaves.cons ?_ (by simp)⟩
      rw [hpending, List.append_nil]
      exact h
  | .again :: rs, buffer, sum =>
    ⟨[.again], rfl, (List.append_nil _).symm, .inr rfl, by simp [Utility.readLoop]⟩
  | .failed :: rs, buffer, sum =>
    ⟨[.failed], rfl, (List.append_nil _).symm, .inl (by simp [Utility.readLoop]),
      by simp [Utility.readLoop]⟩

/-! ## What a write sends -/

/-- **What the locals keep**: the string is what was taken and what is left, and `size`, the sum and
the pointer say where the one ends. -/
structure Locals.Tracks (l : Locals) (writeBuffer left taken : Bytes) : Prop where
  split : writeBuffer = taken ++ left
  size : l.size = left.length
  writeSumBytes : l.writeSumBytes = taken.length
  buffer : l.buffer = taken.length
  accepted : l.accepted = taken

variable {l : Locals} {writeBuffer left taken : Bytes}

/-- **A transfer** takes the next bytes, and overflows nothing. -/
theorem Locals.Tracks.transfer (h : l.Tracks writeBuffer left taken)
    (hlen : writeBuffer.length < 2 ^ 31) (n : ℕ) : ∃ l', l.transfer writeBuffer n = .ok l' ∧
      l'.Tracks writeBuffer (left.drop n) (taken ++ left.take n) := by
  have hn : min n l.size.toNat = (left.take n).length := by
    rw [h.size, Int.toNat_natCast, List.length_take]
  have hsum : taken.length + left.length = writeBuffer.length := by
    rw [h.split, List.length_append]
  have hle : (left.take n).length ≤ left.length := List.length_take_le' ..
  unfold Locals.transfer
  dsimp only
  rw [hn, h.writeSumBytes, CInt.add_of_lt (by omega) (by omega)]
  refine ⟨_, rfl, ?_, ?_, ?_, ?_, ?_⟩
  · rw [List.append_assoc, List.take_append_drop]
    exact h.split
  · have hcut := congrArg List.length (List.take_append_drop n left)
    rw [List.length_append] at hcut
    change l.size - ((left.take n).length : ℤ) = (left.drop n).length
    rw [h.size, ← hcut]
    omega
  · rw [List.length_append, Int.natCast_add]
  · rw [h.buffer, List.length_append]
  · have htake : left.take (left.take n).length = left.take n := by
      rw [List.length_take, ← List.take_eq_take_min]
    rw [h.accepted, h.buffer, h.split, List.drop_left, htake]

/-- The bytes that calls of `write` take off a string, in the order they are taken. -/
def takenBy : List WriteResult → Bytes → Bytes
  | .accept n :: rs, b => b.take n ++ takenBy rs (b.drop n)
  | _ :: rs, b => takenBy rs b
  | [], _ => []

/-- **What the loop has sent** is what its calls took. -/
theorem writeLoop_calls : ∀ (rs : List WriteResult) {l l' : Locals} {left before : Bytes}
    {failed : Bool} {rest : List WriteResult}, l.Tracks writeBuffer left before →
    writeBuffer.length < 2 ^ 31 → writeLoop writeBuffer rs l = .ok (failed, l', rest) →
      ∃ calls, rs = calls ++ rest ∧ l'.accepted = l.accepted ++ takenBy calls left
  | [], l, l', left, _, failed, rest, _, _, hrun => by
      rw [writeLoop] at hrun
      split at hrun
      · exact absurd hrun (by simp)
      · obtain ⟨-, rfl, rfl⟩ : false = failed ∧ l = l' ∧ [] = rest := by simpa using hrun
        exact ⟨[], rfl, (List.append_nil _).symm⟩
  | r :: rs, l, l', left, before, failed, rest, h, hlen, hrun => by
      by_cases hsize : l.size > 0
      · cases r with
        | accept n =>
          obtain ⟨l₁, htransfer, h₁⟩ := h.transfer hlen n
          rw [writeLoop, if_pos hsize, htransfer] at hrun
          obtain ⟨calls, hcalls, haccepted⟩ := writeLoop_calls rs h₁ hlen hrun
          refine ⟨.accept n :: calls, by rw [hcalls, List.cons_append], ?_⟩
          rw [haccepted, h₁.accepted, h.accepted, List.append_assoc, takenBy]
        | interrupted =>
          rw [writeLoop, if_pos hsize] at hrun
          obtain ⟨calls, hcalls, haccepted⟩ := writeLoop_calls rs h hlen hrun
          exact ⟨.interrupted :: calls, by rw [hcalls, List.cons_append], haccepted⟩
        | again =>
          rw [writeLoop, if_pos hsize] at hrun
          obtain ⟨-, rfl, rfl⟩ : false = failed ∧ l = l' ∧ rs = rest := by simpa using hrun
          exact ⟨[.again], rfl, (List.append_nil _).symm⟩
        | failed =>
          rw [writeLoop, if_pos hsize] at hrun
          obtain ⟨-, rfl, rfl⟩ : true = failed ∧ l = l' ∧ rs = rest := by simpa using hrun
          exact ⟨[.failed], rfl, (List.append_nil _).symm⟩
      · have hend : writeLoop writeBuffer (r :: rs) l = .ok (false, l, r :: rs) := if_neg hsize
        obtain ⟨-, rfl, rfl⟩ : false = failed ∧ l = l' ∧ r :: rs = rest := by
          simpa using hend.symm.trans hrun
        exact ⟨[], rfl, (List.append_nil _).symm⟩

/-- **A call of `Write` runs like `write`**, up to the end of its script. -/
theorem writeLoop_eq : ∀ (rs : List WriteResult) {l : Locals} {left taken : Bytes},
    l.Tracks writeBuffer left taken → writeBuffer.length < 2 ^ 31 →
      writeLoop writeBuffer rs l = .error .blocked ∨ ∃ l' left',
        writeLoop writeBuffer rs l = .ok ((Utility.writeLoop rs left taken).1, l',
          (Utility.writeLoop rs left taken).2.2) ∧
        l'.Tracks writeBuffer left' (Utility.writeLoop rs left taken).2.1
  | rs, l, [], taken, h, _ => by
      have hsize : ¬ l.size > 0 := by
        rw [h.size]
        exact Int.lt_irrefl 0
      have hend : writeLoop writeBuffer rs l = .ok (false, l, rs) := by
        cases rs <;> exact if_neg hsize
      refine .inr ⟨l, [], ?_, ?_⟩ <;> rw [Utility.writeLoop]
      · exact hend
      · exact h
  | [], l, c :: left, taken, h, _ => by
      have hsize : l.size > 0 := by rw [h.size, List.length_cons]; omega
      exact .inl (if_pos hsize)
  | r :: rs, l, c :: left, taken, h, hlen => by
      have hsize : l.size > 0 := by rw [h.size, List.length_cons]; omega
      cases r with
      | accept n =>
        obtain ⟨l', htransfer, h'⟩ := h.transfer hlen n
        rw [writeLoop, if_pos hsize, htransfer, Utility.writeLoop]
        · exact writeLoop_eq rs h' hlen
        · exact List.cons_ne_nil _ _
      | interrupted =>
        rw [writeLoop, if_pos hsize]
        exact writeLoop_eq rs h hlen
      | again =>
        rw [writeLoop, if_pos hsize]
        exact .inr ⟨l, c :: left, rfl, h⟩
      | failed =>
        rw [writeLoop, if_pos hsize]
        exact .inr ⟨l, c :: left, rfl, h⟩

/-- The locals that `Write` starts with. -/
theorem tracks_init (h : writeBuffer.length < 2 ^ 31) :
    (⟨CInt.convert writeBuffer.length, 0, 0, []⟩ : Locals).Tracks writeBuffer writeBuffer [] where
  split := rfl
  size := by
    have hlt : (writeBuffer.length : ℤ) < 2 ^ 31 := by omega
    dsimp only
    rw [CInt.convert_of_lt (Int.natCast_nonneg _) hlt]
  writeSumBytes := rfl
  buffer := rfl
  accepted := rfl

/-- **A call of `Write` is `write`**, or has not come to its end. -/
theorem write_eq (h : writeBuffer.length < 2 ^ 31) (script : List WriteResult) :
    write script writeBuffer = .error .blocked ∨
      write script writeBuffer = .ok (Utility.write script writeBuffer) := by
  unfold write Utility.write
  obtain hloop | ⟨l, left, hloop, ht⟩ := writeLoop_eq script (tracks_init h) h
  · rw [hloop]
    exact .inl rfl
  · rw [hloop]
    generalize Utility.writeLoop script writeBuffer [] = w at ht
    obtain ⟨failed, taken, rest⟩ := w
    refine .inr ?_
    cases failed with
    | true =>
      dsimp only
      rw [ht.accepted, if_pos rfl]
    | false =>
      dsimp only
      rw [ht.accepted, ht.writeSumBytes, Int.toNat_natCast, if_neg Bool.false_ne_true]
      simp only [Int.natCast_inj, substr]

/-- **What `Write` has sent** is what its calls took. -/
theorem write_calls {script : List WriteResult} {r : WriteReport} (h : writeBuffer.length < 2 ^ 31)
    (hr : write script writeBuffer = .ok r) :
    ∃ calls, script = calls ++ r.rest ∧ r.accepted = takenBy calls writeBuffer := by
  rw [write] at hr
  cases hloop : writeLoop writeBuffer script ⟨CInt.convert writeBuffer.length, 0, 0, []⟩ with
  | error e =>
    rw [hloop] at hr
    exact absurd hr (by simp)
  | ok w =>
    obtain ⟨failed, l, rest⟩ := w
    rw [hloop] at hr
    obtain ⟨calls, hcalls, haccepted⟩ := writeLoop_calls script (tracks_init h) h hloop
    rw [List.nil_append] at haccepted
    cases failed with
    | true =>
      obtain rfl := Except.ok.inj hr
      exact ⟨calls, hcalls, haccepted⟩
    | false =>
      obtain rfl := Except.ok.inj hr
      exact ⟨calls, hcalls, haccepted⟩

/-! ## Conservation -/

/-- What a `Write` that does not fail leaves. -/
theorem write_conserves_of_nonneg {script : List WriteResult} {r : WriteReport}
    (h : writeBuffer.length < 2 ^ 31) (hr : write script writeBuffer = .ok r) (hn : 0 ≤ r.count) :
    (r.accepted.length : ℤ) = r.count ∧ r.accepted ++ r.buffer = writeBuffer := by
  obtain hw | hw := write_eq h script
  · exact absurd (hw.symm.trans hr) (by simp)
  · obtain rfl := Except.ok.inj (hw.symm.trans hr)
    refine ⟨?_, write_conserves hn⟩
    unfold Utility.write at hn ⊢
    dsimp only at hn ⊢
    split
    · next hf =>
      rw [if_pos hf] at hn
      exact absurd hn (by decide : ¬ (0 : ℤ) ≤ -1)
    · rfl

/-- What a `Read` that does not fail leaves. -/
theorem read_conserves_of_nonneg {script : List ReadResult} {flag : Bool}
    (hr : read script buffer flag = .ok r) (hn : 0 ≤ r.count) :
    ∃ calls, script = calls ++ r.rest ∧ r.buffer = buffer ++ pending calls ∧
      r.count = (pending calls).length ∧
      (r.isReadZeroBytes = true ↔ flag = true ∨ .data [] ∈ calls) := by
  obtain ⟨calls, h⟩ := readLoop_leaves script buffer 0
  have hloop : readLoop script buffer (0 : ℕ) flag = .ok r := hr
  obtain rfl := readLoop_eq hloop
  refine ⟨calls, h.script, h.buffer, ?_, ?_⟩
  · have hcount := h.count.resolve_left (Int.not_lt.mpr hn)
    rw [Nat.zero_add] at hcount
    exact hcount
  · rw [← h.flag]
    exact Bool.or_eq_true_iff

/-- **The loops conserve bytes** — a `Write` that answers `n ≥ 0` has sent the first `n` bytes of
its buffer, those that its calls took, and keeps the others; a `Read` that answers `n ≥ 0` has
appended the `n` bytes that its calls brought in, and sets the flag when one of them finds the end
of the file. -/
theorem loops_conserve :
    (∀ (script : List WriteResult) (writeBuffer : Bytes) (r : WriteReport),
      writeBuffer.length < 2 ^ 31 → write script writeBuffer = .ok r → 0 ≤ r.count →
        (r.accepted.length : ℤ) = r.count ∧ r.accepted = writeBuffer.take r.count.toNat ∧
          r.buffer = writeBuffer.drop r.count.toNat ∧
          ∃ calls, script = calls ++ r.rest ∧ r.accepted = takenBy calls writeBuffer) ∧
    (∀ (script : List ReadResult) (readBuffer : Bytes) (flag : Bool) (r : ReadReport),
      read script readBuffer flag = .ok r → 0 ≤ r.count →
        ∃ calls, script = calls ++ r.rest ∧ r.buffer = readBuffer ++ pending calls ∧
          r.count = (pending calls).length ∧
          (r.isReadZeroBytes = true ↔ flag = true ∨ .data [] ∈ calls)) := by
  refine ⟨fun script writeBuffer r h hr hn => ?_, fun _ _ _ _ => read_conserves_of_nonneg⟩
  obtain ⟨hcount, hsplit⟩ := write_conserves_of_nonneg h hr hn
  refine ⟨hcount, ?_, ?_, write_calls h hr⟩ <;> rw [← hcount, Int.toNat_natCast, ← hsplit]
  · rw [List.take_left]
  · rw [List.drop_left]

/-- Two bytes of three are sent before the socket blocks; two are read before the end. -/
theorem loops_conserve_two :
    (((text "ab").length : ℤ) = 2 ∧ text "ab" = (text "abc").take 2 ∧
      text "c" = (text "abc").drop 2 ∧
      ∃ calls, [.interrupted, .accept 2, .again] = calls ++ [] ∧
        text "ab" = takenBy calls (text "abc")) ∧
    ∃ calls, [.data (text "yz"), .interrupted, .data []] = calls ++ [] ∧
      text "xyz" = text "x" ++ pending calls ∧ (2 : ℤ) = (pending calls).length ∧
      (true = true ↔ false = true ∨ .data [] ∈ calls) :=
  ⟨loops_conserve.1 [.interrupted, .accept 2, .again] (text "abc") ⟨2, text "ab", text "c", []⟩
    (by decide) (by rw [write, CInt.convert_of_lt (by decide) (by decide)]; rfl) (by decide),
    loops_conserve.2 [.data (text "yz"), .interrupted, .data []] (text "x") false
      ⟨2, text "xyz", true, []⟩ rfl (by decide)⟩

end WebServer.Utility.Counted
