import WebServer.Http.ParseHeader
import WebServer.Http.Request

/-!
# Http/HeaderTrace — the scanner on well-formed header lines

The scanner runs over the lines of a header field by field (`headerLoop_taken`); a value of more
than 256 bytes stops it (`headerLoop_long`).  The empty line takes it to `END_LF`, and there it
takes one byte more if there is one; an empty last value takes the empty line for its own.
-/

/-- What stands between two offsets. -/
theorem slice_append (a b c : Bytes) :
    slice (a ++ (b ++ c)) (a.length : ℤ) ((a.length : ℤ) + b.length) = some b := by
  rw [slice, if_pos]
  · have hlen : ((a.length : ℤ) + b.length - a.length).toNat = b.length := by omega
    rw [Int.toNat_natCast, List.drop_left, hlen, List.take_left]
  · rw [List.length_append, List.length_append]
    omega

namespace WebServer.Http

/-! ## Running the loop -/

/-- A round that goes on. -/
theorem headerLoop_step {d x : Bytes} {ch : UInt8} {i : ℕ} {s s' : HeaderScan}
    (hf : s.isFinish = false) (hs : headerStep d i ch s = .go s') :
    headerLoop d (ch :: x) i s = headerLoop d x (i + 1) s' := by
  rw [headerLoop, if_neg (by rw [hf]; exact Bool.false_ne_true), hs]

/-- A round that stops the loop. -/
theorem headerLoop_stop {d x : Bytes} {ch : UInt8} {i : ℕ} {s : HeaderScan} {r : ScanResult}
    (hf : s.isFinish = false) (hs : headerStep d i ch s = r) (hr : ∀ s', r ≠ .go s') :
    headerLoop d (ch :: x) i s = (r, i) := by
  rw [headerLoop, if_neg (by rw [hf]; exact Bool.false_ne_true), hs]
  cases r with
  | go s' => exact absurd rfl (hr s')
  | error => rfl
  | undefined => rfl

theorem headerLoop_finished {d x : Bytes} {i : ℕ} {s : HeaderScan} (hf : s.isFinish = true) :
    headerLoop d x i s = (.go s, i) := by
  cases x with
  | nil => rfl
  | cons ch x => rw [headerLoop, if_pos hf]

/-- A round that the loop goes through. -/
theorem exists_headerStep {d rest : Bytes} {ch : UInt8} {i j : ℕ} {s s' : HeaderScan}
    (hf : s.isFinish = false) (h : headerLoop d (ch :: rest) i s = (.go s', j)) :
    ∃ s₁, headerStep d i ch s = .go s₁ ∧ headerLoop d rest (i + 1) s₁ = (.go s', j) := by
  cases hstep : headerStep d i ch s with
  | go s₁ => exact ⟨s₁, rfl, by rwa [headerLoop_step hf hstep] at h⟩
  | error s₁ =>
    rw [headerLoop_stop hf hstep (by simp)] at h
    exact absurd (congrArg Prod.fst h) (by simp)
  | undefined s₁ =>
    rw [headerLoop_stop hf hstep (by simp)] at h
    exact absurd (congrArg Prod.fst h) (by simp)

/-- **The loop over two parts**, when the first one does not stop it. -/
theorem headerLoop_append {d : Bytes} : ∀ {x y : Bytes} {i j : ℕ} {s s' : HeaderScan},
    headerLoop d x i s = (.go s', j) → headerLoop d (x ++ y) i s = headerLoop d y j s'
  | [], y, i, j, s, s', h => by
      obtain ⟨hs, rfl⟩ := Prod.mk.inj h
      obtain rfl := ScanResult.go.inj hs
      rfl
  | ch :: x, y, i, j, s, s', h => by
      by_cases hf : s.isFinish = true
      · rw [headerLoop_finished hf] at h
        obtain ⟨hs, rfl⟩ := Prod.mk.inj h
        obtain rfl := ScanResult.go.inj hs
        rw [headerLoop_finished hf, headerLoop_finished hf]
      · rw [Bool.not_eq_true] at hf
        obtain ⟨s₁, hstep, h₁⟩ := exists_headerStep hf h
        rw [List.cons_append, headerLoop_step hf hstep]
        exact headerLoop_append h₁

/-- The characters of a name leave the scanner as it is. -/
theorem headerLoop_name {d : Bytes} : ∀ {u : Bytes} {i : ℕ} {s : HeaderScan},
    s.parseState = .key → s.isFinish = false →
    (∀ b ∈ u, b ≠ Chr.colon ∧ b ≠ Chr.cr ∧ b ≠ Chr.lf) →
    headerLoop d u i s = (.go s, i + u.length)
  | [], _, _, _, _, _ => rfl
  | b :: u, i, s, hs, hf, hu => by
      obtain ⟨hcolon, hcr, hlf⟩ := hu b (List.mem_cons_self ..)
      have hstep : headerStep d i b s = .go s := by
        rw [headerStep, hs]
        simp only [if_neg hcolon, if_neg (not_or.mpr ⟨hlf, hcr⟩)]
      rw [headerLoop_step hf hstep, headerLoop_name hs hf fun c hc =>
        hu c (List.mem_cons_of_mem _ hc),
        List.length_cons, Nat.add_assoc, Nat.add_comm 1]

/-- The characters of a value leave the scanner as it is, up to the 256th. -/
theorem headerLoop_value {d : Bytes} : ∀ {u : Bytes} {i : ℕ} {s : HeaderScan},
    s.parseState = .value → s.isFinish = false → (∀ b ∈ u, b ≠ Chr.cr) →
    (i + u.length : ℤ) - s.valueStart ≤ 256 → headerLoop d u i s = (.go s, i + u.length)
  | [], _, _, _, _, _, _ => rfl
  | b :: u, i, s, hs, hf, hu, hlen => by
      have hcr := hu b (List.mem_cons_self ..)
      rw [List.length_cons] at hlen
      have hstep : headerStep d i b s = .go s := by
        rw [headerStep, hs]
        simp only [if_neg hcr, if_neg (show ¬ (i : ℤ) - s.valueStart > 255 by omega)]
      rw [headerLoop_step hf hstep,
        headerLoop_value hs hf (fun c hc => hu c (List.mem_cons_of_mem _ hc)) (by omega),
        List.length_cons, Nat.add_assoc, Nat.add_comm 1]

/-- **A value that goes on past its 256th character** is an error. -/
theorem headerLoop_value_long {d y : Bytes} : ∀ {u : Bytes} {i : ℕ} {s : HeaderScan},
    s.parseState = .value → s.isFinish = false → (∀ b ∈ u, b ≠ Chr.cr) →
    256 < (i + u.length : ℤ) - s.valueStart → (i : ℤ) - s.valueStart ≤ 256 →
    ∃ s' j, headerLoop d (u ++ y) i s = (.error s', j)
  | [], i, s, _, _, _, hlong, hi => by
      rw [List.length_nil] at hlong
      omega
  | b :: u, i, s, hs, hf, hu, hlong, hi => by
      have hcr := hu b (List.mem_cons_self ..)
      rw [List.length_cons] at hlong
      by_cases h : (i : ℤ) - s.valueStart > 255
      · have hstep : headerStep d i b s = .error s := by
          rw [headerStep, hs]
          simp only [if_neg hcr, if_pos h]
        exact ⟨s, i, headerLoop_stop hf hstep (by simp)⟩
      · have hstep : headerStep d i b s = .go s := by
          rw [headerStep, hs]
          simp only [if_neg hcr, if_neg h]
        rw [List.cons_append, headerLoop_step hf hstep]
        exact headerLoop_value_long hs hf (fun c hc => hu c (List.mem_cons_of_mem _ hc)) (by omega)
          (by omega)

/-! ## A call, by its loop -/

/-- The scanner that a call starts with. -/
def HttpConnection.scanner (c : HttpConnection) : HeaderScan where
  parseState := c.parseState
  requestHeaders := c.requestHeaders

section Call

variable {c : HttpConnection} {s : HeaderScan} {j : ℕ}

theorem parseRequestHeader_undefined
    (h : headerLoop c.readBuffer c.readBuffer 0 c.scanner = (.undefined s, j)) :
    parseRequestHeader c = (none, c.store s) := by
  rw [HttpConnection.scanner] at h
  rw [parseRequestHeader]
  simp only [h]

theorem parseRequestHeader_error
    (h : headerLoop c.readBuffer c.readBuffer 0 c.scanner = (.error s, j)) :
    parseRequestHeader c = (some .error, c.store s) := by
  rw [HttpConnection.scanner] at h
  rw [parseRequestHeader]
  simp only [h]

theorem parseRequestHeader_success
    (h : headerLoop c.readBuffer c.readBuffer 0 c.scanner = (.go s, j))
    (hs : s.parseState = .endLf) :
    parseRequestHeader c = (some .success,
      { c.store s with readBuffer := c.readBuffer.drop j }) := by
  rw [HttpConnection.scanner] at h
  rw [parseRequestHeader]
  simp only [h, if_pos hs, substr]

theorem parseRequestHeader_again
    (h : headerLoop c.readBuffer c.readBuffer 0 c.scanner = (.go s, j))
    (hs : s.parseState ≠ .endLf) :
    parseRequestHeader c = (some .again,
      { c.store s with readBuffer := c.readBuffer.drop s.nowReadLineBegin }) := by
  rw [HttpConnection.scanner] at h
  rw [parseRequestHeader]
  simp only [h, if_neg hs, substr]

end Call

/-! ## One field -/

/-- The scanner is at the start of a line. -/
structure AtLine (s : HeaderScan) : Prop where
  parseState : s.parseState = ParseState.start ∨ s.parseState = ParseState.lf
  isFinish : s.isFinish = false

/-- The first character of a name. -/
theorem headerStep_first {d : Bytes} {i : ℕ} {b : UInt8} {s : HeaderScan} (hs : AtLine s)
    (hcr : b ≠ Chr.cr) (hlf : s.parseState = .start → b ≠ Chr.lf) :
    headerStep d i b s = .go { s with
      parseState := .key
      keyStart := i
      nowReadLineBegin := if s.parseState = ParseState.start then i else s.nowReadLineBegin } := by
  rw [headerStep]
  obtain h | h := hs.parseState
  · rw [h]
    simp only [if_neg (not_or.mpr ⟨hlf h, hcr⟩), if_true]
  · rw [h]
    simp only [if_neg hcr, reduceCtorEq, if_false]

/-- **The rest of a name, and the separator**, up to the first character of the value. -/
theorem headerLoop_nameTail {d n : Bytes} {i : ℕ} {s : HeaderScan} (hs : s.parseState = .key)
    (hf : s.isFinish = false) (hstart : s.keyStart < i)
    (hn : ∀ c ∈ n, c ≠ Chr.colon ∧ c ≠ Chr.cr ∧ c ≠ Chr.lf) (v : UInt8) :
    headerLoop d (n ++ [Chr.colon, Chr.space, v]) i s = (.go { s with
      parseState := .value
      keyEnd := ((i + n.length : ℕ) : ℤ)
      valueStart := ((i + n.length + 2 : ℕ) : ℤ) }, i + n.length + 3) := by
  have hcolon : headerStep d (i + n.length) Chr.colon s = .go { s with
      parseState := .colon
      keyEnd := ((i + n.length : ℕ) : ℤ) } := by
    rw [headerStep, hs]
    simp only [if_true]
    rw [if_neg (by omega)]
  rw [headerLoop_append (headerLoop_name hs hf hn), headerLoop_step hf hcolon]
  simp only [headerLoop, headerStep, hf, Bool.false_eq_true, if_false, if_true]

/-- **The rest of a value, and the CR behind it.** -/
theorem headerLoop_valueTail {d u : Bytes} {i : ℕ} {s : HeaderScan} (hs : s.parseState = .value)
    (hf : s.isFinish = false) (hstart : s.valueStart < i) (hu : ∀ c ∈ u, c ≠ Chr.cr)
    (hlen : (i + u.length : ℤ) - s.valueStart ≤ 256) :
    headerLoop d (u ++ [Chr.cr]) i s = (.go { s with
      parseState := .cr
      valueEnd := ((i + u.length : ℕ) : ℤ) }, i + u.length + 1) := by
  have hcr : headerStep d (i + u.length) Chr.cr s = .go { s with
      parseState := .cr
      valueEnd := ((i + u.length : ℕ) : ℤ) } := by
    rw [headerStep, hs]
    simp only [if_true]
    rw [if_neg (by omega)]
  rw [headerLoop_append (headerLoop_value hs hf hu hlen), headerLoop_step hf hcr, headerLoop]

/-- **The LF that ends a line** records its field. -/
theorem headerStep_record {d key value : Bytes} {i : ℕ} {s : HeaderScan} (hs : s.parseState = .cr)
    (hkey : slice d s.keyStart s.keyEnd = some key)
    (hvalue : slice d s.valueStart s.valueEnd = some value) :
    headerStep d i Chr.lf s = .go { s with
      parseState := .lf
      requestHeaders := Function.update s.requestHeaders key (some value)
      nowReadLineBegin := i } := by
  rw [headerStep, hs]
  simp only [if_true, hkey, hvalue]

/-- The scanner in the first character of the value of `name`, whose line starts at offset `i`. -/
structure InValue (i : ℕ) (name : Bytes) (s s' : HeaderScan) : Prop where
  parseState : s'.parseState = .value
  isFinish : s'.isFinish = false
  requestHeaders : s'.requestHeaders = s.requestHeaders
  keyStart : s'.keyStart = i
  keyEnd : s'.keyEnd = i + name.length
  valueStart : s'.valueStart = i + name.length + 2
  nowReadLineBegin : s'.nowReadLineBegin
    = if s.parseState = ParseState.start then i else s.nowReadLineBegin

/-- **From the start of a line into its value.** -/
theorem headerLoop_toValue {d n : Bytes} {b : UInt8} {i : ℕ} {s : HeaderScan} (hs : AtLine s)
    (hcr : b ≠ Chr.cr) (hlf : s.parseState = .start → b ≠ Chr.lf)
    (hn : ∀ c ∈ n, c ≠ Chr.colon ∧ c ≠ Chr.cr ∧ c ≠ Chr.lf) (v : UInt8) :
    ∃ s', headerLoop d (b :: n ++ [Chr.colon, Chr.space, v]) i s
      = (.go s', i + (b :: n).length + 3) ∧ InValue i (b :: n) s s' := by
  obtain ⟨s₁, hs₁⟩ : ∃ s₁, s₁ = { s with
      parseState := .key
      keyStart := i
      nowReadLineBegin := if s.parseState = ParseState.start then i else s.nowReadLineBegin } :=
        ⟨_, rfl⟩
  have hkey : s₁.parseState = .key := by rw [hs₁]
  have hfin : s₁.isFinish = false := by rw [hs₁]; exact hs.isFinish
  have hstart : s₁.keyStart = i := by rw [hs₁]
  refine ⟨{ s₁ with
    parseState := .value
    keyEnd := ((i + 1 + n.length : ℕ) : ℤ)
    valueStart := ((i + 1 + n.length + 2 : ℕ) : ℤ) }, ?_, ?_⟩
  · rw [List.cons_append, headerLoop_step hs.isFinish (headerStep_first hs hcr hlf), ← hs₁,
      headerLoop_nameTail hkey hfin (by omega) hn, List.length_cons, Nat.add_assoc i 1,
      Nat.add_comm 1]
  · refine ⟨rfl, hfin, ?_, hstart, ?_, ?_, ?_⟩
    · rw [hs₁]
    · rw [List.length_cons]
      push_cast
      omega
    · rw [List.length_cons]
      push_cast
      omega
    · rw [hs₁]

/-- The scanner has recorded `name` and `value`, and stands at the end of their line, at `j`. -/
structure RecordedLine (name value : Bytes) (j : ℕ) (s s' : HeaderScan) : Prop where
  parseState : s'.parseState = .lf
  isFinish : s'.isFinish = false
  requestHeaders : s'.requestHeaders = Function.update s.requestHeaders name (some value)
  nowReadLineBegin : s'.nowReadLineBegin = j

/-- Where the name of a line stands. -/
theorem slice_name {d a y name value : Bytes} (hd : d = a ++ (fieldLine name value ++ y)) :
    slice d (a.length : ℤ) ((a.length : ℤ) + name.length) = some name := by
  rw [hd, fieldLine, List.append_assoc]
  exact slice_append _ _ _

/-- Where the value of a line stands. -/
theorem slice_value {d a y name value : Bytes} (hd : d = a ++ (fieldLine name value ++ y)) :
    slice d ((a.length : ℤ) + name.length + 2) ((a.length : ℤ) + name.length + 2 + value.length)
      = some value := by
  have hcut : d = (a ++ (name ++ [Chr.colon, Chr.space])) ++ (value ++ (crlf ++ y)) := by
    rw [hd, fieldLine]
    simp
  have hpos : (a.length : ℤ) + name.length + 2
      = ((a ++ (name ++ [Chr.colon, Chr.space])).length : ℤ) := by
    simp only [List.length_append, List.length_cons, List.length_nil]
    omega
  rw [hpos, hcut]
  exact slice_append _ _ _

/-- **One line**: whatever its value begins with, and its name behind the first character is all
that is looked at. -/
theorem headerLoop_line {d a y n u : Bytes} {b v : UInt8} {s : HeaderScan} (hs : AtLine s)
    (hcr : b ≠ Chr.cr) (hlf : s.parseState = .start → b ≠ Chr.lf)
    (hn : ∀ c ∈ n, c ≠ Chr.colon ∧ c ≠ Chr.cr ∧ c ≠ Chr.lf) (hu : ∀ c ∈ u, c ≠ Chr.cr)
    (hlen : (v :: u).length ≤ 256) (hd : d = a ++ (fieldLine (b :: n) (v :: u) ++ y)) : ∃ s',
    headerLoop d (fieldLine (b :: n) (v :: u)) a.length s
      = (.go s', a.length + (fieldLine (b :: n) (v :: u)).length) ∧
      RecordedLine (b :: n) (v :: u) (a.length +
        (fieldLine (b :: n) (v :: u)).length - 1) s s' := by
  obtain ⟨s₁, hs₁, hin⟩ := headerLoop_toValue (d := d) (i := a.length) hs hcr hlf hn v
  obtain ⟨name, hname⟩ : ∃ name, name = b :: n := ⟨_, rfl⟩
  rw [← hname] at hs₁ hin hd ⊢
  rw [List.length_cons] at hlen
  have hbytes : fieldLine name (v :: u)
      = (name ++ [Chr.colon, Chr.space, v]) ++ ((u ++ [Chr.cr]) ++ [Chr.lf]) := by
    rw [fieldLine]
    simp
  have hsize : (fieldLine name (v :: u)).length = name.length + u.length + 5 := by
    rw [fieldLine]
    simp only [List.length_append, List.length_cons, List.length_nil]
    omega
  have hvalue := headerLoop_valueTail (d := d) (i := a.length + name.length + 3) hin.parseState
    hin.isFinish (by rw [hin.valueStart]; omega) hu (by rw [hin.valueStart]; omega)
  have hkey : slice d s₁.keyStart s₁.keyEnd = some name := by
    rw [hin.keyStart, hin.keyEnd]
    exact slice_name hd
  have hval : slice d s₁.valueStart ((a.length + name.length + 3 + u.length : ℕ) : ℤ)
      = some (v :: u) := by
    have hend : ((a.length + name.length + 3 + u.length : ℕ) : ℤ)
        = (a.length : ℤ) + name.length + 2 + (v :: u).length := by
      rw [List.length_cons]
      omega
    rw [hin.valueStart, hend]
    exact slice_value hd
  obtain ⟨s₂, hs₂⟩ : ∃ s₂, s₂ = { s₁ with
      parseState := .cr
      valueEnd := ((a.length + name.length + 3 + u.length : ℕ) : ℤ) } := ⟨_, rfl⟩
  rw [← hs₂] at hvalue
  have hfin₂ : s₂.isFinish = false := by rw [hs₂]; exact hin.isFinish
  have hkey₂ : slice d s₂.keyStart s₂.keyEnd = some name := by rw [hs₂, hkey]
  have hval₂ : slice d s₂.valueStart s₂.valueEnd = some (v :: u) := by rw [hs₂, hval]
  have hrecord := headerStep_record (i := a.length + name.length + 3 + u.length + 1)
    (by rw [hs₂]) hkey₂ hval₂
  rw [hsize]
  refine ⟨{ s₂ with
    parseState := .lf
    requestHeaders := Function.update s₂.requestHeaders name (some (v :: u))
    nowReadLineBegin := a.length + name.length + 3 + u.length + 1 }, ?_, rfl, hfin₂, ?_, ?_⟩
  · rw [hbytes, headerLoop_append hs₁, headerLoop_append hvalue, headerLoop_step hfin₂ hrecord,
      headerLoop]
    congr 1
    omega
  · rw [← hin.requestHeaders, hs₂]
  · change a.length + name.length + 3 + u.length + 1 = _
    omega

/-- **A line that is taken**: it is scanned, and its field is recorded. -/
theorem headerLoop_taken {d a y : Bytes} {k : Field} {s : HeaderScan} (hs : AtLine s)
    (hk : k.Taken) (hlf : s.parseState = .start → k.1.head? ≠ some Chr.lf)
    (hd : d = a ++ (k.line ++ y)) : ∃ s',
    headerLoop d k.line a.length s = (.go s', a.length + k.line.length) ∧
      RecordedLine k.1 k.2 (a.length + k.line.length - 1) s s' := by
  obtain ⟨name, value⟩ := k
  obtain ⟨b, n, rfl⟩ := List.exists_cons_of_ne_nil hk.name_ne
  obtain ⟨v, u, rfl⟩ := List.exists_cons_of_ne_nil hk.value_ne
  exact headerLoop_line hs (fun e => hk.name_first (congrArg some e))
    (fun e e' => hlf e (congrArg some e')) hk.name_ok (fun c hc e => hk.value_ok (e ▸ hc))
    hk.value_le hd

/-- **A value of more than 256 bytes** is an error. -/
theorem headerLoop_long {d y : Bytes} {k : Field} {i : ℕ} {s : HeaderScan} (hs : AtLine s)
    (hk : k.Shaped) (hlf : s.parseState = .start → k.1.head? ≠ some Chr.lf)
    (hlong : 256 < k.2.length) : ∃ s' j, headerLoop d (k.line ++ y) i s = (.error s', j) := by
  obtain ⟨name, value⟩ := k
  obtain ⟨b, n, rfl⟩ := List.exists_cons_of_ne_nil hk.name_ne
  obtain ⟨v, u, rfl⟩ := List.exists_cons_of_ne_nil hk.value_ne
  obtain ⟨s₁, hs₁, hin⟩ := headerLoop_toValue (d := d) (n := n) (i := i) hs
    (fun e => hk.name_first (congrArg some e)) (fun e e' => hlf e (congrArg some e')) hk.name_ok v
  have hbytes : Field.line (b :: n, v :: u) ++ y
      = (b :: n ++ [Chr.colon, Chr.space, v]) ++ (u ++ (crlf ++ y)) := by
    rw [Field.line, fieldLine]
    simp
  rw [List.length_cons] at hlong
  rw [hbytes, headerLoop_append hs₁]
  refine headerLoop_value_long hin.parseState hin.isFinish
    (fun c hc e => hk.value_ok (e ▸ hc)) ?_ ?_
  · rw [hin.valueStart]
    omega
  · rw [hin.valueStart]
    omega

/-! ## All lines, and the empty line -/

/-- **The scanner has recorded the fields** whose lines end before offset `j`. -/
structure RecordedAll (ks : List Field) (j : ℕ) (s s' : HeaderScan) : Prop where
  atLine : AtLine s'
  requestHeaders : s'.requestHeaders = recordFields s.requestHeaders ks
  parseState : s'.parseState = if ks = [] then s.parseState else .lf
  nowReadLineBegin : s'.nowReadLineBegin = if ks = [] then s.nowReadLineBegin else j - 1

/-- **The lines of the fields**, one after the other. -/
theorem headerLoop_fields {d y : Bytes} : ∀ {ks : List Field} {a : Bytes} {s : HeaderScan},
    AtLine s → (∀ k ∈ ks, k.Tame) → (∀ k ∈ ks, k.2.length ≤ 256) →
      d = a ++ (fieldLines ks ++ y) → ∃ s',
        headerLoop d (fieldLines ks) a.length s = (.go s', a.length + (fieldLines ks).length) ∧
          RecordedAll ks (a.length + (fieldLines ks).length) s s'
  | [], _, s, hs, _, _, _ => ⟨s, rfl, hs, rfl, rfl, rfl⟩
  | k :: ks, a, s, hs, htame, hshort, hd => by
      obtain ⟨hk, htame⟩ := List.forall_mem_cons.mp htame
      obtain ⟨hle, hshort⟩ := List.forall_mem_cons.mp hshort
      rw [fieldLines_cons, List.append_assoc] at hd
      obtain ⟨s₁, hs₁, h₁⟩ := headerLoop_taken hs (hk.toShaped.taken hle) (fun _ => hk.name_lf) hd
      have hd₁ : d = (a ++ k.line) ++ (fieldLines ks ++ y) := by
        rw [hd]
        simp only [List.append_assoc]
      obtain ⟨s₂, hs₂, h₂⟩ := headerLoop_fields ⟨.inr h₁.parseState, h₁.isFinish⟩ htame hshort hd₁
      rw [List.length_append] at hs₂ h₂
      refine ⟨s₂, ?_, h₂.atLine, ?_, ?_, ?_⟩
      · rw [fieldLines_cons, headerLoop_append hs₁, hs₂, List.length_append, Nat.add_assoc]
      · rw [h₂.requestHeaders, h₁.requestHeaders]
        rfl
      · rw [h₂.parseState, if_neg (List.cons_ne_nil k ks), h₁.parseState]
        exact ite_self _
      · rw [h₂.nowReadLineBegin, if_neg (List.cons_ne_nil k ks), h₁.nowReadLineBegin,
          fieldLines_cons, List.length_append]
        split
        · next hnil =>
          rw [hnil]
          rfl
        · rw [Nat.add_assoc]

/-- **A value that is too long** stops the loop, wherever it stands. -/
theorem headerLoop_fields_long {d y : Bytes} : ∀ {ks : List Field} {a : Bytes} {s : HeaderScan},
    AtLine s → (∀ k ∈ ks, k.Tame) → (∃ k ∈ ks, 256 < k.2.length) →
      d = a ++ (fieldLines ks ++ y) →
        ∃ s' j, headerLoop d (fieldLines ks ++ y) a.length s = (.error s', j)
  | [], _, _, _, _, hlong, _ => by
      obtain ⟨k, hk, -⟩ := hlong
      exact absurd hk List.not_mem_nil
  | k :: ks, a, s, hs, htame, hlong, hd => by
      obtain ⟨hk, htame⟩ := List.forall_mem_cons.mp htame
      rw [fieldLines_cons, List.append_assoc] at hd ⊢
      by_cases hle : k.2.length ≤ 256
      · obtain ⟨s₁, hs₁, h₁⟩ :=
          headerLoop_taken hs (hk.toShaped.taken hle) (fun _ => hk.name_lf) hd
        have hd₁ : d = (a ++ k.line) ++ (fieldLines ks ++ y) := by
          rw [hd]
          simp only [List.append_assoc]
        have hlong₁ : ∃ k' ∈ ks, 256 < k'.2.length := by
          obtain ⟨k', hk', hlt⟩ := hlong
          obtain rfl | hk' := List.mem_cons.mp hk'
          · exact absurd hle (by omega)
          · exact ⟨k', hk', hlt⟩
        rw [headerLoop_append hs₁, ← List.length_append]
        exact headerLoop_fields_long ⟨.inr h₁.parseState, h₁.isFinish⟩ htame hlong₁ hd₁
      · exact headerLoop_long hs hk.toShaped (fun _ => hk.name_lf) (by omega)

/-- The line end at the start of the buffer is skipped. -/
theorem headerLoop_lineFeed {d x : Bytes} {i : ℕ} {s : HeaderScan} (hs : s.parseState = .start)
    (hf : s.isFinish = false) : headerLoop d (Chr.lf :: x) i s = headerLoop d x (i + 1) s := by
  refine headerLoop_step hf ?_
  rw [headerStep, hs]
  simp only [true_or, if_true]

/-- **Some lines, and what follows them**, from the start of a header. -/
theorem headerLoop_lines {d y : Bytes} {ks : List Field} {s : HeaderScan}
    (hd : d = [Chr.lf] ++ (fieldLines ks ++ y)) (hs : s.parseState = .start)
    (hf : s.isFinish = false) (htame : ∀ k ∈ ks, k.Tame) (hshort : ∀ k ∈ ks, k.2.length ≤ 256) :
    ∃ s', headerLoop d d 0 s = headerLoop d y (1 + (fieldLines ks).length) s' ∧
      RecordedAll ks (1 + (fieldLines ks).length) s s' := by
  obtain ⟨s', h, hr⟩ := headerLoop_fields ⟨.inl hs, hf⟩ htame hshort hd
  have hstart : headerLoop d ([Chr.lf] ++ (fieldLines ks ++ y)) 0 s
      = headerLoop d (fieldLines ks ++ y) (0 + 1) s := headerLoop_lineFeed hs hf
  rw [← hd] at hstart
  exact ⟨s', hstart.trans (headerLoop_append h), hr⟩

/-- The empty line. -/
theorem headerLoop_emptyLine {d : Bytes} {i : ℕ} {s : HeaderScan} (hs : s.parseState = .lf)
    (hf : s.isFinish = false) :
    headerLoop d crlf i s = (.go { s with parseState := .endLf }, i + 2) := by
  have hcr : headerStep d i Chr.cr s = .go { s with parseState := .endCr } := by
    rw [headerStep, hs]
    simp only [if_true]
  rw [headerLoop_step hf hcr]
  simp only [headerLoop, headerStep, hf, Bool.false_eq_true, if_false, if_true]

/-- **Behind the empty line** the scanner takes one more byte, if there is one. -/
theorem headerLoop_endLf {d : Bytes} {i : ℕ} {s : HeaderScan} (hs : s.parseState = .endLf)
    (hf : s.isFinish = false) (y : Bytes) : ∃ s', headerLoop d y i s
      = (.go s', i + (y.take 1).length) ∧ s'.parseState = .endLf ∧
        s'.requestHeaders = s.requestHeaders := by
  cases y with
  | nil => exact ⟨s, rfl, hs, rfl⟩
  | cons b y =>
    have hstep : headerStep d i b s = .go { s with
        isFinish := true
        keyStart := i
        nowReadLineBegin := i } := by
      rw [headerStep, hs]
    refine ⟨{ s with isFinish := true, keyStart := i, nowReadLineBegin := i }, ?_, hs, rfl⟩
    rw [headerLoop_step hf hstep, headerLoop_finished rfl]
    rfl

/-! ## A header block -/

/-- **A connection at a header**: its buffer holds the line feed of the request line, the block of
the fields `fs`, and `rest`. -/
structure AtBlock (fs : List Field) (rest : Bytes) (c : HttpConnection) : Prop where
  parseState : c.parseState = .start
  requestHeaders : c.requestHeaders = fun _ => none
  readBuffer : c.readBuffer = Chr.lf :: (headerBlock fs ++ rest)

namespace AtBlock

variable {fs : List Field} {rest : Bytes} {c : HttpConnection} (hc : AtBlock fs rest c)

include hc

/-- The buffer, line by line. -/
theorem readBuffer_eq :
    c.readBuffer = [Chr.lf] ++ (fieldLines (scannedLines fs) ++ (blockEnd fs ++ rest)) := by
  rw [hc.readBuffer, headerBlock_eq, List.append_assoc]
  rfl

variable (hfs : ∀ f ∈ fs, f.Plain)

include hfs

/-- **The header is parsed**, and a byte of what follows it goes with it. -/
theorem parseRequestHeader (hne : fs ≠ []) (hs : Short fs) (he : Ends fs) :
    Http.parseRequestHeader c = (some .success, { c with
      parseState := .endLf
      requestHeaders := lastWins (scannedLines fs)
      readBuffer := rest.drop 1 }) := by
  obtain ⟨ks, hks⟩ : ∃ ks, ks = scannedLines fs := ⟨_, rfl⟩
  have hd := hc.readBuffer_eq
  rw [blockEnd, if_pos he, ← hks] at hd
  obtain ⟨s₁, h₁, hr₁⟩ := headerLoop_lines hd (s := c.scanner) hc.parseState rfl
    (hks ▸ tame_of_mem_scannedLines hfs) (hks ▸ short_iff_scannedLines.mp hs)
  have hlf : s₁.parseState = .lf := by
    rw [hr₁.parseState, if_neg (hks ▸ scannedLines_ne_nil hne)]
  obtain ⟨s₂, h₂, hend, hmap₂⟩ := headerLoop_endLf (d := c.readBuffer)
    (i := 1 + (fieldLines ks).length + 2) (s := { s₁ with parseState := .endLf })
    rfl hr₁.atLine.isFinish rest
  have hmap : s₂.requestHeaders = lastWins ks := by
    rw [hmap₂]
    change s₁.requestHeaders = _
    rw [hr₁.requestHeaders]
    change recordFields c.requestHeaders _ = _
    rw [hc.requestHeaders]
    rfl
  have hloop : headerLoop c.readBuffer c.readBuffer 0 c.scanner
      = (.go s₂, 1 + (fieldLines ks).length + 2 + (rest.take 1).length) := by
    rw [h₁, headerLoop_append (headerLoop_emptyLine hlf hr₁.atLine.isFinish), h₂]
  have hrest : c.readBuffer.drop (1 + (fieldLines ks).length + 2 + (rest.take 1).length)
      = rest.drop 1 := by
    have hcut : c.readBuffer
        = ([Chr.lf] ++ fieldLines ks ++ crlf ++ rest.take 1) ++ rest.drop 1 := by
      rw [hd, List.append_assoc _ (rest.take 1), List.take_append_drop]
      simp only [List.append_assoc]
    rw [hcut, List.drop_left']
    simp only [List.length_append, List.length_cons, List.length_nil]
  rw [parseRequestHeader_success hloop hend, hrest, HttpConnection.store, hend, hmap, hks]

/-- **A header that is too long** is refused. -/
theorem parseRequestHeader_long (hs : ¬ Short fs) :
    ∃ s, Http.parseRequestHeader c = (some .error, c.store s) := by
  have hd := hc.readBuffer_eq
  have hlong : ∃ k ∈ scannedLines fs, 256 < k.2.length := by
    by_contra hno
    exact hs (short_iff_scannedLines.mpr fun k hk => not_lt.mp fun hlt => hno ⟨k, hk, hlt⟩)
  obtain ⟨s, j, h⟩ := headerLoop_fields_long (s := c.scanner) ⟨.inl hc.parseState, rfl⟩
    (tame_of_mem_scannedLines hfs) hlong hd
  have hstart : headerLoop c.readBuffer
      ([Chr.lf] ++ (fieldLines (scannedLines fs) ++ (blockEnd fs ++ rest))) 0 c.scanner
        = (.error s, j) := (headerLoop_lineFeed hc.parseState rfl).trans h
  rw [← hd] at hstart
  exact ⟨s, parseRequestHeader_error hstart⟩

end AtBlock

namespace Request

/-- **A request that the scanner takes**: no value is too long. -/
def Short (r : Request) : Prop := Http.Short r.headers

/-- **A request that ends where the scanner finds its end.** -/
def Ends (r : Request) : Prop := Http.Ends r.headers

/-- The fields of a request, as they are recorded. -/
def headerMap (r : Request) : HeaderMap := lastWins (scannedLines r.headers)

end Request

end WebServer.Http
