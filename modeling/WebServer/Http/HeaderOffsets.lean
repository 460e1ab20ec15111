import WebServer.Http.HandleRead
import WebServer.Http.Resume

/-!
# Http/HeaderOffsets — the offsets of a header

The state of the header scanner outlives a call, its offsets do not.  A call that begins outside a
line sets every offset before it uses it (`ordered_headerStep`).  A call that begins inside one
comes to the end of that line, if it does, with a key that starts nowhere (`Unset`), and it does so
exactly when the rest of the line is in the buffer (`EndsLine`).
-/

namespace WebServer.Http

/-! ## Valid offsets -/

/-- **A call records a field**: it comes to the line feed behind a CR, with the scanner `s`. -/
def Extracts (c : HttpConnection) (s : HeaderScan) : Prop :=
  ∃ x y, c.readBuffer = x ++ Chr.lf :: y ∧
    headerLoop c.readBuffer x 0 c.scanner = (.go s, x.length) ∧ s.parseState = .cr

/-- **The offsets of a call are valid**: those of every field that it records, and those from which
what is left of the buffer is taken. -/
structure OffsetsValid (c : HttpConnection) : Prop where
  field (s : HeaderScan) : Extracts c s → 0 ≤ s.keyStart ∧ s.keyStart ≤ s.keyEnd ∧
    s.keyEnd ≤ s.valueStart ∧ s.valueStart ≤ s.valueEnd ∧ s.valueEnd ≤ c.readBuffer.length
  rest (s : HeaderScan) (i : ℕ) : headerLoop c.readBuffer c.readBuffer 0 c.scanner = (.go s, i) →
    i ≤ c.readBuffer.length ∧ s.nowReadLineBegin ≤ c.readBuffer.length

/-- **The rest of a line**, as the scanner reads it from a state inside a line on; a value may have
255 bytes more. -/
inductive EndsLine : ParseState → Bytes → Prop
  | cr (y : Bytes) : EndsLine .cr (Chr.lf :: y)
  | value {u y : Bytes} (hu : Chr.cr ∉ u) (hlen : u.length ≤ 255) (hy : EndsLine .cr y) :
      EndsLine .value (u ++ Chr.cr :: y)
  | spacesAfterColon {y : Bytes} (v : UInt8) (hy : EndsLine .value y) :
      EndsLine .spacesAfterColon (v :: y)
  | colon {y : Bytes} (hy : EndsLine .spacesAfterColon y) : EndsLine .colon (Chr.space :: y)
  | key {n y : Bytes} (hn : ∀ b ∈ n, b ≠ Chr.colon ∧ b ≠ Chr.cr ∧ b ≠ Chr.lf)
      (hy : EndsLine .colon y) : EndsLine .key (n ++ Chr.colon :: y)

/-- **A call does not end the line of another**: it begins outside a line, or the rest of the line
is not in the buffer. -/
def Whole (c : HttpConnection) : Prop := ¬ EndsLine c.parseState c.readBuffer

theorem EndsLine.inLine {p : ParseState} {z : Bytes} (h : EndsLine p z) : p.inLine = true := by
  cases h <;> rfl

/-! ## One round -/

/-- **What a round that goes on does**, by the state it begins in. -/
inductive Round (d : Bytes) (i : ℕ) (ch : UInt8) (s : HeaderScan) : HeaderScan → Prop
  | skip (hp : s.parseState = .start) (hch : ch = Chr.lf ∨ ch = Chr.cr) : Round d i ch s s
  | first (hp : s.parseState = .start) (hch : ¬(ch = Chr.lf ∨ ch = Chr.cr)) :
      Round d i ch s { s with parseState := .key, keyStart := i, nowReadLineBegin := i }
  | name (hp : s.parseState = .key) (hcolon : ch ≠ Chr.colon) (hch : ¬(ch = Chr.lf ∨ ch = Chr.cr)) :
      Round d i ch s s
  | nameEnd (hp : s.parseState = .key) (hch : ch = Chr.colon) (hlt : s.keyStart < i) :
      Round d i ch s { s with parseState := .colon, keyEnd := i }
  | space (hp : s.parseState = .colon) (hch : ch = Chr.space) :
      Round d i ch s { s with parseState := .spacesAfterColon }
  | valueStart (hp : s.parseState = .spacesAfterColon) :
      Round d i ch s { s with parseState := .value, valueStart := i }
  | character (hp : s.parseState = .value) (hch : ch ≠ Chr.cr) (hle : i - s.valueStart ≤ 255) :
      Round d i ch s s
  | valueEnd (hp : s.parseState = .value) (hch : ch = Chr.cr) (hlt : s.valueStart < i) :
      Round d i ch s { s with parseState := .cr, valueEnd := i }
  | record (hp : s.parseState = .cr) (hch : ch = Chr.lf) {key value : Bytes}
      (hkey : slice d s.keyStart s.keyEnd = some key)
      (hvalue : slice d s.valueStart s.valueEnd = some value) :
      Round d i ch s { s with
        parseState := .lf
        requestHeaders := Function.update s.requestHeaders key (some value)
        nowReadLineBegin := i }
  | empty (hp : s.parseState = .lf) (hch : ch = Chr.cr) :
      Round d i ch s { s with parseState := .endCr }
  | next (hp : s.parseState = .lf) (hch : ch ≠ Chr.cr) :
      Round d i ch s { s with parseState := .key, keyStart := i }
  | emptyEnd (hp : s.parseState = .endCr) (hch : ch = Chr.lf) :
      Round d i ch s { s with parseState := .endLf }
  | behind (hp : s.parseState = .endLf) :
      Round d i ch s { s with
        parseState := .endLf
        isFinish := true
        keyStart := i
        nowReadLineBegin := i }

section Loop

variable {d x : Bytes} {i j : ℕ} {s s' : HeaderScan} {ch : UInt8}

theorem round_of_headerStep (h : headerStep d i ch s = .go s') : Round d i ch s s' := by
  rw [headerStep] at h
  cases hp : s.parseState <;> rw [hp] at h <;> dsimp only at h
  case start =>
    split at h <;> cases h
    · exact .skip hp ‹_›
    · exact .first hp ‹_›
  case key =>
    split at h
    · split at h
      · cases h
      · cases h
        exact .nameEnd hp ‹_› (by omega)
    · split at h <;> cases h
      exact .name hp ‹_› ‹_›
  case colon =>
    split at h <;> cases h
    exact .space hp ‹_›
  case spacesAfterColon =>
    cases h
    exact .valueStart hp
  case value =>
    split at h
    · split at h <;> cases h
      exact .valueEnd hp ‹_› (by omega)
    · split at h <;> cases h
      exact .character hp ‹_› (by omega)
  case cr =>
    split at h
    · split at h <;> cases h
      exact .record hp ‹_› ‹_› ‹_›
    · cases h
  case lf =>
    split at h <;> cases h
    · exact .empty hp ‹_›
    · exact .next hp ‹_›
  case endCr =>
    split at h <;> cases h
    exact .emptyEnd hp ‹_›
  case endLf =>
    cases h
    exact .behind hp

/-- **A round that is undefined** meets a line feed behind a CR, and offsets that delimit no field.
-/
theorem cr_of_undefined (h : headerStep d i ch s = .undefined s') :
    s.parseState = .cr ∧ ch = Chr.lf ∧
    (slice d s.keyStart s.keyEnd = none ∨ slice d s.valueStart s.valueEnd = none) := by
  rw [headerStep] at h
  cases hp : s.parseState <;> rw [hp] at h <;> dsimp only at h
  case cr =>
    split at h
    · next hch =>
      split at h
      · cases h
      · next hnone =>
        refine ⟨rfl, hch, ?_⟩
        by_contra hno
        rw [not_or, ← ne_eq, ← ne_eq, Option.ne_none_iff_exists', Option.ne_none_iff_exists'] at hno
        obtain ⟨⟨key, hkey⟩, value, hvalue⟩ := hno
        exact hnone key value hkey hvalue
    · cases h
  all_goals
    repeat' split at h
    all_goals cases h

/-! ## Invariants of the loop -/

/-- **What every round keeps, the loop keeps.** -/
theorem headerLoop_invariant {P : ℕ → HeaderScan → Prop}
    (hstep : ∀ i ch s s', P i s → headerStep d i ch s = .go s' → P (i + 1) s') :
    ∀ {x : Bytes} {i j : ℕ} {s s' : HeaderScan}, headerLoop d x i s = (.go s', j) → P i s → P j s'
  | [], _, _, _, _, h, hs => by
      obtain ⟨hgo, rfl⟩ := Prod.mk.inj h
      exact ScanResult.go.inj hgo ▸ hs
  | ch :: x, i, j, s, s', h, hs => by
      by_cases hf : s.isFinish = true
      · rw [headerLoop_finished hf] at h
        obtain ⟨hgo, rfl⟩ := Prod.mk.inj h
        exact ScanResult.go.inj hgo ▸ hs
      · obtain ⟨s₁, h₁, h₂⟩ := exists_headerStep (Bool.eq_false_of_not_eq_true hf) h
        exact headerLoop_invariant hstep h₂ (hstep _ _ _ _ hs h₁)

/-- **The offsets that a state has set** are in order, before `i`. -/
def Ordered (i : ℕ) (s : HeaderScan) : Prop :=
  match s.parseState with
  | .start | .lf | .endCr | .endLf => True
  | .key => 0 ≤ s.keyStart ∧ s.keyStart < i
  | .colon | .spacesAfterColon => 0 ≤ s.keyStart ∧ s.keyStart < s.keyEnd ∧ s.keyEnd < i
  | .value => 0 ≤ s.keyStart ∧ s.keyStart < s.keyEnd ∧ s.keyEnd < s.valueStart ∧ s.valueStart < i
  | .cr => 0 ≤ s.keyStart ∧ s.keyStart < s.keyEnd ∧ s.keyEnd < s.valueStart ∧
      s.valueStart < s.valueEnd ∧ s.valueEnd < i

theorem ordered_of_outside (hs : s.parseState.inLine = false) : Ordered i s := by
  rw [Ordered]
  cases hp : s.parseState with
  | start | lf | endCr | endLf => trivial
  | key | colon | spacesAfterColon | value | cr =>
    rw [hp] at hs
    exact absurd hs.symm Bool.false_ne_true

/-- **A round keeps them in order.** -/
theorem ordered_headerStep (hs : Ordered i s) (h : headerStep d i ch s = .go s') :
    Ordered (i + 1) s' := by
  rw [Ordered] at hs ⊢
  cases round_of_headerStep h with
  | skip hp => rw [hp]; trivial
  | record hp | empty hp | emptyEnd hp | behind hp => trivial
  | first hp | next hp =>
    dsimp only
    omega
  | name hp | character hp =>
    rw [hp] at hs ⊢
    dsimp only at hs ⊢
    omega
  | nameEnd hp | space hp | valueStart hp | valueEnd hp =>
    rw [hp] at hs
    dsimp only at hs ⊢
    omega

/-- The line that is kept begins before the character that is read. -/
theorem nowReadLineBegin_headerStep (hs : s.nowReadLineBegin ≤ i)
    (h : headerStep d i ch s = .go s') : s'.nowReadLineBegin ≤ i + 1 := by
  cases round_of_headerStep h with
  | first | record | behind => exact Nat.le_succ i
  | skip | name | nameEnd | space | valueStart | character | valueEnd | empty | next | emptyEnd =>
    exact hs.trans (Nat.le_succ i)

/-- **A line that another call began**: its key starts nowhere. -/
structure Unset (s : HeaderScan) : Prop where
  inLine : s.parseState.inLine = true
  isFinish : s.isFinish = false
  keyStart : s.keyStart = -1

/-- **A round stays in such a line**: it cannot record its field. -/
theorem Unset.headerStep (hs : Unset s) (h : Http.headerStep d i ch s = .go s') : Unset s' := by
  obtain ⟨hin, hf, hkey⟩ := hs
  cases round_of_headerStep h with
  | skip hp | first hp | empty hp | next hp | emptyEnd hp | behind hp =>
    rw [hp] at hin
    exact absurd hin Bool.false_ne_true
  | record hp hch hslice =>
    rw [slice, if_neg (by omega)] at hslice
    exact absurd hslice.symm (Option.some_ne_none _)
  | name | character => exact ⟨hin, hf, hkey⟩
  | nameEnd | space | valueStart | valueEnd => exact ⟨rfl, hf, hkey⟩

/-! ## The rest of a line -/

/-- **The scanner comes to a line feed behind a CR**, at offset `i` with `z` to read. -/
def ReachesEnd (d : Bytes) (i : ℕ) (s : HeaderScan) (z : Bytes) : Prop :=
  ∃ x y s', z = x ++ Chr.lf :: y ∧ headerLoop d x i s = (.go s', i + x.length) ∧ s'.parseState = .cr

theorem ReachesEnd.append {u z : Bytes} (h : headerLoop d u i s = (.go s', i + u.length))
    (hr : ReachesEnd d (i + u.length) s' z) : ReachesEnd d i s (u ++ z) := by
  obtain ⟨x, y, s'', rfl, hloop, hcr⟩ := hr
  refine ⟨u ++ x, y, s'', (List.append_assoc ..).symm, ?_, hcr⟩
  rw [headerLoop_append h, hloop, List.length_append, Nat.add_assoc]

theorem ReachesEnd.cons {z : Bytes} (hf : s.isFinish = false) (h : headerStep d i ch s = .go s')
    (hr : ReachesEnd d (i + 1) s' z) : ReachesEnd d i s (ch :: z) :=
  .append (u := [ch]) (headerLoop_step hf h) hr

/-- **The rest of a line takes the scanner to its line feed.** -/
theorem EndsLine.reachesEnd {p : ParseState} {z : Bytes} (h : EndsLine p z) :
    ∀ {i : ℕ} {s : HeaderScan}, s.parseState = p → s.isFinish = false → s.keyStart < i →
      (p = .value → s.valueStart = i - 1) → ReachesEnd d i s z := by
  induction h with
  | cr y => exact fun {i s} hp _ _ _ => ⟨[], y, s, rfl, rfl, hp⟩
  | @value u y hu hlen _ ih =>
    intro i s hp hf hkey hvalue
    have hstart : s.valueStart = i - 1 := hvalue rfl
    have hu' : ∀ b ∈ u, b ≠ Chr.cr := fun b hb h => hu (h ▸ hb)
    have hcr : headerStep d (i + u.length) Chr.cr s
        = .go { s with parseState := .cr, valueEnd := ((i + u.length : ℕ) : ℤ) } := by
      rw [headerStep, hp]
      simp only [if_true]
      rw [if_neg (by omega)]
    exact .append (headerLoop_value hp hf hu' (by omega))
      (.cons hf hcr (ih rfl hf (by dsimp only; omega) ParseState.noConfusion))
  | spacesAfterColon v _ ih =>
    intro i s hp hf hkey _
    have hv : headerStep d i v s = .go { s with parseState := .value, valueStart := i } := by
      rw [headerStep, hp]
    exact .cons hf hv (ih rfl hf (by dsimp only; omega) (fun _ => by push_cast; omega))
  | colon _ ih =>
    intro i s hp hf hkey _
    have hspace : headerStep d i Chr.space s = .go { s with parseState := .spacesAfterColon } := by
      rw [headerStep, hp]
      simp only [if_true]
    exact .cons hf hspace (ih rfl hf (by dsimp only; omega) ParseState.noConfusion)
  | @key n y hn _ ih =>
    intro i s hp hf hkey _
    have hcolon : headerStep d (i + n.length) Chr.colon s
        = .go { s with parseState := .colon, keyEnd := ((i + n.length : ℕ) : ℤ) } := by
      rw [headerStep, hp]
      simp only [if_true]
      rw [if_neg (by omega)]
    exact .append (headerLoop_name hp hf hn)
      (.cons hf hcolon (ih rfl hf (by dsimp only; omega) ParseState.noConfusion))

/-- A loop that has read nothing is where it was. -/
theorem parseState_of_nil (h : headerLoop d [] i s = (.go s', j)) : s'.parseState = s.parseState :=
  congrArg HeaderScan.parseState (ScanResult.go.inj (Prod.mk.inj h).1).symm

/-! Without a key there is no way past the line feed, and so the loop stops before it. -/

theorem Unset.nil_of_cr (hs : Unset s) (hp : s.parseState = .cr)
    (h : Http.headerLoop d x i s = (.go s', j)) : x = [] := by
  cases x with
  | nil => rfl
  | cons ch x =>
    obtain ⟨s₁, h₁, -⟩ := exists_headerStep hs.isFinish h
    have hs₁ : Unset s₁ := hs.headerStep h₁
    rw [Http.headerStep, hp] at h₁
    dsimp only at h₁
    split at h₁
    · split at h₁ <;> cases h₁
      exact absurd hs₁.inLine Bool.false_ne_true
    · cases h₁

/-- Before the CR there is a round to go. -/
theorem Unset.exists_round (hs : Unset s) (hne : s.parseState ≠ .cr)
    (h : Http.headerLoop d x i s = (.go s', j)) (hcr : s'.parseState = .cr) : ∃ ch y s₁,
      x = ch :: y ∧ Http.headerStep d i ch s = .go s₁ ∧
        Http.headerLoop d y (i + 1) s₁ = (.go s', j) ∧ Unset s₁ := by
  cases x with
  | nil => exact absurd ((parseState_of_nil h).symm.trans hcr) hne
  | cons ch x =>
    obtain ⟨s₁, h₁, h₂⟩ := exists_headerStep hs.isFinish h
    exact ⟨ch, x, s₁, rfl, h₁, h₂, hs.headerStep h₁⟩

theorem Unset.exists_value (hs : Unset s) (hp : s.parseState = .value)
    (hle : i - s.valueStart ≤ 256) (h : Http.headerLoop d x i s = (.go s', j))
    (hcr : s'.parseState = .cr) :
    ∃ u, x = u ++ [Chr.cr] ∧ Chr.cr ∉ u ∧ (i + u.length : ℤ) - s.valueStart ≤ 256 := by
  induction x generalizing i with
  | nil => exact ParseState.noConfusion (hp.symm.trans ((parseState_of_nil h).symm.trans hcr))
  | cons ch x ih =>
    obtain ⟨s₁, h₁, h₂⟩ := exists_headerStep hs.isFinish h
    have hs₁ : Unset s₁ := hs.headerStep h₁
    rw [Http.headerStep, hp] at h₁
    dsimp only at h₁
    split at h₁
    · next hch =>
      split at h₁ <;> cases h₁
      obtain rfl := hs₁.nil_of_cr rfl h₂
      exact ⟨[], by rw [hch]; rfl, List.not_mem_nil, by simpa using hle⟩
    · next hch =>
      split at h₁ <;> cases h₁
      obtain ⟨u, rfl, hu, hlen⟩ := ih (by push_cast; omega) h₂
      refine ⟨ch :: u, rfl, ?_, ?_⟩
      · rw [List.mem_cons, not_or]
        exact ⟨Ne.symm hch, hu⟩
      · rw [List.length_cons]
        push_cast at hlen ⊢
        omega

/-- **A value up to its line feed**, entered behind its first character. -/
theorem Unset.endsLine_value {y : Bytes} (hs : Unset s) (hp : s.parseState = .value)
    (hstart : s.valueStart = i - 1) (h : Http.headerLoop d x i s = (.go s', j))
    (hcr : s'.parseState = .cr) : EndsLine .value (x ++ Chr.lf :: y) := by
  obtain ⟨u, rfl, hu, hlen⟩ := hs.exists_value hp (by omega) h hcr
  rw [List.append_assoc]
  exact .value hu (by omega) (.cr y)

theorem Unset.endsLine_spacesAfterColon {y : Bytes} (hs : Unset s)
    (hp : s.parseState = .spacesAfterColon) (h : Http.headerLoop d x i s = (.go s', j))
    (hcr : s'.parseState = .cr) : EndsLine .spacesAfterColon (x ++ Chr.lf :: y) := by
  obtain ⟨ch, x, s₁, rfl, h₁, h₂, hs₁⟩ :=
    hs.exists_round (by rw [hp]; exact ParseState.noConfusion) h hcr
  rw [Http.headerStep, hp] at h₁
  cases h₁
  exact .spacesAfterColon ch (hs₁.endsLine_value rfl (by push_cast; omega) h₂ hcr)

theorem Unset.endsLine_colon {y : Bytes} (hs : Unset s) (hp : s.parseState = .colon)
    (h : Http.headerLoop d x i s = (.go s', j)) (hcr : s'.parseState = .cr) :
    EndsLine .colon (x ++ Chr.lf :: y) := by
  obtain ⟨ch, x, s₁, rfl, h₁, h₂, hs₁⟩ :=
    hs.exists_round (by rw [hp]; exact ParseState.noConfusion) h hcr
  rw [Http.headerStep, hp] at h₁
  dsimp only at h₁
  split at h₁ <;> cases h₁
  next hch =>
  rw [hch]
  exact .colon (hs₁.endsLine_spacesAfterColon rfl h₂ hcr)

theorem Unset.exists_name {y : Bytes} (hs : Unset s) (hp : s.parseState = .key)
    (h : Http.headerLoop d x i s = (.go s', j)) (hcr : s'.parseState = .cr) :
    ∃ n z, x ++ Chr.lf :: y = n ++ Chr.colon :: z ∧
      (∀ b ∈ n, b ≠ Chr.colon ∧ b ≠ Chr.cr ∧ b ≠ Chr.lf) ∧ EndsLine .colon z := by
  induction x generalizing i with
  | nil => exact ParseState.noConfusion (hp.symm.trans ((parseState_of_nil h).symm.trans hcr))
  | cons ch x ih =>
    obtain ⟨s₁, h₁, h₂⟩ := exists_headerStep hs.isFinish h
    have hs₁ : Unset s₁ := hs.headerStep h₁
    rw [Http.headerStep, hp] at h₁
    dsimp only at h₁
    split at h₁
    · next hch =>
      split at h₁ <;> cases h₁
      exact ⟨[], x ++ Chr.lf :: y, by rw [hch]; rfl, by simp, hs₁.endsLine_colon rfl h₂ hcr⟩
    · next hcolon =>
      split at h₁ <;> cases h₁
      next hch =>
      rw [not_or] at hch
      obtain ⟨n, z, hx, hn, hz⟩ := ih h₂
      refine ⟨ch :: n, z, by rw [List.cons_append, hx, List.cons_append], ?_, hz⟩
      rintro b (_ | ⟨_, hb⟩)
      · exact ⟨hcolon, hch.2, hch.1⟩
      · exact hn b hb

end Loop

/-! ## One call -/

section Call

variable {c : HttpConnection} {s : HeaderScan}

/-- **A call that begins inside a line and records a field** has found the rest of the line. -/
theorem endsLine_of_extracts (hin : c.parseState.inLine = true) (h : Extracts c s) :
    EndsLine c.parseState c.readBuffer := by
  obtain ⟨x, y, hbuf, hloop, hcr⟩ := h
  have hs : Unset c.scanner := ⟨hin, rfl, rfl⟩
  rw [hbuf]
  cases hp : c.parseState with
  | start | lf | endCr | endLf =>
    rw [hp] at hin
    exact absurd hin Bool.false_ne_true
  | cr =>
    obtain rfl := hs.nil_of_cr hp hloop
    exact .cr y
  | value => exact hs.endsLine_value hp rfl hloop hcr
  | spacesAfterColon => exact hs.endsLine_spacesAfterColon hp hloop hcr
  | colon => exact hs.endsLine_colon hp hloop hcr
  | key =>
    obtain ⟨n, z, hz, hn, hend⟩ := hs.exists_name (y := y) hp hloop hcr
    rw [hz]
    exact .key hn hend

/-- **The rest of the line in the buffer** makes the call record a field. -/
theorem exists_extracts (h : EndsLine c.parseState c.readBuffer) : ∃ s, Extracts c s := by
  obtain ⟨x, y, s, hbuf, hloop, hcr⟩ := h.reachesEnd (d := c.readBuffer) (i := 0) (s := c.scanner)
    rfl rfl (Int.negSucc_lt_zero 0) (fun _ => rfl)
  rw [Nat.zero_add] at hloop
  exact ⟨s, x, y, hbuf, hloop, hcr⟩

/-- **Inside a line the key starts nowhere** when a field is recorded. -/
theorem Extracts.unset (h : Extracts c s) (hin : c.parseState.inLine = true) : Unset s := by
  obtain ⟨x, y, -, hloop, -⟩ := h
  exact headerLoop_invariant (P := fun _ s => Unset s) (fun _ _ _ _ hs h => hs.headerStep h) hloop
    ⟨hin, rfl, rfl⟩

/-- **Outside a line every offset is set** when a field is recorded. -/
theorem Extracts.ordered (h : Extracts c s) (hout : c.parseState.inLine = false) :
    0 ≤ s.keyStart ∧ s.keyStart ≤ s.keyEnd ∧ s.keyEnd ≤ s.valueStart ∧
      s.valueStart ≤ s.valueEnd ∧ s.valueEnd ≤ c.readBuffer.length := by
  obtain ⟨x, y, hbuf, hloop, hcr⟩ := h
  have hs := headerLoop_invariant (fun _ _ _ _ hs h => ordered_headerStep hs h) hloop
    (ordered_of_outside (s := c.scanner) hout)
  have hlen : c.readBuffer.length = x.length + (y.length + 1) := by
    rw [hbuf, List.length_append, List.length_cons]
  rw [Ordered, hcr] at hs
  dsimp only at hs
  omega

/-- **What is left of the buffer begins in the buffer.** -/
theorem rest_le {i : ℕ} (h : headerLoop c.readBuffer c.readBuffer 0 c.scanner = (.go s, i)) :
    i ≤ c.readBuffer.length ∧ s.nowReadLineBegin ≤ c.readBuffer.length := by
  have hi : i ≤ c.readBuffer.length := by
    have := (headerLoop_offset c.readBuffer c.readBuffer 0 c.scanner).2
    rwa [h, Nat.zero_add] at this
  have hbegin : s.nowReadLineBegin ≤ i :=
    headerLoop_invariant (P := fun i s => s.nowReadLineBegin ≤ i)
      (fun _ _ _ _ hs h => nowReadLineBegin_headerStep hs h) h le_rfl
  exact ⟨hi, hbegin.trans hi⟩

/-- **The offsets of a call are valid** exactly when it does not end the line of another. -/
theorem offsetsValid_iff_whole (c : HttpConnection) : OffsetsValid c ↔ Whole c := by
  refine ⟨fun hv he => ?_, fun hw => ⟨fun s hs => ?_, fun s i => rest_le⟩⟩
  · obtain ⟨s, hs⟩ := exists_extracts he
    have := (hv.field s hs).1
    rw [(hs.unset he.inLine).keyStart] at this
    omega
  · by_cases hin : c.parseState.inLine = true
    · exact absurd (endsLine_of_extracts hin hs) hw
    · exact hs.ordered (Bool.eq_false_of_not_eq_true hin)

/-! Undefined behaviour is where the offsets of a field delimit no part of the buffer. -/

/-- A loop that comes to it stands at the line feed behind a CR. -/
theorem exists_of_undefined {d : Bytes} {s' : HeaderScan} {j : ℕ} : ∀ {x : Bytes} {i : ℕ}
    {s : HeaderScan}, headerLoop d x i s = (.undefined s', j) → ∃ u y s₁, x = u ++ Chr.lf :: y ∧
      headerLoop d u i s = (.go s₁, i + u.length) ∧ s₁.parseState = .cr ∧
      (slice d s₁.keyStart s₁.keyEnd = none ∨ slice d s₁.valueStart s₁.valueEnd = none)
  | [], _, _, h => ScanResult.noConfusion (congrArg Prod.fst h)
  | ch :: x, i, s, h => by
      by_cases hf : s.isFinish = true
      · rw [headerLoop_finished hf] at h
        exact ScanResult.noConfusion (congrArg Prod.fst h)
      · rw [Bool.not_eq_true] at hf
        cases hstep : headerStep d i ch s with
        | go s₁ =>
          rw [headerLoop_step hf hstep] at h
          obtain ⟨u, y, s₂, rfl, hloop, hcr⟩ := exists_of_undefined h
          refine ⟨ch :: u, y, s₂, rfl, ?_, hcr⟩
          rw [headerLoop_step hf hstep, hloop, List.length_cons, Nat.add_assoc, Nat.add_comm 1]
        | error s₁ =>
          rw [headerLoop_stop hf hstep (by simp)] at h
          exact ScanResult.noConfusion (congrArg Prod.fst h)
        | undefined s₁ =>
          obtain ⟨hcr, rfl, hslice⟩ := cr_of_undefined hstep
          exact ⟨[], x, s, rfl, rfl, hcr, hslice⟩

theorem slice_ne_none {d : Bytes} {a b : ℤ} (ha : 0 ≤ a) (hab : a ≤ b) (hb : b ≤ d.length) :
    slice d a b ≠ none := by
  rw [slice, if_pos ⟨ha, hab, hb⟩]
  exact Option.some_ne_none _

/-- **`ParseRequestHeader` is undefined exactly for the calls that end the line of another.** -/
theorem parseRequestHeader_eq_none_iff (c : HttpConnection) :
    (parseRequestHeader c).1 = none ↔ ¬ Whole c := by
  rw [Whole, not_not]
  constructor
  · intro hnone
    by_contra hw
    cases hloop : headerLoop c.readBuffer c.readBuffer 0 c.scanner with
    | mk r j =>
      cases r with
      | go s =>
        by_cases hs : s.parseState = .endLf
        · rw [parseRequestHeader_success hloop hs] at hnone
          cases hnone
        · rw [parseRequestHeader_again hloop hs] at hnone
          cases hnone
      | error s =>
        rw [parseRequestHeader_error hloop] at hnone
        cases hnone
      | undefined s' =>
        obtain ⟨u, y, s, hbuf, hu, hcr, hslice⟩ := exists_of_undefined hloop
        rw [Nat.zero_add] at hu
        obtain ⟨h₁, h₂, h₃, h₄, h₅⟩ :=
          ((offsetsValid_iff_whole c).mpr hw).field s ⟨u, y, hbuf, hu, hcr⟩
        obtain hkey | hvalue := hslice
        · exact slice_ne_none h₁ h₂ (by omega) hkey
        · exact slice_ne_none (by omega) h₄ h₅ hvalue
  · intro he
    obtain ⟨s, hs⟩ := exists_extracts he
    have hunset := hs.unset he.inLine
    obtain ⟨x, y, hbuf, hloop, hcr⟩ := hs
    have hslice : slice c.readBuffer s.keyStart s.keyEnd = none := by
      rw [slice, hunset.keyStart, if_neg (by omega)]
    have hstep : headerStep c.readBuffer x.length Chr.lf s
        = .undefined { s with parseState := .lf } := by
      rw [headerStep, hcr]
      simp only [if_true, hslice]
    have hcall : headerLoop c.readBuffer c.readBuffer 0 c.scanner
        = (.undefined { s with parseState := .lf }, x.length) := by
      nth_rewrite 2 [hbuf]
      rw [headerLoop_append hloop]
      exact headerLoop_stop hunset.isFinish hstep (by simp)
    rw [parseRequestHeader_undefined hcall]

end Call

end WebServer.Http
