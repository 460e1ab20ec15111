import WebServer.Http.HeaderTrace

/-!
# Http/Resume — the scanner resumed inside a line

A call that runs out of data inside a line keeps its state and the line, but not its offsets.  The
next call scans the line again from its start, in the state it had at the end and with a name that
starts nowhere, or at the line feed before it.  It can only fail, wait again, or record a name that
starts with that line feed (`parseRequestHeader_resumed`), and it does not wait behind the empty
line.
-/

namespace WebServer.Http

/-! ## Rounds inside a line -/

/-- The states inside a line. -/
def ParseState.inLine : ParseState → Bool
  | .key | .colon | .spacesAfterColon | .value | .cr => true
  | .start | .lf | .endCr | .endLf => false

/-- What rounds inside a line keep. -/
structure SameLine (s s' : HeaderScan) : Prop where
  inLine : s'.parseState.inLine = true
  isFinish : s'.isFinish = s.isFinish
  nowReadLineBegin : s'.nowReadLineBegin = s.nowReadLineBegin
  keyStart : s'.keyStart = s.keyStart
  requestHeaders : s'.requestHeaders = s.requestHeaders

theorem SameLine.trans {s s' s'' : HeaderScan} (a : SameLine s s') (b : SameLine s' s'') :
    SameLine s s'' where
  inLine := b.inLine
  isFinish := b.isFinish.trans a.isFinish
  nowReadLineBegin := b.nowReadLineBegin.trans a.nowReadLineBegin
  keyStart := b.keyStart.trans a.keyStart
  requestHeaders := b.requestHeaders.trans a.requestHeaders

/-- **A round inside a line** is an error or stays in the line, unless it meets the line feed behind
a CR. -/
theorem headerStep_inLine {d : Bytes} {i : ℕ} {c : UInt8} {s : HeaderScan}
    (hs : s.parseState.inLine = true) (hlf : s.parseState = .cr → c ≠ Chr.lf) :
    (∃ s', headerStep d i c s = .error s') ∨ ∃ s',
      headerStep d i c s = .go s' ∧ SameLine s s' := by
  rw [headerStep]
  cases hp : s.parseState with
  | start => simp [ParseState.inLine, hp] at hs
  | lf => simp [ParseState.inLine, hp] at hs
  | endCr => simp [ParseState.inLine, hp] at hs
  | endLf => simp [ParseState.inLine, hp] at hs
  | key =>
    dsimp only
    split
    · split
      · exact .inl ⟨_, rfl⟩
      · exact .inr ⟨_, rfl, rfl, rfl, rfl, rfl, rfl⟩
    · split
      · exact .inl ⟨_, rfl⟩
      · exact .inr ⟨_, rfl, hs, rfl, rfl, rfl, rfl⟩
  | colon =>
    dsimp only
    split
    · exact .inr ⟨_, rfl, rfl, rfl, rfl, rfl, rfl⟩
    · exact .inl ⟨_, rfl⟩
  | spacesAfterColon => exact .inr ⟨_, rfl, rfl, rfl, rfl, rfl, rfl⟩
  | value =>
    dsimp only
    split
    · split
      · exact .inl ⟨_, rfl⟩
      · exact .inr ⟨_, rfl, rfl, rfl, rfl, rfl, rfl⟩
    · split
      · exact .inl ⟨_, rfl⟩
      · exact .inr ⟨_, rfl, hs, rfl, rfl, rfl, rfl⟩
  | cr =>
    dsimp only
    rw [if_neg (hlf hp)]
    exact .inl ⟨_, rfl⟩

/-- **The loop inside a line**: without a line feed it stays there, or it is an error. -/
theorem headerLoop_inLine {d : Bytes} : ∀ {x : Bytes} {i : ℕ} {s : HeaderScan},
    s.parseState.inLine = true → s.isFinish = false → Chr.lf ∉ x →
    (∃ s' j, headerLoop d x i s = (.error s', j)) ∨
      ∃ s', headerLoop d x i s = (.go s', i + x.length) ∧ SameLine s s'
  | [], i, s, hs, hf, _ => .inr ⟨s, rfl, hs, rfl, rfl, rfl, rfl⟩
  | ch :: x, i, s, hs, hf, hx => by
      have hne : ch ≠ Chr.lf := fun h => hx (h ▸ List.mem_cons_self ..)
      obtain ⟨s₁, h₁⟩ | ⟨s₁, h₁, same⟩ := headerStep_inLine (d := d) (i := i) hs fun _ => hne
      · exact .inl ⟨s₁, i, headerLoop_stop hf h₁ (by simp)⟩
      · rw [headerLoop_step hf h₁]
        obtain h | ⟨s₂, h₂, same₂⟩ := headerLoop_inLine same.inLine (same.isFinish.trans hf)
          fun h => hx (List.mem_cons_of_mem _ h)
        · exact .inl h
        · refine .inr ⟨s₂, ?_, same.trans same₂⟩
          rw [h₂, List.length_cons, Nat.add_assoc, Nat.add_comm 1]

/-- A first part that the loop goes through. -/
theorem exists_headerLoop {d : Bytes} : ∀ {x y : Bytes} {i j : ℕ} {s s' : HeaderScan},
    headerLoop d (x ++ y) i s = (.go s', j) →
    ∃ s₁ j₁, headerLoop d x i s = (.go s₁, j₁) ∧ headerLoop d y j₁ s₁ = (.go s', j)
  | [], y, i, j, s, s', h => ⟨s, i, rfl, h⟩
  | ch :: x, y, i, j, s, s', h => by
      by_cases hf : s.isFinish = true
      · rw [headerLoop_finished hf] at h
        obtain ⟨hs, rfl⟩ := Prod.mk.inj h
        obtain rfl := ScanResult.go.inj hs
        exact ⟨s, i, headerLoop_finished hf, headerLoop_finished hf⟩
      · rw [Bool.not_eq_true] at hf
        obtain ⟨s₁, h₁, h₂⟩ := exists_headerStep hf h
        obtain ⟨s₂, j₂, h₃, h₄⟩ := exists_headerLoop h₂
        exact ⟨s₂, j₂, by rw [headerLoop_step hf h₁, h₃], h₄⟩

/-! ## Names that start with a line feed -/

/-- **A map with a name that no field has**: it is empty or starts with a line feed. -/
def Tainted (m : HeaderMap) : Prop := ∃ k, (m k).isSome ∧ ∀ b, k.head? = some b → b = Chr.lf

theorem Tainted.update {m : HeaderMap} (h : Tainted m) (k v : Bytes) :
    Tainted (Function.update m k (some v)) := by
  obtain ⟨k', hk', hb⟩ := h
  refine ⟨k', ?_, hb⟩
  by_cases hk : k' = k
  · rw [hk, Function.update_self]
    rfl
  · rwa [Function.update_of_ne hk]

/-- What a round does to the map. -/
theorem headerStep_requestHeaders (d : Bytes) (i : ℕ) (ch : UInt8) (s : HeaderScan) :
    (headerStep d i ch s).scan.requestHeaders = s.requestHeaders ∨ ∃ k v,
      (headerStep d i ch s).scan.requestHeaders = Function.update s.requestHeaders k (some v) := by
  rw [headerStep]
  cases s.parseState with
  | cr =>
    dsimp only
    split
    · split
      · exact .inr ⟨_, _, rfl⟩
      · exact .inl rfl
    · exact .inl rfl
  | spacesAfterColon => exact .inl rfl
  | endLf => exact .inl rfl
  | start => dsimp only; split <;> exact .inl rfl
  | key => dsimp only; split <;> split <;> exact .inl rfl
  | colon => dsimp only; split <;> exact .inl rfl
  | value => dsimp only; split <;> split <;> exact .inl rfl
  | lf => dsimp only; split <;> exact .inl rfl
  | endCr => dsimp only; split <;> exact .inl rfl

/-- **A name that was recorded stays.** -/
theorem Tainted.headerLoop {d : Bytes} : ∀ {x : Bytes} {i j : ℕ} {s s' : HeaderScan},
    Tainted s.requestHeaders → headerLoop d x i s = (.go s', j) → Tainted s'.requestHeaders
  | [], i, j, s, s', ht, h => by
      obtain rfl := ScanResult.go.inj (Prod.mk.inj h).1
      exact ht
  | ch :: x, i, j, s, s', ht, h => by
      by_cases hf : s.isFinish = true
      · rw [headerLoop_finished hf] at h
        obtain rfl := ScanResult.go.inj (Prod.mk.inj h).1
        exact ht
      · rw [Bool.not_eq_true] at hf
        obtain ⟨s₁, h₁, h₂⟩ := exists_headerStep hf h
        refine Tainted.headerLoop (s := s₁) ?_ h₂
        have hmap := headerStep_requestHeaders d i ch s
        rw [h₁] at hmap
        obtain hm | ⟨k, v, hm⟩ := hmap
        · exact hm ▸ ht
        · exact hm ▸ ht.update k v

/-! ## A line without its start -/

/-- **The scanner inside a line whose name starts nowhere**, or at a line feed at the front of the
buffer. -/
structure Torn (d : Bytes) (s : HeaderScan) : Prop where
  inLine : s.parseState.inLine = true
  isFinish : s.isFinish = false
  nowReadLineBegin : s.nowReadLineBegin = 0
  keyStart : s.keyStart = -1 ∨ s.keyStart = 0 ∧ d.head? = some Chr.lf

theorem Torn.sameLine {d : Bytes} {s s' : HeaderScan} (t : Torn d s) (h : SameLine s s') :
    Torn d s' where
  inLine := h.inLine
  isFinish := h.isFinish.trans t.isFinish
  nowReadLineBegin := h.nowReadLineBegin.trans t.nowReadLineBegin
  keyStart := h.keyStart ▸ t.keyStart

/-- What such a line is recorded under. -/
theorem Torn.tainted_slice {d : Bytes} {s : HeaderScan} (t : Torn d s) {key : Bytes} {e : ℤ}
    (h : slice d s.keyStart e = some key) (m : HeaderMap) (v : Bytes) :
    Tainted (Function.update m key (some v)) := by
  refine ⟨key, by rw [Function.update_self]; rfl, fun b hb => ?_⟩
  rw [slice] at h
  split at h
  · next hle =>
    obtain hk | ⟨hk, hd⟩ := t.keyStart
    · omega
    · rw [hk, Int.toNat_zero, List.drop_zero] at h
      rw [← Option.some.inj h, List.head?_take] at hb
      split at hb
      · exact absurd hb (by simp)
      · exact Option.some.inj (hb.symm.trans hd)
  · exact absurd h (by simp)

/-- **One round**: the line stays torn, or its name is recorded. -/
theorem Torn.headerStep {d : Bytes} {i : ℕ} {ch : UInt8} {s s' : HeaderScan} (t : Torn d s)
    (h : headerStep d i ch s = .go s') :
    (SameLine s s' ∧ Torn d s' ∧ ¬ (s.parseState = .cr ∧ ch = Chr.lf)) ∨
      (Tainted s'.requestHeaders ∧ s.parseState = .cr ∧ ch = Chr.lf) := by
  by_cases hend : s.parseState = .cr ∧ ch = Chr.lf
  · obtain ⟨hcr, rfl⟩ := hend
    refine .inr ⟨?_, hcr, rfl⟩
    rw [Http.headerStep, hcr] at h
    simp only [if_true] at h
    split at h
    · next key value hkey hvalue =>
      obtain rfl := ScanResult.go.inj h
      exact t.tainted_slice hkey s.requestHeaders value
    · exact absurd h (by simp)
  · have hround : (∃ s', Http.headerStep d i ch s = .error s') ∨
        ∃ s', Http.headerStep d i ch s = .go s' ∧ SameLine s s' :=
      headerStep_inLine t.inLine fun hcr hlf => hend ⟨hcr, hlf⟩
    obtain ⟨s₁, h₁⟩ | ⟨s₁, h₁, same⟩ := hround
    · rw [h] at h₁
      exact absurd h₁ (by simp)
    · obtain rfl := ScanResult.go.inj (h.symm.trans h₁)
      exact .inl ⟨same, t.sameLine same, hend⟩

/-- **The loop**: the line stays torn, or its name is recorded. -/
theorem Torn.headerLoop {d : Bytes} : ∀ {x : Bytes} {i j : ℕ} {s s' : HeaderScan}, Torn d s →
    Http.headerLoop d x i s = (.go s', j) →
      (SameLine s s' ∧ Torn d s') ∨ Tainted s'.requestHeaders
  | [], i, j, s, s', t, h => by
      obtain rfl := ScanResult.go.inj (Prod.mk.inj h).1
      exact .inl ⟨⟨t.inLine, rfl, rfl, rfl, rfl⟩, t⟩
  | ch :: x, i, j, s, s', t, h => by
      obtain ⟨s₁, h₁, h₂⟩ := exists_headerStep t.isFinish h
      obtain ⟨same, t₁, -⟩ | ⟨ht, -⟩ := t.headerStep h₁
      · obtain ⟨same₁, t₂⟩ | ht := t₁.headerLoop h₂
        · exact .inl ⟨same.trans same₁, t₂⟩
        · exact .inr ht
      · exact .inr (ht.headerLoop h₂)

/-- The line feed behind a CR. -/
theorem Torn.tainted_of_cr {d x : Bytes} {i j : ℕ} {s s' : HeaderScan} (t : Torn d s)
    (hs : s.parseState = .cr) (h : Http.headerLoop d (Chr.lf :: x) i s = (.go s', j)) :
    Tainted s'.requestHeaders := by
  obtain ⟨s₁, h₁, h₂⟩ := exists_headerStep t.isFinish h
  obtain ⟨-, -, hne⟩ | ⟨ht, -⟩ := t.headerStep h₁
  · exact absurd ⟨hs, rfl⟩ hne
  · exact ht.headerLoop h₂

/-- A line end in a value. -/
theorem Torn.tainted_of_value {d x : Bytes} {i j : ℕ} {s s' : HeaderScan} (t : Torn d s)
    (hs : s.parseState = .value)
    (h : Http.headerLoop d (Chr.cr :: Chr.lf :: x) i s = (.go s', j)) :
    Tainted s'.requestHeaders := by
  obtain ⟨s₁, h₁, h₂⟩ := exists_headerStep t.isFinish h
  obtain ⟨-, t₁, -⟩ | ⟨ht, -⟩ := t.headerStep h₁
  · refine t₁.tainted_of_cr ?_ h₂
    rw [Http.headerStep, hs] at h₁
    simp only [if_true] at h₁
    split at h₁
    · exact absurd h₁ (by simp)
    · rw [← ScanResult.go.inj h₁]
  · exact ht.headerLoop h₂

/-- A CR in a name, behind it, or behind another CR is an error. -/
theorem headerStep_cr {d : Bytes} {i : ℕ} {s : HeaderScan}
    (hs : s.parseState = .key ∨ s.parseState = .colon ∨ s.parseState = .cr) :
    headerStep d i Chr.cr s = .error s := by
  have hcolon : Chr.cr ≠ Chr.colon := by decide
  have hspace : Chr.cr ≠ Chr.space := by decide
  have hlf : Chr.cr ≠ Chr.lf := by decide
  rw [headerStep]
  obtain h | h | h := hs
  · rw [h]
    simp only [if_neg hcolon, or_true, if_true]
  · rw [h]
    simp only [if_neg hspace]
  · rw [h]
    simp only [if_neg hlf]

/-- **No loop stays inside a line past the empty line.** -/
theorem Torn.tainted_of_closed {d x : Bytes} {i j : ℕ} {s s' : HeaderScan} (t : Torn d s)
    (h : Http.headerLoop d (x ++ (crlf ++ crlf)) i s = (.go s', j)) :
    Tainted s'.requestHeaders := by
  obtain ⟨s₁, j₁, h₁, h₂⟩ := exists_headerLoop h
  obtain ⟨-, t₁⟩ | ht := t.headerLoop h₁
  · obtain ⟨s₂, hcr, h₃⟩ := exists_headerStep t₁.isFinish h₂
    obtain ⟨-, t₂, -⟩ | ⟨-, -, hlf⟩ := t₁.headerStep hcr
    · have hin := t₁.inLine
      cases hp : s₁.parseState with
      | start => exact absurd (hp ▸ hin) (by decide)
      | lf => exact absurd (hp ▸ hin) (by decide)
      | endCr => exact absurd (hp ▸ hin) (by decide)
      | endLf => exact absurd (hp ▸ hin) (by decide)
      | value => exact t₁.tainted_of_value hp h₂
      | spacesAfterColon =>
        -- the CR is taken for the first character of the value, the line feed for the second
        rw [Http.headerStep, hp] at hcr
        have hvalue : s₂.parseState = .value := by rw [← ScanResult.go.inj hcr]
        obtain ⟨s₃, hlf, h₄⟩ := exists_headerStep t₂.isFinish h₃
        obtain ⟨-, t₃, -⟩ | ⟨-, hcr', -⟩ := t₂.headerStep hlf
        · refine t₃.tainted_of_value ?_ h₄
          rw [Http.headerStep, hvalue] at hlf
          simp only [show Chr.lf ≠ Chr.cr by decide, if_false] at hlf
          split at hlf
          · exact absurd hlf (by simp)
          · rw [← ScanResult.go.inj hlf, hvalue]
        · exact absurd (hvalue.symm.trans hcr') (by decide)
      | key => exact absurd ((headerStep_cr (.inl hp)).symm.trans hcr) (by simp)
      | colon => exact absurd ((headerStep_cr (.inr (.inl hp))).symm.trans hcr) (by simp)
      | cr => exact absurd ((headerStep_cr (.inr (.inr hp))).symm.trans hcr) (by simp)
    · exact absurd hlf (by decide)
  · exact ht.headerLoop h₂

/-! ## One call -/

/-- A connection that stopped inside a line, or at the line feed before one. -/
def HttpConnection.Broken (c : HttpConnection) : Prop :=
  c.parseState.inLine = true ∨ c.parseState = ParseState.lf ∧ c.readBuffer.head? = some Chr.lf

/-- The data ends with a field and the empty line. -/
def Closed (d : Bytes) : Prop := ∃ x, d = x ++ (crlf ++ crlf)

/-- **What a call on a broken connection comes to.** -/
inductive Resumed (c : HttpConnection) : Option HeaderState × HttpConnection → Prop
  | undefined (c' : HttpConnection) : Resumed c (none, c')
  | error (c' : HttpConnection) : Resumed c (some .error, c')
  | tainted {x : Option HeaderState × HttpConnection} (ht : Tainted x.2.requestHeaders) :
    Resumed c x
  | again {p : ParseState} (hp : p.inLine = true) (hopen : ¬ Closed c.readBuffer) :
      Resumed c (some .again, { c with parseState := p })

/-- The line feed that was kept is taken for the start of a name. -/
theorem headerStep_keptLineFeed {c : HttpConnection} (d : Bytes) (hs : c.parseState = .lf) :
    headerStep d 0 Chr.lf c.scanner = .go ⟨.key, c.requestHeaders, 0, -1, -1, -1, 0, false⟩ := by
  rw [headerStep, HttpConnection.scanner, hs]
  rfl

/-- The scanner that a call on a broken connection starts with is torn, after the line feed. -/
theorem HttpConnection.Broken.torn {c : HttpConnection} (hc : c.Broken) : ∃ a x s,
    c.readBuffer = a ++ x ∧ headerLoop c.readBuffer c.readBuffer 0 c.scanner
      = headerLoop c.readBuffer x a.length s ∧
    Torn c.readBuffer s ∧ s.requestHeaders = c.requestHeaders ∧
      (Closed c.readBuffer → Closed x) := by
  obtain hin | ⟨hlf, hd⟩ := hc
  · exact ⟨[], c.readBuffer, _, rfl, rfl, ⟨hin, rfl, rfl, .inl rfl⟩, rfl, id⟩
  · obtain ⟨x, hx⟩ : ∃ x, c.readBuffer = Chr.lf :: x := by
      cases hb : c.readBuffer with
      | nil =>
        rw [hb] at hd
        exact absurd hd (by simp)
      | cons b x =>
        rw [hb] at hd
        exact ⟨x, by rw [Option.some.inj hd]⟩
    refine ⟨[Chr.lf], x, ⟨.key, c.requestHeaders, 0, -1, -1, -1, 0, false⟩, hx, ?_,
      ⟨rfl, rfl, rfl, .inr ⟨rfl, hd⟩⟩, rfl, ?_⟩
    · have hloop := headerLoop_step (x := x) rfl (headerStep_keptLineFeed c.readBuffer hlf)
      rwa [← hx] at hloop
    · rintro ⟨y, hy⟩
      rw [hx] at hy
      cases y with
      | nil => exact absurd (List.cons.inj hy).1 (by decide)
      | cons b y => exact ⟨y, (List.cons.inj hy).2⟩

/-- **A call on a broken connection.** -/
theorem parseRequestHeader_resumed {c : HttpConnection} (hc : c.Broken) :
    Resumed c (parseRequestHeader c) := by
  obtain ⟨a, x, s, hax, hloop, t, hmap, hclosed⟩ := hc.torn
  cases hr : headerLoop c.readBuffer x a.length s with
  | mk r j =>
    rw [hr] at hloop
    cases r with
    | undefined s' =>
      rw [parseRequestHeader_undefined hloop]
      exact .undefined _
    | error s' =>
      rw [parseRequestHeader_error hloop]
      exact .error _
    | go s' =>
      have hor : (SameLine s s' ∧ Torn c.readBuffer s' ∧ ¬ Closed c.readBuffer) ∨
          Tainted s'.requestHeaders := by
        by_cases hcl : Closed c.readBuffer
        · obtain ⟨y, hy⟩ := hclosed hcl
          exact .inr (t.tainted_of_closed (hy ▸ hr))
        · exact (t.headerLoop hr).imp_left fun ⟨same, t'⟩ => ⟨same, t', hcl⟩
      obtain ⟨same, t', hopen⟩ | ht := hor
      · have hend : s'.parseState ≠ .endLf := fun h => absurd (h ▸ t'.inLine) (by decide)
        rw [parseRequestHeader_again hloop hend, HttpConnection.store, t'.nowReadLineBegin,
          same.requestHeaders.trans hmap]
        exact .again t'.inLine hopen
      · by_cases hend : s'.parseState = .endLf
        · rw [parseRequestHeader_success hloop hend]
          exact .tainted ht
        · rw [parseRequestHeader_again hloop hend]
          exact .tainted ht

/-- The empty line after a line feed that was kept is an error. -/
theorem parseRequestHeader_emptyLine {c : HttpConnection} {x : Bytes} (hs : c.parseState = .lf)
    (hb : c.readBuffer = Chr.lf :: Chr.cr :: x) :
    ∃ s, parseRequestHeader c = (some .error, c.store s) := by
  have hcr : headerStep c.readBuffer 1 Chr.cr ⟨.key, c.requestHeaders, 0, -1, -1, -1, 0, false⟩
      = .error ⟨.key, c.requestHeaders, 0, -1, -1, -1, 0, false⟩ := headerStep_cr (.inl rfl)
  have hloop := headerLoop_step (x := Chr.cr :: x) rfl (headerStep_keptLineFeed c.readBuffer hs)
  rw [headerLoop_stop rfl hcr (by simp), ← hb] at hloop
  exact ⟨_, parseRequestHeader_error hloop⟩

/-! ## Stopping inside a line -/

/-- The scanner behind the first characters of a line that starts at offset `i`. -/
structure IntoLine (i : ℕ) (s s' : HeaderScan) : Prop where
  inLine : s'.parseState.inLine = true
  requestHeaders : s'.requestHeaders = s.requestHeaders
  nowReadLineBegin : s'.nowReadLineBegin
    = if s.parseState = ParseState.start then i else s.nowReadLineBegin

/-- **The first characters of a line.** -/
theorem headerLoop_intoLine {d u : Bytes} {b : UInt8} {i : ℕ} {s : HeaderScan} (hs : AtLine s)
    (hcr : b ≠ Chr.cr) (hlf : Chr.lf ∉ b :: u) :
    (∃ s' j, headerLoop d (b :: u) i s = (.error s', j)) ∨
      ∃ s', headerLoop d (b :: u) i s = (.go s', i + (b :: u).length) ∧ IntoLine i s s' := by
  have hb : b ≠ Chr.lf := fun h => hlf (h ▸ List.mem_cons_self ..)
  rw [headerLoop_step hs.isFinish (headerStep_first hs hcr fun _ => hb)]
  obtain h | ⟨s', h, same⟩ := headerLoop_inLine (d := d) (x := u) (i := i + 1) (s := { s with
      parseState := .key
      keyStart := i
      nowReadLineBegin := if s.parseState = ParseState.start then i else s.nowReadLineBegin })
      rfl hs.isFinish fun h => hlf (List.mem_cons_of_mem _ h)
  · exact .inl h
  · refine .inr ⟨s', ?_, same.inLine, same.requestHeaders, same.nowReadLineBegin⟩
    rw [h, List.length_cons]
    congr 1
    omega

/-- **The characters of a value**, and the CR behind it: line feeds do not end it. -/
theorem headerLoop_inValue {d : Bytes} : ∀ {x : Bytes} {i : ℕ} {s : HeaderScan},
    s.parseState = .value → s.isFinish = false → Chr.cr ∉ x.dropLast →
    (∃ s' j, headerLoop d x i s = (.error s', j)) ∨
      ∃ s', headerLoop d x i s = (.go s', i + x.length) ∧ SameLine s s'
  | [], i, s, hs, hf, _ => .inr ⟨s, rfl, by rw [hs]; rfl, rfl, rfl, rfl, rfl⟩
  | [c], i, s, hs, hf, _ => by
      obtain ⟨s₁, h₁⟩ | ⟨s₁, h₁, same⟩ := headerStep_inLine (d := d) (i := i) (c := c)
        (s := s) (by rw [hs]; rfl) fun hcr => absurd (hs.symm.trans hcr) (by decide)
      · exact .inl ⟨s₁, i, headerLoop_stop hf h₁ (by simp)⟩
      · exact .inr ⟨s₁, headerLoop_step hf h₁, same⟩
  | ch :: ch' :: x, i, s, hs, hf, hx => by
      rw [List.dropLast_cons_cons, List.mem_cons, not_or] at hx
      by_cases hlong : (i : ℤ) - s.valueStart > 255
      · have hstep : headerStep d i ch s = .error s := by
          rw [headerStep, hs]
          simp only [if_neg (Ne.symm hx.1), if_pos hlong]
        exact .inl ⟨s, i, headerLoop_stop hf hstep (by simp)⟩
      · have hstep : headerStep d i ch s = .go s := by
          rw [headerStep, hs]
          simp only [if_neg (Ne.symm hx.1), if_neg hlong]
        rw [headerLoop_step hf hstep]
        obtain h | ⟨s', h, same⟩ := headerLoop_inValue (d := d) (i := i + 1) hs hf hx.2
        · exact .inl h
        · refine .inr ⟨s', ?_, same⟩
          rw [h, List.length_cons (a := ch), Nat.add_assoc, Nat.add_comm 1]

/-- A first part of a value and its line end holds no CR but as its last character. -/
theorem cr_notMem_dropLast {w z v : Bytes} (hw : Chr.cr ∉ w) (hv : v ≠ [])
    (h : w ++ crlf = z ++ v) : Chr.cr ∉ z.dropLast := by
  have hline : w ++ crlf = (w ++ [Chr.cr]) ++ [Chr.lf] := by rw [List.append_assoc]; rfl
  have hcut : w ++ [Chr.cr] = z ++ v.dropLast := by
    rw [← List.dropLast_append_of_ne_nil hv, ← h, hline, List.dropLast_concat]
  by_cases hnil : v.dropLast = []
  · rwa [← List.append_nil z, ← hnil, ← hcut, List.dropLast_concat]
  · have hz : w = z ++ v.dropLast.dropLast := by
      rw [← List.dropLast_append_of_ne_nil hnil, ← hcut, List.dropLast_concat]
    exact fun hmem => hw (hz ▸ List.mem_append_left _ (List.mem_of_mem_dropLast hmem))

/-- **A first part of a line** that the scanner reads: an error, or the scanner is inside the
line. -/
theorem headerLoop_intoTame {d u v : Bytes} {k : Field} {i : ℕ} {s : HeaderScan} (hs : AtLine s)
    (hk : k.Tame) (h : k.line = u ++ v) (hu : u ≠ []) (hv : v ≠ []) :
    (∃ s' j, headerLoop d u i s = (.error s', j)) ∨
      ∃ s', headerLoop d u i s = (.go s', i + u.length) ∧ IntoLine i s s' := by
  obtain ⟨name, value⟩ := k
  obtain ⟨b, n, rfl⟩ := List.exists_cons_of_ne_nil hk.name_ne
  obtain ⟨c, w, rfl⟩ := List.exists_cons_of_ne_nil hk.value_ne
  have hcr : b ≠ Chr.cr := fun e => hk.name_first (congrArg some e)
  have hblf : b ≠ Chr.lf := fun e => hk.name_lf (congrArg some e)
  obtain ⟨start, hstart⟩ : ∃ start, start = b :: n ++ [Chr.colon, Chr.space] := ⟨_, rfl⟩
  have hlf : Chr.lf ∉ start := by
    rw [hstart]
    intro hmem
    obtain hmem | hmem := List.mem_append.mp hmem
    · obtain e | hmem := List.mem_cons.mp hmem
      · exact hblf e.symm
      · exact (hk.name_ok _ hmem).2.2 rfl
    · exact absurd hmem (by decide)
  have hline : Field.line (b :: n, c :: w) = start ++ (c :: (w ++ crlf)) := by
    rw [hstart, Field.line, fieldLine]
    simp
  rw [hline] at h
  -- either the part ends in front of the value, or it has come to its first character
  obtain ⟨z, rfl, hz⟩ | ⟨z, hz, -⟩ := List.append_eq_append_iff.mp h
  · rcases z with _ | ⟨c', z⟩
    · rw [hstart] at hlf
      rw [List.append_nil, hstart]
      exact headerLoop_intoLine hs hcr hlf
    · obtain ⟨rfl, hw⟩ := List.cons.inj hz
      obtain ⟨s₁, h₁, hin⟩ := headerLoop_toValue (d := d) (n := n) (i := i) hs hcr
        (fun _ => hblf) hk.name_ok c
      have hcut : start ++ c :: z = (b :: n ++ [Chr.colon, Chr.space, c]) ++ z := by
        rw [hstart]
        simp
      rw [hcut, headerLoop_append h₁]
      obtain h₂ | ⟨s₂, h₂, same⟩ := headerLoop_inValue (d := d) (x := z)
        (i := i + (b :: n).length + 3) hin.parseState hin.isFinish
        (cr_notMem_dropLast hk.value_ok hv hw)
      · exact .inl h₂
      · refine .inr ⟨s₂, ?_, same.inLine, same.requestHeaders.trans hin.requestHeaders,
          same.nowReadLineBegin.trans hin.nowReadLineBegin⟩
        rw [h₂]
        simp only [List.length_append, List.length_cons, List.length_nil]
        congr 1
        omega
  · obtain ⟨b', u, rfl⟩ := List.exists_cons_of_ne_nil hu
    have hlf' : Chr.lf ∉ b' :: u := fun hmem => hlf (hz ▸ List.mem_append_left z hmem)
    obtain rfl : b = b' := (List.cons.inj (hstart.symm.trans hz)).1
    exact headerLoop_intoLine hs hcr hlf'

/-- The line feed that ends the lines of some fields. -/
theorem drop_fieldLines {fs : List Field} (hfs : fs ≠ []) (y : Bytes) :
    ([Chr.lf] ++ (fieldLines fs ++ y)).drop (1 + (fieldLines fs).length - 1) = Chr.lf :: y := by
  obtain ⟨x, hx⟩ := fieldLines_eq hfs
  have hcut : [Chr.lf] ++ (fieldLines fs ++ y) = ([Chr.lf] ++ x ++ [Chr.cr]) ++ Chr.lf :: y := by
    rw [hx]
    simp
  rw [hcut, hx, List.drop_left']
  simp only [List.length_append, List.length_cons, List.length_nil]
  omega

theorem Closed.append {d : Bytes} (h : Closed d) (a : Bytes) : Closed (a ++ d) := by
  obtain ⟨x, rfl⟩ := h
  exact ⟨a ++ x, (List.append_assoc ..).symm⟩

/-- The end of closed data is closed, if it is long enough. -/
theorem Closed.of_append {t y : Bytes} (h : Closed (t ++ y)) (hlen : 4 ≤ y.length) : Closed y := by
  obtain ⟨x, h⟩ := h
  obtain ⟨z, -, hz⟩ | ⟨z, -, hz⟩ := List.append_eq_append_iff.mp h
  · exact ⟨z, hz⟩
  · have hz' : z = [] := by
      have hfour : 4 = z.length + y.length :=
        (congrArg List.length hz).trans (List.length_append ..)
      exact List.length_eq_zero_iff.mp (by omega)
    rw [hz', List.nil_append] at hz
    exact ⟨[], hz.symm⟩

/-- A block with fields is closed. -/
theorem closed_headerBlock {fs : List Field} (hfs : fs ≠ []) : Closed (headerBlock fs) := by
  obtain ⟨x, hx⟩ := fieldLines_eq hfs
  exact ⟨x, by rw [headerBlock, hx, List.append_assoc]⟩

/-- …and so is what comes behind some of its lines, if a line does. -/
theorem closed_of_lines {fs gs : List Field} {w e : Bytes} (hfs : fs ≠ []) (hgs : gs ≠ [])
    (h : w ++ (fieldLines gs ++ e) = headerBlock fs) : Closed (fieldLines gs ++ e) := by
  refine (h ▸ closed_headerBlock hfs).of_append ?_
  obtain ⟨g, gs, rfl⟩ := List.exists_cons_of_ne_nil hgs
  rw [fieldLines_cons, g.line_eq]
  simp only [List.length_append, List.length_cons, List.length_nil]
  omega

/-! ## The first call -/

/-- A call before the first line waits. -/
theorem parseRequestHeader_lineEnd {c : HttpConnection} (hs : c.parseState = .start)
    (hb : c.readBuffer = [] ∨ c.readBuffer = [Chr.lf]) :
    parseRequestHeader c = (some .again, c) := by
  have hloop : ∃ j, headerLoop c.readBuffer c.readBuffer 0 c.scanner = (.go c.scanner, j) := by
    obtain hb | hb := hb
    · rw [hb]
      exact ⟨0, rfl⟩
    · rw [hb, headerLoop_lineFeed (show c.scanner.parseState = .start from hs) rfl]
      exact ⟨1, rfl⟩
  obtain ⟨j, hloop⟩ := hloop
  have hend : c.scanner.parseState ≠ .endLf := by
    change c.parseState ≠ _
    rw [hs]
    decide
  rw [parseRequestHeader_again hloop hend]
  rfl

/-- A call that stops inside its first line: an error, or the line is kept as it is. -/
theorem parseRequestHeader_firstLine {c : HttpConnection} {b : UInt8} {u : Bytes}
    (hs : c.parseState = .start) (hb : c.readBuffer = b :: u) (hcr : b ≠ Chr.cr)
    (hlf : Chr.lf ∉ b :: u) : (∃ s, parseRequestHeader c = (some .error, c.store s)) ∨
      ∃ p, p.inLine = true ∧ parseRequestHeader c = (some .again, { c with parseState := p }) := by
  obtain ⟨s, j, h⟩ | ⟨s, h, into⟩ :=
    headerLoop_intoLine (d := c.readBuffer) (i := 0) (s := c.scanner) ⟨.inl hs, rfl⟩ hcr hlf
  · rw [← hb] at h
    exact .inl ⟨s, parseRequestHeader_error h⟩
  · rw [← hb] at h
    have hend : s.parseState ≠ .endLf := fun e => absurd (e ▸ into.inLine) (by decide)
    refine .inr ⟨s.parseState, into.inLine, ?_⟩
    rw [parseRequestHeader_again h hend, HttpConnection.store, into.requestHeaders,
      into.nowReadLineBegin, if_pos (show c.scanner.parseState = .start from hs)]
    rfl

/-- **A call that stops inside a later line**: an error, or the fields before it are recorded and
the line is kept. -/
theorem parseRequestHeader_insideLine {c : HttpConnection} {ks : List Field} {k : Field}
    {u v : Bytes} (hs : c.parseState = .start) (htame : ∀ k ∈ ks, k.Tame)
    (hshort : ∀ k ∈ ks, k.2.length ≤ 256) (hb : c.readBuffer = [Chr.lf] ++ (fieldLines ks ++ u))
    (hk : k.Tame) (hline : k.line = u ++ v) (hu : u ≠ []) (hv : v ≠ []) :
    (∃ s, parseRequestHeader c = (some .error, c.store s)) ∨
      ∃ p a, p.inLine = true ∧ parseRequestHeader c = (some .again, { c with
        parseState := p
        readBuffer := a ++ u
        requestHeaders := recordFields c.requestHeaders ks }) := by
  obtain ⟨s₁, h₁, hr⟩ := headerLoop_lines hb (s := c.scanner) hs rfl htame hshort
  obtain ⟨s, j, h⟩ | ⟨s, h, into⟩ := headerLoop_intoTame (d := c.readBuffer)
    (i := 1 + (fieldLines ks).length) hr.atLine hk hline hu hv
  · exact .inl ⟨s, parseRequestHeader_error (h₁.trans h)⟩
  · have hend : s.parseState ≠ .endLf := fun e => absurd (e ▸ into.inLine) (by decide)
    obtain ⟨a, ha⟩ : ∃ a, c.readBuffer.drop s.nowReadLineBegin = a ++ u := by
      have hle : s.nowReadLineBegin ≤ ([Chr.lf] ++ fieldLines ks).length := by
        rw [List.length_append, List.length_singleton, into.nowReadLineBegin]
        split
        · exact le_rfl
        · rw [hr.nowReadLineBegin]
          split
          · exact Nat.zero_le _
          · exact Nat.sub_le _ _
      rw [hb, ← List.append_assoc, List.drop_append_of_le_length hle]
      exact ⟨_, rfl⟩
    refine .inr ⟨s.parseState, a, into.inLine, ?_⟩
    rw [parseRequestHeader_again (h₁.trans h) hend, HttpConnection.store, ha, into.requestHeaders,
      hr.requestHeaders]
    rfl

/-- **A call that stops between two lines**: the fields are recorded, and the line feed before the
next line is kept. -/
theorem parseRequestHeader_betweenLines {c : HttpConnection} {ks : List Field} (hks : ks ≠ [])
    (hs : c.parseState = .start) (htame : ∀ k ∈ ks, k.Tame) (hshort : ∀ k ∈ ks, k.2.length ≤ 256)
    (hb : c.readBuffer = [Chr.lf] ++ fieldLines ks) :
    parseRequestHeader c = (some .again, { c with
      parseState := .lf
      readBuffer := [Chr.lf]
      requestHeaders := recordFields c.requestHeaders ks }) := by
  have hb' : c.readBuffer = [Chr.lf] ++ (fieldLines ks ++ []) := by rw [hb, List.append_nil]
  obtain ⟨s, h, hr⟩ := headerLoop_lines hb' (s := c.scanner) hs rfl htame hshort
  have hlf : s.parseState = .lf := by rw [hr.parseState, if_neg hks]
  rw [parseRequestHeader_again h (by rw [hlf]; decide), HttpConnection.store, hlf,
    hr.nowReadLineBegin, if_neg hks, hb', drop_fieldLines hks, hr.requestHeaders]
  rfl

/-- **A call that stops inside the empty line**: every field is recorded, and the end of the last
line is kept. -/
theorem parseRequestHeader_insideEmptyLine {c : HttpConnection} {ks : List Field}
    (hks : ks ≠ []) (hs : c.parseState = .start) (htame : ∀ k ∈ ks, k.Tame)
    (hshort : ∀ k ∈ ks, k.2.length ≤ 256)
    (hb : c.readBuffer = [Chr.lf] ++ (fieldLines ks ++ [Chr.cr])) :
    parseRequestHeader c = (some .again, { c with
      parseState := .endCr
      readBuffer := [Chr.lf, Chr.cr]
      requestHeaders := recordFields c.requestHeaders ks }) := by
  obtain ⟨s, h, hr⟩ := headerLoop_lines hb (s := c.scanner) hs rfl htame hshort
  have hlf : s.parseState = .lf := by rw [hr.parseState, if_neg hks]
  have hcr : headerStep c.readBuffer (1 + (fieldLines ks).length) Chr.cr s
      = .go { s with parseState := .endCr } := by
    rw [headerStep, hlf]
    rfl
  rw [headerLoop_step hr.atLine.isFinish hcr] at h
  rw [parseRequestHeader_again h (by simp), HttpConnection.store, hr.nowReadLineBegin, if_neg hks,
    hb, drop_fieldLines hks, hr.requestHeaders]
  rfl

/-! ## A block whose last value is empty

It takes the empty line with it, and the scanner goes on into what follows the block. -/

theorem headerStep_nowReadLineBegin {d : Bytes} {i : ℕ} {ch : UInt8} {s s' : HeaderScan}
    (h : headerStep d i ch s = .go s') :
    s'.nowReadLineBegin = s.nowReadLineBegin ∨ s'.nowReadLineBegin = i := by
  have hscan : s' = (headerStep d i ch s).scan := by rw [h]; rfl
  rw [hscan, headerStep]
  cases s.parseState with
  | start => dsimp only; split; exacts [.inl rfl, .inr rfl]
  | key => dsimp only; split <;> split <;> exact .inl rfl
  | colon => dsimp only; split <;> exact .inl rfl
  | spacesAfterColon => exact .inl rfl
  | value => dsimp only; split <;> split <;> exact .inl rfl
  | cr =>
    dsimp only
    split
    · split
      exacts [.inr rfl, .inl rfl]
    · exact .inl rfl
  | lf => dsimp only; split <;> exact .inl rfl
  | endCr => dsimp only; split <;> exact .inl rfl
  | endLf => exact .inr rfl

/-- **A loop keeps no line that starts where it started before**, and does not go back. -/
theorem headerLoop_forward {d : Bytes} {n : ℕ} : ∀ {x : Bytes} {i j : ℕ} {s s' : HeaderScan},
    headerLoop d x i s = (.go s', j) → n < i → s.nowReadLineBegin ≠ n →
      n < j ∧ s'.nowReadLineBegin ≠ n
  | [], i, j, s, s', h, hi, hn => by
      obtain ⟨hs, rfl⟩ := Prod.mk.inj h
      obtain rfl := ScanResult.go.inj hs
      exact ⟨hi, hn⟩
  | ch :: x, i, j, s, s', h, hi, hn => by
      by_cases hf : s.isFinish = true
      · rw [headerLoop_finished hf] at h
        obtain ⟨hs, rfl⟩ := Prod.mk.inj h
        obtain rfl := ScanResult.go.inj hs
        exact ⟨hi, hn⟩
      · rw [Bool.not_eq_true] at hf
        obtain ⟨s₁, h₁, h₂⟩ := exists_headerStep hf h
        refine headerLoop_forward h₂ (by omega) ?_
        obtain hb | hb := headerStep_nowReadLineBegin h₁
        · rwa [hb]
        · omega

section OpenBlock

variable {fs : List Field} {rest : Bytes} {c : HttpConnection} (hc : AtBlock fs rest c)
  (hfs : ∀ f ∈ fs, f.Plain) (hne : fs ≠ []) (hs : Short fs) (he : ¬ Ends fs)

include hc hfs hne hs he

/-- **Alone it is not the end of the header**: the call waits. -/
theorem AtBlock.parseRequestHeader_open (hrest : rest = []) :
    Http.parseRequestHeader c = (some .again, { c with
      parseState := .lf
      readBuffer := [Chr.lf]
      requestHeaders := lastWins (scannedLines fs) }) := by
  have hb := hc.readBuffer_eq
  rw [blockEnd, if_neg he, hrest, List.append_nil, List.append_nil] at hb
  rw [parseRequestHeader_betweenLines (scannedLines_ne_nil hne) hc.parseState
    (tame_of_mem_scannedLines hfs) (short_iff_scannedLines.mp hs) hb, hc.requestHeaders]
  rfl

/-- **The call never stops at the end of the block.** -/
theorem AtBlock.readBuffer_ne : (Http.parseRequestHeader c).2.readBuffer ≠ rest := by
  by_cases hrest : rest = []
  · rw [hc.parseRequestHeader_open hfs hne hs he hrest, hrest]
    exact List.cons_ne_nil _ _
  have hpos := List.length_pos_iff.mpr hrest
  obtain ⟨ks, hks⟩ : ∃ ks, ks = scannedLines fs := ⟨_, rfl⟩
  have hb := hc.readBuffer_eq
  rw [blockEnd, if_neg he, List.nil_append, ← hks] at hb
  have hlen : c.readBuffer.length = 1 + (fieldLines ks).length + rest.length := by
    rw [hb]
    simp only [List.length_append, List.length_cons, List.length_nil]
    omega
  have hks_ne : ks ≠ [] := hks ▸ scannedLines_ne_nil hne
  obtain ⟨s₁, h₁, hr⟩ := headerLoop_lines hb (s := c.scanner) hc.parseState rfl
    (hks ▸ tame_of_mem_scannedLines hfs) (hks ▸ short_iff_scannedLines.mp hs)
  have hlf : s₁.parseState = .lf := by rw [hr.parseState, if_neg hks_ne]
  have hbegin : s₁.nowReadLineBegin = (fieldLines ks).length := by
    rw [hr.nowReadLineBegin, if_neg hks_ne, Nat.add_sub_cancel_left]
  -- the offset that the call would have to stop at, or to keep a line from
  have hdrop : ∀ m, m ≠ 1 + (fieldLines ks).length → c.readBuffer.drop m ≠ rest := by
    intro m hm h
    have := congrArg List.length h
    rw [List.length_drop, hlen] at this
    omega
  have hkept : c.readBuffer ≠ rest := by
    intro h
    have := congrArg List.length h
    omega
  rcases hloop : headerLoop c.readBuffer c.readBuffer 0 c.scanner with ⟨s | s | s, j⟩
  · obtain ⟨b, y, hy⟩ := List.exists_cons_of_ne_nil hrest
    rw [h₁, hy] at hloop
    obtain ⟨s₂, h₂, h₃⟩ := exists_headerStep hr.atLine.isFinish hloop
    have hstep : s₂.nowReadLineBegin = s₁.nowReadLineBegin := by
      rw [headerStep, hlf] at h₂
      simp only at h₂
      split at h₂ <;> rw [← ScanResult.go.inj h₂]
    obtain ⟨hj, hn⟩ := headerLoop_forward h₃ (Nat.lt_succ_self _)
      (by rw [hstep, hbegin]; omega)
    rw [← hy, ← h₁] at hloop
    by_cases hend : s.parseState = .endLf
    · rw [parseRequestHeader_success hloop hend]
      exact hdrop j (by omega)
    · rw [parseRequestHeader_again hloop hend]
      exact hdrop _ hn
  · rw [parseRequestHeader_error hloop]
    exact hkept
  · rw [parseRequestHeader_undefined hloop]
    exact hkept

end OpenBlock

/-- **The end of the empty line**, after a call that stopped inside it: the line feed that was kept
ends the header, and the one that has arrived is left in the buffer. -/
theorem parseRequestHeader_emptyLineEnd {c : HttpConnection} (hs : c.parseState = .endCr)
    (hb : c.readBuffer = [Chr.lf, Chr.cr, Chr.lf]) : parseRequestHeader c = (some .success, { c with
      parseState := .endLf
      readBuffer := [Chr.lf] }) := by
  have hlf : headerStep c.readBuffer 0 Chr.lf c.scanner
      = .go ⟨.endLf, c.requestHeaders, -1, -1, -1, -1, 0, false⟩ := by
    rw [headerStep, HttpConnection.scanner, hs]
    rfl
  have hcr : headerStep c.readBuffer 1 Chr.cr ⟨.endLf, c.requestHeaders, -1, -1, -1, -1, 0, false⟩
      = .go ⟨.endLf, c.requestHeaders, 1, -1, -1, -1, 1, true⟩ := rfl
  have hloop := headerLoop_step (x := [Chr.cr, Chr.lf]) rfl hlf
  rw [headerLoop_step rfl hcr, ← hb] at hloop
  rw [parseRequestHeader_success hloop rfl, hb]
  rfl

end WebServer.Http
