import WebServer.Http.HeaderTrace

/-!
# Http/HeaderGrammar — the blocks of fields that the header scanner accepts

A header block is a line feed, the lines of its fields, and an empty line.  The scanner reads a
grammar of its own: it skips every carriage return and line feed in front of the first field, it
looks only behind the first character of a name and of a value, and it wants at least one field
(`success_iff_scanned`).  The two grammars agree unless a value is empty or no field comes, and on
a string that is no block of either (`readsBlock_iff`).
-/

namespace WebServer.Http

/-! ## The grammar of a header block -/

/-- **A field of the grammar**; its value may be empty. -/
structure Field.WellFormed (f : Field) : Prop where
  name_ne : f.1 ≠ []
  name_ok : ∀ b ∈ f.1, b ≠ Chr.colon ∧ b ≠ Chr.cr ∧ b ≠ Chr.lf
  value_ok : ∀ b ∈ f.2, b ≠ Chr.cr ∧ b ≠ Chr.lf
  value_le : f.2.length ≤ 256

theorem Field.WellFormed.plain {f : Field} (hf : f.WellFormed) : f.Plain :=
  ⟨hf.name_ne, hf.name_ok, hf.value_ok⟩

/-- **`b` begins with the header block of `fs`.** -/
structure IsBlock (fs : List Field) (b : Bytes) : Prop where
  wellFormed : ∀ f ∈ fs, f.WellFormed
  starts : Chr.lf :: headerBlock fs <+: b

/-- A connection at the start of a header, with `b` in its buffer. -/
def HttpConnection.atHeader (c : HttpConnection) (b : Bytes) : HttpConnection :=
  { c with parseState := .start, requestHeaders := fun _ => none, readBuffer := b }

/-- **The header of `b` is read as the grammar says**: it is accepted if and only if `b` begins with
a block, and then the fields of the block are recorded. -/
def ReadsBlock (c : HttpConnection) (b : Bytes) : Prop :=
  ((parseRequestHeader (c.atHeader b)).1 = some .success ↔ ∃ fs, IsBlock fs b) ∧
    ∀ fs, IsBlock fs b → (parseRequestHeader (c.atHeader b)).1 = some .success →
      (parseRequestHeader (c.atHeader b)).2.requestHeaders = lastWins fs

/-! ## What the scanner takes for a block -/

/-- **What the scanner takes for a block**: line ends, and then at least one field. -/
structure Scanned (ks : List Field) (b : Bytes) : Prop where
  taken : ∀ k ∈ ks, k.Taken
  ks_ne : ks ≠ []
  first : ∀ k ∈ ks.head?, k.1.head? ≠ some Chr.lf
  starts : ∃ lead, (∀ c ∈ lead, c = Chr.cr ∨ c = Chr.lf) ∧ lead ++ headerBlock ks <+: b

/-! ## The scanner finishes on a block -/

/-- The loop comes to the end of the header, with the fields `m`. -/
def Finishes (d y : Bytes) (i : ℕ) (s : HeaderScan) (m : HeaderMap) : Prop :=
  ∃ s' j, headerLoop d y i s = (.go s', j) ∧ s'.parseState = .endLf ∧ s'.requestHeaders = m

section Finishes

variable {d y : Bytes} {i : ℕ} {s : HeaderScan} {m : HeaderMap}

/-- A loop that does not stop can be cut. -/
theorem finishes_append {x : Bytes} {j : ℕ} {s' : HeaderScan}
    (h : headerLoop d x i s = (.go s', j)) : Finishes d (x ++ y) i s m ↔ Finishes d y j s' m := by
  rw [Finishes, Finishes, headerLoop_append h]

theorem finishes_cons {b : UInt8} {s' : HeaderScan} (hf : s.isFinish = false)
    (h : headerStep d i b s = .go s') : Finishes d (b :: y) i s m ↔ Finishes d y (i + 1) s' m := by
  rw [Finishes, Finishes, headerLoop_step hf h]

theorem not_finishes_nil (hs : s.parseState ≠ .endLf) : ¬ Finishes d [] i s m := by
  rintro ⟨s', j, h, hend, -⟩
  obtain rfl := ScanResult.go.inj (Prod.mk.inj h).1
  exact hs hend

theorem not_finishes_error {b : UInt8} {s' : HeaderScan} (hf : s.isFinish = false)
    (h : headerStep d i b s = .error s') : ¬ Finishes d (b :: y) i s m := by
  rintro ⟨s'', j, h', -⟩
  rw [headerLoop_stop hf h (by simp)] at h'
  exact absurd (Prod.mk.inj h').1 (by simp)

/-- Behind the empty line every rest is left to others. -/
theorem finishes_endLf (hs : s.parseState = .endLf) (hf : s.isFinish = false) :
    Finishes d y i s s.requestHeaders := by
  obtain ⟨s', h, hend, hm⟩ := headerLoop_endLf hs hf y
  exact ⟨s', _, h, hend, hm⟩

/-- The result is one. -/
theorem Finishes.unique {m' : HeaderMap} (h : Finishes d y i s m) (h' : Finishes d y i s m') :
    m = m' := by
  obtain ⟨s₁, j, h, -, rfl⟩ := h
  obtain ⟨s₂, j', h', -, rfl⟩ := h'
  obtain ⟨hs, -⟩ := Prod.mk.inj (h.symm.trans h')
  rw [ScanResult.go.inj hs]

/-- Behind a colon stand a blank and one character. -/
theorem Finishes.separator (hs : s.parseState = .colon) (hf : s.isFinish = false)
    (h : Finishes d y i s m) : ∃ v w, y = Chr.space :: v :: w := by
  rcases y with _ | ⟨b, y⟩
  · exact absurd h (not_finishes_nil (by rw [hs]; simp))
  · by_cases hspace : b = Chr.space
    · have hstep : headerStep d i b s = .go { s with parseState := .spacesAfterColon } := by
        rw [headerStep, hs]
        simp only [if_pos hspace]
      rw [finishes_cons hf hstep] at h
      rcases y with _ | ⟨v, w⟩
      · exact absurd h (not_finishes_nil (by simp))
      · exact ⟨v, w, by rw [hspace]⟩
    · have hstep : headerStep d i b s = .error s := by
        rw [headerStep, hs]
        simp only [if_neg hspace]
      exact absurd h (not_finishes_error hf hstep)

/-- Behind a CR stands an LF. -/
theorem Finishes.lineFeed (hs : s.parseState = .cr ∨ s.parseState = .endCr)
    (hf : s.isFinish = false) (h : Finishes d y i s m) : ∃ w, y = Chr.lf :: w := by
  rcases y with _ | ⟨b, w⟩
  · exact absurd h (not_finishes_nil (by obtain hs | hs := hs <;> rw [hs] <;> simp))
  · by_cases hlf : b = Chr.lf
    · exact ⟨w, by rw [hlf]⟩
    · have hstep : headerStep d i b s = .error s := by
        rw [headerStep]
        obtain hs | hs := hs <;> rw [hs] <;> simp only [if_neg hlf]
      exact absurd h (not_finishes_error hf hstep)

/-- **A name ends** in a colon and a blank, and a character comes behind them. -/
theorem Finishes.name : ∀ {y : Bytes} {i : ℕ}, s.parseState = .key → s.isFinish = false →
    s.keyStart < i → Finishes d y i s m → ∃ n v w,
      (∀ c ∈ n, c ≠ Chr.colon ∧ c ≠ Chr.cr ∧ c ≠ Chr.lf) ∧
        y = n ++ Chr.colon :: Chr.space :: v :: w
  | [], i, hs, _, _, h => absurd h (not_finishes_nil (by rw [hs]; simp))
  | b :: y, i, hs, hf, hstart, h => by
      by_cases hcolon : b = Chr.colon
      · have hstep : headerStep d i b s = .go { s with parseState := .colon, keyEnd := i } := by
          rw [headerStep, hs]
          simp only [if_pos hcolon]
          rw [if_neg (by omega)]
        rw [finishes_cons hf hstep] at h
        obtain ⟨v, w, rfl⟩ := h.separator rfl (by exact hf)
        exact ⟨[], v, w, fun c hc => absurd hc List.not_mem_nil, by rw [hcolon]; rfl⟩
      · by_cases hend : b = Chr.lf ∨ b = Chr.cr
        · have hstep : headerStep d i b s = .error s := by
            rw [headerStep, hs]
            simp only [if_neg hcolon, if_pos hend]
          exact absurd h (not_finishes_error hf hstep)
        · have hstep : headerStep d i b s = .go s := by
            rw [headerStep, hs]
            simp only [if_neg hcolon, if_neg hend]
          rw [finishes_cons hf hstep] at h
          obtain ⟨n, v, w, hn, rfl⟩ := h.name hs hf (by omega)
          obtain ⟨hlf, hcr⟩ := not_or.mp hend
          exact ⟨b :: n, v, w, List.forall_mem_cons.mpr ⟨⟨hcolon, hcr, hlf⟩, hn⟩, rfl⟩

/-- **A value ends** in a line end, after 256 characters at most. -/
theorem Finishes.value : ∀ {y : Bytes} {i : ℕ}, s.parseState = .value → s.isFinish = false →
    s.valueStart < i → i - s.valueStart ≤ 256 → Finishes d y i s m → ∃ u w, Chr.cr ∉ u ∧
      (i + u.length : ℤ) - s.valueStart ≤ 256 ∧ y = u ++ (crlf ++ w)
  | [], i, hs, _, _, _, h => absurd h (not_finishes_nil (by rw [hs]; simp))
  | b :: y, i, hs, hf, hstart, hi, h => by
      by_cases hcr : b = Chr.cr
      · have hstep : headerStep d i b s = .go { s with parseState := .cr, valueEnd := i } := by
          rw [headerStep, hs]
          simp only [if_pos hcr]
          rw [if_neg (by omega)]
        rw [finishes_cons hf hstep] at h
        obtain ⟨w, rfl⟩ := h.lineFeed (.inl rfl) (by exact hf)
        exact ⟨[], w, List.not_mem_nil, by simpa using hi, by rw [hcr]; rfl⟩
      · by_cases hlong : (i : ℤ) - s.valueStart > 255
        · have hstep : headerStep d i b s = .error s := by
            rw [headerStep, hs]
            simp only [if_neg hcr, if_pos hlong]
          exact absurd h (not_finishes_error hf hstep)
        · have hstep : headerStep d i b s = .go s := by
            rw [headerStep, hs]
            simp only [if_neg hcr, if_neg hlong]
          rw [finishes_cons hf hstep] at h
          obtain ⟨u, w, hu, hlen, rfl⟩ := h.value hs hf (by omega) (by omega)
          refine ⟨b :: u, w, ?_, ?_, rfl⟩
          · rw [List.mem_cons, not_or]
            exact ⟨Ne.symm hcr, hu⟩
          · rw [List.length_cons]
            omega

/-- The CR and LF in front of the first field are skipped. -/
theorem finishes_lead (hs : s.parseState = .start) (hf : s.isFinish = false) :
    ∀ {lead : Bytes} {i : ℕ}, (∀ c ∈ lead, c = Chr.cr ∨ c = Chr.lf) →
      (Finishes d (lead ++ y) i s m ↔ Finishes d y (i + lead.length) s m)
  | [], i, _ => Iff.rfl
  | c :: lead, i, h => by
      obtain ⟨hc, hlead⟩ := List.forall_mem_cons.mp h
      have hstep : headerStep d i c s = .go s := by
        rw [headerStep, hs]
        simp only [if_pos hc.symm]
      rw [List.cons_append, finishes_cons hf hstep, finishes_lead hs hf hlead, List.length_cons,
        Nat.add_assoc, Nat.add_comm 1]

end Finishes

/-! ## Line by line -/

section Lines

variable {d a y : Bytes} {s : HeaderScan} {m : HeaderMap} {k : Field}

/-- **A line that is taken** is recorded, and the scanner goes on behind it. -/
theorem finishes_line (hs : AtLine s) (hk : k.Taken)
    (hlf : s.parseState = .start → k.1.head? ≠ some Chr.lf) (hd : d = a ++ (k.line ++ y)) : ∃ s',
    s'.parseState = .lf ∧ s'.isFinish = false ∧
      s'.requestHeaders = Function.update s.requestHeaders k.1 (some k.2) ∧
        ∀ m, Finishes d (k.line ++ y) a.length s m ↔ Finishes d y (a ++ k.line).length s' m := by
  obtain ⟨s', h, hr⟩ := headerLoop_taken hs hk hlf hd
  rw [← List.length_append] at h
  exact ⟨s', hr.parseState, hr.isFinish, hr.requestHeaders, fun m => finishes_append h⟩

/-- **What the scanner gets through begins with a line that is taken.** -/
theorem Finishes.line {b : UInt8} {i : ℕ} (hs : AtLine s) (hcr : b ≠ Chr.cr)
    (hlf : s.parseState = .start → b ≠ Chr.lf) (h : Finishes d (b :: y) i s m) :
    ∃ k w, k.Taken ∧ k.1.head? = some b ∧ b :: y = Field.line k ++ w := by
  have hkey := (finishes_cons hs.isFinish (headerStep_first hs hcr hlf)).mp h
  obtain ⟨n, v, w, hn, rfl⟩ := hkey.name rfl (by exact hs.isFinish) (by change (i : ℤ) < _; omega)
  obtain ⟨s', hloop, hin⟩ := headerLoop_toValue (d := d) (i := i) hs hcr hlf hn v
  have hcut : b :: (n ++ Chr.colon :: Chr.space :: v :: w)
      = (b :: n ++ [Chr.colon, Chr.space, v]) ++ w := by simp
  rw [hcut, finishes_append hloop] at h
  obtain ⟨u, w, hu, hlen, rfl⟩ := h.value hin.parseState hin.isFinish
    (by rw [hin.valueStart]; omega) (by rw [hin.valueStart]; omega)
  rw [hin.valueStart] at hlen
  refine ⟨(b :: n, v :: u), w, ⟨⟨List.cons_ne_nil b n, fun e => hcr (Option.some.inj e), hn,
    List.cons_ne_nil v u, hu⟩, ?_⟩, rfl, ?_⟩
  · rw [List.length_cons]
    omega
  · rw [Field.line, fieldLine]
    simp

/-- **A block is read to its end.** -/
theorem finishes_of_block : ∀ {ks : List Field} {a y : Bytes} {s : HeaderScan},
    s.parseState = .lf → s.isFinish = false → d = a ++ y → (∀ k ∈ ks, k.Taken) →
      headerBlock ks <+: y → Finishes d y a.length s (recordFields s.requestHeaders ks)
  | [], a, y, s, hs, hf, _, _, hy => by
      obtain ⟨w, rfl⟩ := hy
      exact (finishes_append (headerLoop_emptyLine hs hf)).mpr (finishes_endLf rfl hf)
  | k :: ks, a, y, s, hs, hf, hd, hks, hy => by
      obtain ⟨hk, hks⟩ := List.forall_mem_cons.mp hks
      obtain ⟨w, rfl⟩ := hy
      rw [headerBlock_cons, List.append_assoc] at hd ⊢
      obtain ⟨s', hs', hf', hm, hiff⟩ := finishes_line ⟨.inr hs, hf⟩ hk (by simp [hs]) hd
      rw [hiff]
      have := finishes_of_block hs' hf' (by rw [hd, List.append_assoc]) hks
        (List.prefix_append (headerBlock ks) w)
      rwa [hm] at this

/-- **What the scanner gets through begins with a block.** -/
theorem Finishes.block : ∀ {y a : Bytes} {s : HeaderScan}, s.parseState = .lf →
    s.isFinish = false → d = a ++ y → Finishes d y a.length s m →
      ∃ ks : List Field, (∀ k ∈ ks, k.Taken) ∧ headerBlock ks <+: y
  | [], _, _, hs, _, _, h => absurd h (not_finishes_nil (by rw [hs]; simp))
  | b :: y, a, s, hs, hf, hd, h => by
      by_cases hcr : b = Chr.cr
      · have hstep : headerStep d a.length b s = .go { s with parseState := .endCr } := by
          rw [headerStep, hs]
          simp only [if_pos hcr]
        rw [finishes_cons hf hstep] at h
        obtain ⟨w, rfl⟩ := h.lineFeed (.inr rfl) (by exact hf)
        exact ⟨[], fun k hk => absurd hk List.not_mem_nil, w, by rw [hcr]; rfl⟩
      · obtain ⟨k, w, hk, -, hy⟩ := h.line ⟨.inr hs, hf⟩ hcr (by simp [hs])
        have hshort : w.length < (b :: y).length := by
          rw [hy, List.length_append, Field.line, fieldLine, List.length_append, List.length_cons]
          omega
        rw [hy] at h hd ⊢
        obtain ⟨s', hs', hf', -, hiff⟩ := finishes_line ⟨.inr hs, hf⟩ hk (by simp [hs]) hd
        obtain ⟨ks, hks, hw⟩ := ((hiff m).mp h).block hs' hf' (by rw [hd, List.append_assoc])
        refine ⟨k :: ks, List.forall_mem_cons.mpr ⟨hk, hks⟩, ?_⟩
        rw [headerBlock_cons, List.prefix_append_right_inj]
        exact hw
termination_by y => y.length
decreasing_by exact hshort

end Lines

/-! ## The scanner's own grammar -/

/-- The line ends in front of a string. -/
theorem exists_lead : ∀ b : Bytes, ∃ lead y, b = lead ++ y ∧ (∀ c ∈ lead, c = Chr.cr ∨ c = Chr.lf) ∧
    ∀ c ∈ y.head?, c ≠ Chr.cr ∧ c ≠ Chr.lf
  | [] => ⟨[], [], rfl, by simp, by simp⟩
  | c :: b => by
      by_cases hc : c = Chr.cr ∨ c = Chr.lf
      · obtain ⟨lead, y, rfl, hlead, hy⟩ := exists_lead b
        exact ⟨c :: lead, y, rfl, List.forall_mem_cons.mpr ⟨hc, hlead⟩, hy⟩
      · exact ⟨[], c :: b, rfl, by simp, by simpa [not_or] using hc⟩

/-- How a call ends, by its loop. -/
theorem parseRequestHeader_success_iff {c : HttpConnection} {m : HeaderMap} :
    ((parseRequestHeader c).1 = some .success ∧ (parseRequestHeader c).2.requestHeaders = m) ↔
      Finishes c.readBuffer c.readBuffer 0 c.scanner m := by
  rw [Finishes]
  rcases hloop : headerLoop c.readBuffer c.readBuffer 0 c.scanner with ⟨s | s | s, j⟩
  · by_cases hend : s.parseState = .endLf
    · rw [parseRequestHeader_success hloop hend]
      simp [HttpConnection.store, hend]
    · rw [parseRequestHeader_again hloop hend]
      simp [hend]
  · rw [parseRequestHeader_error hloop]
    simp
  · rw [parseRequestHeader_undefined hloop]
    simp

section Scanned

variable {c : HttpConnection} {b : Bytes} {ks : List Field}

/-- **A block that is scanned is accepted**, and its fields are recorded. -/
theorem Scanned.success (h : Scanned ks b) :
    (parseRequestHeader (c.atHeader b)).1 = some .success ∧
      (parseRequestHeader (c.atHeader b)).2.requestHeaders = lastWins ks := by
  rw [parseRequestHeader_success_iff]
  change Finishes b b 0 (c.atHeader b).scanner (lastWins ks)
  obtain ⟨lead, hlead, w, hb⟩ := h.starts
  rcases ks with _ | ⟨k, ks⟩
  · exact absurd rfl h.ks_ne
  obtain ⟨hk, hks⟩ := List.forall_mem_cons.mp h.taken
  rw [headerBlock_cons, List.append_assoc, List.append_assoc] at hb
  obtain ⟨s', hs', hf', hm, hiff⟩ := finishes_line (s := (c.atHeader b).scanner)
    ⟨.inl rfl, rfl⟩ hk (fun _ => h.first k rfl) hb.symm
  have hrest : b = (lead ++ k.line) ++ (headerBlock ks ++ w) := by rw [← hb, List.append_assoc]
  have hfin := finishes_of_block hs' hf' hrest hks (List.prefix_append ..)
  rw [← hiff, hm] at hfin
  have hall := (finishes_lead rfl rfl hlead (i := 0)).mpr (by rwa [Nat.zero_add])
  rwa [hb] at hall

/-- **What is accepted is a block of the scanner's.** -/
theorem success_iff_scanned :
    (parseRequestHeader (c.atHeader b)).1 = some .success ↔ ∃ ks, Scanned ks b := by
  constructor
  · intro h
    have hfin : Finishes b b 0 (c.atHeader b).scanner _ :=
      parseRequestHeader_success_iff.mp ⟨h, rfl⟩
    have hat : AtLine (c.atHeader b).scanner := ⟨.inl rfl, rfl⟩
    obtain ⟨lead, y, hb, hlead, hfirst⟩ := exists_lead b
    rw [hb, finishes_lead rfl rfl hlead, ← hb, Nat.zero_add] at hfin
    rcases y with _ | ⟨x, y⟩
    · exact absurd hfin (not_finishes_nil
        (by simp [HttpConnection.scanner, HttpConnection.atHeader]))
    obtain ⟨hcr, hlf⟩ := hfirst x rfl
    obtain ⟨k, w, hk, hx, hy⟩ := hfin.line hat hcr fun _ => hlf
    have hk₁ : k.1.head? ≠ some Chr.lf := by rwa [hx, Ne, Option.some_inj]
    rw [hy] at hb hfin
    obtain ⟨s', hs', hf', -, hiff⟩ := finishes_line hat hk (fun _ => hk₁) hb
    obtain ⟨ks, hks, w', hw⟩ := ((hiff _).mp hfin).block hs' hf' (by rw [hb, List.append_assoc])
    refine ⟨k :: ks, List.forall_mem_cons.mpr ⟨hk, hks⟩, List.cons_ne_nil k ks, ?_, lead, hlead,
      w', ?_⟩
    · intro k' hk'
      obtain rfl := Option.some.inj hk'
      exact hk₁
    · rw [headerBlock_cons, hb, ← hw]
      simp only [List.append_assoc]
  · rintro ⟨ks, h⟩
    exact h.success.1

end Scanned

/-! ## Where the two grammars agree -/

theorem fieldLine_append (n v w : Bytes) : fieldLine n v ++ w
    = n ++ Chr.colon :: Chr.space :: (v ++ Chr.cr :: Chr.lf :: w) := by
  simp [fieldLine]

/-- A line of the grammar is cut in one way. -/
theorem fieldLine_inj {n n' v v' w w' : Bytes} (hn : Chr.colon ∉ n) (hn' : Chr.colon ∉ n')
    (hv : Chr.cr ∉ v) (hv' : Chr.cr ∉ v') (h : fieldLine n v ++ w = fieldLine n' v' ++ w') :
    n = n' ∧ v = v' ∧ w = w' := by
  rw [fieldLine_append, fieldLine_append] at h
  obtain ⟨hname, h₁⟩ := append_cons_inj hn hn' h
  obtain ⟨hvalue, h₂⟩ := append_cons_inj hv hv' (List.cons.inj h₁).2
  exact ⟨hname, hvalue, (List.cons.inj h₂).2⟩

/-- …and so is one that the scanner takes. -/
theorem fieldLine_inj_tail {b b' v v' : UInt8} {n n' u u' w w' : Bytes} (hn : Chr.colon ∉ n)
    (hn' : Chr.colon ∉ n') (hu : Chr.cr ∉ u) (hu' : Chr.cr ∉ u')
    (h : fieldLine (b :: n) (v :: u) ++ w = fieldLine (b' :: n') (v' :: u') ++ w') :
    (b :: n, v :: u) = (b' :: n', v' :: u') ∧ w = w' := by
  rw [fieldLine_append, fieldLine_append] at h
  obtain ⟨hb, h₁⟩ := List.cons.inj h
  obtain ⟨hname, h₂⟩ := append_cons_inj hn hn' h₁
  obtain ⟨hv, h₃⟩ := List.cons.inj (List.cons.inj h₂).2
  obtain ⟨hvalue, h₄⟩ := append_cons_inj hu hu' h₃
  rw [hb, hname, hv, hvalue]
  exact ⟨rfl, (List.cons.inj h₄).2⟩

section Agree

variable {c : HttpConnection} {b : Bytes} {fs ks : List Field} {f : Field}

/-- A line does not begin as the empty line does. -/
theorem Field.line_ne_crlf {w w' : Bytes} (hne : f.1 ≠ []) (hcr : f.1.head? ≠ some Chr.cr) :
    f.line ++ w ≠ crlf ++ w' := by
  intro h
  obtain ⟨x, n, hn⟩ := List.exists_cons_of_ne_nil hne
  rw [hn] at hcr
  rw [Field.line, fieldLine, hn] at h
  exact hcr (congrArg some (List.cons.inj h).1)

/-- **A string begins with one block of the grammar.** -/
theorem headerBlock_inj : ∀ {fs fs' : List Field} {w w' : Bytes}, (∀ f ∈ fs, f.WellFormed) →
    (∀ f ∈ fs', f.WellFormed) → headerBlock fs ++ w = headerBlock fs' ++ w' → fs = fs'
  | [], [], _, _, _, _, _ => rfl
  | [], f :: fs, w, w', _, hfs, h => by
      have hf := hfs f (List.mem_cons_self ..)
      rw [headerBlock_cons, List.append_assoc] at h
      exact absurd h.symm (f.line_ne_crlf hf.name_ne hf.plain.head_ne.1)
  | f :: fs, [], w, w', hfs, _, h => by
      have hf := hfs f (List.mem_cons_self ..)
      rw [headerBlock_cons, List.append_assoc] at h
      exact absurd h (f.line_ne_crlf hf.name_ne hf.plain.head_ne.1)
  | f :: fs, f' :: fs', w, w', hfs, hfs', h => by
      obtain ⟨hf, hfs⟩ := List.forall_mem_cons.mp hfs
      obtain ⟨hf', hfs'⟩ := List.forall_mem_cons.mp hfs'
      rw [headerBlock_cons, headerBlock_cons, List.append_assoc, List.append_assoc] at h
      obtain ⟨hn, hv, h⟩ := fieldLine_inj hf.plain.colon_notMem hf'.plain.colon_notMem
        hf.plain.cr_notMem hf'.plain.cr_notMem h
      rw [Prod.ext hn hv, headerBlock_inj hfs hfs' h]

theorem IsBlock.unique {fs' : List Field} (h : IsBlock fs b) (h' : IsBlock fs' b) : fs = fs' := by
  obtain ⟨w, hw⟩ := h.starts
  obtain ⟨w', hw'⟩ := h'.starts
  exact headerBlock_inj h.wellFormed h'.wellFormed (List.cons.inj (hw.trans hw'.symm)).2

/-- **The condition**: there is a field, every value that is read has between 1 and 256 bytes, and
of each name the same last value is left when an empty value swallows the line behind it. -/
structure Kept (fs : List Field) : Prop where
  fs_ne : fs ≠ []
  value_ok : ∀ k ∈ swallowed fs, k.2 ≠ [] ∧ k.2.length ≤ 256
  lastWins_eq : lastWins (swallowed fs) = lastWins fs

/-- The first line of a block that the scanner takes is the first field. -/
theorem headerBlock_cut {z w' : Bytes} (hname : f.1 ≠ []) (hfirst : f.1.head? ≠ some Chr.cr)
    (hcolon : Chr.colon ∉ f.1.tail) (hvalue : f.2 ≠ []) (hcr : Chr.cr ∉ f.2.tail)
    (hks : ∀ k ∈ ks, k.Taken) (h : f.line ++ z = headerBlock ks ++ w') :
    ∃ ks', ks = f :: ks' ∧ z = headerBlock ks' ++ w' := by
  rcases ks with _ | ⟨k, ks⟩
  · exact absurd h (f.line_ne_crlf hname hfirst)
  · have hk := hks k (List.mem_cons_self ..)
    obtain ⟨name, value⟩ := f
    obtain ⟨name', value'⟩ := k
    obtain ⟨b, n, rfl⟩ := List.exists_cons_of_ne_nil hname
    obtain ⟨v, u, rfl⟩ := List.exists_cons_of_ne_nil hvalue
    obtain ⟨b', n', rfl⟩ := List.exists_cons_of_ne_nil hk.name_ne
    obtain ⟨v', u', rfl⟩ := List.exists_cons_of_ne_nil hk.value_ne
    rw [headerBlock_cons, List.append_assoc] at h
    obtain ⟨he, hz⟩ := fieldLine_inj_tail hcolon (fun hc => (hk.name_ok _ hc).1 rfl) hcr
      hk.value_ok h
    exact ⟨ks, congrArg (· :: ks) he.symm, hz⟩

/-- **The scanner reads the fields of a block as `swallowed` says**, until it comes to the last one
with an empty value. -/
theorem swallowed_ok (hfs : ∀ f ∈ fs, f.WellFormed) : ∀ {ks : List Field} {w w' : Bytes},
    (∀ k ∈ ks, k.Taken) → headerBlock fs ++ w = headerBlock ks ++ w' →
      (∀ k ∈ swallowed fs, k.2 ≠ [] ∧ k.2.length ≤ 256) ∨
        ∃ fs' f, fs = fs' ++ [f] ∧ f.2 = [] := by
  fun_induction swallowed fs with
  | case1 => exact fun _ _ => .inl fun k hk => absurd hk List.not_mem_nil
  | case2 f =>
    intro ks w w' _ _
    by_cases hf : f.2 = []
    · exact .inr ⟨[], f, rfl, hf⟩
    · refine .inl fun k hk => ?_
      obtain rfl := List.mem_singleton.mp hk
      exact ⟨hf, (hfs k hk).value_le⟩
  | case3 f g fs hf ih =>
    intro ks w w' hks h
    obtain ⟨hf₁, hfs⟩ := List.forall_mem_cons.mp hfs
    obtain ⟨hg, hfs⟩ := List.forall_mem_cons.mp hfs
    have hline : headerBlock (f :: g :: fs)
        = Field.line (f.1, crlf ++ (g.1 ++ Chr.colon :: Chr.space :: g.2)) ++ headerBlock fs := by
      rw [headerBlock_cons, headerBlock_cons, Field.line, Field.line, Field.line, hf]
      simp [fieldLine]
    rw [hline, List.append_assoc] at h
    obtain ⟨ks, rfl, hrest⟩ := headerBlock_cut
      (f := (f.1, crlf ++ (g.1 ++ Chr.colon :: Chr.space :: g.2))) hf₁.name_ne hf₁.plain.head_ne.1
      (fun hc => hf₁.plain.colon_notMem (List.mem_of_mem_tail hc)) (List.cons_ne_nil Chr.cr _)
      (cr_notMem_swallow hg.plain) hks h
    obtain ⟨hk, hks⟩ := List.forall_mem_cons.mp hks
    obtain hall | ⟨fs', f', rfl, hf'⟩ := ih hfs hks hrest
    · exact .inl (List.forall_mem_cons.mpr ⟨⟨hk.value_ne, hk.value_le⟩, hall⟩)
    · exact .inr ⟨f :: g :: fs', f', rfl, hf'⟩
  | case4 f g fs hf ih =>
    intro ks w w' hks h
    obtain ⟨hf₁, hfs⟩ := List.forall_mem_cons.mp hfs
    rw [headerBlock_cons, List.append_assoc] at h
    obtain ⟨ks, rfl, hrest⟩ := headerBlock_cut hf₁.name_ne hf₁.plain.head_ne.1
      (fun hc => hf₁.plain.colon_notMem (List.mem_of_mem_tail hc)) hf
      (fun hc => hf₁.plain.cr_notMem (List.mem_of_mem_tail hc)) hks h
    obtain hall | ⟨fs', f', hfs', hf'⟩ := ih hfs (List.forall_mem_cons.mp hks).2 hrest
    · exact .inl (List.forall_mem_cons.mpr ⟨⟨hf, hf₁.value_le⟩, hall⟩)
    · exact .inr ⟨f :: fs', f', by rw [hfs']; rfl, hf'⟩

theorem IsBlock.tame (h : IsBlock fs b) (hok : ∀ k ∈ swallowed fs, k.2 ≠ [] ∧ k.2.length ≤ 256) :
    ∀ k ∈ swallowed fs, k.Tame := fun k hk =>
  tame_of_mem_swallowed (fun f hf => (h.wellFormed f hf).plain) k hk k.2 (.inl rfl) (hok k hk).1

/-- **What is scanned of a block with fields** is what `swallowed` says. -/
theorem IsBlock.scanned (h : IsBlock fs b) (hne : fs ≠ [])
    (hok : ∀ k ∈ swallowed fs, k.2 ≠ [] ∧ k.2.length ≤ 256) : Scanned (swallowed fs) b where
  taken k hk := (h.tame hok k hk).toShaped.taken (hok k hk).2
  ks_ne := by
    have := scannedLines_ne_nil hne
    rwa [scannedLines, Ne, List.map_eq_nil_iff] at this
  first k hk := (h.tame hok k (List.mem_of_mem_head? hk)).name_lf
  starts := ⟨[Chr.lf], by simp, by rw [headerBlock_swallowed]; exact h.starts⟩

/-- In front of the first field of a block stands one LF. -/
theorem Scanned.starts_eq (hks : Scanned ks b) (hfs : IsBlock fs b) (hne : fs ≠ []) :
    ∃ w w', headerBlock fs ++ w = headerBlock ks ++ w' := by
  obtain ⟨w, hw⟩ := hfs.starts
  obtain ⟨lead, hlead, w', hw'⟩ := hks.starts
  obtain ⟨f, fs, rfl⟩ := List.exists_cons_of_ne_nil hne
  obtain ⟨k, ks, rfl⟩ := List.exists_cons_of_ne_nil hks.ks_ne
  obtain ⟨x, n, hn⟩ := List.exists_cons_of_ne_nil (hfs.wellFormed f (List.mem_cons_self ..)).name_ne
  obtain ⟨x', n', hn'⟩ := List.exists_cons_of_ne_nil (hks.taken k (List.mem_cons_self ..)).name_ne
  have hx := (hfs.wellFormed f (List.mem_cons_self ..)).plain.head_ne
  have hx' := hks.first k rfl
  rw [hn] at hx
  rw [hn'] at hx'
  have heq : lead ++ (headerBlock (k :: ks) ++ w') = Chr.lf :: (headerBlock (f :: fs) ++ w) := by
    rw [← List.append_assoc, hw', ← hw, List.cons_append]
  rcases lead with _ | ⟨l, _ | ⟨l', lead⟩⟩
  · rw [List.nil_append, headerBlock_cons, Field.line, fieldLine, hn'] at heq
    exact absurd (congrArg some (List.cons.inj heq).1) hx'
  · exact ⟨w, w', (List.cons.inj heq).2.symm⟩
  · have hl := (List.cons.inj heq).2
    rw [headerBlock_cons f, Field.line, fieldLine, hn] at hl
    have hlx : some l' = some x := congrArg some (List.cons.inj hl).1
    obtain hl' | hl' := hlead l' (by simp)
    · exact absurd (hlx.symm.trans (congrArg some hl')) hx.1
    · exact absurd (hlx.symm.trans (congrArg some hl')) hx.2

/-- **If both grammars read the same map**, the fields are kept. -/
theorem Scanned.kept (hks : Scanned ks b) (hfs : IsBlock fs b) (heq : lastWins ks = lastWins fs) :
    Kept fs := by
  have hne : fs ≠ [] := by
    rintro rfl
    obtain hnil | ⟨ks', k, rfl⟩ := ks.eq_nil_or_concat'
    · exact hks.ks_ne hnil
    · have hlast := lastWins_append_singleton ks' k
      rw [heq] at hlast
      exact absurd hlast (by simp [lastWins, recordFields])
  obtain ⟨w, w', hw⟩ := hks.starts_eq hfs hne
  have hok : ∀ k ∈ swallowed fs, k.2 ≠ [] ∧ k.2.length ≤ 256 := by
    obtain hok | ⟨fs', f, rfl, hf⟩ := swallowed_ok hfs.wellFormed hks.taken hw
    · exact hok
    · have hlast : lastWins ks f.1 = some [] := by rw [heq, lastWins_append_singleton, hf]
      obtain h | hk := recordFields_some hlast
      · exact absurd h (by simp)
      · exact absurd rfl (hks.taken _ hk).value_ne
  refine ⟨hne, hok, ?_⟩
  have hscan := (hfs.scanned hne hok).success (c := { resourceDir := [] })
  rw [← heq, ← hscan.2, ← hks.success.2]

/-- **The header of a string is read as the grammar says** exactly if it begins with a block whose
fields are kept, or with a block of neither grammar. -/
theorem readsBlock_iff (c : HttpConnection) (b : Bytes) : ReadsBlock c b ↔
    (∃ fs, IsBlock fs b ∧ Kept fs) ∨ (¬ ∃ fs, IsBlock fs b) ∧ ¬ ∃ ks, Scanned ks b := by
  rw [ReadsBlock, success_iff_scanned]
  constructor
  · rintro ⟨hiff, hmap⟩
    by_cases hb : ∃ fs, IsBlock fs b
    · obtain ⟨ks, hks⟩ := hiff.mpr hb
      obtain ⟨fs, hfs⟩ := hb
      have heq : lastWins ks = lastWins fs :=
        (hks.success (c := c)).2.symm.trans (hmap fs hfs ⟨ks, hks⟩)
      exact .inl ⟨fs, hfs, hks.kept hfs heq⟩
    · exact .inr ⟨hb, mt hiff.mp hb⟩
  · rintro (⟨fs, hfs, hkept⟩ | ⟨hb, hks⟩)
    · have hscan := hfs.scanned hkept.fs_ne hkept.value_ok
      refine ⟨iff_of_true ⟨_, hscan⟩ ⟨fs, hfs⟩, fun fs' hfs' _ => ?_⟩
      rw [hscan.success.2, hkept.lastWins_eq, hfs.unique hfs']
    · exact ⟨iff_of_false hks hb, fun fs hfs => absurd ⟨fs, hfs⟩ hb⟩

end Agree

/-- **A header without fields** is not accepted. -/
theorem not_readsBlock_noFields : ¬ ReadsBlock { resourceDir := text "/pages/" } (Chr.lf :: crlf) :=
  fun h => absurd (h.1.mpr ⟨[], nofun, List.prefix_rfl⟩) (by decide)

end WebServer.Http
