import WebServer.Http.ParseLine

/-!
# Http/HeaderLines — the lines of a header

A header is the lines of its fields and an empty line.  A value may be empty, and then the scanner
takes the line end for its first two characters and reads on over the line behind it (`swallowed`);
an empty value in the last field takes the empty line with it.  `scannedLines` are the lines as the
scanner reads them, and `headerBlock_eq` says that they are the same bytes.
-/

namespace WebServer.Http

/-! ## Fields and their lines -/

/-- The line of a name and a value. -/
def fieldLine (name value : Bytes) : Bytes := name ++ Chr.colon :: Chr.space :: (value ++ crlf)

/-- A name and a value. -/
abbrev Field := Bytes × Bytes

/-- The line of a field. -/
def Field.line (f : Field) : Bytes := fieldLine f.1 f.2

/-- **A field as a client may write it**: its value may be empty, and as long as it likes. -/
structure Field.Plain (f : Field) : Prop where
  name_ne : f.1 ≠ []
  name_ok : ∀ b ∈ f.1, b ≠ Chr.colon ∧ b ≠ Chr.cr ∧ b ≠ Chr.lf
  value_ok : ∀ b ∈ f.2, b ≠ Chr.cr ∧ b ≠ Chr.lf

/-- What has the shape of a field that the scanner takes, of any length: the first character of the
name is only no CR, and that of the value may be anything. -/
structure Field.Shaped (f : Field) : Prop where
  name_ne : f.1 ≠ []
  name_first : f.1.head? ≠ some Chr.cr
  name_ok : ∀ b ∈ f.1.tail, b ≠ Chr.colon ∧ b ≠ Chr.cr ∧ b ≠ Chr.lf
  value_ne : f.2 ≠ []
  value_ok : Chr.cr ∉ f.2.tail

/-- **What the scanner takes for a field.** -/
structure Field.Taken (f : Field) : Prop extends f.Shaped where
  value_le : f.2.length ≤ 256

/-- **A line of a client's header, as the scanner reads it**: at the start of the header a name must
not begin with a line feed either. -/
structure Field.Tame (f : Field) : Prop extends f.Shaped where
  name_lf : f.1.head? ≠ some Chr.lf

theorem Field.Shaped.taken {f : Field} (hf : f.Shaped) (hle : f.2.length ≤ 256) : f.Taken :=
  ⟨hf, hle⟩

namespace Field.Plain

variable {f : Field} (hf : f.Plain)

include hf

theorem colon_notMem : Chr.colon ∉ f.1 := fun h => (hf.name_ok _ h).1 rfl

theorem cr_notMem : Chr.cr ∉ f.2 := fun h => (hf.value_ok _ h).1 rfl

theorem head_ne : f.1.head? ≠ some Chr.cr ∧ f.1.head? ≠ some Chr.lf := by
  constructor <;> intro h
  · exact (hf.name_ok _ (List.mem_of_head? h)).2.1 rfl
  · exact (hf.name_ok _ (List.mem_of_head? h)).2.2 rfl

/-- Its line with another value. -/
theorem tame {v : Bytes} (hne : v ≠ []) (hcr : Chr.cr ∉ v.tail) : Field.Tame (f.1, v) where
  name_ne := hf.name_ne
  name_first := hf.head_ne.1
  name_ok b hb := hf.name_ok b (List.mem_of_mem_tail hb)
  value_ne := hne
  value_ok := hcr
  name_lf := hf.head_ne.2

end Field.Plain

/-- The lines of some fields. -/
def fieldLines (fs : List Field) : Bytes := fs.flatMap Field.line

theorem fieldLines_cons (f : Field) (fs : List Field) :
    fieldLines (f :: fs) = f.line ++ fieldLines fs := List.flatMap_cons

theorem fieldLines_append (fs gs : List Field) :
    fieldLines (fs ++ gs) = fieldLines fs ++ fieldLines gs := List.flatMap_append

/-- **A header block**: the lines of some fields, and the empty line. -/
def headerBlock (fs : List Field) : Bytes := fieldLines fs ++ crlf

theorem headerBlock_cons (f : Field) (fs : List Field) :
    headerBlock (f :: fs) = f.line ++ headerBlock fs := by
  rw [headerBlock, fieldLines_cons, List.append_assoc]
  rfl

/-- A line ends with a line end. -/
theorem Field.line_eq (f : Field) :
    f.line = (f.1 ++ Chr.colon :: Chr.space :: f.2) ++ crlf := by
  rw [Field.line, fieldLine]
  simp

/-- …and so do the lines of some fields. -/
theorem fieldLines_eq {fs : List Field} (hfs : fs ≠ []) : ∃ x, fieldLines fs = x ++ crlf := by
  obtain ⟨f, hf⟩ : ∃ f, fs = fs.dropLast ++ [f] :=
    ⟨fs.getLast hfs, (List.dropLast_append_getLast hfs).symm⟩
  refine ⟨fieldLines fs.dropLast ++ (f.1 ++ Chr.colon :: Chr.space :: f.2), ?_⟩
  have hlast : fieldLines [f] = f.line := List.append_nil _
  rw [hf, fieldLines_append, List.dropLast_concat, hlast, f.line_eq]
  simp only [List.append_assoc]

/-! ## What is recorded of them -/

/-- The fields `ks`, recorded on top of others: of two with one name the last one stays. -/
def recordFields (m : HeaderMap) (ks : List Field) : HeaderMap :=
  ks.foldl (fun m f => Function.update m f.1 (some f.2)) m

/-- **The last-wins map** of some fields. -/
def lastWins (fs : List Field) : HeaderMap := recordFields (fun _ => none) fs

/-- What a map answers was recorded. -/
theorem recordFields_some : ∀ {ks : List Field} {m : HeaderMap} {n v : Bytes},
    recordFields m ks n = some v → m n = some v ∨ (n, v) ∈ ks
  | [], _, _, _, h => .inl h
  | k :: ks, m, n, v, h => by
      have hks : recordFields (Function.update m k.1 (some k.2)) ks n = some v := h
      obtain hm | hk := recordFields_some hks
      · by_cases hn : n = k.1
        · rw [hn, Function.update_self] at hm
          rw [hn, ← Option.some.inj hm]
          exact .inr (List.mem_cons_self ..)
        · rw [Function.update_of_ne hn] at hm
          exact .inl hm
      · exact .inr (List.mem_cons_of_mem _ hk)

theorem mem_of_lastWins {fs : List Field} {n v : Bytes} (h : lastWins fs n = some v) :
    (n, v) ∈ fs :=
  (recordFields_some h).resolve_left (by simp)

/-- The last field stays. -/
theorem lastWins_append_singleton (fs : List Field) (f : Field) :
    lastWins (fs ++ [f]) f.1 = some f.2 := by
  rw [lastWins, recordFields, List.foldl_append]
  exact Function.update_self ..

/-! ## Empty values -/

/-- **The fields as the scanner reads them**: an empty value swallows the line behind it. -/
def swallowed : List Field → List Field
  | [] => []
  | [f] => [f]
  | f :: g :: fs =>
    if f.2 = [] then (f.1, crlf ++ (g.1 ++ Chr.colon :: Chr.space :: g.2)) :: swallowed fs
    else f :: swallowed (g :: fs)

/-- Without an empty value nothing is swallowed. -/
theorem swallowed_eq_self {fs : List Field} (h : ∀ f ∈ fs, f.2 ≠ []) : swallowed fs = fs := by
  fun_induction swallowed fs with
  | case1 => rfl
  | case2 f => rfl
  | case3 f g fs hf ih => exact absurd hf (h f (List.mem_cons_self ..))
  | case4 f g fs hf ih => rw [ih fun k hk => h k (List.mem_cons_of_mem _ hk)]

/-- The first name stays. -/
theorem head?_swallowed (fs : List Field) :
    (swallowed fs).head?.map Prod.fst = fs.head?.map Prod.fst := by
  fun_cases swallowed fs <;> rfl

/-- What is read has the name of a field, and its value if that is not empty. -/
theorem mem_swallowed {fs : List Field} {k : Field} (hk : k ∈ swallowed fs) :
    ∃ f ∈ fs, k.1 = f.1 ∧ (f.2 ≠ [] → k = f) := by
  fun_induction swallowed fs with
  | case1 => exact absurd hk List.not_mem_nil
  | case2 f => exact ⟨k, hk, rfl, fun _ => rfl⟩
  | case3 f g fs hf ih =>
    obtain rfl | hk := List.mem_cons.mp hk
    · exact ⟨f, List.mem_cons_self .., rfl, fun hne => absurd hf hne⟩
    · obtain ⟨f', hf', h⟩ := ih hk
      exact ⟨f', List.mem_cons_of_mem _ (List.mem_cons_of_mem _ hf'), h⟩
  | case4 f g fs hf ih =>
    obtain rfl | hk := List.mem_cons.mp hk
    · exact ⟨k, List.mem_cons_self .., rfl, fun _ => rfl⟩
    · obtain ⟨f', hf', h⟩ := ih hk
      exact ⟨f', List.mem_cons_of_mem _ hf', h⟩

/-- **The block ends where the scanner finds its end**: the last value is not empty, and does not
swallow the empty line. -/
def Ends (fs : List Field) : Prop := ∀ k ∈ swallowed fs, k.2 ≠ []

/-- **No value is too long** for the scanner. -/
def Short (fs : List Field) : Prop := ∀ k ∈ swallowed fs, k.2.length ≤ 256

instance (fs : List Field) : Decidable (Ends fs) := inferInstanceAs (Decidable (∀ _ ∈ _, _))

instance (fs : List Field) : Decidable (Short fs) := inferInstanceAs (Decidable (∀ _ ∈ _, _))

/-! ## The lines as the scanner reads them -/

/-- An empty value that swallows the empty line. -/
def Field.readOn (f : Field) : Field := (f.1, if f.2 = [] then crlf else f.2)

theorem Field.readOn_of_ne {f : Field} (hf : f.2 ≠ []) : f.readOn = f :=
  Prod.ext rfl (if_neg hf)

/-- **The lines that the scanner reads.** -/
def scannedLines (fs : List Field) : List Field := (swallowed fs).map Field.readOn

/-- What the last of them leaves of the empty line. -/
def blockEnd (fs : List Field) : Bytes := if Ends fs then crlf else []

theorem scannedLines_of_ends {fs : List Field} (h : Ends fs) : scannedLines fs = swallowed fs :=
  (List.map_congr_left fun k hk => k.readOn_of_ne (h k hk)).trans (List.map_id _)

theorem scannedLines_ne_nil {fs : List Field} (h : fs ≠ []) : scannedLines fs ≠ [] := by
  obtain ⟨f, fs, rfl⟩ := List.exists_cons_of_ne_nil h
  have hhead := head?_swallowed (f :: fs)
  rw [scannedLines, Ne, List.map_eq_nil_iff]
  intro hnil
  rw [hnil] at hhead
  exact absurd hhead (by simp)

/-- The line that a value swallows. -/
theorem fieldLine_swallow (f g : Field) (hf : f.2 = []) :
    Field.line (f.1, crlf ++ (g.1 ++ Chr.colon :: Chr.space :: g.2)) = f.line ++ g.line := by
  rw [Field.line, Field.line, Field.line, hf]
  simp [fieldLine]

/-- The lines, one after the other. -/
theorem scannedLines_swallow {f : Field} (g : Field) (fs : List Field) (hf : f.2 = []) :
    scannedLines (f :: g :: fs)
      = (f.1, crlf ++ (g.1 ++ Chr.colon :: Chr.space :: g.2)) :: scannedLines fs ∧
    (Ends (f :: g :: fs) ↔ Ends fs) := by
  have hne : crlf ++ (g.1 ++ Chr.colon :: Chr.space :: g.2) ≠ [] := List.cons_ne_nil Chr.cr _
  rw [scannedLines, Ends, swallowed, if_pos hf, List.map_cons, List.forall_mem_cons]
  exact ⟨congrArg (· :: _) (Field.readOn_of_ne hne), and_iff_right hne⟩

theorem scannedLines_cons {f : Field} (g : Field) (fs : List Field) (hf : f.2 ≠ []) :
    scannedLines (f :: g :: fs) = f :: scannedLines (g :: fs) ∧
      (Ends (f :: g :: fs) ↔ Ends (g :: fs)) := by
  rw [scannedLines, Ends, swallowed, if_neg hf, List.map_cons, List.forall_mem_cons]
  exact ⟨congrArg (· :: _) (Field.readOn_of_ne hf), and_iff_right hf⟩

theorem ends_singleton {f : Field} : Ends [f] ↔ f.2 ≠ [] := by simp [Ends, swallowed]

/-- **The lines are the same bytes.** -/
theorem headerBlock_eq (fs : List Field) :
    headerBlock fs = fieldLines (scannedLines fs) ++ blockEnd fs := by
  induction fs using swallowed.induct with
  | case1 => rfl
  | case2 f =>
    by_cases hf : f.2 = []
    · have hline : f.readOn.line = f.line ++ crlf := by
        rw [Field.readOn, if_pos hf, Field.line, Field.line, hf]
        simp [fieldLine]
      have hscan : fieldLines (scannedLines [f]) = f.line ++ crlf :=
        (List.append_nil _).trans hline
      rw [blockEnd, if_neg fun h => ends_singleton.mp h hf, hscan, headerBlock_cons,
        List.append_nil]
      rfl
    · have hscan : scannedLines [f] = [f] := congrArg (fun k => [k]) (f.readOn_of_ne hf)
      rw [blockEnd, if_pos (ends_singleton.mpr hf), hscan]
      rfl
  | case3 f g fs hf ih =>
    obtain ⟨hlines, hends⟩ := scannedLines_swallow g fs hf
    rw [headerBlock_cons, headerBlock_cons, ih, hlines, fieldLines_cons, fieldLine_swallow f g hf,
      List.append_assoc, List.append_assoc]
    simp only [blockEnd, hends]
  | case4 f g fs hf ih =>
    obtain ⟨hlines, hends⟩ := scannedLines_cons g fs hf
    rw [headerBlock_cons, ih, hlines, fieldLines_cons, List.append_assoc]
    simp only [blockEnd, hends]

/-- Where the block ends in the empty line, the lines in front of it are the same bytes. -/
theorem fieldLines_scannedLines {fs : List Field} (h : Ends fs) :
    fieldLines (scannedLines fs) = fieldLines fs := by
  have hblock := headerBlock_eq fs
  rw [blockEnd, if_pos h, headerBlock] at hblock
  exact (List.append_cancel_right hblock).symm

/-- The bytes stay the same. -/
theorem headerBlock_swallowed (fs : List Field) : headerBlock (swallowed fs) = headerBlock fs := by
  fun_induction swallowed fs with
  | case1 => rfl
  | case2 f => rfl
  | case3 f g fs hf ih =>
    rw [headerBlock_cons, headerBlock_cons, headerBlock_cons, ih, fieldLine_swallow f g hf,
      List.append_assoc]
  | case4 f g fs hf ih => rw [headerBlock_cons, ih, headerBlock_cons f]

section Client

variable {fs : List Field}

/-- A line that a value swallows has no CR. -/
theorem cr_notMem_swallow {g : Field} (hg : g.Plain) :
    Chr.cr ∉ Chr.lf :: (g.1 ++ Chr.colon :: Chr.space :: g.2) := by
  have hname : Chr.cr ∉ g.1 := fun h => (hg.name_ok _ h).2.1 rfl
  simp only [List.mem_cons, List.mem_append, not_or]
  exact ⟨by decide, hname, by decide, by decide, hg.cr_notMem⟩

/-- **What a client writes is tame**, if the value that is read is not empty. -/
theorem tame_of_mem_swallowed (hfs : ∀ f ∈ fs, f.Plain) :
    ∀ k ∈ swallowed fs, ∀ v, v = k.2 ∨ Chr.cr ∉ v.tail → v ≠ [] → Field.Tame (k.1, v) := by
  have hplain : ∀ {f : Field}, f.Plain → ∀ v, v = f.2 ∨ Chr.cr ∉ v.tail → v ≠ [] →
      Field.Tame (f.1, v) := by
    rintro f hf v (rfl | hv) hne
    · exact hf.tame hne fun h => hf.cr_notMem (List.mem_of_mem_tail h)
    · exact hf.tame hne hv
  fun_induction swallowed fs with
  | case1 => exact fun k hk => absurd hk List.not_mem_nil
  | case2 f =>
    intro k hk
    obtain rfl := List.mem_singleton.mp hk
    exact hplain (hfs k hk)
  | case3 f g fs hf ih =>
    obtain ⟨hf₁, hfs⟩ := List.forall_mem_cons.mp hfs
    obtain ⟨hg, hfs⟩ := List.forall_mem_cons.mp hfs
    refine List.forall_mem_cons.mpr ⟨?_, ih hfs⟩
    rintro v (rfl | hv) hne
    · exact hf₁.tame hne (cr_notMem_swallow hg)
    · exact hf₁.tame hne hv
  | case4 f g fs hf ih =>
    obtain ⟨hf₁, hfs⟩ := List.forall_mem_cons.mp hfs
    exact List.forall_mem_cons.mpr ⟨hplain hf₁, ih hfs⟩

/-- **The scanner reads tame lines.** -/
theorem tame_of_mem_scannedLines (hfs : ∀ f ∈ fs, f.Plain) : ∀ k ∈ scannedLines fs, k.Tame := by
  intro k hk
  obtain ⟨f, hf, rfl⟩ := List.mem_map.mp hk
  by_cases hne : f.2 = []
  · rw [Field.readOn, if_pos hne]
    exact tame_of_mem_swallowed hfs f hf crlf (.inr (by decide)) (List.cons_ne_nil _ _)
  · rw [f.readOn_of_ne hne]
    exact tame_of_mem_swallowed hfs f hf f.2 (.inl rfl) hne

/-- An empty value that reads on is short. -/
theorem short_iff_scannedLines : Short fs ↔ ∀ k ∈ scannedLines fs, k.2.length ≤ 256 := by
  rw [Short, scannedLines, List.forall_mem_map]
  refine forall₂_congr fun f _ => ?_
  by_cases hne : f.2 = []
  · rw [Field.readOn, if_pos hne, hne]
    exact iff_of_true (Nat.zero_le _) (show crlf.length ≤ 256 by decide)
  · rw [f.readOn_of_ne hne]

/-- The lines are read under the names of the fields. -/
theorem exists_name_of_mem_scannedLines {k : Field} (hk : k ∈ scannedLines fs) :
    ∃ f ∈ fs, f.1 = k.1 := by
  obtain ⟨k', hk', rfl⟩ := List.mem_map.mp hk
  obtain ⟨f, hf, hname, -⟩ := mem_swallowed hk'
  exact ⟨f, hf, hname.symm⟩

end Client

end WebServer.Http
