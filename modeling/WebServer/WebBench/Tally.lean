import WebServer.WebBench.BuildRequest
import WebServer.WebBench.Worker
import Mathlib.Algebra.Order.BigOperators.Group.Finset
import Mathlib.Data.Fintype.Card

/-!
# WebBench/Tally — what the children report, and what the parent adds up

A child whose `Worker` has returned writes its counters into a pipe, in one line; the parent reads
one line for each child with `fscanf`.  The lines come in any order and the parent is behind them
by any number, but what it adds up in the end are the counters of every child, each once
(`tallied_of_run`).  All these are `int`s, whose sums wrap around.  The parent keeps the end of the
pipe where the children write, so there is no end of file for it: a child that dies leaves it
waiting.
-/

namespace WebServer.WebBench

/-! ## A line -/

/-- A directive `%d` of `fprintf`. -/
def printInt (n : Int32) : Bytes :=
  if n.toInt < 0 then 45 :: numeral n.toInt.natAbs else numeral n.toInt.natAbs

/-- **The line of a child**, by `"%d %d %d\n"`. -/
def report (w : Worker) : Bytes :=
  printInt w.successCount ++ Chr.space :: (printInt w.failedCount ++ Chr.space ::
    (printInt w.totalBytes ++ [Chr.lf]))

/-- What a directive comes to, and what it leaves. -/
inductive Scan
  /-- More has to come. -/
  | blocks
  | mismatch (rest : Bytes)
  | item (n : Int32) (rest : Bytes)

/-- The digits of a number, and one byte that is none.  The number is stored in an `int`. -/
def scanDigits (sign : ℤ) (s : Bytes) : Scan :=
  match s.takeWhile Chr.isDigit, s.dropWhile Chr.isDigit with
  | _, [] => .blocks
  | [], rest => .mismatch rest
  | digits, rest =>
    .item (.ofInt (sign * (Nat.ofDigits 10 (digits.reverse.map byteDigit) : ℕ))) rest

/-- A directive `%d` of `fscanf`. -/
def scanInt (s : Bytes) : Scan :=
  match s.dropWhile Chr.isSpace with
  | 45 :: t => scanDigits (-1) t
  | 43 :: t => scanDigits 1 t
  | t => scanDigits 1 t

/-- **`fscanf`**, with so many directives `%d`: the numbers that are assigned, and what is left;
`none` where it blocks. -/
def fscanf : ℕ → Bytes → Option (List Int32 × Bytes)
  | 0, s => some ([], s)
  | k + 1, s =>
    match scanInt s with
    | .blocks => none
    | .mismatch rest => some ([], rest)
    | .item n rest => (fscanf k rest).map fun r => (n :: r.1, r.2)

/-! ## The parent -/

/-- How the loop of `WebBench` goes. -/
inductive Phase
  | reading
  /-- Fewer than two numbers were there. -/
  | abnormal
  | done
  deriving DecidableEq

/-- **The parent**, in `WebBench`; `clients_num` counts down from the number of the children. -/
structure Parent where
  phase : Phase
  clientsNum : ℤ
  successCount : Int32
  failedCount : Int32
  totalBytes : Int32
  respBytes : Int32

/-- A pass of its loop, with what is in the pipe; `none` where it waits. -/
def Parent.read (p : Parent) (pipe : Bytes) : Option (Parent × Bytes) :=
  if p.phase = .reading then
    (fscanf 3 pipe).map fun (fields, rest) =>
      match fields with
      | reqSucc :: reqFail :: more =>
        -- two numbers are enough; the third is then the one of the pass before
        let respBytes := more.headD p.respBytes
        ({ phase := if p.clientsNum - 1 = 0 then .done else .reading
           clientsNum := p.clientsNum - 1
           successCount := p.successCount + reqSucc
           failedCount := p.failedCount + reqFail
           totalBytes := p.totalBytes + respBytes
           respBytes }, rest)
      | _ => ({ p with phase := .abnormal }, rest)
  else none

/-! ## All together -/

/-- **The processes and their pipe**: `reported` has the children that are gone, in the order of
their lines. -/
structure Bench (n : ℕ) where
  worker : Fin n → Worker
  reported : List (Fin n)
  pipe : Bytes
  parent : Parent

/-- What happens next. -/
inductive BenchAction (n : ℕ)
  | child (i : Fin n) (a : Reply)
  | report (i : Fin n)
  | read

namespace Bench

variable {n : ℕ} {mode : Mode}

/-- The processes after the last `fork`; `resp_bytes` is not initialised. -/
def init (mode : Mode) (n : ℕ) (respBytes : Int32) : Bench n :=
  ⟨fun _ => Worker.init mode, [], [], ⟨.reading, n, 0, 0, 0, respBytes⟩⟩

/-- **One step** of a child or of the parent. -/
inductive Step (mode : Mode) : Bench n → BenchAction n → Bench n → Prop
  | child {s : Bench n} {i : Fin n} {a : Reply} {w : Worker} (hi : i ∉ s.reported)
      (hw : Worker.Step mode (s.worker i) a w) :
      Step mode s (.child i a) { s with worker := Function.update s.worker i w }
  | report {s : Bench n} {i : Fin n} (hi : i ∉ s.reported)
      (hw : (s.worker i).point = .returned) :
      Step mode s (.report i)
        { s with
          reported := s.reported ++ [i]
          pipe := s.pipe ++ WebBench.report (s.worker i) }
  | read {s : Bench n} {parent : Parent} {pipe : Bytes}
      (h : s.parent.read s.pipe = some (parent, pipe)) :
      Step mode s .read { s with parent, pipe }

end Bench

/-! ## A line is read as it was written -/

/-- A number is read as it was written, up to a blank or the end of the line. -/
theorem scanDigits_numeral (sign : ℤ) (k : ℕ) {c : UInt8} (hc : Chr.isDigit c = false)
    (rest : Bytes) :
    scanDigits sign (numeral k ++ c :: rest) = .item (.ofInt (sign * k)) (c :: rest) := by
  have hnum := isNumeral_numeral k
  have hdigit : ∀ b ∈ numeral k, Chr.isDigit b = true := fun b hb => by
    simpa [Chr.isDigit] using hnum.digit b hb
  obtain ⟨d, t, ht, -⟩ := hnum.leading
  have htake : (numeral k ++ c :: rest).takeWhile Chr.isDigit = d :: t := by
    rw [List.takeWhile_append_of_pos hdigit, List.takeWhile_cons_of_neg (by simp [hc]),
      List.append_nil, ht]
  have hdrop : (numeral k ++ c :: rest).dropWhile Chr.isDigit = c :: rest := by
    rw [List.dropWhile_append_of_pos hdigit, List.dropWhile_cons_of_neg (by simp [hc])]
  rw [scanDigits, htake, hdrop]
  dsimp only
  rw [← ht, hnum.value]

/-- A digit is neither a blank nor a sign. -/
theorem ne_of_isDigit {c : UInt8} (h : Chr.isDigit c = true) :
    Chr.isSpace c = false ∧ c ≠ 45 ∧ c ≠ 43 := by
  simp only [Chr.isDigit, Bool.and_eq_true, decide_eq_true_eq, UInt8.le_iff_toNat_le] at h
  simp only [Chr.isSpace, Chr.space, ne_eq, ← UInt8.toNat_inj, Bool.or_eq_false_iff,
    Bool.and_eq_false_iff, decide_eq_false_iff_not, UInt8.le_iff_toNat_le, UInt8.reduceToNat] at h ⊢
  omega

/-- **A number**, after blanks. -/
theorem scanInt_printInt {blank : Bytes} (hblank : ∀ b ∈ blank, Chr.isSpace b = true) (n : Int32)
    {c : UInt8} (hc : Chr.isDigit c = false) (rest : Bytes) :
    scanInt (blank ++ (printInt n ++ c :: rest)) = .item n (c :: rest) := by
  rw [printInt, scanInt]
  by_cases hn : n.toInt < 0
  · -- behind a sign
    have hminus : ¬ Chr.isSpace 45 = true := by decide
    have hk : (-1 : ℤ) * n.toInt.natAbs = n.toInt := by omega
    rw [if_pos hn, List.dropWhile_append_of_pos hblank, List.cons_append,
      List.dropWhile_cons_of_neg hminus]
    exact (scanDigits_numeral (-1) _ hc rest).trans (by rw [hk, Int32.ofInt_toInt])
  · have hk : (1 : ℤ) * n.toInt.natAbs = n.toInt := by omega
    have hnum := isNumeral_numeral n.toInt.natAbs
    obtain ⟨d, t, ht, -⟩ := hnum.leading
    have hdigit : Chr.isDigit d = true := by
      simpa [Chr.isDigit] using hnum.digit d (ht ▸ List.mem_cons_self)
    obtain ⟨hd, hminus, hplus⟩ := ne_of_isDigit hdigit
    have hdrop : (blank ++ (numeral n.toInt.natAbs ++ c :: rest)).dropWhile Chr.isSpace =
        d :: (t ++ c :: rest) := by
      rw [List.dropWhile_append_of_pos hblank, ht, List.cons_append,
        List.dropWhile_cons_of_neg (by simp [hd])]
    rw [if_neg hn, hdrop]
    split
    · next he => exact absurd (List.cons.inj he).1 hminus
    · next he => exact absurd (List.cons.inj he).1 hplus
    · rw [← List.cons_append, ← ht, scanDigits_numeral 1 _ hc, hk, Int32.ofInt_toInt]

/-- **A line** is read as it was written; its end is left. -/
theorem fscanf_report {blank : Bytes} (hblank : ∀ b ∈ blank, Chr.isSpace b = true) (w : Worker)
    (rest : Bytes) :
    fscanf 3 (blank ++ (report w ++ rest))
      = some ([w.successCount, w.failedCount, w.totalBytes], Chr.lf :: rest) := by
  have hspace : ∀ b ∈ [Chr.space], Chr.isSpace b = true := by simp [Chr.isSpace]
  have h₁ := scanInt_printInt hblank w.successCount (c := Chr.space) rfl
    (printInt w.failedCount ++ Chr.space :: (printInt w.totalBytes ++ Chr.lf :: rest))
  have h₂ := scanInt_printInt hspace w.failedCount (c := Chr.space) rfl
    (printInt w.totalBytes ++ Chr.lf :: rest)
  have h₃ := scanInt_printInt hspace w.totalBytes (c := Chr.lf) rfl rest
  have hline : report w ++ rest = printInt w.successCount ++ Chr.space ::
      (printInt w.failedCount ++ Chr.space :: (printInt w.totalBytes ++ Chr.lf :: rest)) := by
    simp only [report, List.append_assoc, List.cons_append, List.nil_append]
  rw [List.singleton_append] at h₂ h₃
  simp only [hline, fscanf, h₁, h₂, h₃, Option.map_some]

/-- Nothing is read where no line is. -/
theorem fscanf_blank {blank : Bytes} (hblank : ∀ b ∈ blank, Chr.isSpace b = true) :
    fscanf 3 blank = none := by
  have hdrop : blank.dropWhile Chr.isSpace = [] := List.dropWhile_eq_nil_iff.mpr hblank
  rw [fscanf, scanInt, hdrop]
  rfl

namespace Parent

variable {p : Parent} {blank : Bytes}

/-- **A line is added up.** -/
theorem read_report (hp : p.phase = .reading) (hblank : ∀ b ∈ blank, Chr.isSpace b = true)
    (w : Worker) (rest : Bytes) :
    p.read (blank ++ (report w ++ rest)) = some
      ({ phase := if p.clientsNum - 1 = 0 then .done else .reading
         clientsNum := p.clientsNum - 1
         successCount := p.successCount + w.successCount
         failedCount := p.failedCount + w.failedCount
         totalBytes := p.totalBytes + w.totalBytes
         respBytes := w.totalBytes }, Chr.lf :: rest) := by
  rw [read, if_pos hp, fscanf_report hblank]
  rfl

theorem read_blank (hblank : ∀ b ∈ blank, Chr.isSpace b = true) : p.read blank = none := by
  rw [read, fscanf_blank hblank, Option.map_none, ite_self]

end Parent

/-! ## What is kept -/

namespace Bench

variable {n : ℕ} {mode : Mode} {s t : Bench n} {a : BenchAction n}

/-- What is added up of the children in a list. -/
def total (s : Bench n) (count : Worker → Int32) (l : List (Fin n)) : ℤ :=
  (l.map fun i => (count (s.worker i)).toInt).sum

/-- **What is kept**, when the lines of `taken` have been read and those of `left` have not. -/
structure Kept (mode : Mode) (s : Bench n) (taken left : List (Fin n)) : Prop where
  worker (i : Fin n) : (s.worker i).Kept mode
  reported : s.reported = taken ++ left
  nodup : s.reported.Nodup
  returned (i : Fin n) : i ∈ s.reported → (s.worker i).point = .returned
  pipe : ∃ blank : Bytes, (∀ b ∈ blank, Chr.isSpace b = true) ∧
    s.pipe = blank ++ left.flatMap fun i => WebBench.report (s.worker i)
  clientsNum : s.parent.clientsNum = n - taken.length
  phase : s.parent.phase = if taken.length = n then .done else .reading
  successCount : s.parent.successCount = .ofInt (s.total Worker.successCount taken)
  failedCount : s.parent.failedCount = .ofInt (s.total Worker.failedCount taken)
  totalBytes : s.parent.totalBytes = .ofInt (s.total Worker.totalBytes taken)

theorem kept_init (hn : 0 < n) (respBytes : Int32) : (init mode n respBytes).Kept mode [] [] where
  worker _ := Worker.kept_init mode
  reported := rfl
  nodup := List.nodup_nil
  returned _ h := absurd h List.not_mem_nil
  pipe := ⟨[], by simp, rfl⟩
  clientsNum := (sub_zero _).symm
  phase := by
    rw [List.length_nil, if_neg hn.ne]
    rfl
  successCount := rfl
  failedCount := rfl
  totalBytes := rfl

/-- A child that has not reported counts for nothing yet. -/
theorem total_update {i : Fin n} {l : List (Fin n)} (hi : i ∉ l) (w : Worker)
    (count : Worker → Int32) :
    ({ s with worker := Function.update s.worker i w } : Bench n).total count l
      = s.total count l := by
  rw [total, total]
  congr 1
  refine List.map_congr_left fun j hj => ?_
  dsimp only
  rw [Function.update_of_ne fun e : j = i => hi (e ▸ hj)]

theorem Kept.child {taken left : List (Fin n)} (h : s.Kept mode taken left) {i : Fin n} {a : Reply}
    {w : Worker} (hi : i ∉ s.reported) (hw : Worker.Step mode (s.worker i) a w) :
    ({ s with worker := Function.update s.worker i w } : Bench n).Kept mode taken left := by
  have htaken : i ∉ taken := fun hm => hi (h.reported ▸ List.mem_append_left _ hm)
  have hother (j : Fin n) (hj : j ∈ s.reported) : Function.update s.worker i w j = s.worker j :=
    Function.update_of_ne (fun e : j = i => hi (e ▸ hj)) w s.worker
  obtain ⟨blank, hblank, hpipe⟩ := h.pipe
  refine ⟨fun j => ?_, h.reported, h.nodup, fun j hj => ?_, ⟨blank, hblank, ?_⟩, h.clientsNum,
    h.phase, ?_, ?_, ?_⟩
  · dsimp only
    rw [Function.update_apply]
    split
    · exact (h.worker i).step hw
    · exact h.worker j
  · exact (congrArg Worker.point (hother j hj)).trans (h.returned j hj)
  · refine hpipe.trans (congrArg (blank ++ ·) (List.flatMap_congr fun j hj => ?_))
    exact congrArg WebBench.report (hother j (h.reported ▸ List.mem_append_right _ hj)).symm
  · exact h.successCount.trans (congrArg Int32.ofInt (total_update htaken w _).symm)
  · exact h.failedCount.trans (congrArg Int32.ofInt (total_update htaken w _).symm)
  · exact h.totalBytes.trans (congrArg Int32.ofInt (total_update htaken w _).symm)

theorem Kept.report {taken left : List (Fin n)} (h : s.Kept mode taken left) {i : Fin n}
    (hi : i ∉ s.reported) (hw : (s.worker i).point = .returned) :
    ({ s with
      reported := s.reported ++ [i]
      pipe := s.pipe ++ WebBench.report (s.worker i) } : Bench n).Kept mode taken
      (left ++ [i]) := by
  obtain ⟨blank, hblank, hpipe⟩ := h.pipe
  refine ⟨h.worker, ?_, List.nodup_append_comm.mp (h.nodup.cons hi), fun j hj => ?_,
    ⟨blank, hblank, ?_⟩, h.clientsNum, h.phase, h.successCount, h.failedCount, h.totalBytes⟩
  · rw [h.reported, List.append_assoc]
  · rcases List.mem_append.mp hj with hj | hj
    · exact h.returned j hj
    · rwa [List.mem_singleton.mp hj]
  · rw [hpipe, List.flatMap_append, List.flatMap_singleton, List.append_assoc]

/-- **The parent reads the first line** that it has not read, or waits. -/
theorem Kept.read {taken left : List (Fin n)} (h : s.Kept mode taken left) {parent : Parent}
    {pipe : Bytes} (hr : s.parent.read s.pipe = some (parent, pipe)) :
    ∃ i rest, left = i :: rest ∧
      ({ s with parent, pipe } : Bench n).Kept mode (taken ++ [i]) rest := by
  obtain ⟨blank, hblank, hpipe⟩ := h.pipe
  have hphase : s.parent.phase = .reading := by
    by_contra hp
    rw [Parent.read, if_neg hp] at hr
    exact absurd hr (by simp)
  cases left with
  | nil =>
    rw [hpipe, List.flatMap_nil, List.append_nil, Parent.read_blank hblank] at hr
    exact absurd hr (by simp)
  | cons i rest =>
    rw [hpipe, List.flatMap_cons, Parent.read_report hphase hblank] at hr
    obtain ⟨rfl, rfl⟩ := Prod.mk.inj (Option.some.inj hr)
    have hadd (count : Worker → Int32) : Int32.ofInt (s.total count (taken ++ [i])) =
        .ofInt (s.total count taken) + count (s.worker i) := by
      rw [total, List.map_append, List.sum_append, List.map_singleton, List.sum_singleton,
        Int32.ofInt_add, Int32.ofInt_toInt]
      rfl
    refine ⟨i, rest, rfl, h.worker, ?_, h.nodup, h.returned, ⟨[Chr.lf], fun b hb => ?_, rfl⟩,
      ?_, ?_, ?_, ?_, ?_⟩
    · exact h.reported.trans (List.append_cons ..)
    · rw [List.mem_singleton.mp hb]
      rfl
    · dsimp only
      rw [h.clientsNum, List.length_append, List.length_singleton, Nat.cast_succ, sub_sub]
    · dsimp only
      rw [h.clientsNum, List.length_append, List.length_singleton]
      exact if_congr (by omega) rfl rfl
    · exact (congrArg (· + _) h.successCount).trans (hadd _).symm
    · exact (congrArg (· + _) h.failedCount).trans (hadd _).symm
    · exact (congrArg (· + _) h.totalBytes).trans (hadd _).symm

theorem Kept.step {taken left : List (Fin n)} (h : s.Kept mode taken left) (hs : Step mode s a t) :
    ∃ taken left, t.Kept mode taken left := by
  cases hs with
  | child hi hw => exact ⟨_, _, h.child hi hw⟩
  | report hi hw => exact ⟨_, _, h.report hi hw⟩
  | read hr =>
    obtain ⟨i, rest, -, hk⟩ := h.read hr
    exact ⟨_, _, hk⟩

/-- Once every child is taken, each counts once. -/
theorem total_of_length {l : List (Fin n)} (hnodup : l.Nodup) (hl : l.length = n)
    (count : Worker → Int32) :
    (∀ i, i ∈ l) ∧ s.total count l = ∑ i, (count (s.worker i)).toInt := by
  have huniv : l.toFinset = Finset.univ := by
    rw [← Finset.card_eq_iff_eq_univ, List.toFinset_card_of_nodup hnodup, hl, Fintype.card_fin]
  refine ⟨fun i => List.mem_toFinset.mp (huniv ▸ Finset.mem_univ i), ?_⟩
  rw [← huniv, List.sum_toFinset _ hnodup, total]

/-- **The counters of children that have returned**, together. -/
theorem sum_of_final (hf : ∀ i, (s.worker i).Kept mode ∧ (s.worker i).Final)
    (hlt : ∑ i, (s.worker i).attempts < 2 ^ 31) :
    let successes := ∑ i, (s.worker i).successCount.toInt
    let failures := ∑ i, (s.worker i).failedCount.toInt
    (0 ≤ successes ∧ successes < 2 ^ 31 ∧ successes ≤ ∑ i, ((s.worker i).sent : ℤ)) ∧
      0 ≤ failures ∧ failures < 2 ^ 31 := by
  have hattempts (i : Fin n) : (s.worker i).attempts < 2 ^ 31 :=
    (Finset.single_le_sum (fun _ _ => Nat.zero_le _) (Finset.mem_univ i)).trans_lt hlt
  have hsum {count : Fin n → ℤ} (h : ∀ i, 0 ≤ count i ∧ count i ≤ (s.worker i).attempts) :
      0 ≤ ∑ i, count i ∧ ∑ i, count i < 2 ^ 31 := by
    refine ⟨Finset.sum_nonneg fun i _ => (h i).1, ?_⟩
    refine (Finset.sum_le_sum fun i _ => (h i).2).trans_lt ?_
    exact_mod_cast hlt
  obtain ⟨hsucc, hsucc'⟩ := hsum fun i =>
    ⟨((hf i).1.successCount (hattempts i)).1, ((hf i).2.toInt (hattempts i)).1⟩
  refine ⟨⟨hsucc, hsucc', ?_⟩, hsum fun i => ?_⟩
  · exact Finset.sum_le_sum fun i _ => ((hf i).1.successCount (hattempts i)).2
  · have hnonneg := ((hf i).1.successCount (hattempts i)).1
    obtain ⟨-, hfailed⟩ := (hf i).2.toInt (hattempts i)
    omega

/-- The parent reads on just when a line is there that it has not read. -/
theorem Kept.reads_iff {taken left : List (Fin n)} (h : s.Kept mode taken left) :
    (∃ t, Step mode s .read t) ↔ n < s.parent.clientsNum + s.reported.length := by
  refine ⟨fun ⟨t, ht⟩ => ?_, fun hlt => ?_⟩
  · cases ht with
    | read hr =>
      obtain ⟨i, rest, rfl, -⟩ := h.read hr
      rw [h.clientsNum, h.reported, List.length_append, List.length_cons]
      omega
  · obtain ⟨blank, hblank, hpipe⟩ := h.pipe
    rw [h.clientsNum, h.reported, List.length_append] at hlt
    cases left with
    | nil => exact absurd hlt (by simp)
    | cons i rest =>
      have hle : s.reported.length ≤ n := by
        simpa using List.Nodup.length_le_card h.nodup
      rw [h.reported, List.length_append, List.length_cons] at hle
      have hreading : s.parent.phase = .reading := by
        rw [h.phase, if_neg (by omega)]
      have hread := Parent.read_report hreading hblank (s.worker i)
        (rest.flatMap fun i => WebBench.report (s.worker i))
      rw [List.flatMap_cons] at hpipe
      rw [← hpipe] at hread
      exact ⟨_, .read hread⟩

/-- **When the parent is done**, every child has returned, and each one's counters are added up
once. -/
theorem Kept.total_of_done {taken left : List (Fin n)} (h : s.Kept mode taken left)
    (hdone : s.parent.phase = .done) : (∀ i, (s.worker i).point = .returned) ∧
      s.parent.successCount = .ofInt (∑ i, (s.worker i).successCount.toInt) ∧
      s.parent.failedCount = .ofInt (∑ i, (s.worker i).failedCount.toInt) ∧
      s.parent.totalBytes = .ofInt (∑ i, (s.worker i).totalBytes.toInt) := by
  have hlength : taken.length = n := by
    by_contra hne
    rw [h.phase, if_neg hne] at hdone
    exact absurd hdone (by simp)
  have hnodup : taken.Nodup := List.Nodup.of_append_left (h.reported ▸ h.nodup)
  have htotal := total_of_length (s := s) hnodup hlength
  refine ⟨fun i => h.returned i (h.reported ▸ List.mem_append_left _
      ((htotal Worker.successCount).1 i)), ?_, ?_, ?_⟩
  · exact h.successCount.trans (congrArg Int32.ofInt (htotal _).2)
  · exact h.failedCount.trans (congrArg Int32.ofInt (htotal _).2)
  · exact h.totalBytes.trans (congrArg Int32.ofInt (htotal _).2)

/-- **What the parent adds up** — in every run the parent is never put off by what it reads; it
reads on just when a line is there that it has not read; and when it ends, every child has reported,
and the sums that it prints are those of all the counters, as `int`s.  They are right if the
children went through their loops fewer than `2³¹` times, and then there are no more successes than
requests that were written. -/
theorem tallied_of_run {respBytes : Int32} {as : List (BenchAction n)} (hn : 0 < n)
    (r : Run (Step mode) (init mode n respBytes) as s) :
    s.parent.phase ≠ .abnormal ∧
    ((∃ t, Step mode s .read t) ↔ n < s.parent.clientsNum + s.reported.length) ∧
    (s.parent.phase = .done → (∀ i, (s.worker i).point = .returned) ∧
      s.parent.successCount = .ofInt (∑ i, (s.worker i).successCount.toInt) ∧
      s.parent.failedCount = .ofInt (∑ i, (s.worker i).failedCount.toInt) ∧
      s.parent.totalBytes = .ofInt (∑ i, (s.worker i).totalBytes.toInt) ∧
      (∑ i, (s.worker i).attempts < 2 ^ 31 →
        s.parent.successCount.toInt = ∑ i, (s.worker i).successCount.toInt ∧
        s.parent.failedCount.toInt = ∑ i, (s.worker i).failedCount.toInt ∧
        s.parent.successCount.toInt ≤ ∑ i, ((s.worker i).sent : ℤ))) := by
  obtain ⟨taken, left, h⟩ := r.invariant (I := fun s => ∃ taken left, s.Kept mode taken left)
    (fun _ _ _ ⟨_, _, h⟩ hs => h.step hs) ⟨_, _, kept_init hn respBytes⟩
  refine ⟨?_, h.reads_iff, fun hdone => ?_⟩
  · rw [h.phase]
    split <;> simp
  · obtain ⟨hreturned, hsuccess, hfailed, htotal⟩ := h.total_of_done hdone
    refine ⟨hreturned, hsuccess, hfailed, htotal, fun hlt => ?_⟩
    obtain ⟨⟨hs, hs', hsent⟩, hf, hf'⟩ := sum_of_final
      (fun i => ⟨h.worker i, (h.worker i).final (hreturned i)⟩) hlt
    rw [hsuccess, hfailed, Int32.toInt_ofInt_of_le (by omega) hs',
      Int32.toInt_ofInt_of_le (by omega) hf']
    exact ⟨rfl, rfl, hsent⟩

/-- Two children: the first one fails twice, and makes a request; the second one makes a request and
is done first. -/
theorem tallied_two : ∃ as s, Run (Step ⟨false, false, 1⟩) (init ⟨false, false, 1⟩ 2 0) as s ∧
    s.reported = [1, 0] ∧ s.parent.phase = .done ∧ s.parent.successCount.toInt = 2 ∧
      s.parent.failedCount.toInt = 1 ∧ s.parent.totalBytes = 12 := by
  have r : Run (Step ⟨false, false, 1⟩) (init ⟨false, false, 1⟩ 2 0)
      [.child 1 .go, .child 1 (.connect ⟨some 3, true, false, true⟩), .child 0 .go,
        .child 0 (.connect ⟨none, true, false, false⟩), .child 1 (.write true), .child 1 .go,
        .child 0 .go, .child 0 (.connect ⟨some 3, true, false, false⟩),
        .child 1 (.read (some 5)), .child 1 (.close true), .child 1 .alarm, .child 1 .go, .report 1,
        .child 0 .go, .child 0 (.connect ⟨some 3, true, false, true⟩), .read,
        .child 0 (.write true), .child 0 .go, .child 0 (.read (some 7)), .child 0 (.close true),
        .child 0 .alarm, .child 0 .go, .report 0, .read] _ :=
    .cons (.child (by decide) ⟨trivial, rfl⟩) <|
      .cons (.child (by decide) ⟨fun _ _ => Finset.notMem_empty _, rfl⟩) <|
      .cons (.child (by decide) ⟨trivial, rfl⟩) <|
      .cons (.child (by decide) ⟨fun _ _ => Finset.notMem_empty _, rfl⟩) <|
      .cons (.child (by decide) ⟨⟨3, Finset.mem_insert_self .., rfl⟩, rfl⟩) <|
      .cons (.child (by decide) ⟨trivial, rfl⟩) <| .cons (.child (by decide) ⟨trivial, rfl⟩) <|
      .cons (.child (by decide) ⟨fun _ _ => Finset.notMem_empty _, rfl⟩) <|
      .cons (.child (by decide) ⟨trivial, rfl⟩) <| .cons (.child (by decide) ⟨trivial, rfl⟩) <|
      .cons (.child (by decide) ⟨trivial, rfl⟩) <| .cons (.child (by decide) ⟨trivial, rfl⟩) <|
      .cons (.report (by decide) rfl) <| .cons (.child (by decide) ⟨trivial, rfl⟩) <|
      .cons (.child (by decide) ⟨fun _ _ => Finset.notMem_empty _, rfl⟩) <| .cons (.read rfl) <|
      .cons (.child (by decide) ⟨⟨3, Finset.mem_insert_self .., rfl⟩, rfl⟩) <|
      .cons (.child (by decide) ⟨trivial, rfl⟩) <| .cons (.child (by decide) ⟨trivial, rfl⟩) <|
      .cons (.child (by decide) ⟨trivial, rfl⟩) <| .cons (.child (by decide) ⟨trivial, rfl⟩) <|
      .cons (.child (by decide) ⟨trivial, rfl⟩) <| .cons (.report (by decide) rfl) <|
      .single (.read rfl)
  obtain ⟨-, hsuccess, hfailed, hbytes, -⟩ := (tallied_of_run (by decide) r).2.2 rfl
  exact ⟨_, _, r, rfl, rfl, by rw [hsuccess]; rfl, by rw [hfailed]; rfl, by rw [hbytes]; rfl⟩

end Bench

end WebServer.WebBench
