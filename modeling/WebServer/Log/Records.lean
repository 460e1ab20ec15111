import WebServer.Log.Fifo
import Mathlib.Data.List.Forall2

/-!
# Log/Records — the log file is made of whole records

A text is copied into one buffer, buffers are handed on whole, and a batch that is cut loses whole
buffers.  So each buffer on its way holds some of the accepted texts (`Recorded`), and what reached
the file is, at every moment of every run, a row of accepted texts in the order of their callers:
a cut leaves texts out, but it never tears one (`records_of_run`).
-/

namespace WebServer.Log

/-! ## Texts in buffers -/

/-- The bytes of some texts. -/
def bytesOf (lines : List Line) : Bytes := (lines.map (·.bytes)).flatten

@[simp] theorem bytesOf_nil : bytesOf [] = [] := rfl

@[simp] theorem bytesOf_append (lines lines' : List Line) :
    bytesOf (lines ++ lines') = bytesOf lines ++ bytesOf lines' := by
  rw [bytesOf, List.map_append, List.flatten_append]
  rfl

@[simp] theorem bytesOf_singleton (line : Line) : bytesOf [line] = line.bytes :=
  List.append_nil _

/-- **A buffer that holds these texts** and nothing else. -/
def FilledWith (b : Buffer) (lines : List Line) : Prop := b.data = bytesOf lines

/-- **The texts on the way**: those written, those of each buffer that is to be written, those of
each buffer in the queue, and those in `current_buffer_`. -/
structure Texts where
  written : List Line
  batch : List (List Line)
  queue : List (List Line)
  current : List Line

/-- The texts, in the order in which they will be in the file. -/
def Texts.all (x : Texts) : List Line :=
  x.written ++ x.batch.flatten ++ x.queue.flatten ++ x.current

/-- **Where the texts are.** -/
structure Recorded (s : System) (x : Texts) : Prop where
  written : s.file.written = bytesOf x.written
  batch : List.Forall₂ FilledWith s.worker.unwritten x.batch
  queue : List.Forall₂ FilledWith s.log.buffers x.queue
  current : s.currentBytes = bytesOf x.current

/-! ## The steps -/

section Steps

variable {s t : System} {x : Texts} {a : Action}

/-- A caller's text is added to the last buffer, or it opens a new one. -/
theorem Recorded.writeLog (h : Recorded s x) (k : s.Kept) {line : Line} {log : AsyncLogging}
    (hw : s.log.writeLog line.bytes = some log) (accepted : List Line) (fatal : Fatal) :
    ∃ y, Recorded { s with log, accepted, fatal } y ∧ y.all = x.all ++ [line] := by
  obtain ⟨c, c', hc, hc', -, hcase⟩ := AsyncLogging.writeLog_spec k.next line.short hw
  have hcur : c.data = bytesOf x.current := (currentBytes_of_eq hc).symm.trans h.current
  have hcur' : System.currentBytes { s with log, accepted, fatal } = c'.data :=
    currentBytes_of_eq hc'
  rcases hcase with ⟨hb, -, hd⟩ | ⟨hb, -, hd⟩
  · refine ⟨{ x with current := x.current ++ [line] }, ⟨h.written, h.batch, ?_, ?_⟩, ?_⟩
    · change List.Forall₂ FilledWith log.buffers x.queue
      rw [hb]
      exact h.queue
    · rw [hcur', hd, hcur, bytesOf_append, bytesOf_singleton]
    · simp only [Texts.all, List.append_assoc]
  · refine ⟨{ x with queue := x.queue ++ [x.current], current := [line] },
      ⟨h.written, h.batch, ?_, ?_⟩, ?_⟩
    · change List.Forall₂ FilledWith log.buffers (x.queue ++ [x.current])
      rw [hb]
      exact List.rel_append h.queue (.cons hcur .nil)
    · rw [hcur', hd, bytesOf_singleton]
    · simp only [Texts.all, List.flatten_append, List.flatten_singleton, List.append_assoc]

/-- The `Worker` takes over the queue and the last buffer. -/
theorem Recorded.swap (h : Recorded s x) (k : s.Kept) {w : Worker} {log : AsyncLogging}
    (hp : s.worker.Due) (hw : s.worker.swap s.log = some (w, log)) :
    ∃ y, Recorded { s with worker := w, log } y ∧ y.all = x.all := by
  have hst : s.worker.Stocked := by
    rcases hp with hp | hp <;> simpa only [Worker.Fit, hp] using k.worker
  obtain ⟨c, hc, hpos, hbuf, -, ⟨b, hb, hdata⟩, -, hempty, -⟩ :=
    Worker.swap_spec hst k.next k.queued hw
  have hun : s.worker.unwritten = [] := by
    rcases hp with hp | hp <;> simp only [Worker.unwritten, hp]
  have hnil : x.batch = [] := List.forall₂_nil_left_iff.mp (hun ▸ h.batch)
  have hcur : c.data = bytesOf x.current := (currentBytes_of_eq hc).symm.trans h.current
  refine ⟨⟨x.written, x.queue ++ [x.current], [], []⟩, ⟨h.written, ?_, ?_, ?_⟩, ?_⟩
  · change List.Forall₂ FilledWith w.unwritten _
    rw [Worker.unwritten, hpos]
    dsimp only
    rw [hbuf]
    exact List.rel_append h.queue (.cons hcur .nil)
  · change List.Forall₂ FilledWith log.buffers []
    rw [hempty]
    exact .nil
  · rw [currentBytes_of_eq (b := b) hb, hdata, bytesOf_nil]
  · simp only [Texts.all, hnil, List.flatten_append, List.flatten_singleton, List.flatten_nil,
      List.append_nil, List.append_assoc]

/-- **A step of `Worker` outside of its critical section**: a cut leaves out the texts of the
buffers that it drops, and nothing else changes what is on the way. -/
theorem Recorded.worker (h : Recorded s x) (k : s.Kept) (hs : Step s .worker t) :
    ∃ y, Recorded t y ∧ y.all.Sublist x.all ∧
      (t.overflowed = false → s.overflowed = false ∧ y.all = x.all) := by
  -- a step that leaves the file and what is to be written as they are
  have same : t.log = s.log → t.overflowed = s.overflowed → t.file.written = s.file.written →
      t.worker.unwritten = s.worker.unwritten → ∃ y, Recorded t y ∧ y.all.Sublist x.all ∧
        (t.overflowed = false → s.overflowed = false ∧ y.all = x.all) := by
    intro hlog ho hf hu
    refine ⟨x, ⟨hf.trans h.written, hu ▸ h.batch, hlog ▸ h.queue, ?_⟩, List.Sublist.refl _,
      fun e => ⟨ho ▸ e, rfl⟩⟩
    rw [System.currentBytes, hlog]
    exact h.current
  have hw := k.worker
  cases hs with
  | loop hp hr | wait hp free he =>
    exact same rfl rfl rfl (by simp only [Worker.unwritten, System.goTo, hp])
  | leave hp hr =>
    exact same rfl rfl (LogFile.written_flush _)
      (by simp only [Worker.unwritten, System.goTo, hp])
  | cut hp =>
    have hbatch := h.batch
    rw [Worker.unwritten, hp] at hbatch
    dsimp only at hbatch
    by_cases hlen : s.worker.buffers.length > 25
    · refine ⟨{ x with batch := x.batch.take 2 }, ⟨h.written, ?_, h.queue, h.current⟩, ?_, ?_⟩
      · simp only [Worker.unwritten, Worker.cut, if_pos hlen, List.drop_zero]
        exact List.forall₂_take 2 hbatch
      · refine ((List.Sublist.refl _).append ?_).append (List.Sublist.refl _) |>.append
          (List.Sublist.refl _)
        nth_rewrite 2 [← List.take_append_drop 2 x.batch]
        rw [List.flatten_append]
        exact List.sublist_append_left _ _
      · intro ho
        exact absurd (Bool.or_eq_false_iff.mp ho).2 (by simpa using hlen)
    · refine ⟨x, ⟨h.written, ?_, h.queue, h.current⟩, List.Sublist.refl _,
        fun ho => ⟨(Bool.or_eq_false_iff.mp ho).1, rfl⟩⟩
      simp only [Worker.unwritten, Worker.cut, if_neg hlen, List.drop_zero]
      exact hbatch
  | @write i b hp hb =>
    obtain ⟨hi, hb⟩ := List.getElem?_eq_some_iff.mp hb
    have hbatch := h.batch
    rw [Worker.unwritten, hp] at hbatch
    dsimp only at hbatch
    rw [List.drop_eq_getElem_cons hi, hb] at hbatch
    obtain ⟨lines, rest, hfill, hrest, hx⟩ := List.forall₂_cons_left_iff.mp hbatch
    refine ⟨{ x with written := x.written ++ lines, batch := rest },
      ⟨?_, hrest, h.queue, h.current⟩, ?_⟩
    · rw [LogFile.written_write, h.written, bytesOf_append, hfill]
    · have hall : (Texts.all { x with written := x.written ++ lines, batch := rest }) = x.all := by
        simp only [Texts.all, hx, List.flatten_cons, List.append_assoc]
      rw [hall]
      exact ⟨List.Sublist.refl _, fun ho => ⟨ho, rfl⟩⟩
  | written hp hb =>
    have hd := List.drop_eq_nil_of_le (List.getElem?_eq_none_iff.mp hb)
    exact same rfl rfl rfl (by simp only [Worker.unwritten, System.goTo, hp, hd])
  | refill hp hre =>
    simp only [Worker.Fit, hp] at hw
    obtain ⟨w', hw', hpos, -⟩ := Worker.refill_spec hw
    obtain rfl := Option.some.inj (hw'.symm.trans hre)
    exact same rfl rfl (LogFile.written_flush _) (by simp only [Worker.unwritten, hp, hpos])

/-- **One step.** -/
theorem Recorded.step (h : Recorded s x) (k : s.Kept) (hs : Step s a t) :
    ∃ y, Recorded t y ∧ y.all.Sublist (x.all ++ a.lines) ∧
      (t.overflowed = false → s.overflowed = false ∧ y.all = x.all ++ a.lines) := by
  -- a step that accepts no text
  have quiet : a.lines = [] → (∃ y, Recorded t y ∧ y.all.Sublist x.all ∧
      (t.overflowed = false → s.overflowed = false ∧ y.all = x.all)) →
      ∃ y, Recorded t y ∧ y.all.Sublist (x.all ++ a.lines) ∧
        (t.overflowed = false → s.overflowed = false ∧ y.all = x.all ++ a.lines) := by
    intro ha hy
    rwa [ha, List.append_nil]
  cases a with
  | writeLog line | writeFatal line =>
    cases hs
    next hw =>
      obtain ⟨y, hy, hall⟩ := h.writeLog k hw _ _
      exact ⟨y, hy, hall ▸ List.Sublist.refl _, fun ho => ⟨ho, hall⟩⟩
  | fatalStop | abort | stop | stopReturn =>
    cases hs
    exact quiet rfl ⟨x, ⟨h.written, h.batch, h.queue, h.current⟩, List.Sublist.refl _,
      fun ho => ⟨ho, rfl⟩⟩
  | swap =>
    cases hs
    next hd _ _ hw =>
      obtain ⟨y, hy, hall⟩ := h.swap k hd hw
      exact quiet rfl ⟨y, hy, hall ▸ List.Sublist.refl _, fun ho => ⟨ho, hall⟩⟩
  | worker => exact quiet rfl (h.worker k hs)

end Steps

/-! ## Runs -/

/-- **What is kept.** -/
structure System.Whole (s : System) : Prop extends s.Kept where
  texts : ∃ x, Recorded s x ∧ x.all.Sublist s.accepted ∧
    (s.overflowed = false → x.all = s.accepted)

theorem whole_init : System.init.Whole where
  toKept := kept_init
  texts := ⟨⟨[], [], [], []⟩, ⟨rfl, .nil, .nil, rfl⟩, List.Sublist.refl _, fun _ => rfl⟩

theorem System.Whole.step {s t : System} {a : Action} (h : s.Whole) (hs : Step s a t) :
    t.Whole := by
  obtain ⟨x, hx, hsub, heq⟩ := h.texts
  obtain ⟨y, hy, hsub', heq'⟩ := hx.step h.toKept hs
  refine ⟨h.toKept.step hs, y, hy, ?_, fun ho => ?_⟩
  · rw [accepted_step hs]
    exact hsub'.trans (hsub.append (List.Sublist.refl _))
  · rw [accepted_step hs, (heq' ho).2, heq (heq' ho).1]

/-- **The file is made of whole records** — at every moment of every run, also after batches have
been cut: what is in it, what is on its way and what is in `current_buffer_` are rows of accepted
texts, all of them in the order of their callers; and if no batch was cut none is missing. -/
theorem records_of_run {as : List Action} {s : System} (r : Run Step .init as s) :
    ∃ written later current : List Line, s.file.written = bytesOf written ∧
      contents (s.worker.unwritten ++ s.log.buffers) = bytesOf later ∧
      s.currentBytes = bytesOf current ∧
      List.Sublist (written ++ later ++ current) s.accepted ∧
      (s.overflowed = false → written ++ later ++ current = s.accepted) := by
  obtain ⟨x, hx, hsub, heq⟩ :=
    (r.invariant (I := System.Whole) (fun _ _ _ h hs => h.step hs) whole_init).texts
  have hcontents : ∀ {bs : List Buffer} {ls : List (List Line)},
      List.Forall₂ FilledWith bs ls → contents bs = bytesOf ls.flatten := by
    intro bs ls h
    induction h with
    | nil => rfl
    | cons hfill _ ih => rw [contents_cons, List.flatten_cons, bytesOf_append, ih, hfill]
  refine ⟨x.written, x.batch.flatten ++ x.queue.flatten, x.current, hx.written, ?_, hx.current, ?_⟩
  · rw [contents_append, bytesOf_append, hcontents hx.batch, hcontents hx.queue]
  · rw [← List.append_assoc]
    exact ⟨hsub, heq⟩

/-! ## A batch that is cut -/

/-- A text that fills a buffer. -/
def longest : Line := ⟨List.replicate (kLargeBufferSize - 1) 120, by
  rw [List.length_replicate]
  decide⟩

theorem length_longest : longest.bytes.length = kLargeBufferSize - 1 := List.length_replicate

/-- A buffer with room, or none: the text gets into the last buffer. -/
theorem exists_writeLog {s : System} (k : s.Kept) (line : Line) :
    ∃ log, s.log.writeLog line.bytes = some log := by
  obtain ⟨c, hc⟩ := Option.ne_none_iff_exists'.mp k.current
  rw [AsyncLogging.writeLog, hc]
  dsimp only
  split
  · exact ⟨_, rfl⟩
  · exact ⟨_, rfl⟩

/-- A full buffer is queued. -/
theorem writeLog_full {a log : AsyncLogging} {c : Buffer} (hc : a.currentBuffer = some c)
    (hfull : c.data = longest.bytes) (h : a.writeLog longest.bytes = some log) :
    log.buffers = a.buffers ++ [c] := by
  rw [AsyncLogging.writeLog, hc] at h
  dsimp only at h
  have hcap : ¬ c.capacity > longest.bytes.length := by
    rw [FixedBuffer.capacity, FixedBuffer.size, hfull, length_longest]
    decide
  rw [if_neg hcap] at h
  rw [← Option.some.inj h]

/-- **Callers that are ahead of the `Worker`**: `n` full buffers are queued. -/
theorem exists_queued : ∀ n : ℕ, ∃ as s c, Run Step .init as s ∧ s.worker = .started ∧
    s.MutexFree ∧ s.log.isRunning = true ∧ s.log.currentBuffer = some c ∧
      c.data = longest.bytes ∧ s.log.buffers.length = n
  | 0 => by
      have hcap : (FixedBuffer.new kLargeBufferSize).capacity > longest.bytes.length := by
        rw [length_longest]
        decide
      have hw : AsyncLogging.started.writeLog longest.bytes = some { AsyncLogging.started with
          currentBuffer := some ((FixedBuffer.new _).write longest.bytes) } := by
        rw [AsyncLogging.writeLog, AsyncLogging.started]
        dsimp only
        rw [if_pos hcap]
      exact ⟨_, _, _, .single (.writeLog longest rfl hw), rfl, rfl, rfl, rfl,
        FixedBuffer.data_write hcap, rfl⟩
  | n + 1 => by
      obtain ⟨as, s, c, r, hworker, hfree, hrun, hc, hdata, hn⟩ := exists_queued n
      have k : s.Kept := r.invariant (I := System.Kept) (fun _ _ _ h hs => h.step hs) kept_init
      obtain ⟨log, hw⟩ := exists_writeLog k longest
      have hb := writeLog_full hc hdata hw
      obtain ⟨c₁, c', hc₁, hc', hrun', ⟨hsame, -⟩ | ⟨-, -, hd⟩⟩ :=
        AsyncLogging.writeLog_spec k.next longest.short hw
      · have := congrArg List.length (hsame.symm.trans hb)
        rw [List.length_append, List.length_singleton] at this
        omega
      · refine ⟨_, _, c', r.append (.single (.writeLog longest hfree hw)), hworker, hfree,
          hrun'.trans hrun, hc', hd, ?_⟩
        change log.buffers.length = n + 1
        rw [hb, List.length_append, hn]
        rfl

/-- **A batch is cut**, and the file is still made of whole records. -/
theorem records_cut : ∃ as s, Run Step .init as s ∧ s.overflowed = true ∧
    ∃ written later current : List Line, s.file.written = bytesOf written ∧
      contents (s.worker.unwritten ++ s.log.buffers) = bytesOf later ∧
      s.currentBytes = bytesOf current ∧
      List.Sublist (written ++ later ++ current) s.accepted ∧
      (s.overflowed = false → written ++ later ++ current = s.accepted) := by
  obtain ⟨as, s, c, r, hworker, hfree, hrun, hc, -, hn⟩ := exists_queued 25
  have hne : s.log.buffers ≠ [] := List.ne_nil_of_length_pos (by omega)
  have k : s.Kept := r.invariant (I := System.Kept) (fun _ _ _ h hs => h.step hs) kept_init
  have hloop : Step s .worker (s.goTo .enter) := .loop (by rw [hworker]; rfl) hrun
  obtain ⟨w, log, hw⟩ : ∃ w log, (s.goTo .enter).worker.swap s.log = some (w, log) := by
    rw [Worker.swap, hc]
    dsimp only
    split
    · exact ⟨_, _, rfl⟩
    · exact ⟨_, _, rfl⟩
  have hswap : Step (s.goTo .enter) .swap { s.goTo .enter with worker := w, log } :=
    .swap (.inl rfl) (fun _ => hne) hfree hw
  have hst : (s.goTo .enter).worker.Stocked := (k.step hloop).worker
  obtain ⟨c', hc', hpos, hbuf, -⟩ := Worker.swap_spec hst k.next k.queued hw
  have hlen : w.buffers.length > 25 := by
    rw [hbuf, List.length_append, List.length_singleton]
    exact Nat.lt_succ_of_le hn.ge
  have rcut := r.append (.cons hloop (.cons hswap (.single (.cut hpos))))
  exact ⟨_, _, rcut, by simpa using .inr hlen, records_of_run rcut⟩

end WebServer.Log
