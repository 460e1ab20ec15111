import WebServer.Log.AsyncLogging

/-!
# Log/Fifo — every accepted text, in order

Five kinds of buffers move between the callers and the `Worker`.  `Kept` says which of them are
there and empty at each place of the `Worker`: what makes the refill possible is that the callers
take `next_buffer_` only when they leave a full buffer behind.  The bytes on the way are `total`; a
step appends what it accepts and loses nothing, but for the cut of a long batch (`total_step`).
-/

namespace WebServer.Log

/-! ## What is where -/

/-- A buffer that is there, and empty. -/
def Spare (b : Option Buffer) : Prop := ∃ buffer, b = some buffer ∧ buffer.data = []

/-- **Before the critical section**: both new buffers at hand, no batch. -/
def Worker.Stocked (w : Worker) : Prop := Spare w.newBuffer1 ∧ Spare w.newBuffer2 ∧ w.buffers = []

/-- **After it**: the first new buffer given away, the second perhaps, and a batch that has as many
buffers. -/
structure Worker.Lent (w : Worker) : Prop where
  first : w.newBuffer1 = none
  batch : w.buffers ≠ []
  second : w.newBuffer2 = none → 2 ≤ w.buffers.length
  spare : w.newBuffer2 ≠ none → Spare w.newBuffer2

/-- What the `Worker` has, by its position. -/
def Worker.Fit (w : Worker) : Prop :=
  match w.position with
  | .batch | .writing _ | .refill => w.Lent
  | _ => w.Stocked

/-- **What is kept.** -/
structure System.Kept (s : System) : Prop where
  current : s.log.currentBuffer ≠ none
  next : s.log.nextBuffer ≠ none → Spare s.log.nextBuffer
  queued : s.log.nextBuffer = none → s.log.buffers ≠ []
  worker : s.worker.Fit

theorem spare_new : Spare (some (.new _)) := ⟨_, rfl, rfl⟩

theorem kept_init : System.init.Kept where
  current := Option.some_ne_none _
  next _ := spare_new
  queued h := absurd h (Option.some_ne_none _)
  worker := ⟨spare_new, spare_new, rfl⟩

/-! ## The operations -/

section Operations

variable {a a' : AsyncLogging} {w w' : Worker} {line : Bytes}

/-- **`WriteLog`** appends the text to what is queued. -/
theorem AsyncLogging.writeLog_spec (hnext : a.nextBuffer ≠ none → Spare a.nextBuffer)
    (hl : line.length < kLargeBufferSize) (h : a.writeLog line = some a') :
    ∃ current current', a.currentBuffer = some current ∧ a'.currentBuffer = some current' ∧
      a'.isRunning = a.isRunning ∧
      ((a'.buffers = a.buffers ∧ a'.nextBuffer = a.nextBuffer ∧
          current'.data = current.data ++ line) ∨
        (a'.buffers = a.buffers ++ [current] ∧ a'.nextBuffer = none ∧ current'.data = line)) := by
  unfold writeLog at h
  split at h
  · exact absurd h (Option.some_ne_none _).symm
  · next current hc =>
    split at h
    · next hcap =>
      obtain rfl := Option.some.inj h
      exact ⟨current, _, hc, rfl, rfl, .inl ⟨rfl, rfl, FixedBuffer.data_write hcap⟩⟩
    · obtain rfl := Option.some.inj h
      have hfresh : (a.nextBuffer.getD (.new _)).data = [] := by
        by_cases hn : a.nextBuffer = none
        · rw [hn, Option.getD_none, FixedBuffer.data_new]
        · obtain ⟨b, hb, hdata⟩ := hnext hn
          rw [hb, Option.getD_some, hdata]
      exact ⟨current, _, hc, rfl, rfl,
        .inr ⟨rfl, rfl, FixedBuffer.data_write_of_empty hfresh hl⟩⟩

/-- **The critical section of `Worker`** takes everything over. -/
theorem Worker.swap_spec (hs : w.Stocked) (hnext : a.nextBuffer ≠ none → Spare a.nextBuffer)
    (hq : a.nextBuffer = none → a.buffers ≠ []) (h : w.swap a = some (w', a')) :
    ∃ current, a.currentBuffer = some current ∧ w'.position = .batch ∧
      w'.buffers = a.buffers ++ [current] ∧ w'.Lent ∧ Spare a'.currentBuffer ∧
      Spare a'.nextBuffer ∧ a'.buffers = [] ∧ a'.isRunning = a.isRunning := by
  obtain ⟨h₁, h₂, hb⟩ := hs
  unfold swap at h
  split at h
  · exact absurd h (Option.some_ne_none _).symm
  · next current hc =>
    have hne : a.buffers ++ [current] ≠ [] := by simp
    dsimp only at h
    split at h
    · next b hn =>
      obtain ⟨rfl, rfl⟩ := Prod.mk.inj (Option.some.inj h)
      refine ⟨current, hc, rfl, rfl, ⟨rfl, hne, fun h => ?_, fun _ => h₂⟩, h₁, ?_, hb, rfl⟩
      · obtain ⟨b₂, hb₂, -⟩ := h₂
        exact absurd (hb₂.symm.trans h) (Option.some_ne_none _)
      · exact hnext (by rw [hn]; exact Option.some_ne_none _)
    · next hn =>
      obtain ⟨rfl, rfl⟩ := Prod.mk.inj (Option.some.inj h)
      refine ⟨current, hc, rfl, rfl, ⟨rfl, hne, fun _ => ?_, fun h => absurd rfl h⟩, h₁, h₂, hb,
        rfl⟩
      have := List.length_pos_iff.mpr (hq hn)
      simp only [List.length_append, List.length_singleton]
      omega

theorem takeBack_spec {bs : List Buffer} (h : bs ≠ []) :
    ∃ b, takeBack bs = some (b, bs.dropLast) ∧ b.data = [] := by
  refine ⟨(bs.getLast h).reset, ?_, FixedBuffer.data_reset _⟩
  rw [takeBack, List.getLast?_eq_some_getLast h, Option.map_some]

/-- **The refill** finds its buffers. -/
theorem Worker.refill_spec (h : w.Lent) :
    ∃ w', w.refill = some w' ∧ w'.position = .loopTest ∧ w'.Stocked := by
  obtain ⟨b₁, hb₁, hdata₁⟩ := takeBack_spec h.batch
  unfold refill
  simp only [h.first, hb₁, Option.bind_eq_bind, Option.bind_some]
  by_cases h₂ : w.newBuffer2 = none
  · have hrest : w.buffers.dropLast ≠ [] := by
      have := h.second h₂
      refine List.ne_nil_of_length_pos ?_
      rw [List.length_dropLast]
      omega
    obtain ⟨b₂, hb₂, hdata₂⟩ := takeBack_spec hrest
    simp only [h₂, hb₂, Option.bind_some]
    exact ⟨_, rfl, rfl, ⟨b₁, rfl, hdata₁⟩, ⟨b₂, rfl, hdata₂⟩, rfl⟩
  · obtain ⟨b₂, hb₂, hdata₂⟩ := h.spare h₂
    simp only [hb₂]
    exact ⟨_, rfl, rfl, ⟨b₁, rfl, hdata₁⟩, ⟨b₂, rfl, hdata₂⟩, rfl⟩

theorem Worker.Lent.cut (h : w.Lent) : w.cut.Lent := by
  unfold Worker.cut
  split
  · next hlen =>
    refine ⟨h.first, ?_, fun _ => ?_, h.spare⟩
    · refine List.ne_nil_of_length_pos ?_
      rw [List.length_take]
      omega
    · rw [List.length_take]
      omega
  · exact h

end Operations

/-! ## One step -/

variable {s t : System} {a : Action}

/-- The texts that a step accepts. -/
def Action.lines : Action → List Line
  | .writeLog line | .writeFatal line => [line]
  | _ => []

theorem accepted_step (h : Step s a t) : t.accepted = s.accepted ++ a.lines := by
  cases h <;> simp [Action.lines, System.goTo]

theorem acceptedBytes_step (h : Step s a t) :
    t.acceptedBytes = s.acceptedBytes ++ (a.lines.map (·.bytes)).flatten := by
  rw [System.acceptedBytes, accepted_step h, List.map_append, List.flatten_append]
  rfl

/-- **The bytes on the way**: written, in the hands of the `Worker`, queued, and in
`current_buffer_`. -/
def System.total (s : System) : Bytes :=
  s.file.written ++ contents s.worker.unwritten ++ contents s.log.buffers ++ s.currentBytes

theorem currentBytes_of_eq {b : Buffer} (h : s.log.currentBuffer = some b) :
    s.currentBytes = b.data := by rw [System.currentBytes, h]; rfl

/-- What a critical section of a caller does to the state. -/
theorem System.Kept.writeLog (k : s.Kept) {line : Line} {log : AsyncLogging}
    (h : s.log.writeLog line.bytes = some log) :
    log.currentBuffer ≠ none ∧ (log.nextBuffer ≠ none → Spare log.nextBuffer) ∧
      (log.nextBuffer = none → log.buffers ≠ []) ∧ log.isRunning = s.log.isRunning ∧
      contents log.buffers ++ (log.currentBuffer.map (·.data)).getD [] =
        contents s.log.buffers ++ s.currentBytes ++ line.bytes := by
  obtain ⟨c, c', hc, hc', hr, hcase⟩ := AsyncLogging.writeLog_spec k.next line.short h
  have hcur : s.currentBytes = c.data := currentBytes_of_eq hc
  rw [hcur, hc', Option.map_some, Option.getD_some]
  rcases hcase with ⟨hb, hn, hd⟩ | ⟨hb, hn, hd⟩
  · rw [hb, hn, hd]
    exact ⟨Option.some_ne_none _, k.next, k.queued, hr, by simp⟩
  · rw [hb, hn, hd]
    exact ⟨Option.some_ne_none _, fun h => absurd rfl h, fun _ => by simp, hr, by simp⟩

/-- **One step keeps the buffers in their places.** -/
theorem System.Kept.step (k : s.Kept) (h : Step s a t) : t.Kept := by
  have hw := k.worker
  cases h with
  | writeLog line free hlog =>
    obtain ⟨hc, hn, hq, -, -⟩ := k.writeLog hlog
    exact ⟨hc, hn, hq, hw⟩
  | writeFatal line free hlog =>
    obtain ⟨hc, hn, hq, -, -⟩ := k.writeLog hlog
    exact ⟨hc, hn, hq, hw⟩
  | fatalStop h hj => exact ⟨k.current, k.next, k.queued, hw⟩
  | abort h he => exact ⟨k.current, k.next, k.queued, hw⟩
  | stop h hj => exact ⟨k.current, k.next, k.queued, hw⟩
  | stopReturn h he => exact ⟨k.current, k.next, k.queued, hw⟩
  | loop h hr | leave h hr =>
    simp only [Worker.Fit, h] at hw
    exact ⟨k.current, k.next, k.queued, hw⟩
  | wait h free he =>
    simp only [Worker.Fit, h] at hw
    exact ⟨k.current, k.next, k.queued, hw⟩
  | swap h he free hsw =>
    have hst : s.worker.Stocked := by
      rcases h with h | h <;> simpa only [Worker.Fit, h] using hw
    obtain ⟨c, -, hp, -, hlent, ⟨b, hb, -⟩, hn, hbuf, -⟩ :=
      Worker.swap_spec hst k.next k.queued hsw
    refine ⟨by rw [hb]; exact Option.some_ne_none _, fun _ => hn, fun h => ?_, ?_⟩
    · obtain ⟨b', hb', -⟩ := hn
      exact absurd (hb'.symm.trans h) (Option.some_ne_none _)
    · simp only [Worker.Fit, hp]
      exact hlent
  | cut h =>
    simp only [Worker.Fit, h] at hw
    obtain ⟨h₁, h₂, h₃, h₄⟩ := hw.cut
    exact ⟨k.current, k.next, k.queued, ⟨h₁, h₂, h₃, h₄⟩⟩
  | write h hb | written h hb =>
    simp only [Worker.Fit, h] at hw
    exact ⟨k.current, k.next, k.queued, ⟨hw.first, hw.batch, hw.second, hw.spare⟩⟩
  | refill h hre =>
    simp only [Worker.Fit, h] at hw
    obtain ⟨w', hw', hp, hst⟩ := Worker.refill_spec hw
    obtain rfl := Option.some.inj (hw'.symm.trans hre)
    refine ⟨k.current, k.next, k.queued, ?_⟩
    simp only [Worker.Fit, hp]
    exact hst

/-! ## Nothing is lost, doubled or reordered -/

theorem contents_sublist {n : ℕ} {as bs : List (FixedBuffer n)} (h : List.Sublist as bs) :
    (contents as).Sublist (contents bs) := by
  induction h with
  | slnil => exact List.Sublist.refl _
  | cons b _ ih => exact ih.trans (List.sublist_append_right _ _)
  | cons_cons b _ ih => exact (List.Sublist.refl b.data).append ih

/-- What the `Worker` wrote, and what it still has to write. -/
def System.workerBytes (s : System) : Bytes := s.file.written ++ contents s.worker.unwritten

theorem total_eq (s : System) :
    s.total = s.workerBytes ++ contents s.log.buffers ++ s.currentBytes := rfl

theorem workerBytes_of_idle (h : s.worker.unwritten = []) : s.workerBytes = s.file.written := by
  rw [System.workerBytes, h, contents_nil, List.append_nil]

/-- A write moves one buffer from the batch to the file. -/
theorem workerBytes_write {i : ℕ} {b : Buffer} (h : s.worker.position = .writing i)
    (hb : s.worker.buffers[i]? = some b) :
    System.workerBytes { s.goTo (.writing (i + 1)) with file := s.file.write b.data } =
      s.workerBytes := by
  obtain ⟨hi, hb⟩ := List.getElem?_eq_some_iff.mp hb
  rw [System.workerBytes, System.workerBytes]
  simp only [Worker.unwritten, System.goTo, h, LogFile.written_write]
  rw [List.drop_eq_getElem_cons hi, hb, contents_cons, List.append_assoc]

/-- A cut keeps two buffers of the batch, and changes nothing of a short batch. -/
theorem workerBytes_cut (h : s.worker.position = .batch) (o : Bool) :
    (System.workerBytes { s with
        worker := { s.worker.cut with position := .writing 0 }, overflowed := o }).Sublist
        s.workerBytes ∧
      (¬ 25 < s.worker.buffers.length → System.workerBytes { s with
        worker := { s.worker.cut with position := .writing 0 }, overflowed := o } =
          s.workerBytes) := by
  simp only [System.workerBytes, Worker.unwritten, h, List.drop_zero, Worker.cut]
  split
  · next hlen =>
    refine ⟨(List.Sublist.refl _).append ?_, fun h => absurd hlen h⟩
    exact contents_sublist (List.take_sublist _ _)
  · exact ⟨List.Sublist.refl _, fun _ => rfl⟩

/-- A critical section of a caller appends its text. -/
theorem total_writeLog (k : s.Kept) {line : Line} {log : AsyncLogging}
    (h : s.log.writeLog line.bytes = some log) (accepted : List Line) (fatal : Fatal) :
    System.total { s with log, accepted, fatal } = s.total ++ line.bytes := by
  obtain ⟨-, -, -, -, hb⟩ := k.writeLog h
  change s.file.written ++ contents s.worker.unwritten ++ contents log.buffers ++
    (log.currentBuffer.map (·.data)).getD [] = _
  rw [List.append_assoc _ (contents log.buffers), hb, System.total]
  simp only [List.append_assoc]

/-- The critical section of `Worker` moves bytes from the callers to the `Worker`. -/
theorem total_swap (k : s.Kept) {w : Worker} {log : AsyncLogging}
    (hp : s.worker.Due) (h : s.worker.swap s.log = some (w, log)) :
    System.total { s with worker := w, log } = s.total ∧
      s.file.written ++ contents w.unwritten = s.total := by
  have hst : s.worker.Stocked := by
    rcases hp with hp | hp <;> simpa only [Worker.Fit, hp] using k.worker
  obtain ⟨c, hc, hpos, hbuf, -, hspare, -, hempty, -⟩ := Worker.swap_spec hst k.next k.queued h
  have hun : s.worker.unwritten = [] := by
    rcases hp with hp | hp <;> simp only [Worker.unwritten, hp]
  have htot : s.file.written ++ contents w.unwritten = s.total := by
    rw [System.total, hun, currentBytes_of_eq hc]
    simp only [Worker.unwritten, hpos, hbuf, contents_append, contents_cons, contents_nil,
      List.append_nil, List.append_assoc]
  refine ⟨?_, htot⟩
  have hcur : System.currentBytes { s with worker := w, log } = [] := by
    obtain ⟨b, hb, hdata⟩ := hspare
    rw [currentBytes_of_eq (b := b) hb, hdata]
  rw [← htot, System.total, hcur, hempty, contents_nil, List.append_nil, List.append_nil]

/-- **A step of `Worker` outside of its critical section** drops nothing but what a cut drops. -/
theorem worker_step (k : s.Kept) (h : Step s .worker t) :
    t.log = s.log ∧ t.workerBytes.Sublist s.workerBytes ∧
      (t.overflowed = false → s.overflowed = false ∧ t.workerBytes = s.workerBytes) := by
  have same : t.log = s.log → t.overflowed = s.overflowed → t.workerBytes = s.workerBytes →
      t.log = s.log ∧ t.workerBytes.Sublist s.workerBytes ∧
        (t.overflowed = false → s.overflowed = false ∧ t.workerBytes = s.workerBytes) := by
    intro hl ho ht
    rw [ho, ht]
    exact ⟨hl, List.Sublist.refl _, fun h => ⟨h, rfl⟩⟩
  have hw := k.worker
  cases h with
  | loop h hr | wait h free he =>
    refine same rfl rfl ?_
    rw [workerBytes_of_idle rfl, workerBytes_of_idle (by rw [Worker.unwritten, h])]
    rfl
  | leave h hr =>
    refine same rfl rfl ?_
    rw [workerBytes_of_idle rfl, workerBytes_of_idle (by rw [Worker.unwritten, h])]
    exact LogFile.written_flush _
  | cut h =>
    obtain ⟨hsub, heq⟩ := workerBytes_cut h (s.overflowed || decide (s.worker.buffers.length > 25))
    refine ⟨rfl, hsub, fun ho => ?_⟩
    obtain ⟨hs, hlen⟩ := Bool.or_eq_false_iff.mp ho
    exact ⟨hs, heq (of_decide_eq_false hlen)⟩
  | write h hb => exact same rfl rfl (workerBytes_write h hb)
  | written h hb =>
    refine same rfl rfl ?_
    have hd := List.drop_eq_nil_of_le (List.getElem?_eq_none_iff.mp hb)
    rw [workerBytes_of_idle rfl, workerBytes_of_idle (by rw [Worker.unwritten, h]; exact hd)]
    rfl
  | refill h hre =>
    refine same rfl rfl ?_
    simp only [Worker.Fit, h] at hw
    obtain ⟨w', hw', hp, -⟩ := Worker.refill_spec hw
    obtain rfl := Option.some.inj (hw'.symm.trans hre)
    rw [workerBytes_of_idle (by rw [Worker.unwritten, hp]),
      workerBytes_of_idle (by rw [Worker.unwritten, h])]
    exact LogFile.written_flush _

/-- **One step** appends what it accepts; only the cut of a long batch drops bytes. -/
theorem total_step (k : s.Kept) (h : Step s a t) :
    t.total.Sublist (s.total ++ (a.lines.map (·.bytes)).flatten) ∧
      (t.overflowed = false → s.overflowed = false ∧
        t.total = s.total ++ (a.lines.map (·.bytes)).flatten) := by
  have same : t.overflowed = s.overflowed →
      t.total = s.total ++ (a.lines.map (·.bytes)).flatten →
      t.total.Sublist (s.total ++ (a.lines.map (·.bytes)).flatten) ∧
        (t.overflowed = false → s.overflowed = false ∧
          t.total = s.total ++ (a.lines.map (·.bytes)).flatten) := by
    intro ho ht
    rw [ho, ht]
    exact ⟨List.Sublist.refl _, fun h => ⟨h, rfl⟩⟩
  cases a with
  | writeLog line | writeFatal line =>
    cases h
    next hlog =>
      refine same rfl ?_
      rw [total_writeLog k hlog, Action.lines, List.map_singleton, List.flatten_singleton]
  | fatalStop | abort | stop | stopReturn =>
    cases h
    exact same rfl (List.append_nil _).symm
  | swap =>
    cases h
    next hd _ _ hsw => exact same rfl ((total_swap k hd hsw).1.trans (List.append_nil _).symm)
  | worker =>
    obtain ⟨hlog, hsub, heq⟩ := worker_step k h
    have hcur : t.currentBytes = s.currentBytes := by rw [System.currentBytes, hlog]; rfl
    have ha : Action.worker.lines = [] := rfl
    rw [ha, List.map_nil, List.flatten_nil, List.append_nil, total_eq, total_eq, hlog, hcur]
    refine ⟨(hsub.append (List.Sublist.refl _)).append (List.Sublist.refl _), fun ho => ?_⟩
    obtain ⟨hso, ht⟩ := heq ho
    rw [ht]
    exact ⟨hso, rfl⟩

/-! ## Runs -/

/-- **A state that a run reaches** keeps the buffers in their places; the bytes on the way are those
accepted, all of them if no batch was cut. -/
structure System.Sound (s : System) : Prop extends s.Kept where
  sublist : s.total.Sublist s.acceptedBytes
  total : s.overflowed = false → s.total = s.acceptedBytes

theorem sound_init : System.init.Sound where
  toKept := kept_init
  sublist := List.Sublist.refl _
  total _ := rfl

theorem System.Sound.step (h : s.Sound) (hs : Step s a t) : t.Sound where
  toKept := h.toKept.step hs
  sublist := by
    rw [acceptedBytes_step hs]
    exact (total_step h.toKept hs).1.trans (h.sublist.append (List.Sublist.refl _))
  total ho := by
    obtain ⟨hso, ht⟩ := (total_step h.toKept hs).2 ho
    rw [ht, h.total hso, acceptedBytes_step hs]

theorem System.Sound.run {as : List Action} (h : s.Sound) (r : Run Step s as t) : t.Sound :=
  r.invariant (fun _ _ _ h hs => h.step hs) h

/-- **The assertions of `Worker`**, where they stand, and that the refill finds its buffers. -/
structure System.Asserted (s : System) : Prop where
  enter : s.worker.position = .enter →
    Spare s.worker.newBuffer1 ∧ Spare s.worker.newBuffer2 ∧ s.worker.buffers = []
  batch : s.worker.position = .batch → s.worker.buffers ≠ []
  refill : s.worker.position = .refill → s.worker.refill.isSome

theorem System.Kept.asserted (k : s.Kept) : s.Asserted := by
  have hw := k.worker
  refine ⟨fun h => ?_, fun h => ?_, fun h => ?_⟩
  · simp only [Worker.Fit, h] at hw
    exact hw
  · simp only [Worker.Fit, h] at hw
    exact hw.batch
  · simp only [Worker.Fit, h] at hw
    obtain ⟨w', hw', -⟩ := Worker.refill_spec hw
    rw [hw']
    rfl

/-- **First in, first out** — on every run the file, the batch of the `Worker`, the queue and
`current_buffer_` hold together the accepted texts in the order of their callers, while no batch was
cut; and in every run every assertion of `Worker` holds. -/
theorem fifo {as : List Action} (r : Run Step .init as s) :
    (s.overflowed = false → s.file.written ++ contents s.worker.unwritten ++
      contents s.log.buffers ++ s.currentBytes = (s.accepted.map (·.bytes)).flatten) ∧
      s.Asserted :=
  have h := sound_init.run r
  ⟨h.total, h.asserted⟩

/-- Two texts: the first is taken over by the `Worker` and written, while the second comes in. -/
theorem fifo_two : ∃ s, Run Step .init
    [.writeLog ⟨[120, 10], by decide⟩, .worker, .worker, .swap, .worker,
      .writeLog ⟨[121, 122, 10], by decide⟩, .worker, .worker] s ∧
    s.file.disk = [] ∧ s.file.written = [120, 10] ∧ s.currentBytes = [121, 122, 10] ∧
    ((s.overflowed = false →
      s.file.written ++ contents s.worker.unwritten ++ contents s.log.buffers ++ s.currentBytes =
        (s.accepted.map (·.bytes)).flatten) ∧ s.Asserted) := by
  have r : Run Step .init
      [.writeLog ⟨[120, 10], by decide⟩, .worker, .worker, .swap, .worker,
        .writeLog ⟨[121, 122, 10], by decide⟩, .worker, .worker] _ :=
    .cons (.writeLog _ rfl rfl) <| .cons (.loop rfl rfl) <| .cons (.wait rfl rfl rfl) <|
      .cons (.swap (.inr rfl) nofun rfl rfl) <| .cons (.cut rfl) <|
      .cons (.writeLog _ rfl rfl) <| .cons (.write rfl rfl) <| .cons (.written rfl rfl) <| .nil _
  exact ⟨_, r, rfl, rfl, rfl, fifo r⟩

end WebServer.Log
