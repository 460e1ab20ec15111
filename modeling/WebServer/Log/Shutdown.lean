import WebServer.Log.Fifo

/-!
# Log/Shutdown — the last texts, at `Stop` and at a fatal text

Once `is_running_` is false the `Worker` leaves at its next loop test, and takes nothing over on the
way unless it stands before its critical section.  So `Stop` saves a text exactly when the `Worker`
is about to take it over, or has done so (`drained_iff`).  A fatal text is worse off: its caller
holds `mutex_` while it joins the `Worker`, which either waits for that `mutex_` or leaves without
the text (`fatal_iff`).
-/

namespace WebServer.Log

variable {s t u : System} {a : Action} {as bs : List Action}

/-! ## A text in the file -/

/-- A piece of a list stands at its place in a first part of the list exactly when that part reaches
its end. -/
theorem take_drop_eq_iff {α : Type*} {f x y z : List α} (h : f <+: x ++ y ++ z) :
    (f.drop x.length).take y.length = y ↔ y = [] ∨ (x ++ y).length ≤ f.length := by
  constructor
  · intro hy
    have := congrArg List.length hy
    rw [List.length_take, List.length_drop] at this
    rw [List.length_append]
    by_cases h0 : y.length = 0
    · exact .inl (List.length_eq_zero_iff.mp h0)
    · exact .inr (by omega)
  · rintro (rfl | hle)
    · rfl
    · obtain ⟨r, rfl⟩ := List.prefix_of_prefix_length_le (List.prefix_append _ z) h hle
      rw [List.append_assoc, List.drop_left, List.take_left]

/-- Where a text starts in the stream of all texts. -/
def offset (lines : List Line) (i : ℕ) : ℕ := ((lines.take i).map (·.bytes)).flatten.length

/-- **A text is in the file**, at its place in the stream. -/
def InFile (file : Bytes) (lines : List Line) (i : ℕ) : Prop :=
  ∀ line, lines[i]? = some line → (file.drop (offset lines i)).take line.bytes.length = line.bytes

theorem flatten_bytes_split {lines : List Line} {i : ℕ} {line : Line}
    (h : lines[i]? = some line) : (lines.map (·.bytes)).flatten =
      ((lines.take i).map (·.bytes)).flatten ++ line.bytes ++
        ((lines.drop (i + 1)).map (·.bytes)).flatten := by
  obtain ⟨hi, hl⟩ := List.getElem?_eq_some_iff.mp h
  conv_lhs => rw [← List.take_append_drop i lines, List.drop_eq_getElem_cons hi, hl]
  simp

theorem offset_succ {lines : List Line} {i : ℕ} {line : Line} (h : lines[i]? = some line) :
    offset lines (i + 1) =
      (((lines.take i).map (·.bytes)).flatten ++ line.bytes).length := by
  rw [offset, List.take_add_one, h]
  simp

/-- In a file that is a first part of the stream, a text is there or cut off. -/
theorem inFile_iff {file rest : Bytes} {lines : List Line} {i : ℕ} {line : Line}
    (hf : file <+: (lines.map (·.bytes)).flatten ++ rest) (h : lines[i]? = some line) :
    InFile file lines i ↔ line.bytes = [] ∨ offset lines (i + 1) ≤ file.length := by
  rw [flatten_bytes_split h, List.append_assoc] at hf
  rw [offset_succ h, ← take_drop_eq_iff hf]
  exact ⟨fun hin => hin line h, fun hin l hl => Option.some.inj (h.symm.trans hl) ▸ hin⟩

/-! ## What only grows -/

theorem accepted_run (r : Run Step s as t) : s.accepted <+: t.accepted := by
  induction r with
  | nil => exact List.prefix_rfl
  | cons h _ ih =>
    have : _ <+: _ := ⟨_, (accepted_step h).symm⟩
    exact this.trans ih

theorem acceptedBytes_run (r : Run Step s as t) : s.acceptedBytes <+: t.acceptedBytes := by
  obtain ⟨lines, h⟩ := accepted_run r
  refine ⟨(lines.map (·.bytes)).flatten, ?_⟩
  rw [System.acceptedBytes, System.acceptedBytes, ← h, List.map_append, List.flatten_append]

/-- **A `Worker` that left has flushed**, and `Stop` returns after it left. -/
structure System.Left (s : System) : Prop where
  disk : s.worker.position = .exited → s.file.disk = s.file.written
  returned : s.stopper = .returned → s.worker.position = .exited

theorem left_init : System.init.Left := ⟨nofun, nofun⟩

theorem System.Left.step (l : s.Left) (k : s.Kept) (h : Step s a t) : t.Left := by
  have stays {p : Position} (hp : s.worker.position = p) (hne : p ≠ .exited) :
      s.stopper ≠ .returned := fun hr => hne (hp.symm.trans (l.returned hr))
  cases h with
  | writeLog line free hlog | writeFatal line free hlog => exact ⟨l.disk, l.returned⟩
  | fatalStop h hj | abort h he => exact ⟨l.disk, l.returned⟩
  | stop h hj => exact ⟨l.disk, Stopper.noConfusion⟩
  | stopReturn h he => exact ⟨l.disk, fun _ => he⟩
  | loop h hr | wait h free he =>
    exact ⟨Position.noConfusion, fun hr => absurd hr (stays h Position.noConfusion)⟩
  | leave h hr =>
    exact ⟨fun _ => (LogFile.written_flush s.file).symm, fun _ => rfl⟩
  | swap h he free hsw =>
    have hst : s.stopper ≠ .returned := by
      rcases h with h | h <;> exact stays h Position.noConfusion
    have hstock : s.worker.Stocked := by
      rcases h with h | h <;> simpa only [Worker.Fit, h] using k.worker
    obtain ⟨-, -, hp, -⟩ := Worker.swap_spec hstock k.next k.queued hsw
    refine ⟨fun hx => ?_, fun hr => absurd hr hst⟩
    exact Position.noConfusion (hp.symm.trans hx)
  | cut h => exact ⟨Position.noConfusion, fun hr => absurd hr (stays h Position.noConfusion)⟩
  | write h hb | written h hb =>
    exact ⟨Position.noConfusion, fun hr => absurd hr (stays h Position.noConfusion)⟩
  | refill h hre =>
    refine ⟨fun hx => ?_, fun hr => absurd hr (stays h Position.noConfusion)⟩
    have hw := k.worker
    simp only [Worker.Fit, h] at hw
    obtain ⟨w', hw', hp, -⟩ := Worker.refill_spec hw
    obtain rfl := Option.some.inj (hw'.symm.trans hre)
    exact Position.noConfusion (hp.symm.trans hx)

theorem System.Left.run (l : s.Left) (h : s.Sound) (r : Run Step s as t) : t.Left :=
  (r.invariant (I := fun s => s.Sound ∧ s.Left)
    (fun _ _ _ hi hs => ⟨hi.1.step hs, hi.2.step hi.1.toKept hs⟩) ⟨h, l⟩).2

/-! ## After `is_running_` turned false -/

/-- The flag does not turn true again. -/
theorem isRunning_step (k : s.Kept) (h : Step s a t) (hr : s.log.isRunning = false) :
    t.log.isRunning = false := by
  cases h with
  | writeLog line free hlog | writeFatal line free hlog =>
    obtain ⟨-, -, -, hrun, -⟩ := k.writeLog hlog
    exact hrun.trans hr
  | fatalStop h hj | stop h hj => rfl
  | swap h he free hsw =>
    have hstock : s.worker.Stocked := by
      have hw := k.worker
      rcases h with h | h <;> simpa only [Worker.Fit, h] using hw
    obtain ⟨-, -, -, -, -, -, -, -, hrun⟩ := Worker.swap_spec hstock k.next k.queued hsw
    exact hrun.trans hr
  | _ => exact hr

/-- **The `Worker` comes before its critical section** only through a loop test that succeeds. -/
theorem due_step (k : s.Kept) (h : Step s a t) (hr : s.log.isRunning = false)
    (hd : t.worker.Due) : s.worker.Due := by
  cases h with
  | loop h hr' => exact absurd (hr.symm.trans hr') Bool.false_ne_true
  | leave h hr => rcases hd with h | h <;> exact Position.noConfusion h
  | wait h free he => exact .inl h
  | swap h he free hsw => exact h
  | cut h | write h hb | written h hb => rcases hd with h | h <;> exact Position.noConfusion h
  | refill h hre =>
    have hw := k.worker
    simp only [Worker.Fit, h] at hw
    obtain ⟨w', hw', hp, -⟩ := Worker.refill_spec hw
    obtain rfl := Option.some.inj (hw'.symm.trans hre)
    rcases hd with hd | hd <;> exact Position.noConfusion (hp.symm.trans hd)
  | _ => exact hd

/-- Before its critical section the `Worker` can only wait. -/
theorem due_of_worker (h : Step s .worker t) (hd : s.worker.Due) : t.worker.Due := by
  cases h with
  | wait h free he => exact .inr rfl
  | loop h _ | leave h _ | cut h | write h _ | written h _ | refill h _ =>
    rcases hd with hd | hd <;> exact absurd (h.symm.trans hd) nofun

/-- **What the `Worker` wrote or has in hand** changes in its critical section only. -/
theorem workerBytes_step (h : s.Sound) (hs : Step s a t) (ho : t.overflowed = false) :
    s.overflowed = false ∧ ((t.workerBytes = s.workerBytes ∧ (s.worker.Due → t.worker.Due)) ∨
      (s.worker.Due ∧ t.workerBytes = t.acceptedBytes)) := by
  have k := h.toKept
  cases a with
  | swap =>
    cases hs
    next hd he free hsw =>
      refine ⟨ho, .inr ⟨hd, ?_⟩⟩
      exact (total_swap k hd hsw).2.trans (h.total ho)
  | worker =>
    obtain ⟨-, -, heq⟩ := worker_step k hs
    exact ⟨(heq ho).1, .inl ⟨(heq ho).2, due_of_worker hs⟩⟩
  | writeLog line | writeFatal line | fatalStop | abort | stop | stopReturn =>
    cases hs
    exact ⟨ho, .inl ⟨rfl, id⟩⟩

/-- The `Worker` was before its critical section: it still is, or it has taken `x` over. -/
def System.TakesOver (x : Bytes) (s : System) : Prop :=
  s.Sound ∧ s.log.isRunning = false ∧ x <+: s.acceptedBytes ∧
    (s.overflowed = false → s.worker.Due ∨ x <+: s.workerBytes)

theorem System.TakesOver.step {x : Bytes} (h : s.TakesOver x) (hs : Step s a t) :
    t.TakesOver x := by
  obtain ⟨hsound, hr, hx, hor⟩ := h
  have hx' : x <+: t.acceptedBytes := hx.trans ⟨_, (acceptedBytes_step hs).symm⟩
  refine ⟨hsound.step hs, isRunning_step hsound.toKept hs hr, hx', fun ho => ?_⟩
  obtain ⟨hso, ⟨hb, hdue⟩ | ⟨hd, hb⟩⟩ := workerBytes_step hsound hs ho
  · rw [hb]
    exact (hor hso).imp_left hdue
  · exact .inr (hb ▸ hx')

/-- The `Worker` was past its critical section: what it has stays `x`. -/
def System.Leaves (x : Bytes) (s : System) : Prop :=
  s.Sound ∧ s.log.isRunning = false ∧ ¬ s.worker.Due ∧ (s.overflowed = false → s.workerBytes = x)

theorem System.Leaves.step {x : Bytes} (h : s.Leaves x) (hs : Step s a t) : t.Leaves x := by
  obtain ⟨hsound, hr, hd, hx⟩ := h
  refine ⟨hsound.step hs, isRunning_step hsound.toKept hs hr,
    fun hd' => hd (due_step hsound.toKept hs hr hd'), fun ho => ?_⟩
  obtain ⟨hso, ⟨hb, -⟩ | ⟨hd', -⟩⟩ := workerBytes_step hsound hs ho
  · exact hb.trans (hx hso)
  · exact absurd hd' hd

/-! ## `Stop` -/

/-- A text is out of the buffers of the callers: written, or in the hands of the `Worker`. -/
def System.Taken (s : System) (i : ℕ) : Prop := offset s.accepted (i + 1) ≤ s.workerBytes.length

theorem offset_le {lines : List Line} (i : ℕ) :
    offset lines i ≤ ((lines.map (·.bytes)).flatten).length := by
  conv_rhs => rw [← List.take_append_drop i lines, List.map_append, List.flatten_append,
    List.length_append]
  exact Nat.le_add_right _ _

/-- The file at the end of a run is a first part of the stream. -/
theorem disk_isPrefix (h : s.Sound) (l : s.Left) (he : s.worker.position = .exited)
    (ho : s.overflowed = false) :
    s.file.disk = s.workerBytes ∧ s.file.disk <+: s.acceptedBytes := by
  have hd : s.file.disk = s.workerBytes := by
    rw [l.disk he, workerBytes_of_idle (by rw [Worker.unwritten, he])]
  refine ⟨hd, ?_⟩
  rw [hd, ← h.total ho, total_eq, List.append_assoc]
  exact List.prefix_append _ _

/-- **`Stop` saves a text** accepted before it exactly when the text is empty, or the `Worker`
stands before its critical section or has taken the text over when `is_running_` turns false; in
runs that cut no batch. -/
theorem drained_iff {s₁ : System} (r : Run Step .init as s) (hs : Step s .stop s₁)
    (r' : Run Step s₁ bs t) (hret : t.stopper = .returned) (ho : t.overflowed = false) {i : ℕ}
    {line : Line} (hi : s.accepted[i]? = some line) :
    InFile t.file.disk s.accepted i ↔ line.bytes = [] ∨ s.worker.Due ∨ s.Taken i := by
  have hsound := sound_init.run r
  have hleft := left_init.run sound_init r
  have hsound₁ := hsound.step hs
  have ht := hsound₁.run r'
  have hlt := (hleft.step hsound.toKept hs).run hsound₁ r'
  have he := hlt.returned hret
  obtain ⟨hdisk, hpre⟩ := disk_isPrefix ht hlt he ho
  have hacc : s.acceptedBytes <+: t.acceptedBytes :=
    acceptedBytes_run (r := .cons hs r')
  obtain ⟨rest, hrest⟩ := hacc
  have hend : offset s.accepted (i + 1) ≤ s.acceptedBytes.length := offset_le _
  rw [← hrest] at hpre
  rw [inFile_iff hpre hi]
  refine or_congr_right ?_
  have hnd : ¬ t.worker.Due := by
    rintro (h | h) <;> exact absurd (he.symm.trans h) nofun
  by_cases hd : s.worker.Due
  · have htake : s₁.TakesOver s.acceptedBytes := by
      cases hs
      exact ⟨hsound₁, rfl, List.prefix_rfl, fun _ => .inl hd⟩
    obtain ⟨-, -, -, hor⟩ := r'.invariant (fun _ _ _ h hs => h.step hs) htake
    have hlen := ((hor ho).resolve_left hnd).length_le
    rw [hdisk]
    exact ⟨fun _ => .inl hd, fun _ => hend.trans hlen⟩
  · have hleave : s₁.Leaves s.workerBytes := by
      cases hs
      exact ⟨hsound₁, rfl, hd, fun _ => rfl⟩
    obtain ⟨-, -, -, heq⟩ := r'.invariant (fun _ _ _ h hs => h.step hs) hleave
    rw [hdisk, heq ho]
    exact ⟨.inr, fun h => h.resolve_left hd⟩

/-- A text that the `Worker` takes over after `Stop` was called. -/
theorem drained_waiting : ∃ s s₁ t as bs, Run Step .init as s ∧ Step s .stop s₁ ∧
    Run Step s₁ bs t ∧ t.stopper = .returned ∧ t.file.disk = [120] ∧
    InFile t.file.disk s.accepted 0 := by
  obtain ⟨s, as, r, hline, hd, s₁, hs, t, bs, r', hret, ho, hdisk⟩ : ∃ s as, Run Step .init as s ∧
      s.accepted[0]? = some ⟨[120], by decide⟩ ∧ s.worker.Due ∧ ∃ s₁, Step s .stop s₁ ∧
      ∃ t bs, Run Step s₁ bs t ∧ t.stopper = .returned ∧ t.overflowed = false ∧
        t.file.disk = [120] :=
    ⟨_, _, .cons (.writeLog _ rfl rfl) <| .cons (.loop rfl rfl) <| .nil _, rfl, .inl rfl,
      _, .stop rfl rfl, _, _, .cons (.wait rfl rfl rfl) <|
        .cons (.swap (.inr rfl) nofun rfl rfl) <| .cons (.cut rfl) <| .cons (.write rfl rfl) <|
        .cons (.written rfl rfl) <| .cons (.refill rfl rfl) <| .cons (.leave rfl rfl) <|
        .cons (.stopReturn rfl rfl) <| .nil _, rfl, rfl, rfl⟩
  exact ⟨s, s₁, t, as, bs, r, hs, r', hret, hdisk,
    (drained_iff r hs r' hret ho hline).mpr (.inr (.inl hd))⟩

/-- **A text that is lost**: accepted while the `Worker` is at its loop test, before `Stop`. -/
theorem not_drained : ∃ s s₁ t as bs, Run Step .init as s ∧ Step s .stop s₁ ∧ Run Step s₁ bs t ∧
    t.stopper = .returned ∧ t.overflowed = false ∧ t.file.disk = [] ∧
    s.accepted = [⟨[120], by decide⟩] ∧ ¬ InFile t.file.disk s.accepted 0 :=
  ⟨_, _, _, _, _, .cons (.writeLog ⟨[120], by decide⟩ rfl rfl) <| .nil _, .stop rfl rfl,
    .cons (.leave rfl rfl) <| .cons (.stopReturn rfl rfl) <| .nil _, rfl, rfl, rfl, rfl,
    fun h => absurd (h _ rfl) (by decide)⟩

/-! ## A fatal text -/

/-- The text of a caller with a fatal text. -/
def Fatal.text : Fatal → Option Bytes
  | .idle => none
  | .holding line | .joining line | .aborted line => some line

/-- **A fatal text** is the last one accepted, and it stays in `current_buffer_`. -/
def System.Withheld (s : System) : Prop := ∀ line, s.fatal.text = some line →
  (∃ l, s.accepted.getLast? = some l ∧ l.bytes = line) ∧ line <:+ s.currentBytes

theorem withheld_init : System.init.Withheld := nofun

/-- Nobody else takes `mutex_` after a fatal text. -/
theorem not_free {line : Bytes} (h : s.fatal.text = some line) : ¬ s.MutexFree := by
  intro hf
  rw [System.MutexFree] at hf
  rw [hf] at h
  exact absurd h nofun

theorem System.Withheld.step (w : s.Withheld) (k : s.Kept) (h : Step s a t) : t.Withheld := by
  intro line hl
  cases h with
  | writeLog line' free hlog => exact absurd free (not_free hl)
  | writeFatal line' free hlog =>
    obtain rfl : line'.bytes = line := Option.some.inj hl
    refine ⟨⟨line', List.getLast?_concat, rfl⟩, ?_⟩
    obtain ⟨c, c', -, hc', -, ⟨-, -, hd⟩ | ⟨-, -, hd⟩⟩ :=
      AsyncLogging.writeLog_spec k.next line'.short hlog
    · rw [currentBytes_of_eq hc', hd]
      exact List.suffix_append _ _
    · rw [currentBytes_of_eq hc', hd]
  | fatalStop h hj => exact w _ (by rw [h]; exact hl)
  | abort h he => exact w _ (by rw [h]; exact hl)
  | swap h he free hsw => exact absurd free (not_free hl)
  | _ => exact w line hl

theorem System.Withheld.run (w : s.Withheld) (h : s.Sound) (r : Run Step s as t) : t.Withheld :=
  (r.invariant (I := fun s => s.Sound ∧ s.Withheld)
    (fun _ _ _ hi hs => ⟨hi.1.step hs, hi.2.step hi.1.toKept hs⟩) ⟨h, w⟩).2

/-- After a fatal text nothing more is accepted. -/
theorem accepted_of_fatal {line : Bytes} (h : Step s a t) (hf : s.fatal.text = some line) :
    t.accepted = s.accepted ∧ t.fatal.text = some line := by
  cases h with
  | writeLog line' free hlog | writeFatal line' free hlog => exact absurd free (not_free hf)
  | fatalStop h hj | abort h he =>
    rw [h] at hf
    exact ⟨rfl, hf⟩
  | _ => exact ⟨rfl, hf⟩

theorem accepted_of_fatal_run {line : Bytes} (r : Run Step s as t)
    (hf : s.fatal.text = some line) : t.accepted = s.accepted ∧ t.fatal.text = some line := by
  induction r with
  | nil => exact ⟨rfl, hf⟩
  | cons h _ ih =>
    obtain ⟨ha, hf'⟩ := accepted_of_fatal h hf
    obtain ⟨hb, hf''⟩ := ih hf'
    exact ⟨hb.trans ha, hf''⟩

/-- **A fatal text is never written**, unless it is empty. -/
theorem not_inFile_of_withheld (h : s.Sound) (w : s.Withheld) {line : Bytes}
    (hf : s.fatal.text = some line) :
    InFile s.file.written s.accepted (s.accepted.length - 1) ↔ line = [] := by
  obtain ⟨⟨l, hlast, hl⟩, hsuf⟩ := w line hf
  rw [List.getLast?_eq_getElem?] at hlast
  have hoff := offset_succ hlast
  have hlen : s.accepted.length - 1 + 1 = s.accepted.length := by
    have := (List.getElem?_eq_some_iff.mp hlast).1
    omega
  have hall : offset s.accepted s.accepted.length = s.acceptedBytes.length := by
    rw [offset, List.take_length, System.acceptedBytes]
  have hbound := h.sublist.length_le
  have hcur := hsuf.length_le
  rw [hlen, hall, List.length_append, hl] at hoff
  simp only [System.total, List.length_append] at hbound
  constructor
  · intro hin
    have := congrArg List.length (hin l hlast)
    rw [List.length_take, List.length_drop, offset, hl] at this
    exact List.length_eq_zero_iff.mp (by omega)
  · rintro rfl l' hl'
    obtain rfl := Option.some.inj (hlast.symm.trans hl')
    rw [hl]
    rfl

/-! ### The wait-for cycle -/

/-- **A deadlock**: the caller is in `Join` with `mutex_`, and the next step of the `Worker` needs
it. -/
def System.Deadlocked (s : System) : Prop := (∃ line, s.fatal = .joining line) ∧ s.worker.Due

/-- A deadlock is for good. -/
theorem System.Deadlocked.step (d : s.Deadlocked) (h : Step s a t) : t.Deadlocked := by
  obtain ⟨⟨line, hf⟩, hd⟩ := d
  have hnf : ¬ s.MutexFree := not_free (congrArg Fatal.text hf)
  cases h with
  | writeLog line' free hlog | writeFatal line' free hlog => exact absurd free hnf
  | fatalStop h hj => exact absurd (hf.symm.trans h) nofun
  | abort h he | stopReturn h he => rcases hd with hd | hd <;> exact absurd (he.symm.trans hd) nofun
  | stop h hj => exact ⟨⟨line, hf⟩, hd⟩
  | wait h free he | swap h he free hsw => exact absurd free hnf
  | loop h _ | leave h _ | cut h | write h _ | written h _ | refill h _ =>
    rcases hd with hd | hd <;> exact absurd (h.symm.trans hd) nofun

theorem System.Deadlocked.run (d : s.Deadlocked) (r : Run Step s as t) : t.Deadlocked :=
  r.invariant (fun _ _ _ d h => d.step h) d

/-- A run of the `Worker` to its end. -/
def Exits (s : System) : Prop := ∃ n t, Run Step s (.replicate n .worker) t ∧
  t.worker.position = .exited ∧ t.fatal = s.fatal

theorem Exits.cons {s t : System} (h : Step s .worker t) (hf : t.fatal = s.fatal) (e : Exits t) :
    Exits s := by
  obtain ⟨n, u, r, hu, hfu⟩ := e
  exact ⟨n + 1, u, .cons h r, hu, hfu.trans hf⟩

theorem exits_loopTest (hr : s.log.isRunning = false) (h : s.worker.position = .loopTest) :
    Exits s := .cons (.leave h hr) rfl ⟨0, _, .nil _, rfl, rfl⟩

theorem exits_refill (k : s.Kept) (hr : s.log.isRunning = false)
    (h : s.worker.position = .refill) : Exits s := by
  have hw := k.worker
  simp only [Worker.Fit, h] at hw
  obtain ⟨w, hre, hp, -⟩ := Worker.refill_spec hw
  exact .cons (.refill h hre) rfl (exits_loopTest hr hp)

theorem exits_writing (n : ℕ) : ∀ {s : System} {i : ℕ}, s.Kept → s.log.isRunning = false →
    s.worker.position = .writing i → s.worker.buffers.length - i = n → Exits s := by
  induction n with
  | zero =>
    intro s i k hr h hn
    have hb : s.worker.buffers[i]? = none := List.getElem?_eq_none_iff.mpr (by omega)
    have hs : Step s .worker _ := .written h hb
    exact .cons hs rfl (exits_refill (k.step hs) hr rfl)
  | succ n ih =>
    intro s i k hr h hn
    have hb := List.getElem?_eq_getElem (l := s.worker.buffers) (i := i) (by omega)
    have hs : Step s .worker _ := .write h hb
    refine .cons hs rfl (ih (k.step hs) hr rfl ?_)
    change s.worker.buffers.length - (i + 1) = n
    omega

/-- **Past its critical section** the `Worker` needs nobody to leave. -/
theorem exits (k : s.Kept) (hr : s.log.isRunning = false) (hd : ¬ s.worker.Due) : Exits s := by
  match h : s.worker.position with
  | .enter => exact absurd (.inl h) hd
  | .waiting => exact absurd (.inr h) hd
  | .loopTest => exact exits_loopTest hr h
  | .batch =>
    have hs : Step s .worker _ := .cut h
    exact .cons hs rfl (exits_writing _ (k.step hs) hr rfl rfl)
  | .writing i => exact exits_writing _ k hr h rfl
  | .refill => exact exits_refill k hr h
  | .exited => exact ⟨0, s, .nil _, h, rfl⟩

/-- **A fatal text neither deadlocks nor gets lost** exactly when it is empty and the `Worker` is
past its critical section as `is_running_` turns false. -/
theorem fatal_iff (r : Run Step .init as s) {line : Bytes} (hf : s.fatal = .holding line)
    (hs : Step s .fatalStop t) :
    (∀ bs u, Run Step t bs u → ¬ u.Deadlocked ∧ (u.fatal = .aborted line →
      InFile u.file.written u.accepted (u.accepted.length - 1))) ↔
      line = [] ∧ ¬ s.worker.Due := by
  have hsound := sound_init.run r
  have hw := (withheld_init.run sound_init r).step hsound.toKept hs
  have hsound₁ := hsound.step hs
  obtain ⟨hpos, hrun, hjoin⟩ : t.worker = s.worker ∧ t.log.isRunning = false ∧
      t.fatal = .joining line := by
    cases hs with
    | fatalStop h hj =>
      rw [h] at hf
      exact ⟨rfl, rfl, by injection hf with hf; rw [hf]⟩
  have htext : t.fatal.text = some line := by rw [hjoin]; rfl
  constructor
  · intro hall
    have hd : ¬ s.worker.Due := fun hd =>
      (hall _ _ (.nil t)).1 ⟨⟨line, hjoin⟩, by rw [hpos]; exact hd⟩
    refine ⟨?_, hd⟩
    obtain ⟨n, u, ru, hexit, hfu⟩ := exits hsound₁.toKept hrun (by rw [hpos]; exact hd)
    have ha : Step u .abort _ := .abort (hfu.trans hjoin) hexit
    have rv := ru.append (.single ha)
    have hin := (hall _ _ rv).2 rfl
    exact (not_inFile_of_withheld (hsound₁.run rv) (hw.run hsound₁ rv) rfl).mp hin
  · rintro ⟨rfl, hd⟩ bs u ru
    have hleave : t.Leaves t.workerBytes := ⟨hsound₁, hrun, by rw [hpos]; exact hd, fun _ => rfl⟩
    obtain ⟨-, -, hnd, -⟩ := ru.invariant (fun _ _ _ h hs => h.step hs) hleave
    obtain ⟨-, hu⟩ := accepted_of_fatal_run ru htext
    exact ⟨fun hdead => hnd hdead.2, fun _ =>
      (not_inFile_of_withheld (hsound₁.run ru) (hw.run hsound₁ ru) hu).mpr rfl⟩

/-- An empty text, while the `Worker` is at its loop test. -/
theorem fatal_empty : ∃ s t as, Run Step .init as s ∧ Step s .fatalStop t ∧
    ∀ bs u, Run Step t bs u → ¬ u.Deadlocked ∧ (u.fatal = .aborted [] →
      InFile u.file.written u.accepted (u.accepted.length - 1)) := by
  obtain ⟨s, as, r, hf, hd, t, hs⟩ : ∃ s as, Run Step .init as s ∧ s.fatal = .holding [] ∧
      ¬ s.worker.Due ∧ ∃ t, Step s .fatalStop t :=
    ⟨_, _, .cons (.writeFatal ⟨[], by decide⟩ rfl rfl) <| .nil _, rfl,
      fun h => h.elim nofun nofun, _, .fatalStop rfl rfl⟩
  exact ⟨s, t, as, r, hs, (fatal_iff r hf hs).mpr ⟨rfl, hd⟩⟩

/-- **A fatal text in the timed wait**: the caller and the `Worker` wait for each other; **at the
loop test**: the caller aborts, and its text is not in the file. -/
theorem fatal_deadlock : (∃ s as, Run Step .init as s ∧ s.Deadlocked) ∧
    ∃ s as, Run Step .init as s ∧ s.fatal = .aborted [120] ∧
      ¬ InFile s.file.written s.accepted (s.accepted.length - 1) :=
  ⟨⟨_, _, .cons (.loop rfl rfl) <| .cons (.wait rfl rfl rfl) <|
      .cons (.writeFatal ⟨[120], by decide⟩ rfl rfl) <| .cons (.fatalStop rfl rfl) <| .nil _,
      ⟨_, rfl⟩, .inr rfl⟩,
    ⟨_, _, .cons (.writeFatal ⟨[120], by decide⟩ rfl rfl) <| .cons (.fatalStop rfl rfl) <|
      .cons (.leave rfl rfl) <| .cons (.abort rfl rfl) <| .nil _, rfl,
      fun h => absurd (h _ rfl) (by decide)⟩⟩

end WebServer.Log
