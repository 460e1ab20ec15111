import WebServer.Ftp.Effects

/-!
# Ftp/Transfer — what an upload stores, and what a download sends

An upload ends with a read that is the end mark and nothing else, so it stores what the client sends
exactly if the transport delivers the mark on its own, and delivers nothing else that looks like it
(`upload_iff`).  A download sends its file by whole buffers, and stops before a last part that does
not fill one (`download_iff`).
-/

namespace WebServer.Ftp

open Utility (ReadResult WriteResult)

/-! ## Uploads -/

section Upload

variable (os : Os) {s : Session} {f : ℕ} {segment held : Bytes} {reads : List Bytes}

theorem handleReads_cons (segment : Bytes) (reads : List Bytes) :
    handleReads os (segment :: reads)
      = handleRead os (Utility.deliver segment) >>= fun _ => handleReads os reads :=
  List.foldlM_cons

theorem callBackFunc_upload (hs : s.processState = .upload) (rs : List ReadResult) :
    callBackFunc os rs s.processState s = upload rs s := by
  rw [hs]
  rfl

/-- **A read of an upload**, other than the end mark, goes to the file. -/
theorem handleRead_data (hs : s.processState = .upload) (hf : s.currentOpenFile = some f)
    (hd : s.disk f = some held) (hne : segment ≠ crlf) :
    ∃ s', handleRead os (Utility.deliver segment) s = (some (), s') ∧
      s'.processState = .upload ∧ s'.currentOpenFile = some f ∧
      s'.disk f = some (held ++ segment) := by
  have hbuf : (readn (Utility.deliver segment)).buffer = segment := by rw [readn_deliver]
  have hcall := (callBackFunc_upload os hs _).trans
    (upload_of_open (by rwa [hbuf]) (not_failed_deliver segment) hf)
  refine ⟨_, handleRead_of_some hcall (by decide), rfl, hf, ?_⟩
  dsimp only
  rw [Function.update_self, hbuf, Session.content, hd, Option.getD_some]

/-- **The end mark** ends the upload. -/
theorem handleRead_end (hs : s.processState = .upload) :
    ∃ s', handleRead os (Utility.deliver crlf) s = (some (), s') ∧ s'.processState = .parse ∧
      s'.disk = s.disk := by
  have hbuf : (readn (Utility.deliver crlf)).buffer = crlf := by rw [readn_deliver]
  have hcall := (callBackFunc_upload os hs _).trans (upload_of_crlf hbuf)
  exact ⟨_, handleRead_of_some hcall (by decide), rfl, rfl⟩

/-- Reads of an upload before its end. -/
theorem handleReads_data (hs : s.processState = .upload) (hf : s.currentOpenFile = some f)
    (hd : s.disk f = some held) (hne : crlf ∉ reads) :
    ∃ s', handleReads os reads s = (some (), s') ∧
      s'.processState = .upload ∧ s'.currentOpenFile = some f ∧
      s'.disk f = some (held ++ reads.flatten) := by
  induction reads generalizing s held with
  | nil => exact ⟨s, rfl, hs, hf, by rw [hd, List.flatten_nil, List.append_nil]⟩
  | cons segment reads ih =>
    obtain ⟨hhead, htail⟩ := not_or.mp (fun h => hne (List.mem_cons.mpr h))
    obtain ⟨s₁, h₁, hs₁, hf₁, hd₁⟩ := handleRead_data os hs hf hd (Ne.symm hhead)
    obtain ⟨s₂, h₂, hs₂, hf₂, hd₂⟩ := ih hs₁ hf₁ hd₁ htail
    refine ⟨s₂, ?_, hs₂, hf₂, ?_⟩
    · rw [handleReads_cons, Program.bind_of_some h₁, h₂]
    · rw [hd₂, List.flatten_cons, List.append_assoc]

theorem handleReads_append {a : List Bytes} (b : List Bytes) {s' : Session}
    (h : handleReads os a s = (some (), s')) : handleReads os (a ++ b) s = handleReads os b s' := by
  induction a generalizing s with
  | nil =>
    obtain rfl : s = s' := congrArg Prod.snd h
    rfl
  | cons segment a ih =>
    rw [handleReads_cons, Program.bind_apply] at h
    rw [List.cons_append, handleReads_cons, Program.bind_apply]
    generalize handleRead os (Utility.deliver segment) s = r at h
    obtain ⟨_ | u, s₁⟩ := r
    · exact absurd (congrArg Prod.fst h) (Option.some_ne_none _).symm
    · exact ih h

/-- **No read outside an upload** adds to a file. -/
theorem length_handleRead_parse (hs : s.processState ≠ .upload) (segment : Bytes) (f : ℕ) :
    ((handleRead os (Utility.deliver segment) s).2.content f).length ≤ (s.content f).length := by
  obtain ⟨cs, -, -, hdisk⟩ := (handleRead_effects os (Utility.deliver segment) hs).calls
  rw [Session.content, hdisk]
  obtain h | h := held_callEvents os f s.calls.length cs (s.disk f)
  · exact (congrArg List.length h).le
  · rw [h]
    exact Nat.zero_le _

/-- …and none in an upload adds more than it brings. -/
theorem length_handleRead (s : Session) (segment : Bytes) (f : ℕ) :
    ((handleRead os (Utility.deliver segment) s).2.content f).length
      ≤ (s.content f).length + segment.length := by
  by_cases hs : s.processState = .upload
  · have h := (handleRead_upload os (Utility.deliver segment) hs).2.2 f
    rwa [readn_deliver] at h
  · exact (length_handleRead_parse os hs segment f).trans (Nat.le_add_right ..)

theorem length_handleReads (s : Session) (reads : List Bytes) (f : ℕ) :
    ((handleReads os reads s).2.content f).length ≤
      (s.content f).length + reads.flatten.length := by
  induction reads generalizing s with
  | nil => exact Nat.le_refl _
  | cons segment reads ih =>
    have h := length_handleRead os s segment f
    rw [handleReads_cons, Program.bind_apply, List.flatten_cons, List.length_append]
    generalize handleRead os (Utility.deliver segment) s = r at h
    obtain ⟨_ | u, s₁⟩ := r
    · exact h.trans (by omega)
    · exact (ih s₁).trans (by dsimp only at h; omega)

/-- **What ends too early** stores too little: what comes after a first end mark is a command. -/
theorem length_of_early_end {a b : List Bytes} (hs : s.processState = .upload)
    (hf : s.currentOpenFile = some f) (hd : s.disk f = some held) (ha : crlf ∉ a)
    (segment : Bytes) :
    ((handleReads os (a ++ crlf :: segment :: b) s).2.content f).length
      ≤ held.length + a.flatten.length + b.flatten.length := by
  obtain ⟨s₁, h₁, hs₁, -, hd₁⟩ := handleReads_data os hs hf hd ha
  obtain ⟨s₂, h₂, hs₂, hd₂⟩ := handleRead_end os hs₁
  have h₃ := length_handleRead_parse os (s := s₂) (by rw [hs₂]; decide) segment f
  rw [Session.content, Session.content, hd₂, hd₁, Option.getD_some, List.length_append] at h₃
  rw [handleReads_append os _ h₁, handleReads_cons, Program.bind_of_some h₂, handleReads_cons,
    Program.bind_apply]
  generalize handleRead os (Utility.deliver segment) s₂ = r at h₃
  obtain ⟨_ | u, s₃⟩ := r
  · exact h₃.trans (Nat.le_add_right ..)
  · exact (length_handleReads os s₃ b f).trans (Nat.add_le_add_right h₃ _)

/-- **When an upload is faithful.** -/
theorem upload_iff (s : Session) (f : ℕ) (content : Bytes) (reads : List Bytes)
    (hs : s.processState = .upload) (hf : s.currentOpenFile = some f) (hempty : s.disk f = some [])
    (hne : ∀ r ∈ reads, r ≠ []) (hreads : reads.flatten = content ++ crlf) :
    ((handleReads os reads s).1 = some () ∧ (handleReads os reads s).2.processState = .parse ∧
        (handleReads os reads s).2.disk f = some content) ↔
      ∃ parts, reads = parts ++ [crlf] ∧ crlf ∉ parts := by
  constructor
  · rintro ⟨-, hstate, hdisk⟩
    by_cases hmem : crlf ∈ reads
    · obtain ⟨a, b, rfl, ha⟩ := List.eq_append_cons_of_mem hmem
      cases b with
      | nil => exact ⟨a, rfl, ha⟩
      | cons segment b =>
        have hlen := length_of_early_end os (b := b) hs hf hempty ha segment
        have hpos : 0 < segment.length := List.length_pos_iff.mpr (hne segment
          (List.mem_append_right _ (List.mem_cons_of_mem _ (List.mem_cons_self ..))))
        have htotal := congrArg List.length hreads
        simp only [List.flatten_append, List.flatten_cons, List.length_append] at htotal
        rw [Session.content, hdisk, Option.getD_some, List.length_nil] at hlen
        omega
    · obtain ⟨s₁, h₁, hs₁, -⟩ := handleReads_data os hs hf hempty hmem
      rw [h₁, hs₁] at hstate
      exact ProcessState.noConfusion hstate
  · rintro ⟨parts, rfl, hparts⟩
    obtain ⟨s₁, h₁, hs₁, -, hd₁⟩ := handleReads_data os hs hf hempty hparts
    obtain ⟨s₂, h₂, hs₂, hd₂⟩ := handleRead_end os hs₁
    have hrun : handleReads os (parts ++ [crlf]) s = (some (), s₂) := by
      rw [handleReads_append os _ h₁, handleReads_cons, Program.bind_of_some h₂]
      rfl
    have hparts : parts.flatten = content := by
      rw [List.flatten_append, List.flatten_singleton] at hreads
      exact List.append_cancel_right hreads
    rw [hrun]
    refine ⟨rfl, hs₂, ?_⟩
    rw [hd₂, hd₁, List.nil_append, hparts]

/-- A session whose upload has just opened a file. -/
def uploading : Session :=
  { Session.new (fun _ => none) (text "./page/") 1 (fun _ => some []) [] with
    processState := .upload
    currentOpenFile := some 0 }

/-- One byte, and the end mark on its own. -/
theorem upload_apart : ((handleReads .refusing [text "A", crlf] uploading).1 = some () ∧
    (handleReads .refusing [text "A", crlf] uploading).2.processState = .parse ∧
    (handleReads .refusing [text "A", crlf] uploading).2.disk 0 = some (text "A")) ↔
      ∃ parts, [text "A", crlf] = parts ++ [crlf] ∧ crlf ∉ parts :=
  upload_iff .refusing uploading 0 (text "A") [text "A", crlf] rfl rfl rfl (by decide) rfl

/-- **The end mark is stored** where it comes along with the data, and the upload goes on. -/
theorem upload_together :
    (handleReads .refusing [text "A" ++ crlf] uploading).2.disk 0 ≠ some (text "A") ∧
    (handleReads .refusing [text "A" ++ crlf] uploading).2.processState ≠ .parse := by
  have hmem : crlf ∉ [text "A" ++ crlf] := by decide
  have hempty : uploading.disk 0 = some [] := rfl
  obtain ⟨s, hrun, hs, -, hd⟩ := handleReads_data .refusing (s := uploading) rfl rfl hempty hmem
  rw [hrun, hs, hd]
  decide

end Upload

/-! ## Downloads -/

section Download

variable (os : Os) {s : Session} {f : ℕ}

/-- A socket that accepts every write is sent everything. -/
theorem writen_of_accept (hw : s.writes = []) (b : Bytes) :
    writen b s = (some (), { s with sent := s.sent ++ b }) := by
  have hwrite : Utility.write s.writes b = ⟨b.length, b, [], []⟩ := by rw [hw, Utility.write_nil]
  change (some (), ({ s with
    sent := s.sent ++ (Utility.write s.writes b).accepted
    writes := (Utility.write s.writes b).rest } : Session)) = _
  rw [hwrite, hw]

/-- The part of a file that fills whole buffers. -/
def wholeBuffers (content : Bytes) : Bytes :=
  content.take (content.length / bufferSize * bufferSize)

theorem wholeBuffers_of_lt {content : Bytes} (h : content.length < bufferSize) :
    wholeBuffers content = [] := by
  rw [wholeBuffers, Nat.div_eq_of_lt h, Nat.zero_mul, List.take_zero]

theorem wholeBuffers_of_le {content : Bytes} (h : bufferSize ≤ content.length) :
    wholeBuffers content = content.take bufferSize ++ wholeBuffers (content.drop bufferSize) := by
  have hdiv : content.length / bufferSize
      = (content.length - bufferSize) / bufferSize + 1 := Nat.div_eq_sub_div (by decide) h
  rw [wholeBuffers, wholeBuffers, hdiv, Nat.add_mul, Nat.one_mul, Nat.add_comm, List.take_add,
    List.length_drop]

/-- **Whole buffers are the file** exactly if they divide it. -/
theorem wholeBuffers_eq_iff {content : Bytes} :
    wholeBuffers content = content ↔ bufferSize ∣ content.length := by
  rw [wholeBuffers, List.take_eq_self_iff, Nat.dvd_iff_div_mul_eq]
  exact ⟨fun h => Nat.le_antisymm (Nat.div_mul_le_self ..) h, fun h => h.ge⟩

/-- **The loop of a download** sends the whole buffers. -/
theorem downloadLoop_spec (content : Bytes) (hw : s.writes = []) :
    downloadLoop content s = (some (), { s with sent := s.sent ++ wholeBuffers content }) := by
  induction content using downloadLoop.induct generalizing s with
  | case1 content h =>
    rw [downloadLoop, if_pos h, wholeBuffers_of_lt h, List.append_nil]
    rfl
  | case2 content h ih =>
    rw [downloadLoop, if_neg h, Program.bind_of_some (writen_of_accept hw _),
      ih (s := { s with sent := s.sent ++ content.take bufferSize }) hw,
      wholeBuffers_of_le (Nat.le_of_not_lt h)]
    dsimp only
    rw [List.append_assoc]

/-- **A download** of a file that opens. -/
theorem download_spec (hw : s.writes = [])
    (hopen : os.openFile s.calls.length
      (cString (workingDir s.completePath ++ s.parameter)) = some f) :
    ∃ s', download os s = (some .parse, s') ∧ s'.currentOpenReadFile = none ∧
      s'.sent = s.sent ++ wholeBuffers (s.content f) := by
  obtain ⟨path, hpath⟩ : ∃ p, p = cString (workingDir s.completePath ++ s.parameter) := ⟨_, rfl⟩
  obtain ⟨s₁, hs₁⟩ : ∃ s₁ : Session, s₁ = { s with
    calls := s.calls ++ [.openFile .input path] } := ⟨_, rfl⟩
  have hfile : openFile os .input path s = (some (some f), s₁) := by
    rw [← hopen, ← hpath, hs₁]
    change (some (os.openFile s.calls.length path), ({ s with
      calls := s.calls ++ [.openFile .input path]
      disk := s.opened .input (os.openFile s.calls.length path) } : Session)) = _
    cases os.openFile s.calls.length path <;> rfl
  have hw₁ : s₁.writes = [] := by rw [hs₁, hw]
  have hloop := downloadLoop_spec (s := { s₁ with currentOpenReadFile := some (s₁.content f) })
    (s₁.content f) hw₁
  rw [download, Program.gets_bind, Program.gets_bind, ← hpath, Program.bind_of_some hfile]
  dsimp only
  rw [Program.gets_bind, Program.modify_bind, Program.bind_of_some hloop, Program.modify_bind]
  exact ⟨_, rfl, rfl, by rw [hs₁]; rfl⟩

/-- **The command** `download` sends the whole buffers of the file. -/
theorem handleRead_download {m file : Bytes} (hs : s.processState = .parse)
    (hcommand : Command.of (extractParameters s.commandOffset m) = some (.download file))
    (hopen : os.openFile s.calls.length (cString (workingDir s.completePath ++ file)) = some f)
    (hsocket : s.writes = []) : ∃ s', handleRead os (Utility.deliver m) s = (some (), s') ∧
      s'.processState = .parse ∧ s'.currentOpenReadFile = none ∧
      s'.sent = s.sent ++ wholeBuffers (s.content f) := by
  have hbuf : (readn (Utility.deliver m)).buffer = m := by rw [readn_deliver]
  have hparam := parameter_of_download hcommand s.parameter
  obtain ⟨s', hrun, hclosed, hsent⟩ := download_spec os (f := f)
    (s := { s with parameter := file }) hsocket hopen
  have hcall : callBackFunc os (Utility.deliver m) s.processState s = (some .parse, s') := by
    rw [hs, ← hrun]
    change commandParser os (Utility.deliver m) s = _
    rw [commandParser_of_some (not_failed_deliver m) (by rw [hbuf, hcommand]), hbuf, hparam]
    rfl
  exact ⟨_, handleRead_of_some hcall (by decide), rfl, hclosed, hsent⟩

/-- **When a download is faithful.** -/
theorem download_iff (s : Session) (m file : Bytes) (f : ℕ)
    (hs : s.processState = .parse)
    (hcommand : Command.of (extractParameters s.commandOffset m) = some (.download file))
    (hopen : os.openFile s.calls.length (cString (workingDir s.completePath ++ file)) = some f)
    (hsocket : s.writes = []) :
    (∃ s', handleRead os (Utility.deliver m) s = (some (), s') ∧ s'.processState = .parse ∧
      s'.currentOpenReadFile = none ∧ s'.sent = s.sent ++ s.content f) ↔
        bufferSize ∣ (s.content f).length := by
  obtain ⟨s₁, hrun, hstate, hclosed, hsent⟩ := handleRead_download os hs hcommand hopen hsocket
  rw [← wholeBuffers_eq_iff]
  constructor
  · rintro ⟨s', he, -, -, hall⟩
    obtain rfl : s₁ = s' := congrArg Prod.snd (hrun.symm.trans he)
    exact List.append_cancel_left (hsent.symm.trans hall)
  · intro hwhole
    exact ⟨s₁, hrun, hstate, hclosed, by rw [hsent, hwhole]⟩

/-- A system on which every name is the file `0`. -/
def Os.oneFile : Os := { Os.refusing with openFile := fun _ _ => some 0 }

/-- A session that has been let in, with some content in the file `0`. -/
def downloading (content : Bytes) : Session :=
  { Session.new (fun _ => none) (text "./page/") 1 (fun _ => some content) [] with
    processState := .parse }

/-- A file of one buffer. -/
def oneBuffer : Bytes := List.replicate bufferSize 65

/-- **One whole buffer** is sent. -/
theorem download_oneBuffer : ∃ s', handleRead .oneFile (Utility.deliver (text "download a"))
    (downloading oneBuffer) = (some (), s') ∧ s'.processState = .parse ∧
    s'.currentOpenReadFile = none ∧ s'.sent = oneBuffer := by
  have hcommand : Command.of (extractParameters 1 (text "download a"))
      = some (.download (text "a")) := by decide
  refine (download_iff .oneFile (downloading oneBuffer) (text "download a") (text "a") 0 rfl
    hcommand rfl rfl).mpr ?_
  exact ⟨1, List.length_replicate⟩

/-- **One byte** is not sent. -/
theorem download_one_byte : ¬∃ s', handleRead .oneFile (Utility.deliver (text "download a"))
    (downloading (text "A")) = (some (), s') ∧ s'.processState = .parse ∧
    s'.currentOpenReadFile = none ∧ s'.sent = text "A" := by
  rintro ⟨s', he, -, -, hall⟩
  have hcommand : Command.of (extractParameters 1 (text "download a"))
      = some (.download (text "a")) := by decide
  obtain ⟨s₁, hrun, -, -, hsent⟩ := handleRead_download .oneFile (f := 0)
    (s := downloading (text "A")) rfl hcommand rfl rfl
  obtain rfl : s₁ = s' := congrArg Prod.snd (hrun.symm.trans he)
  have hnone : wholeBuffers (text "A") = [] := wholeBuffers_of_lt (by decide)
  have : text "A" = [] ++ [] := hall.symm.trans (hsent.trans (congrArg (_ ++ ·) hnone))
  exact absurd this (by decide)

end Download

end WebServer.Ftp
