import WebServer.Ftp.FtpConnection

/-!
# Ftp/Effects — what a command asks of the system, and what it changes

`Command.Asks` lists the calls that a command can make, by the directory the session is in.  Running
it makes no other, changes the files by these calls alone, and moves the session by one directory at
most (`execute_effects`); a `handleRead` outside an upload does nothing more (`handleRead_effects`).
-/

namespace WebServer.Ftp

open Utility (ReadResult WriteResult)

/-! ## What a command asks -/

/-- The directory that `dirCanBeOpened` opens. -/
abbrev pagePath : Bytes := text "./page/"

/-- A name that the system lists somewhere. -/
def Os.Lists (os : Os) (name : Bytes) (isDir : Bool) : Prop :=
  ∃ n path entries, os.opendir n path = some entries ∧ ⟨name, isDir⟩ ∈ entries

/-- **What `deleteDirectory` comes to**, from the directory it is called for. -/
inductive Reached (os : Os) (top : Bytes) : Bytes → Prop
  | top : Reached os top top
  | sub {p d : Bytes} (h : Reached os top p) (hd : os.Lists d true) (hdot : d ≠ text ".")
      (hdots : d ≠ text "..") : Reached os top (p ++ getValidFile (d ++ text "/"))

/-- `cd` to another directory than this one and the one above. -/
def IsChild (dir : Bytes) : Prop :=
  ¬(dir = text ".." ∨ dir = text "../") ∧ ¬(dir = text "." ∨ dir = text "./")

/-- **The calls a command can make**, in a directory. -/
def Command.Asks (os : Os) (path : List Bytes) (c : SysCall) : Command → Prop
  | .ls dir => c = .opendir pagePath ∨ c = .opendir (cString (browsed path dir true))
  | .download file => c = .openFile .input (cString (workingDir path ++ file))
  | .upload file => c = .openFile .trunc (cString (workingDir path ++ file))
  | .touch file => c = .openFile .app (cString (workingDir path ++ getValidFile file))
  | .cd dir => IsChild dir ∧ c = .opendir pagePath
  | .mkdir dir => ¬(dir = text "../" ∧ path.length ≤ 1) ∧
      c = .mkdir (cString (workingDir path ++ dir))
  | .rmdir dir => dirIsBelowServerRoot path dir = false ∧ (c = .opendir pagePath ∨
      ∃ p, Reached os (getValidFile dir) p ∧ (c = .opendir (cString (browsed path p false)) ∨
        c = .rmdir (cString (workingDir path ++ p)) ∨
        ∃ file, os.Lists file false ∧ c = .remove (cString (workingDir path ++ (p ++ file)))))
  | .pwd | .getparentdir | .quit | .unknown => False

/-- Where a session is after one command more. -/
inductive Moves (path : List Bytes) : List Bytes → Prop
  | stay : Moves path path
  | up (h : 2 ≤ path.length) : Moves path path.dropLast
  | down (dir : Bytes) : Moves path (path ++ [dir])

/-! ## What happens to the files -/

/-- What happens to a file. -/
inductive FileEvent
  | opened (file : ℕ)
  | created (file : ℕ)
  | received (file : ℕ) (part : Bytes)
  | removed (file : ℕ)

/-- What the file `g` holds after an event. -/
def FileEvent.held (g : ℕ) (content : Option Bytes) : FileEvent → Option Bytes
  | .opened f => if g = f then some [] else content
  | .created f => if g = f then some (content.getD []) else content
  | .received f part => if g = f then some (content.getD [] ++ part) else content
  | .removed f => if g = f then none else content

/-- **What a call does to a file.** -/
def SysCall.event (os : Os) (n : ℕ) : SysCall → Option FileEvent
  | .openFile .trunc p => (os.openFile n p).map .opened
  | .openFile .app p => (os.openFile n p).map .created
  | .remove p => (os.remove n p).map .removed
  | .openFile .input _ | .opendir _ | .mkdir _ | .rmdir _ => none

/-- …and calls in a row, from the `n`-th on. -/
def callEvents (os : Os) : ℕ → List SysCall → List FileEvent
  | _, [] => []
  | n, c :: cs => (c.event os n).toList ++ callEvents os (n + 1) cs

theorem callEvents_append (os : Os) (n : ℕ) (cs ds : List SysCall) :
    callEvents os n (cs ++ ds) = callEvents os n cs ++ callEvents os (n + cs.length) ds := by
  induction cs generalizing n with
  | nil => rfl
  | cons c cs ih =>
    rw [List.cons_append, callEvents, ih, callEvents, List.append_assoc, List.length_cons,
      Nat.add_assoc, Nat.add_comm 1]

/-- An event of a call in a row. -/
theorem mem_callEvents {os : Os} {e : FileEvent} : ∀ {n : ℕ} {cs : List SysCall},
    e ∈ callEvents os n cs → ∃ c ∈ cs, ∃ m, c.event os m = some e
  | _, [], h => absurd h List.not_mem_nil
  | n, c :: cs, h => by
    obtain h | h := List.mem_append.mp h
    · exact ⟨c, List.mem_cons_self .., n, Option.mem_toList.mp h⟩
    · obtain ⟨d, hd, hm⟩ := mem_callEvents h
      exact ⟨d, List.mem_cons_of_mem c hd, hm⟩

/-- **Calls leave what a file holds**, or nothing. -/
theorem held_callEvents (os : Os) (g n : ℕ) (cs : List SysCall) (content : Option Bytes) :
    ((callEvents os n cs).foldl (FileEvent.held g) content).getD [] = content.getD [] ∨
      ((callEvents os n cs).foldl (FileEvent.held g) content).getD [] = [] := by
  have hkept : ∀ e ∈ callEvents os n cs, ∀ content : Option Bytes,
      (e.held g content).getD [] = content.getD [] ∨ (e.held g content).getD [] = [] := by
    intro e he content
    obtain ⟨c, -, m, hc⟩ := mem_callEvents he
    cases e with
    | opened f | created f | removed f => rw [FileEvent.held]; split <;> simp
    | received f part =>
      -- no call receives
      cases c with
      | openFile mode path => cases mode <;> simp [SysCall.event] at hc
      | _ => simp [SysCall.event] at hc
  generalize callEvents os n cs = es at hkept
  induction es generalizing content with
  | nil => exact .inl rfl
  | cons e es ih =>
    obtain ⟨he, hes⟩ := List.forall_mem_cons.mp hkept
    obtain h | h := ih (e.held g content) hes
    · obtain h' | h' := he content
      · exact .inl (h.trans h')
      · exact .inr (h.trans h')
    · exact .inr h

/-! ## What has happened -/

/-- **What has happened since** a state: calls of one kind, and what these do to the files. -/
structure Since (os : Os) (s₀ : Session) (asks : SysCall → Prop) (at' : List Bytes → Prop)
    (s : Session) : Prop where
  calls : ∃ cs, s.calls = s₀.calls ++ cs ∧ (∀ c ∈ cs, asks c) ∧ ∀ g, s.disk g =
    (callEvents os s₀.calls.length cs).foldl (FileEvent.held g) (s₀.disk g)
  path : at' s.completePath

section Keeps

variable {os : Os} {s₀ s : Session} {asks : SysCall → Prop} {at' : List Bytes → Prop}

theorem Since.refl (h : at' s.completePath) : Since os s asks at' s :=
  ⟨⟨[], (List.append_nil _).symm, List.forall_mem_nil _, fun _ => rfl⟩, h⟩

theorem Since.weaken {asks' : SysCall → Prop} {at'' : List Bytes → Prop}
    (h : Since os s₀ asks at' s) (ha : ∀ c, asks c → asks' c)
    (hp : at' s.completePath → at'' s.completePath) : Since os s₀ asks' at'' s := by
  obtain ⟨⟨cs, hcs, hall, hdisk⟩, hpath⟩ := h
  exact ⟨⟨cs, hcs, fun c hc => ha c (hall c hc), hdisk⟩, hp hpath⟩

/-- A change that leaves calls, files and directory alone. -/
theorem Since.of_eq {s' : Session} (h : Since os s₀ asks at' s) (hc : s'.calls = s.calls)
    (hd : s'.disk = s.disk) (hp : s'.completePath = s.completePath) : Since os s₀ asks at' s' :=
  ⟨by rw [hc, hd]; exact h.calls, by rw [hp]; exact h.path⟩

/-- **One call more.** -/
theorem Since.called {s' : Session} {c : SysCall} (h : Since os s₀ asks at' s) (ha : asks c)
    (hc : s'.calls = s.calls ++ [c])
    (hd : ∀ g, s'.disk g = (c.event os s.calls.length).toList.foldl (FileEvent.held g) (s.disk g))
    (hp : s'.completePath = s.completePath) : Since os s₀ asks at' s' := by
  obtain ⟨⟨cs, hcs, hall, hdisk⟩, hpath⟩ := h
  refine ⟨⟨cs ++ [c], ?_, ?_, fun g => ?_⟩, hp ▸ hpath⟩
  · rw [hc, hcs, List.append_assoc]
  · exact List.forall_mem_append.mpr ⟨hall, List.forall_mem_singleton.mpr ha⟩
  · rw [hd, hdisk, callEvents_append, List.foldl_append, callEvents, callEvents, List.append_nil,
      hcs, List.length_append]

open Program

/-- A change of other members than calls, files and directory. -/
theorem modify_keeps {α : Type} {f : Session → Session} {x : Program Session α} {Q : α → Prop}
    (hx : Keeps (Since os s₀ asks at') x Q) (hc : ∀ s, (f s).calls = s.calls)
    (hd : ∀ s, (f s).disk = s.disk) (hp : ∀ s, (f s).completePath = s.completePath) :
    Keeps (Since os s₀ asks at') (.modify f >>= fun _ => x) Q :=
  (Keeps.modify (Q := fun _ => True) (fun s hs => hs.of_eq (hc s) (hd s) (hp s)) trivial).bind
    fun _ _ => hx

/-- Looking at a member. -/
theorem gets_keeps {α β : Type} {f : Session → α} {x : α → Program Session β} {Q : β → Prop}
    (hx : ∀ a, Keeps (Since os s₀ asks at') (x a) Q) :
    Keeps (Since os s₀ asks at') (.gets f >>= x) Q :=
  (Keeps.gets (Q := fun _ => True) fun _ _ => trivial).bind fun a _ => hx a

/-- A call that does nothing to the files. -/
theorem sysCall_keeps {α : Type} {c : SysCall} (h : asks c) (answer : ℕ → Bytes → α)
    (hquiet : ∀ n, c.event os n = none) :
    Keeps (Since os s₀ asks at') (sysCall c answer) fun a => ∃ n, answer n c.path = a := by
  refine gets_keeps fun n => ?_
  refine (Keeps.modify (Q := fun _ => True) (fun s hs => ?_) trivial).bind fun _ _ =>
    Keeps.pure ⟨n, rfl⟩
  exact hs.called h rfl (fun g => by rw [hquiet]; rfl) rfl

/-- **A file is opened.** -/
theorem openFile_keeps {mode : OpenMode} {path : Bytes} (h : asks (.openFile mode path)) :
    Keeps (Since os s₀ asks at') (openFile os mode path) fun _ => True := by
  refine fun s hs => ⟨hs.called h rfl (fun g => ?_) rfl, fun _ _ => trivial⟩
  change s.opened mode (os.openFile s.calls.length path) g = _
  cases mode with
  | input => cases os.openFile s.calls.length path <;> rfl
  | trunc =>
    rw [SysCall.event]
    cases os.openFile s.calls.length path with
    | none => rfl
    | some f => exact Function.update_apply ..
  | app =>
    rw [SysCall.event]
    cases os.openFile s.calls.length path with
    | none => rfl
    | some f =>
      refine (Function.update_apply ..).trans (ite_congr rfl (fun hg => ?_) fun _ => rfl)
      rw [hg]
      rfl

/-- **A file is removed.** -/
theorem removeFile_keeps {path : Bytes} (h : asks (.remove path)) :
    Keeps (Since os s₀ asks at') (removeFile os path) fun _ => True := by
  refine fun s hs => ⟨hs.called h rfl (fun g => ?_) rfl, fun _ _ => trivial⟩
  change s.removed (os.remove s.calls.length path) g = _
  rw [SysCall.event]
  cases os.remove s.calls.length path with
  | none => rfl
  | some f => exact Function.update_apply ..

theorem path_keeps : Keeps (Since os s₀ asks at') (.gets fun s => s.completePath) at' :=
  Keeps.gets fun _ hs => hs.path

theorem dirCanBeOpened_keeps (hpage : asks (.opendir pagePath)) (dir : Bytes) :
    Keeps (Since os s₀ asks at') (dirCanBeOpened os dir) fun _ => True :=
  (sysCall_keeps hpage _ fun _ => rfl).bind fun _ _ => Keeps.pure trivial

theorem browse_keeps (hpage : asks (.opendir pagePath)) {dir : Bytes} {strict : Bool}
    (hdir : ∀ path, at' path → asks (.opendir (cString (browsed path dir strict)))) :
    Keeps (Since os s₀ asks at') (browse os dir strict) fun r =>
      (∀ d ∈ r.1, os.Lists d true) ∧ ∀ f ∈ r.2, os.Lists f false := by
  refine path_keeps.bind fun path hpath => ?_
  refine (dirCanBeOpened_keeps hpage _).bind fun can _ => Keeps.ite (fun _ => ?_) fun _ => ?_
  · refine (sysCall_keeps (hdir path hpath) _ fun _ => rfl).bind fun dp hdp => ?_
    obtain ⟨n, hn⟩ := hdp
    cases dp with
    | none => exact Keeps.die
    | some entries =>
      refine Keeps.pure ⟨fun d hd => ?_, fun f hf => ?_⟩
      · obtain ⟨⟨name, isDir⟩, he, rfl⟩ := List.mem_map.mp hd
        obtain ⟨he, hdir'⟩ := List.mem_filter.mp he
        obtain rfl : isDir = true := hdir'
        exact ⟨n, _, entries, hn, (List.mem_filter.mp he).1⟩
      · obtain ⟨⟨name, isDir⟩, he, rfl⟩ := List.mem_map.mp hf
        obtain ⟨he, hfile⟩ := List.mem_filter.mp he
        obtain rfl : isDir = false := by simpa using hfile
        exact ⟨n, _, entries, hn, (List.mem_filter.mp he).1⟩
  · exact Keeps.pure ⟨nofun, nofun⟩

theorem deleteFile_keeps {fileName : Bytes}
    (h : ∀ path, at' path → asks (.remove (cString (workingDir path ++ fileName)))) :
    Keeps (Since os s₀ asks at') (deleteFile os fileName false) fun _ => True := by
  refine path_keeps.bind fun path hpath => ?_
  refine (removeFile_keeps (h path hpath)).bind fun ok _ => Keeps.ite (fun _ => ?_) fun _ => ?_
  · exact modify_keeps (Keeps.pure trivial) (fun _ => rfl) (fun _ => rfl) fun _ => rfl
  · exact Keeps.pure trivial

/-- **`deleteDirectory`** asks for what it reaches. -/
theorem deleteDirectory_keeps (top : Bytes) (hpage : asks (.opendir pagePath))
    (hopen : ∀ path p, at' path → Reached os top p →
      asks (.opendir (cString (browsed path p false))))
    (hrmdir : ∀ path p, at' path → Reached os top p →
      asks (.rmdir (cString (workingDir path ++ p))))
    (hremove : ∀ path p file, at' path → Reached os top p → os.Lists file false →
      asks (.remove (cString (workingDir path ++ (p ++ file))))) :
    ∀ (depth : ℕ) (dirName : Bytes) (cancel : Bool) (pathToDir : Bytes),
      Reached os top (pathToDir ++ getValidFile dirName) →
      Keeps (Since os s₀ asks at') (deleteDirectory os depth dirName cancel pathToDir)
        fun _ => True := by
  intro depth
  induction depth with
  | zero => exact fun _ _ _ _ => Keeps.die
  | succ depth ih =>
    intro dirName cancel pathToDir hp
    refine Keeps.ite (fun _ => Keeps.pure trivial) fun _ => ?_
    refine (browse_keeps hpage fun path hpath => hopen path _ hpath hp).bind fun r hr => ?_
    obtain ⟨directories, files⟩ := r
    obtain ⟨hdirs, hfiles⟩ := hr
    refine (Keeps.foldlM (fun c file hf => ?_) cancel).bind fun cancel _ => ?_
    · refine (deleteFile_keeps fun path hpath => ?_).bind fun _ _ => Keeps.pure trivial
      exact hremove path _ file hpath hp (hfiles file hf)
    refine (Keeps.foldlM (fun c d hd => Keeps.ite (fun _ => Keeps.pure trivial) fun hdot => ?_)
      cancel).bind fun cancel _ => ?_
    · obtain ⟨hdot, hdots⟩ := not_or.mp hdot
      refine (ih (d ++ text "/") c _ ?_).bind fun _ _ => Keeps.pure trivial
      exact hp.sub (hdirs d hd) hdot hdots
    refine Keeps.ite (fun _ => ?_) fun _ => Keeps.pure trivial
    refine path_keeps.bind fun path hpath => ?_
    refine (sysCall_keeps (hrmdir path _ hpath hp) _ fun _ => rfl).bind fun ok _ =>
      Keeps.ite (fun _ => ?_) fun _ => Keeps.pure trivial
    exact modify_keeps (Keeps.pure trivial) (fun _ => rfl) (fun _ => rfl) fun _ => rfl

theorem changeDir_keeps {path : List Bytes} {dir : Bytes}
    (hpage : IsChild dir → asks (.opendir pagePath)) (hpath : s₀.completePath = path) :
    Since os s₀ asks (Moves path) (changeDir os dir s₀).2 := by
  rw [changeDir]
  dsimp only [getValidDir]
  rw [gets_bind, hpath]
  have hmove {p : List Bytes} (h : Moves path p) :
      Keeps (Since os s₀ asks (Moves path)) (.modify fun s => { s with completePath := p })
        fun _ => True :=
    Keeps.modify (fun s hs => ⟨hs.calls, h⟩) trivial
  refine (Keeps.ite (Q := fun _ => True) (fun _ => ?_) fun hup => ?_ :
    Keeps (Since os s₀ asks (Moves path)) _ _) s₀ (Since.refl (by rw [hpath]; exact .stay)) |>.1
  · refine Keeps.ite (fun _ => Keeps.pure trivial) fun hlen => ?_
    exact (hmove (.up (Nat.lt_of_not_le hlen))).bind fun _ _ => Keeps.pure trivial
  · refine Keeps.ite (fun _ => Keeps.pure trivial) fun hsame => ?_
    refine (dirCanBeOpened_keeps (hpage ⟨hup, hsame⟩) _).bind fun can _ =>
      Keeps.ite (fun _ => ?_) fun _ => Keeps.pure trivial
    exact (hmove (.down dir)).bind fun _ _ => Keeps.pure trivial

theorem createDirectory_keeps {dirName : Bytes}
    (h : ∀ path, at' path → ¬(dirName = text "../" ∧ path.length ≤ 1) →
      asks (.mkdir (cString (workingDir path ++ dirName)))) :
    Keeps (Since os s₀ asks at') (createDirectory os dirName) fun _ => True := by
  refine path_keeps.bind fun path hpath => Keeps.ite (fun _ => Keeps.pure trivial) fun hne => ?_
  exact (sysCall_keeps (h path hpath hne) _ fun _ => rfl).bind fun _ _ => Keeps.pure trivial

theorem createFile_keeps {fileName : Bytes} (h : ∀ path, at' path →
      asks (.openFile .app (cString (workingDir path ++ getValidFile fileName)))) :
    Keeps (Since os s₀ asks at') (createFile os fileName) fun _ => True :=
  path_keeps.bind fun path hpath =>
    (openFile_keeps (h path hpath)).bind fun _ _ => Keeps.pure trivial

theorem writen_keeps (b : Bytes) : Keeps (Since os s₀ asks at') (writen b) fun _ => True :=
  Keeps.modify (fun _ hs => hs.of_eq rfl rfl rfl) trivial

theorem sendToClient_keeps (b : Bytes) :
    Keeps (Since os s₀ asks at') (sendToClient b) fun _ => True :=
  Keeps.modify (fun _ hs => hs.of_eq rfl rfl rfl) trivial

theorem answer_keeps (res : Bytes) : Keeps (Since os s₀ asks at') (answer res) fun _ => True :=
  (writen_keeps _).bind fun _ _ => Keeps.pure trivial

theorem downloadLoop_keeps (content : Bytes) :
    Keeps (Since os s₀ asks at') (downloadLoop content) fun _ => True := by
  induction content using downloadLoop.induct with
  | case1 content h =>
    rw [downloadLoop, if_pos h]
    exact Keeps.pure trivial
  | case2 content h ih =>
    rw [downloadLoop, if_neg h]
    exact (writen_keeps _).bind fun _ _ => ih

theorem download_keeps {path : List Bytes} {file : Bytes} (hpath : s₀.completePath = path)
    (hfile : s₀.parameter = file)
    (h : asks (.openFile .input (cString (workingDir path ++ file)))) :
    Since os s₀ asks (· = path) (download os s₀).2 := by
  rw [download, gets_bind, gets_bind, hpath, hfile]
  refine (Keeps.bind (Q := fun _ => True) (R := fun _ => True) ?_ fun opened _ => ?_ :
    Keeps (Since os s₀ asks (· = path)) _ _) s₀ (Since.refl hpath) |>.1
  · exact openFile_keeps h
  · cases opened with
    | none => exact (sendToClient_keeps _).bind fun _ _ => Keeps.pure trivial
    | some f =>
      refine gets_keeps fun content => ?_
      refine modify_keeps ?_ (fun _ => rfl) (fun _ => rfl) fun _ => rfl
      refine (downloadLoop_keeps content).bind fun _ _ => ?_
      exact modify_keeps (Keeps.pure trivial) (fun _ => rfl) (fun _ => rfl) fun _ => rfl

/-- **What a command does**: the calls it asks for, and a move by one directory. -/
theorem execute_effects (os : Os) (command : Command) (s : Session)
    (hfile : ∀ file, command = .download file → s.parameter = file) :
    Since os s (command.Asks os s.completePath) (Moves s.completePath)
      (execute os command s).2 := by
  obtain ⟨path, hpath⟩ : ∃ path, s.completePath = path := ⟨_, rfl⟩
  rw [hpath]
  have hstart : Since os s (fun c => command.Asks os path c) (· = path) s := Since.refl hpath
  have hstay {s' : Session} (h : Since os s (fun c => command.Asks os path c) (· = path) s') :
      Since os s (fun c => command.Asks os path c) (Moves path) s' :=
    h.weaken (fun _ hc => hc) fun he => he ▸ .stay
  cases command with
  | ls dir =>
    refine hstay ((?_ : Keeps _ (execute os (.ls dir)) fun _ => True) s hstart).1
    refine (browse_keeps (.inl rfl) fun p hp => ?_).bind fun (directories, files) _ => ?_
    · exact hp ▸ .inr rfl
    · exact modify_keeps (answer_keeps _) (fun _ => rfl) (fun _ => rfl) fun _ => rfl
  | pwd => exact hstay (path_keeps.bind (fun _ _ => answer_keeps _) s hstart).1
  | getparentdir => exact hstay (path_keeps.bind (fun _ _ => answer_keeps _) s hstart).1
  | quit => exact hstay hstart
  | download file => exact hstay (download_keeps hpath (hfile file rfl) rfl)
  | upload file =>
    refine hstay ((?_ : Keeps _ (execute os (.upload file)) fun _ => True) s hstart).1
    refine path_keeps.bind fun p hp => (openFile_keeps (hp ▸ rfl)).bind fun opened _ => ?_
    exact modify_keeps (Keeps.pure trivial) (fun _ => rfl) (fun _ => rfl) fun _ => rfl
  | cd dir =>
    have hcd : Since os s (fun c => (Command.cd dir).Asks os path c) (Moves path)
        (changeDir os dir s).2 := changeDir_keeps (fun h => ⟨h, rfl⟩) hpath
    exact Keeps.after hcd fun _ => path_keeps.bind fun _ _ => answer_keeps _
  | mkdir dir =>
    refine hstay ((?_ : Keeps _ (execute os (.mkdir dir)) fun _ => True) s hstart).1
    refine (createDirectory_keeps fun p hp hne => ?_).bind fun (failed, dir) _ => ?_
    · subst hp
      exact ⟨hne, rfl⟩
    · exact modify_keeps (answer_keeps _) (fun _ => rfl) (fun _ => rfl) fun _ => rfl
  | rmdir dir =>
    refine hstay ((?_ : Keeps _ (execute os (.rmdir dir)) fun _ => True) s hstart).1
    refine path_keeps.bind fun p hp => Keeps.ite (fun _ => answer_keeps _) fun hroot => ?_
    subst hp
    have hroot : dirIsBelowServerRoot p dir = false := Bool.eq_false_iff.mpr hroot
    refine modify_keeps ?_ (fun _ => rfl) (fun _ => rfl) fun _ => rfl
    refine (deleteDirectory_keeps (getValidFile dir) ⟨hroot, .inl rfl⟩ (fun q p' hq hp' => ?_)
      (fun q p' hq hp' => ?_) (fun q p' f hq hp' hf => ?_) os.stack dir false [] .top).bind
      fun _ _ => ?_
    · exact ⟨hroot, .inr ⟨p', hp', hq ▸ .inl rfl⟩⟩
    · exact ⟨hroot, .inr ⟨p', hp', hq ▸ .inr (.inl rfl)⟩⟩
    · exact ⟨hroot, .inr ⟨p', hp', hq ▸ .inr (.inr ⟨f, hf, rfl⟩)⟩⟩
    · refine modify_keeps ?_ (fun _ => rfl) (fun _ => rfl) fun _ => rfl
      refine gets_keeps fun directories => ?_
      refine gets_keeps fun files => ?_
      exact answer_keeps _
  | touch file =>
    refine hstay ((?_ : Keeps _ (execute os (.touch file)) fun _ => True) s hstart).1
    refine (createFile_keeps fun p hp => hp ▸ rfl).bind fun (failed, file) _ => ?_
    exact modify_keeps (answer_keeps _) (fun _ => rfl) (fun _ => rfl) fun _ => rfl
  | unknown =>
    refine hstay ((?_ : Keeps _ (execute os .unknown) fun _ => True) s hstart).1
    exact (writen_keeps _).bind fun _ _ => Keeps.pure trivial

/-- The parameter of a command is the second part of what was read. -/
theorem parameter_of_download {l : List Bytes} {file : Bytes}
    (h : Command.of l = some (.download file)) (x : Bytes) : l.getD 1 x = file := by
  obtain _ | ⟨cmd, _ | ⟨parameter, l⟩⟩ := l
  · rw [Command.of] at h
    cases h
  · rw [Command.of, Option.some_inj] at h
    repeat' split at h
    all_goals cases h
  · rw [Command.of, Option.some_inj] at h
    repeat' split at h
    all_goals cases h
    rfl

/-- The command that a read brings: none outside the parser, or where the read fails. -/
def commandOf (rs : List ReadResult) (s : Session) : Option Command :=
  if s.processState = .parse ∧ ¬((readn rs).count < 0 ∨ (readn rs).isReadZeroBytes) then
    Command.of (extractParameters s.commandOffset (readn rs).buffer)
  else none

/-- **What a `handleRead` asks** of the system. -/
def Asks (os : Os) (rs : List ReadResult) (s : Session) (c : SysCall) : Prop :=
  ∃ command, commandOf rs s = some command ∧ command.Asks os s.completePath c

/-- What follows the function of the state. -/
theorem handleRead_after {rs : List ReadResult}
    (h : Since os s₀ asks at' (callBackFunc os rs s.processState s).2) :
    Since os s₀ asks at' (handleRead os rs s).2 := by
  rw [handleRead, gets_bind]
  refine Keeps.after (R := fun _ => True) h fun p => ?_
  refine modify_keeps (Keeps.ite (fun _ => ?_) fun _ => Keeps.pure trivial) (fun _ => rfl)
    (fun _ => rfl) fun _ => rfl
  refine Keeps.bind (Q := fun _ => True) ?_ fun _ _ => Keeps.pure trivial
  refine (sendToClient_keeps _).bind fun _ _ => ?_
  exact modify_keeps (Keeps.pure trivial) (fun _ => rfl) (fun _ => rfl) fun _ => rfl

theorem login_keeps (rs : List ReadResult) :
    Keeps (Since os s₀ asks at') (login rs) fun _ => True := by
  refine Keeps.ite (fun _ => Keeps.pure trivial) fun _ => ?_
  refine gets_keeps fun commandOffset => ?_
  refine Keeps.ite (fun _ => Keeps.die) fun _ => ?_
  refine gets_keeps fun table => ?_
  refine Keeps.ite (fun _ => ?_) fun _ => ?_
  · exact (writen_keeps _).bind fun _ _ => Keeps.pure trivial
  · exact (writen_keeps _).bind fun _ _ => Keeps.pure trivial

/-- **What a `handleRead` does** outside an upload: the calls of its command, and a move by one
directory. -/
theorem handleRead_effects (os : Os) (rs : List ReadResult) (hs : s.processState ≠ .upload) :
    Since os s (Asks os rs s) (Moves s.completePath) (handleRead os rs s).2 := by
  have hstart : Since os s (Asks os rs s) (Moves s.completePath) s := Since.refl .stay
  refine handleRead_after ?_
  cases hp : s.processState with
  | quit =>
    refine ((sendToClient_keeps _).bind (R := fun _ => True) fun _ _ => ?_ :
      Keeps _ quit _) s hstart |>.1
    exact modify_keeps (Keeps.pure trivial) (fun _ => rfl) (fun _ => rfl) fun _ => rfl
  | upload => exact absurd hp hs
  | login => exact (login_keeps rs s hstart).1
  | parse =>
    rw [callBackFunc]
    by_cases hfail : (readn rs).count < 0 ∨ (readn rs).isReadZeroBytes
    · rw [commandParser, if_pos hfail]
      exact hstart
    · cases hc : Command.of (extractParameters s.commandOffset (readn rs).buffer) with
      | none =>
        rw [commandParser, if_neg hfail, gets_bind, modify_bind, hc]
        exact hstart.of_eq rfl rfl rfl
      | some command =>
        rw [commandParser_of_some hfail hc]
        have hcommand : commandOf rs s = some command := by rw [commandOf, if_pos ⟨hp, hfail⟩, hc]
        have h := execute_effects os command { s with parameter :=
          (extractParameters s.commandOffset (readn rs).buffer).getD 1 s.parameter } fun file he =>
            parameter_of_download (hc.trans (congrArg some he)) s.parameter
        obtain ⟨cs, hcs, hall, hdisk⟩ := h.calls
        exact ⟨⟨cs, hcs, fun c hm => ⟨command, hcommand, hall c hm⟩, hdisk⟩, h.path⟩

/-- …and in an upload: no calls, and the file grows by what is read. -/
theorem handleRead_upload (os : Os) (rs : List ReadResult) (hs : s.processState = .upload) :
    (handleRead os rs s).2.calls = s.calls ∧
      (handleRead os rs s).2.completePath = s.completePath ∧
      ∀ f, ((handleRead os rs s).2.content f).length
        ≤ (s.content f).length + (readn rs).buffer.length := by
  have hcall : (callBackFunc os rs s.processState s).2.calls = s.calls ∧
      (callBackFunc os rs s.processState s).2.completePath = s.completePath ∧
      ∀ f, ((callBackFunc os rs s.processState s).2.content f).length
        ≤ (s.content f).length + (readn rs).buffer.length := by
    rw [hs, callBackFunc]
    by_cases hend : (readn rs).buffer = crlf
    · rw [upload_of_crlf hend]
      exact ⟨rfl, rfl, fun f => Nat.le_add_right ..⟩
    · by_cases hfail : (readn rs).count < 0 ∨ (readn rs).isReadZeroBytes
      · rw [upload_of_failed hend hfail]
        exact ⟨rfl, rfl, fun f => Nat.le_add_right ..⟩
      · cases hg : s.currentOpenFile with
        | none =>
          rw [upload_of_closed hend hfail hg]
          exact ⟨rfl, rfl, fun f => Nat.le_add_right ..⟩
        | some g =>
          rw [upload_of_open hend hfail hg]
          refine ⟨rfl, rfl, fun f => ?_⟩
          rw [Session.content]
          dsimp only
          by_cases hf : f = g
          · rw [hf, Function.update_self, Option.getD_some, List.length_append]
          · rw [Function.update_of_ne hf]
            exact Nat.le_add_right ..
  obtain ⟨hcalls, hpath, hcontent⟩ := hcall
  have hafter : Since os (callBackFunc os rs s.processState s).2 (fun _ => False)
      (· = s.completePath) (handleRead os rs s).2 := handleRead_after (Since.refl hpath)
  obtain ⟨⟨cs, hcs, hnone, hsame⟩, hpath'⟩ := hafter
  obtain rfl : cs = [] := List.eq_nil_iff_forall_not_mem.mpr hnone
  refine ⟨?_, hpath', fun f => ?_⟩
  · rw [hcs, hcalls, List.append_nil]
  · rw [Session.content, hsame]
    exact hcontent f

end Keeps

end WebServer.Ftp
