import WebServer.Ftp.ChangeDir
import WebServer.Ftp.Course
import WebServer.Ftp.Deletion
import WebServer.Lib.Crash

/-!
# Ftp/Crash — what kills the process

`browse` reads the directory that it opens even if it does not open: what it looks at before that is
always `./page/`.  A message without a command makes the parser read past the end of a vector, and
`deleteDirectory` calls itself as deep as there are directories.  There is no other way to kill the
process, and none for a client who has not logged in (`killed_of_run`).
-/

namespace WebServer.Ftp

open Utility (ReadResult WriteResult)
open Program

/-! ## Deaths -/

/-- **The directory that was asked for last did not open**, after `./page/` did. -/
def Unopened (os : Os) (s : Session) : Prop :=
  ∃ cs dir, s.calls = cs ++ [.opendir pagePath, .opendir dir] ∧
    (os.opendir cs.length pagePath).isSome ∧ os.opendir (cs.length + 1) dir = none

/-- So many calls have been made, or more. -/
def Called (n : ℕ) (s : Session) : Prop := n ≤ s.calls.length

section Deaths

variable {os : Os} {n : ℕ}

theorem length_called (s : Session) (c : SysCall) :
    (s.called c).calls.length = s.calls.length + 1 := List.length_append ..

theorem Called.called {s : Session} (h : Called n s) (c : SysCall) :
    Called (n + 1) (s.called c) := by
  rw [Called, length_called]
  exact Nat.add_le_add_right h 1

theorem Called.mono {s : Session} {m : ℕ} (h : Called m s) (hle : n ≤ m) : Called n s :=
  Nat.le_trans hle h

/-- `browse` where `./page/` does not open. -/
theorem browse_of_closed {s : Session} (h : os.opendir s.calls.length pagePath = none) (dir : Bytes)
    (strict : Bool) :
    browse os dir strict s = (some ([], []), s.called (.opendir pagePath)) := by
  change (if (os.opendir s.calls.length pagePath).isSome then _ else _ : Program _ _) _ = _
  rw [h]
  rfl

/-- …and where it does. -/
theorem browse_of_page {s : Session} (h : (os.opendir s.calls.length pagePath).isSome) (dir : Bytes)
    (strict : Bool) : browse os dir strict s =
      readDirectory os s.completePath (browsed s.completePath dir strict)
        (s.called (.opendir pagePath)) := by
  change (if (os.opendir s.calls.length pagePath).isSome then _ else _ : Program _ _) _ = _
  rw [if_pos h]
  rfl

/-- **A directory is read if it opens.** -/
theorem readDirectory_apply (os : Os) (path : List Bytes) (dir : Bytes) :
    ∃ names : List Dirent → List Bytes × List Bytes, ∀ s : Session, readDirectory os path dir s =
      ((os.opendir s.calls.length (cString dir)).map names,
        s.called (.opendir (cString dir))) := by
  refine ⟨fun entries =>
    let entries := entries.filter fun e => ¬(e.name = text ".." ∧ path.length ≤ 1)
    ((entries.filter (·.isDir)).map (·.name), fileNames entries), fun s => ?_⟩
  have hcall : sysCall (.opendir (cString dir)) os.opendir s =
    (some (os.opendir s.calls.length (cString dir)), s.called (.opendir (cString dir))) := rfl
  refine (bind_of_some hcall).trans ?_
  cases os.opendir s.calls.length (cString dir) <;> rfl

/-- **How `browse` ends**: it dies if the directory does not open, and has made two calls if it
finds something. -/
theorem browse_ends (os : Os) (n : ℕ) (dir : Bytes) (strict : Bool) :
    Ends (Called n) (browse os dir strict)
      (fun found s => Called n s ∧ (found.1 ≠ [] → Called (n + 2) s)) (Unopened os) := by
  intro s hs
  cases hpage : os.opendir s.calls.length pagePath with
  | none =>
    rw [browse_of_closed hpage]
    refine ⟨fun found s' h => ?_, by simp⟩
    obtain ⟨hfound, rfl⟩ := Prod.mk.inj h
    obtain rfl := Option.some.inj hfound
    exact ⟨(hs.called _).mono n.le_succ, fun h => absurd rfl h⟩
  | some entries =>
    have hopen : (os.opendir s.calls.length pagePath).isSome := by rw [hpage]; rfl
    obtain ⟨names, hread⟩ :=
      readDirectory_apply os s.completePath (browsed s.completePath dir strict)
    rw [browse_of_page hopen, hread, length_called]
    refine ⟨fun found s' h => ?_, fun s' h => ?_⟩
    · obtain ⟨-, rfl⟩ := Prod.mk.inj h
      have hcalled := (hs.called (.opendir pagePath)).called
        (.opendir (cString (browsed s.completePath dir strict)))
      exact ⟨hcalled.mono (Nat.le_add_right n 2), fun _ => hcalled⟩
    · obtain ⟨hnone, rfl⟩ := Prod.mk.inj h
      exact ⟨s.calls, _, List.append_assoc .., hopen, Option.map_eq_none_iff.mp hnone⟩

/-- A change that makes no call. -/
theorem modify_ends {α : Type} {P : Session → Prop} {C : Session → Prop} {Q : α → Session → Prop}
    {f : Session → Session} {x : Program Session α} (hf : ∀ s, P s → P (f s))
    (hx : Ends P x Q C) : Ends P (.modify f >>= fun _ => x) Q C :=
  (Ends.modify (Q := fun _ => P) hf).bind fun _ => hx

/-- **A call** does not kill. -/
theorem sysCall_ends {α : Type} {C : Session → Prop} (c : SysCall) (answer : ℕ → Bytes → α) :
    Ends (Called n) (sysCall c answer) (fun _ => Called n) C :=
  Ends.gets fun _ => modify_ends (fun _ hs => (hs.called c).mono n.le_succ)
    (Ends.pure fun _ hs => hs)

/-- …and neither does a removal. -/
theorem removeFile_ends {C : Session → Prop} (os : Os) (n : ℕ) (path : Bytes) :
    Ends (Called n) (removeFile os path) (fun _ => Called n) C :=
  (sysCall_ends _ _).bind fun _ => modify_ends (fun _ hs => hs) (Ends.pure fun _ hs => hs)

theorem deleteFile_ends {C : Session → Prop} (os : Os) (n : ℕ) (file : Bytes) (strict : Bool) :
    Ends (Called n) (deleteFile os file strict) (fun _ => Called n) C := by
  refine Ends.gets fun path => (removeFile_ends os n _).bind fun ok => ?_
  refine Ends.ite (fun _ => ?_) fun _ => ?_
  · exact modify_ends (fun _ hs => hs) (Ends.pure fun _ hs => hs)
  · exact Ends.pure fun _ hs => hs

theorem deleteFiles_ends {C : Session → Prop} (os : Os) (n : ℕ) (p : Bytes) (files : List Bytes)
    (cancel : Bool) : Ends (Called n) (deleteFiles os p files cancel) (fun _ => Called n) C :=
  Ends.foldlM (fun _ _ _ => (deleteFile_ends os n _ _).bind fun _ => Ends.pure fun _ hs => hs) _

theorem deleteSelf_ends {C : Session → Prop} (os : Os) (n : ℕ) (p : Bytes) (cancel : Bool) :
    Ends (Called n) (deleteSelf os p cancel) (fun _ => Called n) C := by
  refine Ends.ite (fun _ => ?_) fun _ => Ends.pure fun _ hs => hs
  refine Ends.gets fun path => (sysCall_ends _ _).bind fun ok => Ends.ite (fun _ => ?_) fun _ => ?_
  · exact modify_ends (fun _ hs => hs) (Ends.pure fun _ hs => hs)
  · exact Ends.pure fun _ hs => hs

/-- What follows `browse` dies as the subdirectories do. -/
theorem afterFiles_ends {C : Session → Prop} (os : Os) (depth n : ℕ) (p : Bytes)
    (files : List Bytes) {directories : List Bytes}
    (h : ∀ d ∈ directories, ∀ cancel,
      Ends (Called n) (deleteDirectory os depth (d ++ text "/") cancel p) (fun _ => Called n) C) :
    Ends (Called n) (deleteFiles os p files false >>= fun cancel =>
      deleteDirectories os depth p directories cancel >>= fun cancel => deleteSelf os p cancel)
      (fun _ => Called n) C := by
  refine (deleteFiles_ends os n p files false).bind fun cancel => ?_
  refine (Ends.foldlM (fun cancel d hd => Ends.ite (fun _ => ?_) fun _ => ?_) cancel).bind
    fun cancel => deleteSelf_ends os n p cancel
  · exact Ends.pure fun _ hs => hs
  · exact (h d hd cancel).bind fun failed => Ends.pure fun _ hs => hs

/-- **How a deletion ends**: it dies where a directory does not open, or after two calls for each
level of the stack. -/
theorem deleteDirectory_ends (os : Os) : ∀ (depth n : ℕ) (dirName : Bytes) (cancel : Bool)
    (pathToDir : Bytes), Ends (Called n) (deleteDirectory os depth dirName cancel pathToDir)
      (fun _ => Called n) fun s => Unopened os s ∨ Called (n + 2 * depth) s := by
  intro depth
  induction depth with
  | zero => exact fun n _ _ _ => Ends.die fun s hs => .inr hs
  | succ depth ih =>
    intro n dirName cancel pathToDir
    cases cancel with
    | true => exact Ends.pure fun _ hs => hs
    | false =>
      rw [deleteDirectory_succ]
      refine ((browse_ends os n _ _).weaken (fun _ hs => hs) (fun _ _ h => h) fun _ => .inl).bind
        fun (directories, files) => ?_
      cases directories with
      | nil =>
        refine (afterFiles_ends os depth n _ files fun d hd => ?_).weaken (fun _ h => h.1)
          (fun _ _ h => h) fun _ h => h
        exact absurd hd List.not_mem_nil
      | cons d ds =>
        -- a subdirectory is there only after two calls
        refine (afterFiles_ends os depth (n + 2) _ files fun d _ cancel => ih _ _ cancel _).weaken
          (fun _ h => h.2 (List.cons_ne_nil d ds)) (fun _ _ h => h.mono (Nat.le_add_right n 2))
          fun _ h => h.imp_right fun hdeep => hdeep.mono ?_
        rw [Nat.mul_succ, Nat.add_right_comm, Nat.add_assoc]

end Deaths

/-! ## Commands -/

section Commands

variable {os : Os} {s : Session}

theorem modify_survives (f : Session → Session) : Survives (Program.modify f) :=
  Ends.modify fun _ _ => trivial

theorem sysCall_survives {α : Type} (c : SysCall) (answer : ℕ → Bytes → α) :
    Survives (sysCall c answer) :=
  Ends.gets fun _ => (modify_survives _).bind fun _ => Ends.pure fun _ _ => trivial

theorem openFile_survives (mode : OpenMode) (path : Bytes) : Survives (openFile os mode path) :=
  (sysCall_survives _ _).bind fun _ => (modify_survives _).bind fun _ =>
    Ends.pure fun _ _ => trivial

theorem answer_survives (res : Bytes) : Survives (answer res) :=
  (modify_survives _).bind fun _ => Ends.pure fun _ _ => trivial

theorem changeDir_survives (dir : Bytes) : Survives (changeDir os dir) := by
  refine Ends.gets fun path => Ends.ite (fun _ => ?_) fun _ => ?_
  · refine Ends.ite (fun _ => Ends.pure fun _ _ => trivial) fun _ => ?_
    exact (modify_survives _).bind fun _ => Ends.pure fun _ _ => trivial
  · refine Ends.ite (fun _ => Ends.pure fun _ _ => trivial) fun _ => ?_
    have hopen : Survives (dirCanBeOpened os (workingDir path ++ getValidDir dir)) :=
      (sysCall_survives _ _).bind fun _ => Ends.pure fun _ _ => trivial
    refine hopen.bind fun can => Ends.ite (fun _ => ?_) fun _ => Ends.pure fun _ _ => trivial
    exact (modify_survives _).bind fun _ => Ends.pure fun _ _ => trivial

theorem downloadLoop_survives (content : Bytes) : Survives (downloadLoop content) := by
  induction content using downloadLoop.induct with
  | case1 content h =>
    rw [downloadLoop, if_pos h]
    exact Ends.pure fun _ _ => trivial
  | case2 content h ih =>
    rw [downloadLoop, if_neg h]
    exact (modify_survives _).bind fun _ => ih

theorem download_survives : Survives (download os) := by
  refine Ends.gets fun path => Ends.gets fun parameter => ?_
  refine (openFile_survives _ _).bind fun file => ?_
  cases file with
  | none => exact (modify_survives _).bind fun _ => Ends.pure fun _ _ => trivial
  | some f =>
    refine Ends.gets fun content => (modify_survives _).bind fun _ => ?_
    refine (downloadLoop_survives content).bind fun _ => (modify_survives _).bind fun _ => ?_
    exact Ends.pure fun _ _ => trivial

/-- **Most commands do not kill.** -/
theorem execute_survives {command : Command} (hls : ∀ dir, command ≠ .ls dir)
    (hrmdir : ∀ dir, command ≠ .rmdir dir) : Survives (execute os command) := by
  cases command with
  | ls dir => exact absurd rfl (hls dir)
  | pwd => exact Ends.gets fun _ => answer_survives _
  | getparentdir => exact Ends.gets fun _ => answer_survives _
  | quit => exact Ends.pure fun _ _ => trivial
  | download file => exact download_survives
  | upload file =>
    refine Ends.gets fun path => (openFile_survives _ _).bind fun opened => ?_
    exact (modify_survives _).bind fun _ => Ends.pure fun _ _ => trivial
  | cd dir => exact (changeDir_survives dir).bind fun _ => Ends.gets fun _ => answer_survives _
  | mkdir dir =>
    have hcreate : Survives (createDirectory os dir) :=
      Ends.gets fun path => Ends.ite (fun _ => Ends.pure fun _ _ => trivial) fun _ =>
        (sysCall_survives _ _).bind fun _ => Ends.pure fun _ _ => trivial
    exact hcreate.bind fun _ => (modify_survives _).bind fun _ => answer_survives _
  | rmdir dir => exact absurd rfl (hrmdir dir)
  | touch file =>
    have hcreate : Survives (createFile os file) :=
      Ends.gets fun path => (openFile_survives _ _).bind fun _ => Ends.pure fun _ _ => trivial
    exact hcreate.bind fun _ => (modify_survives _).bind fun _ => answer_survives _
  | unknown => exact (modify_survives _).bind fun _ => Ends.pure fun _ _ => trivial

/-- **A directory that does not open**, after `./page/` has. -/
def Missing (os : Os) (s : Session) (dir : Bytes) (strict : Bool) : Prop :=
  (os.opendir s.calls.length pagePath).isSome ∧
    os.opendir (s.calls.length + 1) (cString (browsed s.completePath dir strict)) = none

theorem browse_eq_none_iff (dir : Bytes) (strict : Bool) :
    (browse os dir strict s).1 = none ↔ Missing os s dir strict := by
  cases hpage : os.opendir s.calls.length pagePath with
  | none =>
    rw [browse_of_closed hpage, Missing, hpage]
    exact iff_of_false (Option.some_ne_none _) fun h => Bool.false_ne_true h.1
  | some entries =>
    have hopen : (os.opendir s.calls.length pagePath).isSome := by rw [hpage]; rfl
    obtain ⟨names, hread⟩ :=
      readDirectory_apply os s.completePath (browsed s.completePath dir strict)
    rw [browse_of_page hopen, hread, length_called, Missing, and_iff_right hopen]
    exact Option.map_eq_none_iff

/-- **When `ls` kills.** -/
theorem execute_ls_eq_none_iff (dir : Bytes) :
    (execute os (.ls dir) s).1 = none ↔ Missing os s dir true := by
  rw [← browse_eq_none_iff]
  exact bind_eq_none_iff (fun _ => (modify_survives _).bind fun _ => answer_survives _) s

/-- `rmdir` is a deletion and an answer, but in the root directory. -/
theorem execute_rmdir (os : Os) {dir : Bytes}
    (hroot : dirIsBelowServerRoot s.completePath dir = false) :
    ∃ (rest : Bool → Program Session ProcessState) (s₁ : Session),
      execute os (.rmdir dir) s = (deleteDirectory os os.stack dir false [] >>= rest) s₁ ∧
      (∀ cancel, Survives (rest cancel)) ∧ s₁.calls = s.calls ∧
      s₁.completePath = s.completePath := by
  rw [execute, gets_bind, if_neg (hroot ▸ Bool.false_ne_true), modify_bind]
  refine ⟨_, _, rfl, fun cancel => ?_, rfl, rfl⟩
  refine (modify_survives _).bind fun _ => Ends.gets fun directories => Ends.gets fun files => ?_
  exact answer_survives _

/-- **When `rmdir` kills**: where a directory does not open, or the stack ends. -/
theorem execute_rmdir_dies {dir : Bytes} (h : (execute os (.rmdir dir) s).1 = none) :
    dirIsBelowServerRoot s.completePath dir = false ∧
      (Unopened os (execute os (.rmdir dir) s).2 ∨
        Called (s.calls.length + 2 * os.stack) (execute os (.rmdir dir) s).2) := by
  have hroot : dirIsBelowServerRoot s.completePath dir = false := by
    refine Bool.eq_false_iff.mpr fun hbelow => ?_
    rw [execute, gets_bind, if_pos hbelow] at h
    exact (answer_survives _).survives trivial h
  obtain ⟨rest, s₁, hrun, hrest, hcalls, -⟩ := execute_rmdir os hroot
  rw [hrun] at h ⊢
  have hdead := (bind_eq_none_iff hrest s₁).mp h
  rw [bind_of_dead hdead]
  have hends := deleteDirectory_ends os os.stack s.calls.length dir false [] s₁
    (congrArg List.length hcalls).ge
  exact ⟨hroot, hends.2 _ (Prod.ext hdead rfl)⟩

/-- …and it does where its own directory does not open. -/
theorem execute_rmdir_of_missing {dir : Bytes}
    (hroot : dirIsBelowServerRoot s.completePath dir = false)
    (h : Missing os s (getValidFile dir) false) : (execute os (.rmdir dir) s).1 = none := by
  obtain ⟨rest, s₁, hrun, hrest, hcalls, hpath⟩ := execute_rmdir os hroot
  have hmissing : Missing os s₁ ([] ++ getValidFile dir) false := by
    rw [List.nil_append, Missing, hcalls, hpath]
    exact h
  rw [hrun, bind_eq_none_iff hrest]
  cases os.stack with
  | zero => rfl
  | succ depth => rw [deleteDirectory_succ, bind_of_dead ((browse_eq_none_iff _ _).mpr hmissing)]

end Commands

/-! ## A read -/

section Read

variable {os : Os} {rs : List ReadResult} {s : Session}

/-- **A message that kills the process**: an empty one, or a directory to list or to delete that
does not open. -/
inductive Fatal (os : Os) (rs : List ReadResult) (s : Session) : Prop
  | empty (h : (readn rs).buffer = [])
  | ls (dir : Bytes) (hc : commandOf rs s = some (.ls dir)) (h : Missing os s dir true)
  | rmdir (dir : Bytes) (hc : commandOf rs s = some (.rmdir dir))
      (hroot : dirIsBelowServerRoot s.completePath dir = false)
      (h : Missing os s (getValidFile dir) false)

/-- An empty message is the one without a command. -/
theorem of_eq_none_iff (commandOffset : ℕ) (m : Bytes) :
    Command.of (extractParameters commandOffset m) = none ↔ m = [] := by
  refine ⟨fun h => ?_, fun h => by rw [h]; rfl⟩
  rw [extractParameters] at h
  split at h
  · split at h <;> exact absurd h (Option.some_ne_none _)
  · split at h
    · exact absurd h (Option.some_ne_none _)
    · next hlen => exact List.eq_nil_of_length_eq_zero (Nat.eq_zero_of_not_pos hlen)

theorem quit_survives : Survives quit :=
  (modify_survives _).bind fun _ => (modify_survives _).bind fun _ => Ends.pure fun _ _ => trivial

theorem handleRead_eq_none_iff :
    (handleRead os rs s).1 = none ↔ (callBackFunc os rs s.processState s).1 = none := by
  rw [handleRead, gets_bind]
  refine bind_eq_none_iff (fun p => (modify_survives _).bind fun _ => Ends.ite (fun _ => ?_)
    fun _ => ?_) s
  · exact quit_survives.bind fun _ => Ends.pure fun _ _ => trivial
  · exact Ends.pure fun _ _ => trivial

theorem upload_survives (rs : List ReadResult) : Survives (upload rs) := by
  refine Ends.ite (fun _ => ?_) fun _ => Ends.ite (fun _ => ?_) fun _ => Ends.gets fun file => ?_
  · exact (modify_survives _).bind fun _ => Ends.pure fun _ _ => trivial
  · exact (modify_survives _).bind fun _ => Ends.pure fun _ _ => trivial
  · cases file with
    | none => exact Ends.pure fun _ _ => trivial
    | some f => exact (modify_survives _).bind fun _ => Ends.pure fun _ _ => trivial

/-- **A deletion that kills the process** has come to a directory that does not open, or to the end
of the stack. -/
def Sinks (os : Os) (rs : List ReadResult) (s t : Session) : Prop :=
  ∃ dir, commandOf rs s = some (.rmdir dir) ∧ dirIsBelowServerRoot s.completePath dir = false ∧
    (Unopened os t ∨ Called (s.calls.length + 2 * os.stack) t)

/-- **How the parser dies.** -/
theorem commandParser_dies (hs : s.processState = .parse) (h : (commandParser os rs s).1 = none) :
    ¬((readn rs).count < 0 ∨ (readn rs).isReadZeroBytes) ∧
      (Fatal os rs s ∨ Sinks os rs s (commandParser os rs s).2) := by
  have hok : ¬((readn rs).count < 0 ∨ (readn rs).isReadZeroBytes) := fun hfail => by
    rw [commandParser, if_pos hfail] at h
    exact Option.some_ne_none _ h
  refine ⟨hok, ?_⟩
  cases hc : Command.of (extractParameters s.commandOffset (readn rs).buffer) with
  | none => exact .inl (.empty ((of_eq_none_iff _ _).mp hc))
  | some command =>
    have hcommand : commandOf rs s = some command := by rw [commandOf, if_pos ⟨hs, hok⟩, hc]
    rw [commandParser_of_some hok hc] at h ⊢
    by_cases hls : ∃ dir, command = .ls dir
    · obtain ⟨dir, rfl⟩ := hls
      have hmissing := (execute_ls_eq_none_iff dir).mp h
      exact .inl (.ls dir hcommand hmissing)
    by_cases hrmdir : ∃ dir, command = .rmdir dir
    · obtain ⟨dir, rfl⟩ := hrmdir
      obtain ⟨hroot, hend⟩ := execute_rmdir_dies h
      exact .inr ⟨dir, hcommand, hroot, hend⟩
    · have hsurvives : Survives (execute os command) :=
        execute_survives (fun dir he => hls ⟨dir, he⟩) fun dir he => hrmdir ⟨dir, he⟩
      exact absurd h (hsurvives.survives trivial)

/-- **A fatal message kills.** -/
theorem Fatal.dies (hf : Fatal os rs s) (hs : s.processState = .parse)
    (hok : ¬((readn rs).count < 0 ∨ (readn rs).isReadZeroBytes)) :
    (commandParser os rs s).1 = none := by
  have hcommand {command : Command} (hc : commandOf rs s = some command) :
      Command.of (extractParameters s.commandOffset (readn rs).buffer) = some command := by
    rwa [commandOf, if_pos ⟨hs, hok⟩] at hc
  cases hf with
  | empty h =>
    rw [commandParser, if_neg hok, gets_bind, modify_bind, (of_eq_none_iff _ _).mpr h]
    rfl
  | ls dir hc h =>
    rw [commandParser_of_some hok (hcommand hc)]
    exact (execute_ls_eq_none_iff dir).mpr h
  | rmdir dir hc hroot h =>
    rw [commandParser_of_some hok (hcommand hc)]
    exact execute_rmdir_of_missing hroot h

end Read

/-! ## Runs -/

/-- A system with the directory `./page/` alone. -/
def Os.onePage : Os :=
  { Os.refusing with opendir := fun _ path => if path = pagePath then some [] else none }

section Run

variable {os : Os} {userInfo : UserInfo} {content root : Bytes} {commandOffset : ℕ}
  {disk : ℕ → Option Bytes} {writes : List WriteResult} {s t : Session} {rs : List ReadResult}
  {scripts : List (List ReadResult)}

theorem Reads.ne_login (h : Reads os s rs t) : t.processState ≠ .login := fun ht =>
  h.turned.turn.ne_login (by rw [Session.stage, ht])

/-- **After the first message** nobody is logging in any more. -/
theorem eq_nil_of_login
    (r : Run (Reads os) (.new userInfo root commandOffset disk writes) scripts s)
    (hs : s.processState = .login) : scripts = [] ∧
      s = .new userInfo root commandOffset disk writes := by
  cases r with
  | nil => exact ⟨rfl, rfl⟩
  | cons hfirst hlater =>
    have hne : s.processState ≠ .login := hlater.invariant (I := fun u => u.processState ≠ .login)
      (fun _ _ _ _ hread => hread.ne_login) (Reads.ne_login hfirst)
    exact absurd hs hne

/-- **Whoever is served has logged in.** -/
theorem letsIn_of_parse
    (r : Run (Reads os) (.new userInfo root commandOffset disk writes) scripts s)
    (hs : s.processState = .parse) :
    ∃ first ∈ scripts.head?, LetsIn userInfo commandOffset first := by
  cases r with
  | nil => cases hs
  | @cons _ u _ first _ hfirst hlater =>
    refine ⟨first, rfl, ?_⟩
    by_contra hno
    obtain ⟨hquit, hdeleted, -⟩ := Reads.refused hfirst hno
    have hover := (over_of_run hlater hquit hdeleted).1
    rw [hs] at hover
    cases hover

/-- **Who can kill the process, and how** — whatever a session has been sent, its next read kills
the process only if its first message named a user of the user file and their password, it awaits a
command, and the message that is read is fatal or deletes what cannot be read to the end.  A fatal
message does. -/
theorem killed_of_run (hlines : ∀ l ∈ lines content, l.length < lineSize) (h : commandOffset ≤ 1)
    (r : Run (Reads os) (.new (UserManager.new content) root commandOffset disk writes) scripts s)
    (rs : List ReadResult) :
    ((handleRead os rs s).1 = none →
      (∃ first ∈ scripts.head?, Admits content commandOffset first) ∧ s.processState = .parse ∧
        (Fatal os rs s ∨ Sinks os rs s (handleRead os rs s).2)) ∧
    (s.processState = .parse → ¬((readn rs).count < 0 ∨ (readn rs).isReadZeroBytes) →
      Fatal os rs s → (handleRead os rs s).1 = none) := by
  refine ⟨fun hdead => ?_, fun hs hok hf => ?_⟩
  · have hcall := handleRead_eq_none_iff.mp hdead
    have hstate : (handleRead os rs s).2 = (callBackFunc os rs s.processState s).2 := by
      rw [handleRead, gets_bind, bind_of_dead hcall]
    cases hs : s.processState with
    | quit =>
      rw [hs] at hcall
      exact absurd hcall (quit_survives.survives trivial)
    | upload =>
      rw [hs] at hcall
      exact absurd hcall ((upload_survives rs).survives trivial)
    | login =>
      rw [hs] at hcall
      obtain ⟨-, rfl⟩ := eq_nil_of_login r hs
      exact absurd hcall (login_survives h)
    | parse =>
      rw [hs] at hcall hstate
      obtain ⟨-, hkilled⟩ := commandParser_dies hs hcall
      rw [hstate]
      obtain ⟨first, hfirst, hin⟩ := letsIn_of_parse r hs
      exact ⟨⟨first, hfirst, (letsIn_iff_admits hlines _ _).mp hin⟩, rfl, hkilled⟩
  · rw [handleRead_eq_none_iff, hs]
    exact hf.dies hs hok

/-- `ls x`, where `./page/` has no `x`. -/
theorem killed_missing : ∃ s,
    Run (Reads .onePage) (.new (UserManager.new oneUserFile) (text "./page/") 1 (fun _ => none) [])
      [message (text "%admin%secret")] s ∧
    (handleRead .onePage (message (text "ls x")) s).1 = none ∧
    ∃ first ∈ [message (text "%admin%secret")].head?, Admits oneUserFile 1 first := by
  have hin : LetsIn (UserManager.new oneUserFile) 1 (message (text "%admin%secret")) :=
    (letsIn_iff_admits short_oneUserFile _ _).mpr ⟨by decide, by decide, named_admin.mpr rfl⟩
  obtain ⟨x, w, hlogin⟩ := login_admits (s := .new (UserManager.new oneUserFile) (text "./page/") 1
    (fun _ => none) []) hin
  have r : Run (Reads .onePage)
      (.new (UserManager.new oneUserFile) (text "./page/") 1 (fun _ => none) [])
      [message (text "%admin%secret")] _ := .single (handleRead_of_some hlogin (by decide))
  obtain ⟨hdies, hkills⟩ := killed_of_run short_oneUserFile le_rfl r (message (text "ls x"))
  have hdead := hkills rfl (by decide) (.ls (text "x") rfl ⟨rfl, rfl⟩)
  exact ⟨_, r, hdead, (hdies hdead).1⟩

end Run

end WebServer.Ftp
