import WebServer.Ftp.Confinement
import WebServer.Ftp.Posix

/-!
# Ftp/Deletion — what `rmdir` removes

`deleteDirectory` puts the names it finds behind the one it is called for, with no slash between: of
the file `b` in the directory `a` it removes `ab`.  So it never reaches what is in a directory, and
whatever it removes but the directory itself, empty, is beside that directory.  It removes nothing
exactly where the names it makes up lead nowhere (`Stuck`).
-/

namespace WebServer.Ftp

open Program

/-! ## The parts of `deleteDirectory` -/

/-- The files among the entries. -/
def fileNames (entries : List Dirent) : List Bytes := (entries.filter (!·.isDir)).map (·.name)

/-- The directories among the entries, without `.` and `..`. -/
def subdirectories (entries : List Dirent) : List Bytes :=
  ((entries.filter (·.isDir)).map (·.name)).filter fun d => ¬(d = text "." ∨ d = text "..")

/-- Reading the directory that `browse` opens. -/
def readDirectory (os : Os) (completePath : List Bytes) (dir : Bytes) :
    Program Session (List Bytes × List Bytes) := do
  match ← sysCall (.opendir (cString dir)) os.opendir with
  | none => .die
  | some entries =>
    let entries := entries.filter fun e => ¬(e.name = text ".." ∧ completePath.length ≤ 1)
    return ((entries.filter (·.isDir)).map (·.name), (entries.filter (!·.isDir)).map (·.name))

/-- The loop over the files. -/
def deleteFiles (os : Os) (pathToDir : Bytes) (files : List Bytes) (cancel : Bool) :
    Program Session Bool :=
  files.foldlM (fun cancel file => do
    let failed ← deleteFile os (pathToDir ++ file) false
    return failed || cancel) cancel

/-- The loop over the subdirectories. -/
def deleteDirectories (os : Os) (depth : ℕ) (pathToDir : Bytes) (directories : List Bytes)
    (cancel : Bool) : Program Session Bool :=
  directories.foldlM (fun cancel directory =>
    if directory = text "." ∨ directory = text ".." then return cancel
    else do
      let failed ← deleteDirectory os depth (directory ++ text "/") cancel pathToDir
      return failed || cancel) cancel

/-- The directory itself. -/
def deleteSelf (os : Os) (pathToDir : Bytes) (cancel : Bool) : Program Session Bool := do
  if pathToDir ≠ text "." ∧ pathToDir ≠ text ".." then
    let completePath ← .gets fun s => s.completePath
    let ok ← sysCall (.rmdir (cString (workingDir completePath ++ pathToDir))) os.rmdir
    if ok then
      .modify fun s => { s with deletedDirectories := s.deletedDirectories ++ [pathToDir] }
  return cancel

theorem deleteDirectory_succ (os : Os) (depth : ℕ) (dirName pathToDir : Bytes) :
    deleteDirectory os (depth + 1) dirName false pathToDir =
      browse os (pathToDir ++ getValidFile dirName) false >>= fun r =>
        deleteFiles os (pathToDir ++ getValidFile dirName) r.2 false >>= fun c =>
          deleteDirectories os depth (pathToDir ++ getValidFile dirName) r.1 c >>= fun c =>
            deleteSelf os (pathToDir ++ getValidFile dirName) c := rfl

theorem deleteFiles_cons (os : Os) (p file : Bytes) (files : List Bytes) (cancel : Bool) :
    deleteFiles os p (file :: files) cancel = deleteFile os (p ++ file) false >>= fun failed =>
      deleteFiles os p files (failed || cancel) := by
  rw [deleteFiles, List.foldlM_cons, bind_assoc]
  rfl

/-- `.` and `..` are passed over. -/
theorem deleteDirectories_filter (os : Os) (depth : ℕ) (p : Bytes) (directories : List Bytes)
    (cancel : Bool) : deleteDirectories os depth p directories cancel = deleteDirectories os depth p
      (directories.filter fun d => ¬(d = text "." ∨ d = text "..")) cancel := by
  induction directories generalizing cancel with
  | nil => rfl
  | cons d directories ih =>
    rw [deleteDirectories, List.foldlM_cons, List.filter_cons]
    by_cases hd : d = text "." ∨ d = text ".."
    · rw [if_pos hd, if_neg fun h => absurd hd (of_decide_eq_true h), ← ih]
      rfl
    · rw [if_pos (decide_eq_true hd), deleteDirectories, List.foldlM_cons]
      exact congrArg _ (funext ih)

theorem deleteDirectories_cons (os : Os) (depth : ℕ) (p : Bytes) {d : Bytes}
    (hd : ¬(d = text "." ∨ d = text "..")) (directories : List Bytes) (cancel : Bool) :
    deleteDirectories os depth p (d :: directories) cancel =
      deleteDirectory os depth (d ++ text "/") cancel p >>= fun failed =>
        deleteDirectories os depth p directories (failed || cancel) := by
  rw [deleteDirectories, List.foldlM_cons, if_neg hd, bind_assoc]
  rfl

/-- Once there has been an error, no subdirectory is entered. -/
theorem deleteDirectories_cancelled (os : Os) (depth : ℕ) (p : Bytes) (directories : List Bytes)
    (s : Session) : deleteDirectories os depth p directories true s = (none, s) ∨
      deleteDirectories os depth p directories true s = (some true, s) := by
  induction directories with
  | nil => exact .inr rfl
  | cons d directories ih =>
    by_cases hd : d = text "." ∨ d = text ".."
    · rw [deleteDirectories, List.foldlM_cons, if_pos hd]
      exact ih
    · rw [deleteDirectories_cons os depth p hd]
      cases depth with
      | zero => exact .inl rfl
      | succ depth => exact ih

section Growing

variable (os : Os)

theorem browse_growing (dir : Bytes) (strict : Bool) : Growing os (browse os dir strict) := fun _ =>
  (browse_keeps trivial fun _ _ => trivial).weaken fun _ _ => trivial

theorem readDirectory_growing (path : List Bytes) (dir : Bytes) :
    Growing os (readDirectory os path dir) := by
  refine fun _ => (sysCall_keeps trivial _ fun _ => rfl).bind fun entries _ => ?_
  cases entries with
  | none => exact Keeps.die
  | some entries => exact Keeps.pure trivial

theorem deleteFile_growing (file : Bytes) : Growing os (deleteFile os file false) := fun _ =>
  deleteFile_keeps fun _ _ => trivial

theorem deleteFiles_growing (p : Bytes) (files : List Bytes) (cancel : Bool) :
    Growing os (deleteFiles os p files cancel) := fun s =>
  Keeps.foldlM (fun _ file _ => (deleteFile_growing os (p ++ file) s).bind fun _ _ =>
    Keeps.pure trivial) cancel

theorem deleteDirectory_growing (depth : ℕ) (dirName : Bytes) (cancel : Bool) (p : Bytes) :
    Growing os (deleteDirectory os depth dirName cancel p) := fun _ =>
  deleteDirectory_keeps (p ++ getValidFile dirName) trivial (fun _ _ _ _ => trivial)
    (fun _ _ _ _ => trivial) (fun _ _ _ _ _ _ => trivial) depth dirName cancel p .top

theorem deleteDirectories_growing (depth : ℕ) (p : Bytes) (directories : List Bytes)
    (cancel : Bool) : Growing os (deleteDirectories os depth p directories cancel) := fun s =>
  Keeps.foldlM (fun c d _ => Keeps.ite (fun _ => Keeps.pure trivial) fun _ =>
    (deleteDirectory_growing os depth (d ++ text "/") c p s).bind fun _ _ =>
      Keeps.pure trivial) cancel

theorem deleteSelf_growing (p : Bytes) (cancel : Bool) : Growing os (deleteSelf os p cancel) := by
  intro s
  refine Keeps.ite (fun _ => gets_keeps fun path => ?_) fun _ => Keeps.pure trivial
  refine (sysCall_keeps trivial _ fun _ => rfl).bind fun ok _ =>
    Keeps.ite (fun _ => ?_) fun _ => Keeps.pure trivial
  exact modify_keeps (Keeps.pure trivial) (fun _ => rfl) (fun _ => rfl) fun _ => rfl

/-- What follows the files. -/
theorem afterFiles_growing (depth : ℕ) (p : Bytes) (directories : List Bytes) (cancel : Bool) :
    Growing os (deleteDirectories os depth p directories cancel >>= fun cancel =>
      deleteSelf os p cancel) := fun s =>
  (deleteDirectories_growing os depth p directories cancel s).bind fun cancel _ =>
    deleteSelf_growing os p cancel s

end Growing

/-! ## What each part does to a tree -/

section Parts

variable {os : Os} {base : Location} {s : Session} {t t' : FileTree} {cwd p : Bytes}

/-- A file is deleted if the tree has a leaf there. -/
theorem deleteFile_does {file : Bytes} {r : Option Bool × Session}
    (h : Does os base (deleteFile os file false) s t r t')
    (hnull : 0 ∉ workingDir s.completePath ++ file) :
    r.1 = some (t.leafAt base (workingDir s.completePath ++ file)).isNone ∧
      t' = (SysCall.remove (workingDir s.completePath ++ file)).after base t := by
  obtain ⟨rfl, hleads⟩ := h
  obtain ⟨path, hpath⟩ : ∃ q, q = workingDir s.completePath ++ file := ⟨_, rfl⟩
  have hrun : deleteFile os file false s =
      (if (os.remove s.calls.length (cString path)).isSome then
        .modify (fun s => { s with deletedFiles := s.deletedFiles ++ [file] }) >>=
          fun _ => pure false
      else pure true : Program Session Bool)
        { s with
          calls := s.calls ++ [.remove (cString path)]
          disk := s.removed (os.remove s.calls.length (cString path)) } := by rw [hpath]; rfl
  rw [← hpath] at hnull ⊢
  rw [cString_of_notMem hnull] at hrun
  rw [hrun] at hleads ⊢
  have hsome : ((os.remove s.calls.length path).isSome = (t.leafAt base path).isSome) ∧
      t' = (SysCall.remove path).after base t := by
    cases hfile : os.remove s.calls.length path with
    | none =>
      rw [hfile] at hleads
      exact ⟨hfile ▸ (hleads.called rfl).1, (hleads.called rfl).2⟩
    | some f =>
      rw [hfile] at hleads
      exact ⟨hfile ▸ (hleads.called rfl).1, (hleads.called rfl).2⟩
  refine ⟨?_, hsome.2⟩
  rw [← Option.not_isSome, ← hsome.1]
  cases os.remove s.calls.length path <;> rfl

/-- The directory itself is removed if it is an empty directory of the tree. -/
theorem deleteSelf_does {cancel : Bool} {r : Option Bool × Session}
    (h : Does os base (deleteSelf os p cancel) s t r t') (hp : Path.IsName p)
    (hnull : 0 ∉ workingDir s.completePath ++ p) :
    r.1 = some cancel ∧ t' = (SysCall.rmdir (workingDir s.completePath ++ p)).after base t := by
  obtain ⟨rfl, hleads⟩ := h
  obtain ⟨path, hpath⟩ : ∃ q, q = workingDir s.completePath ++ p := ⟨_, rfl⟩
  have hrun : deleteSelf os p cancel s =
      (if os.rmdir s.calls.length (cString path) then
        .modify (fun s => { s with deletedDirectories := s.deletedDirectories ++ [p] }) >>=
          fun _ => pure cancel
      else pure cancel : Program Session Bool)
        { s with calls := s.calls ++ [.rmdir (cString path)] } := by
    rw [deleteSelf, if_pos ⟨hp.dot, hp.dots⟩, hpath]
    rfl
  rw [← hpath] at hnull ⊢
  rw [cString_of_notMem hnull] at hrun
  rw [hrun] at hleads ⊢
  generalize os.rmdir s.calls.length path = ok at hleads ⊢
  cases ok with
  | true => exact ⟨rfl, (hleads.called rfl).2⟩
  | false => exact ⟨rfl, (hleads.called rfl).2⟩

/-- The directory that `dirCanBeOpened` opens is there. -/
theorem dirCanBeOpened_does {dir : Bytes} {r : Option Bool × Session}
    (h : Does os base (dirCanBeOpened os dir) s t r t') (hpage : (t.dirAt base pagePath).isSome) :
    r.1 = some true ∧ t' = t ∧ r.2.calls = s.calls ++ [.opendir pagePath] := by
  obtain ⟨rfl, hleads⟩ := h
  obtain ⟨hanswer, htree⟩ := hleads.called rfl
  obtain ⟨l, hl⟩ := Option.isSome_iff_exists.mp hpage
  rw [Os.Answers, hl] at hanswer
  cases hopen : os.opendir s.calls.length pagePath with
  | none =>
    rw [hopen] at hanswer
    exact hanswer.elim
  | some entries =>
    refine ⟨?_, htree, rfl⟩
    change some (os.opendir s.calls.length pagePath).isSome = _
    rw [hopen]
    rfl

/-! ### Reading a directory -/

section Reading

variable {l : Location} {entries : List Dirent} {x : Bytes}

theorem ReadsDir.file (h : ReadsDir t l entries) (hx : x ∈ fileNames entries) :
    l ++ [x] ∈ t.nodes := by
  obtain ⟨e, he, rfl⟩ := List.mem_map.mp hx
  obtain ⟨he, hfile⟩ := List.mem_filter.mp he
  have hfile : e.isDir = false := by simpa using hfile
  obtain ⟨-, hdir⟩ | hmem := h.entry e he
  · exact absurd (hfile.symm.trans hdir) Bool.false_ne_true
  · rw [hfile] at hmem
    exact Finset.mem_union_left _ hmem

theorem ReadsDir.directory (h : ReadsDir t l entries) (hx : x ∈ subdirectories entries) :
    l ++ [x] ∈ t.nodes := by
  obtain ⟨hx, hdots⟩ := List.mem_filter.mp hx
  obtain ⟨e, he, rfl⟩ := List.mem_map.mp hx
  obtain ⟨he, hdir⟩ := List.mem_filter.mp he
  obtain ⟨hdot, -⟩ | hmem := h.entry e he
  · exact absurd hdot (of_decide_eq_true hdots)
  · rw [if_pos hdir] at hmem
    exact Finset.mem_union_right _ hmem

/-- What is in a directory is listed. -/
theorem ReadsDir.listed (h : ReadsDir t l entries) (hx : l ++ [x] ∈ t.nodes) :
    x ∈ fileNames entries ∨ x ∈ subdirectories entries := by
  obtain ⟨e, he, rfl⟩ := h.all _ hx x (by rw [List.getLast?_concat]; exact rfl)
    (List.dropLast_concat ..)
  have hname := FileTree.isName_of_mem hx
  cases hdir : e.isDir with
  | false => exact .inl (List.mem_map_of_mem (List.mem_filter.mpr ⟨he, by rw [hdir]; rfl⟩))
  | true =>
    refine .inr (List.mem_filter.mpr ⟨List.mem_map_of_mem (List.mem_filter.mpr ⟨he, hdir⟩), ?_⟩)
    exact decide_eq_true (not_or.mpr ⟨hname.dot, hname.dots⟩)

/-- The entry that `browse` leaves out at the root is not a file. -/
theorem fileNames_of_browse (h : ReadsDir t l entries) (c : Prop) [Decidable c] :
    fileNames (entries.filter fun e => ¬(e.name = text ".." ∧ c)) = fileNames entries := by
  rw [fileNames, fileNames, List.filter_filter]
  congr 1
  refine List.filter_congr fun e he => ?_
  cases hdir : e.isDir with
  | true => rfl
  | false =>
    have hname : e.name ≠ text ".." := by
      obtain ⟨-, hisDir⟩ | hmem := h.entry e he
      · exact absurd (hdir.symm.trans hisDir) Bool.false_ne_true
      · rw [hdir] at hmem
        exact (FileTree.isName_of_mem (Finset.mem_union_left _ hmem)).dots
    exact decide_eq_true fun hup => hname hup.1

theorem subdirectories_of_browse (entries : List Dirent) (c : Prop) [Decidable c] :
    subdirectories (entries.filter fun e => ¬(e.name = text ".." ∧ c))
      = subdirectories entries := by
  simp only [subdirectories, List.filter_map, List.filter_filter]
  congr 1
  refine List.filter_congr fun e _ => ?_
  by_cases hup : e.name = text ".."
  · simp [hup]
  · simp [hup]

end Reading

/-- **Reading a directory** finds what the tree has there. -/
theorem readDirectory_does {path : List Bytes} {dir : Bytes}
    {r : Option (List Bytes × List Bytes) × Session}
    (h : Does os base (readDirectory os path dir) s t r t') (hnull : 0 ∉ dir) :
    t' = t ∧ (t.dirAt base dir = none ∧ r.1 = none ∨
      ∃ l entries directories, t.dirAt base dir = some l ∧
        os.opendir s.calls.length dir = some entries ∧ ReadsDir t l entries ∧
        r.1 = some (directories, fileNames entries) ∧
        (directories.filter fun d => ¬(d = text "." ∨ d = text "..")) = subdirectories entries ∧
        r.2.calls.length = s.calls.length + 1) := by
  obtain ⟨rfl, hleads⟩ := h
  have hrun : readDirectory os path dir s = (match os.opendir s.calls.length (cString dir) with
      | none => .die
      | some entries =>
        let entries := entries.filter fun e => ¬(e.name = text ".." ∧ path.length ≤ 1)
        pure ((entries.filter (·.isDir)).map (·.name), fileNames entries) :
      Program Session (List Bytes × List Bytes))
        { s with calls := s.calls ++ [.opendir (cString dir)] } := rfl
  rw [cString_of_notMem hnull] at hrun
  rw [hrun] at hleads ⊢
  generalize hentries : os.opendir s.calls.length dir = entries at hleads ⊢
  cases entries with
  | none =>
    obtain ⟨hanswer, htree⟩ := hleads.called rfl
    refine ⟨htree, .inl ⟨?_, rfl⟩⟩
    rw [Os.Answers, hentries] at hanswer
    split at hanswer <;> trivial
  | some entries =>
    obtain ⟨hanswer, htree⟩ := hleads.called rfl
    rw [Os.Answers, hentries] at hanswer
    split at hanswer
    · next l es hl he =>
      obtain rfl := Option.some.inj he
      refine ⟨htree, .inr ⟨l, entries, _, hl, rfl, hanswer, ?_,
        subdirectories_of_browse entries (path.length ≤ 1), ?_⟩⟩
      · rw [← fileNames_of_browse hanswer (path.length ≤ 1)]
        rfl
      · exact List.length_append
    · contradiction
    · contradiction

/-- **What `browse` finds** of a name in the session's directory. -/
theorem browse_does {r : Option (List Bytes × List Bytes) × Session}
    (h : Does os base (browse os p false) s t r t') (hp : Path.IsName p)
    (hpage : (t.dirAt base pagePath).isSome) (hnull : 0 ∉ workingDir s.completePath ++ p) :
    t' = t ∧ (t.dirAt base (workingDir s.completePath ++ p) = none ∧ r.1 = none ∨
      ∃ l entries directories, t.dirAt base (workingDir s.completePath ++ p) = some l ∧
        os.opendir (s.calls.length + 1) (workingDir s.completePath ++ p) = some entries ∧
        ReadsDir t l entries ∧ r.1 = some (directories, fileNames entries) ∧
        (directories.filter fun d => ¬(d = text "." ∨ d = text "..")) = subdirectories entries ∧
        r.2.calls.length = s.calls.length + 2) := by
  have hbrowsed : browsed s.completePath p false = workingDir s.completePath ++ p := by
    have hne : p ≠ text "./" := fun h => hp.slash (by rw [h]; decide)
    rw [browsed]
    simp only [Bool.false_eq_true, false_and, if_false]
    rw [if_neg hne]
  have hrun : Does os base (dirCanBeOpened os (workingDir s.completePath ++ p) >>= fun can =>
      if can then readDirectory os s.completePath (workingDir s.completePath ++ p)
      else pure ([], [])) s t r t' := by
    rw [← hbrowsed]
    exact h
  obtain ⟨s₁, hopen, -⟩ | ⟨can, s₁, t₁, hopen, hread⟩ := hrun.of_bind
    (fun _ => dirCanBeOpened_keeps trivial _) fun _ s => Keeps.ite
      (fun _ => readDirectory_growing os _ _ s) fun _ => Keeps.pure trivial
  · exact absurd (dirCanBeOpened_does hopen hpage).1 (Option.some_ne_none _).symm
  · obtain ⟨hcan, rfl, hcalls⟩ := dirCanBeOpened_does hopen hpage
    obtain rfl := Option.some.inj hcan
    have hlength : s₁.calls.length = s.calls.length + 1 := by
      rw [hcalls, List.length_append, List.length_singleton]
    have hfound := readDirectory_does hread hnull
    rwa [hlength] at hfound

end Parts

/-! ## What is removed -/

/-- **Where a name leads** that is put behind the path of the session's directory. -/
def placeOf (base : Location) (cwd name : Bytes) : Location :=
  Path.directory base cwd ++ [Path.final cwd ++ name]

/-- **A deletion that removes nothing**, at a depth and after so many calls: the stack ends, the
name leads to no directory, there are files but none of the names made up for them leads to a leaf,
or there are no files and the first subdirectory comes to the same. -/
inductive Stuck (os : Os) (base : Location) (t : FileTree) (cwd : Bytes) : ℕ → ℕ → Bytes → Prop
  | deep {n : ℕ} {p : Bytes} : Stuck os base t cwd 0 n p
  | missing {depth n : ℕ} {p : Bytes} (h : t.dirAt base (cwd ++ p) = none) :
      Stuck os base t cwd (depth + 1) n p
  | blocked {depth n : ℕ} {p : Bytes} {entries : List Dirent}
      (h : os.opendir (n + 1) (cwd ++ p) = some entries) (hfiles : fileNames entries ≠ [])
      (hnone : ∀ file ∈ fileNames entries, t.leafAt base (cwd ++ (p ++ file)) = none) :
      Stuck os base t cwd (depth + 1) n p
  | first {depth n : ℕ} {p d : Bytes} {ds : List Bytes} {entries : List Dirent}
      (h : os.opendir (n + 1) (cwd ++ p) = some entries) (hfiles : fileNames entries = [])
      (hdirs : subdirectories entries = d :: ds) (hd : Stuck os base t cwd depth (n + 2) (p ++ d)) :
      Stuck os base t cwd (depth + 1) n p

section Removed

variable {os : Os} {base : Location} {s : Session} {t t' : FileTree} {cwd p : Bytes} {l : Location}

theorem isName_final (hcwd : 0 ∉ cwd) (hp : Path.IsName p) : Path.IsName (Path.final cwd ++ p) :=
  hp.append (fun h => (Path.mem_of_mem_final h).2 rfl) fun h => hcwd (Path.mem_of_mem_final h).1

theorem eq_placeOf (hcwd : 0 ∉ cwd) (hp : Path.IsName p)
    (h : t.find base (cwd ++ p) = some l) : l = placeOf base cwd p :=
  FileTree.eq_of_find hp.slash (isName_final hcwd hp) h

theorem Does.stays {α : Type} {x : Program Session α} {r : Option α × Session}
    (h : Does os base x s t r t') (hx : Growing os x) (hs : workingDir s.completePath = cwd) :
    workingDir r.2.completePath = cwd := by
  obtain ⟨rfl, -⟩ := h
  rw [hx.path, hs]

theorem null_not_mem (hs : workingDir s.completePath = cwd) (hcwd : 0 ∉ cwd) (hp : Path.IsName p) :
    0 ∉ workingDir s.completePath ++ p := fun h =>
  (List.mem_append.mp h).elim (hs ▸ hcwd) hp.null

/-- One file of the loop. -/
theorem deleteFiles_does_cons {file : Bytes} {files : List Bytes} {cancel : Bool}
    {r : Option Bool × Session}
    (h : Does os base (deleteFiles os p (file :: files) cancel) s t r t')
    (hs : workingDir s.completePath = cwd) (hcwd : 0 ∉ cwd) (hfile : Path.IsName (p ++ file)) :
    ∃ s₁, workingDir s₁.completePath = cwd ∧
      Does os base (deleteFiles os p files ((t.leafAt base (cwd ++ (p ++ file))).isNone || cancel))
        s₁ ((SysCall.remove (cwd ++ (p ++ file))).after base t) r t' := by
  rw [deleteFiles_cons] at h
  obtain ⟨s₁, hdel, -⟩ | ⟨failed, s₁, t₁, hdel, hrest⟩ := h.of_bind (deleteFile_growing os _)
    fun _ => deleteFiles_growing os p files _
  · cases (deleteFile_does hdel (null_not_mem hs hcwd hfile)).1
  · obtain ⟨hfailed, rfl⟩ := deleteFile_does hdel (null_not_mem hs hcwd hfile)
    obtain rfl := Option.some.inj hfailed
    rw [hs] at hrest
    exact ⟨s₁, hdel.stays (deleteFile_growing os _) hs, hrest⟩

/-- **The loop over the files** where none of the names leads to a leaf. -/
theorem deleteFiles_does_of_none {files : List Bytes} {cancel : Bool} {r : Option Bool × Session}
    (h : Does os base (deleteFiles os p files cancel) s t r t')
    (hs : workingDir s.completePath = cwd) (hcwd : 0 ∉ cwd)
    (hfiles : ∀ file ∈ files, Path.IsName (p ++ file))
    (hnone : ∀ file ∈ files, t.leafAt base (cwd ++ (p ++ file)) = none) :
    t' = t ∧ r.1 = some (cancel || files ≠ []) := by
  induction files generalizing s cancel with
  | nil =>
    obtain ⟨rfl, hleads⟩ := h
    exact ⟨hleads.eq rfl, congrArg some (Bool.or_false _).symm⟩
  | cons file files ih =>
    obtain ⟨hfile, hfiles⟩ := List.forall_mem_cons.mp hfiles
    obtain ⟨hleaf, hnone⟩ := List.forall_mem_cons.mp hnone
    obtain ⟨s₁, hs₁, hrest⟩ := deleteFiles_does_cons h hs hcwd hfile
    rw [after_of_none (c := .remove _) hleaf] at hrest
    obtain ⟨htree, hr⟩ := ih hrest hs₁ hfiles hnone
    refine ⟨htree, hr.trans (congrArg some ?_)⟩
    rw [hleaf, decide_eq_true (List.cons_ne_nil file files), Bool.or_true]
    rfl

/-- **The loop over the files** where one of the names leads to a leaf. -/
theorem deleteFiles_does_of_some {files : List Bytes} {cancel : Bool} {r : Option Bool × Session}
    (h : Does os base (deleteFiles os p files cancel) s t r t')
    (hs : workingDir s.completePath = cwd) (hcwd : 0 ∉ cwd)
    (hfiles : ∀ file ∈ files, Path.IsName (p ++ file))
    (hsome : ∃ file ∈ files, t.leafAt base (cwd ++ (p ++ file)) ≠ none) :
    ∃ file ∈ files, placeOf base cwd (p ++ file) ∈ t.nodes ∧
      placeOf base cwd (p ++ file) ∉ t'.nodes := by
  induction files generalizing s cancel with
  | nil =>
    obtain ⟨file, hfile, -⟩ := hsome
    exact absurd hfile List.not_mem_nil
  | cons file files ih =>
    obtain ⟨hfile, hfiles⟩ := List.forall_mem_cons.mp hfiles
    obtain ⟨s₁, hs₁, hrest⟩ := deleteFiles_does_cons h hs hcwd hfile
    cases hleaf : t.leafAt base (cwd ++ (p ++ file)) with
    | none =>
      have hsome : ∃ f ∈ files, t.leafAt base (cwd ++ (p ++ f)) ≠ none := by
        obtain ⟨f, hf, hne⟩ := hsome
        obtain rfl | hf := List.mem_cons.mp hf
        · exact absurd hleaf hne
        · exact ⟨f, hf, hne⟩
      rw [after_of_none (c := .remove _) hleaf] at hrest
      obtain ⟨f, hf, hgone⟩ := ih hrest hs₁ hfiles hsome
      exact ⟨f, List.mem_cons_of_mem _ hf, hgone⟩
    | some l =>
      obtain ⟨hfind, -, hl⟩ := FileTree.leafAt_eq_some.mp hleaf
      obtain rfl := eq_placeOf hcwd hfile hfind
      rw [after_of_removes (c := .remove _) hleaf] at hrest
      exact ⟨file, List.mem_cons_self .., hl.mem, fun hm => hl.not_mem_erase (hrest.2.subset hm)⟩

/-- A directory in which something stands is not empty. -/
theorem emptyDirAt_eq_none {x : Bytes} (hcwd : 0 ∉ cwd) (hp : Path.IsName p)
    (hx : placeOf base cwd p ++ [x] ∈ t.nodes) : t.emptyDirAt base (cwd ++ p) = none := by
  refine Option.eq_none_iff_forall_ne_some.mpr fun l hl => ?_
  obtain ⟨hfind, -, hleaf⟩ := FileTree.leafAt_eq_some.mp (FileTree.emptyDirAt_eq_some.mp hl).1
  obtain rfl := eq_placeOf hcwd hp hfind
  exact hleaf.not_mem x hx

/-- **One level**: the directory does not open, or it is read and then emptied. -/
theorem deleteDirectory_does {depth : ℕ} {dirName pathToDir : Bytes} {r : Option Bool × Session}
    (h : Does os base (deleteDirectory os (depth + 1) dirName false pathToDir) s t r t')
    (hp : Path.IsName p) (hpath : pathToDir ++ getValidFile dirName = p)
    (hs : workingDir s.completePath = cwd) (hcwd : 0 ∉ cwd)
    (hpage : (t.dirAt base pagePath).isSome) :
    t.dirAt base (cwd ++ p) = none ∧ t' = t ∧ r.1 = none ∨
      ∃ entries s₁, t.dirAt base (cwd ++ p) = some (placeOf base cwd p) ∧
        os.opendir (s.calls.length + 1) (cwd ++ p) = some entries ∧
        ReadsDir t (placeOf base cwd p) entries ∧ s₁.calls.length = s.calls.length + 2 ∧
        workingDir s₁.completePath = cwd ∧
        Does os base (deleteFiles os p (fileNames entries) false >>= fun cancel =>
          deleteDirectories os depth p (subdirectories entries) cancel >>= fun cancel =>
            deleteSelf os p cancel) s₁ t r t' := by
  have hnull := null_not_mem hs hcwd hp
  have hrest (dirs files : List Bytes) : Growing os (deleteFiles os p files false >>= fun cancel =>
      deleteDirectories os depth p dirs cancel >>= fun cancel => deleteSelf os p cancel) :=
    fun s => (deleteFiles_growing os p files false s).bind fun cancel _ =>
      afterFiles_growing os depth p dirs cancel s
  rw [deleteDirectory_succ, hpath] at h
  obtain ⟨s₁, hbrowse, hr⟩ | ⟨⟨dirs, files⟩, s₁, t₁, hbrowse, hdelete⟩ :=
    h.of_bind (browse_growing os p false) fun r => hrest r.1 r.2
  · obtain ⟨rfl, ⟨hnone, -⟩ | ⟨l, entries, dirs, -, -, -, hsome, -⟩⟩ :=
      browse_does hbrowse hp hpage hnull
    · exact .inl ⟨hs ▸ hnone, rfl, hr⟩
    · cases hsome
  · obtain ⟨rfl, ⟨-, hnone⟩ | ⟨l, entries, dirs', hdir, hopen, hreads, hsome, hdirs, hlength⟩⟩ :=
      browse_does hbrowse hp hpage hnull
    · cases hnone
    · obtain ⟨rfl, rfl⟩ := Prod.mk.inj (Option.some.inj hsome)
      rw [hs] at hdir hopen
      obtain rfl := eq_placeOf hcwd hp (FileTree.dirAt_eq_some.mp hdir).1
      refine .inr ⟨entries, s₁, hdir, hopen, hreads, hlength,
        hbrowse.stays (browse_growing os p false) hs, ?_⟩
      simp only [deleteDirectories_filter os depth p dirs, hdirs] at hdelete
      exact hdelete

/-- The end of a deletion in which there has been an error, of a directory that is not empty. -/
theorem cancelled_does {depth : ℕ} {directories : List Bytes} {r : Option Bool × Session}
    (h : Does os base (deleteDirectories os depth p directories true >>= fun cancel =>
      deleteSelf os p cancel) s t r t')
    (hp : Path.IsName p) (hs : workingDir s.completePath = cwd) (hcwd : 0 ∉ cwd)
    (hempty : t.emptyDirAt base (cwd ++ p) = none) : t' = t ∧ r.1 ≠ some false := by
  have hnull := null_not_mem hs hcwd hp
  have hloop := deleteDirectories_cancelled os depth p directories s
  obtain ⟨s₁, hdirs, hr⟩ | ⟨cancel, s₁, t₁, hdirs, hself⟩ :=
    h.of_bind (deleteDirectories_growing os depth p directories true)
      fun cancel => deleteSelf_growing os p cancel
  · obtain heq | heq := hloop
    · obtain ⟨-, rfl⟩ := Prod.mk.inj (heq.symm.trans hdirs.1)
      exact ⟨hdirs.2.eq rfl, ne_of_eq_of_ne hr (Option.some_ne_none _).symm⟩
    · cases heq.symm.trans hdirs.1
  · obtain heq | heq := hloop
    · cases heq.symm.trans hdirs.1
    · obtain ⟨hcancel, rfl⟩ := Prod.mk.inj (heq.symm.trans hdirs.1)
      obtain rfl := Option.some.inj hcancel
      obtain rfl := hdirs.2.eq rfl
      obtain ⟨hr, htree⟩ := deleteSelf_does hself hp hnull
      rw [hs] at htree
      exact ⟨htree.trans (after_of_none hempty), by rw [hr]; decide⟩

/-- **Files of which none can be deleted**: nothing goes, and there is an error. -/
theorem blocked_does {depth : ℕ} {files directories : List Bytes} {r : Option Bool × Session}
    (h : Does os base (deleteFiles os p files false >>= fun cancel =>
      deleteDirectories os depth p directories cancel >>= fun cancel =>
        deleteSelf os p cancel) s t r t')
    (hp : Path.IsName p) (hs : workingDir s.completePath = cwd) (hcwd : 0 ∉ cwd)
    (hne : files ≠ []) (hfiles : ∀ file ∈ files, placeOf base cwd p ++ [file] ∈ t.nodes)
    (hnone : ∀ file ∈ files, t.leafAt base (cwd ++ (p ++ file)) = none) :
    t' = t ∧ r.1 ≠ some false := by
  have hnames (file : Bytes) (hf : file ∈ files) : Path.IsName (p ++ file) :=
    (FileTree.isName_of_mem (hfiles file hf)).append hp.slash hp.null
  obtain ⟨s₁, hloop, -⟩ | ⟨cancel, s₁, t₁, hloop, hrest⟩ := h.of_bind
    (deleteFiles_growing os p files false) (afterFiles_growing os depth p directories)
  · cases (deleteFiles_does_of_none hloop hs hcwd hnames hnone).2
  · obtain ⟨rfl, hcancel⟩ := deleteFiles_does_of_none hloop hs hcwd hnames hnone
    obtain rfl := Option.some.inj hcancel
    rw [Bool.false_or, decide_eq_true hne] at hrest
    obtain ⟨file, hfile⟩ := List.exists_mem_of_ne_nil _ hne
    exact cancelled_does hrest hp (hloop.stays (deleteFiles_growing os p files false) hs) hcwd
      (emptyDirAt_eq_none hcwd hp (hfiles file hfile))

/-- Without files the first subdirectory comes next. -/
theorem first_does {depth : ℕ} {d : Bytes} {ds : List Bytes} {r : Option Bool × Session}
    (h : Does os base (deleteFiles os p [] false >>= fun cancel =>
      deleteDirectories os depth p (d :: ds) cancel >>= fun cancel =>
        deleteSelf os p cancel) s t r t') (hd : Path.IsName d) :
    Does os base (deleteDirectory os depth (d ++ text "/") false p >>= fun failed =>
      deleteDirectories os depth p ds (failed || false) >>= fun cancel =>
        deleteSelf os p cancel) s t r t' := by
  have hdirs : Does os base (deleteDirectories os depth p (d :: ds) false >>= fun cancel =>
    deleteSelf os p cancel) s t r t' := h
  rwa [deleteDirectories_cons os depth p (not_or.mpr ⟨hd.dot, hd.dots⟩), bind_assoc] at hdirs

/-- A directory that lists nothing is empty. -/
theorem emptyDirAt_of_reads {entries : List Dirent} (hcwd : 0 ∉ cwd) (hp : Path.IsName p)
    (hdir : t.dirAt base (cwd ++ p) = some (placeOf base cwd p))
    (hreads : ReadsDir t (placeOf base cwd p) entries) (hfiles : fileNames entries = [])
    (hdirs : subdirectories entries = []) :
    t.emptyDirAt base (cwd ++ p) = some (placeOf base cwd p) := by
  obtain ⟨hfind, hmem⟩ := FileTree.dirAt_eq_some.mp hdir
  have hne : placeOf base cwd p ≠ [] :=
    List.append_ne_nil_of_right_ne_nil _ (List.cons_ne_nil _ _)
  have hleaf : t.Leaf (placeOf base cwd p) := FileTree.leaf_of_forall hmem hne fun x hx => by
    have hlisted := hreads.listed hx
    rw [hfiles, hdirs] at hlisted
    exact hlisted.elim List.not_mem_nil List.not_mem_nil
  have hends := FileTree.endsInName_append hp.slash (isName_final hcwd hp)
  exact FileTree.emptyDirAt_eq_some.mpr
    ⟨FileTree.leafAt_eq_some.mpr ⟨hfind, hends, hleaf⟩, hmem⟩

/-- **A deletion that is stuck** removes nothing, and does not report success. -/
theorem Stuck.does {depth n : ℕ} {dirName pathToDir : Bytes} {r : Option Bool × Session}
    (hstuck : Stuck os base t cwd depth n p)
    (h : Does os base (deleteDirectory os depth dirName false pathToDir) s t r t')
    (hp : Path.IsName p) (hpath : pathToDir ++ getValidFile dirName = p)
    (hn : s.calls.length = n) (hs : workingDir s.completePath = cwd) (hcwd : 0 ∉ cwd)
    (hpage : (t.dirAt base pagePath).isSome) : t' = t ∧ r.1 ≠ some false := by
  induction hstuck generalizing s r t' dirName pathToDir with
  | deep =>
    obtain ⟨rfl, hleads⟩ := h
    exact ⟨hleads.eq rfl, (Option.some_ne_none _).symm⟩
  | missing hnone =>
    obtain ⟨-, htree, hr⟩ | ⟨entries, s₁, hdir, -⟩ :=
      deleteDirectory_does h hp hpath hs hcwd hpage
    · exact ⟨htree, ne_of_eq_of_ne hr (Option.some_ne_none _).symm⟩
    · cases hnone.symm.trans hdir
  | @blocked depth n p entries hopen hfiles hnone =>
    obtain ⟨-, htree, hr⟩ | ⟨entries', s₁, hdir, hopen', hreads, -, hs₁, hdelete⟩ :=
      deleteDirectory_does h hp hpath hs hcwd hpage
    · exact ⟨htree, ne_of_eq_of_ne hr (Option.some_ne_none _).symm⟩
    rw [hn] at hopen'
    obtain rfl := Option.some.inj (hopen'.symm.trans hopen)
    exact blocked_does hdelete hp hs₁ hcwd hfiles (fun file hf => hreads.file hf) hnone
  | @first depth n p d ds entries hopen hfiles hdirs hd ih =>
    obtain ⟨-, htree, hr⟩ | ⟨entries', s₁, hdir, hopen', hreads, hlength, hs₁, hdelete⟩ :=
      deleteDirectory_does h hp hpath hs hcwd hpage
    · exact ⟨htree, ne_of_eq_of_ne hr (Option.some_ne_none _).symm⟩
    rw [hn] at hopen'
    obtain rfl := Option.some.inj (hopen'.symm.trans hopen)
    have hmem : d ∈ subdirectories entries' := by
      rw [hdirs]
      exact List.mem_cons_self ..
    have hname := FileTree.isName_of_mem (hreads.directory hmem)
    rw [hfiles, hdirs] at hdelete
    have hsub {r' : Option Bool × Session} {t₁ : FileTree}
        (h : Does os base (deleteDirectory os depth (d ++ text "/") false p) s₁ t r' t₁) :
        t₁ = t ∧ r'.1 ≠ some false :=
      ih h (hname.append hp.slash hp.null) (by rw [getValidFile_append_slash hname.slash])
        (by rw [hlength, hn]) hs₁
    obtain ⟨s₂, hfirst, hr⟩ | ⟨failed, s₂, t₂, hfirst, hrest⟩ := (first_does hdelete hname).of_bind
      (deleteDirectory_growing os depth _ false p) fun _ => afterFiles_growing os depth p ds _
    · exact ⟨(hsub hfirst).1, ne_of_eq_of_ne hr (Option.some_ne_none _).symm⟩
    · obtain ⟨rfl, hfailed⟩ := hsub hfirst
      cases failed with
      | false => exact absurd rfl hfailed
      | true =>
        exact cancelled_does hrest hp
          (hfirst.stays (deleteDirectory_growing os depth _ false p) hs₁) hcwd
          (emptyDirAt_eq_none hcwd hp (hreads.directory hmem))

/-- **An empty directory** is removed, and nothing else. -/
theorem deleteDirectory_does_of_empty {depth : ℕ} {dirName pathToDir : Bytes}
    {r : Option Bool × Session}
    (h : Does os base (deleteDirectory os (depth + 1) dirName false pathToDir) s t r t')
    (hp : Path.IsName p) (hpath : pathToDir ++ getValidFile dirName = p)
    (hs : workingDir s.completePath = cwd) (hcwd : 0 ∉ cwd)
    (hpage : (t.dirAt base pagePath).isSome)
    (hempty : t.emptyDirAt base (cwd ++ p) = some l) : t' = t.erase l ∧ r.1 = some false := by
  obtain ⟨hleafAt, hdir⟩ := FileTree.emptyDirAt_eq_some.mp hempty
  obtain ⟨hfind, -, hleaf⟩ := FileTree.leafAt_eq_some.mp hleafAt
  obtain rfl := eq_placeOf hcwd hp hfind
  obtain ⟨hnone, -⟩ | ⟨entries, s₁, -, -, hreads, -, hs₁, hdelete⟩ :=
    deleteDirectory_does h hp hpath hs hcwd hpage
  · cases hnone.symm.trans (FileTree.dirAt_eq_some.mpr ⟨hfind, hdir⟩)
  · have hfiles : fileNames entries = [] := List.eq_nil_iff_forall_not_mem.mpr fun x hx =>
      hleaf.not_mem x (hreads.file hx)
    have hdirs : subdirectories entries = [] := List.eq_nil_iff_forall_not_mem.mpr fun x hx =>
      hleaf.not_mem x (hreads.directory hx)
    rw [hfiles, hdirs] at hdelete
    have hdelete : Does os base (deleteSelf os p false) s₁ t r t' := hdelete
    obtain ⟨hr, htree⟩ := deleteSelf_does hdelete hp (null_not_mem hs₁ hcwd hp)
    rw [hs₁] at htree
    exact ⟨htree.trans (after_of_removes (c := .rmdir _) hempty), hr⟩

/-- **A deletion that is not stuck** removes something in the session's directory; that is the
directory itself only if it is empty. -/
theorem removes_of_not_stuck {depth n : ℕ} {dirName pathToDir : Bytes} {r : Option Bool × Session}
    (hstuck : ¬Stuck os base t cwd depth n p)
    (h : Does os base (deleteDirectory os depth dirName false pathToDir) s t r t')
    (hp : Path.IsName p) (hpath : pathToDir ++ getValidFile dirName = p)
    (hn : s.calls.length = n) (hs : workingDir s.completePath = cwd) (hcwd : 0 ∉ cwd)
    (hpage : (t.dirAt base pagePath).isSome) : ∃ x, placeOf base cwd (p ++ x) ∈ t.nodes ∧
      placeOf base cwd (p ++ x) ∉ t'.nodes ∧
      (x = [] → (t.emptyDirAt base (cwd ++ p)).isSome) := by
  induction depth generalizing n s r t' dirName pathToDir p with
  | zero => exact absurd .deep hstuck
  | succ depth ih =>
    obtain ⟨hnone, -⟩ | ⟨entries, s₁, hdir, hopen, hreads, hlength, hs₁, hdelete⟩ :=
      deleteDirectory_does h hp hpath hs hcwd hpage
    · exact absurd (.missing hnone) hstuck
    rw [hn] at hopen
    by_cases hfiles : fileNames entries = []
    · cases hdirs : subdirectories entries with
      | nil =>
        -- nothing is in it: the directory goes itself
        have hempty := emptyDirAt_of_reads hcwd hp hdir hreads hfiles hdirs
        obtain ⟨hleafAt, -⟩ := FileTree.emptyDirAt_eq_some.mp hempty
        obtain ⟨-, -, hleaf⟩ := FileTree.leafAt_eq_some.mp hleafAt
        obtain ⟨rfl, -⟩ := deleteDirectory_does_of_empty h hp hpath hs hcwd hpage hempty
        refine ⟨[], ?_, ?_, fun _ => by rw [hempty]; rfl⟩
        · rw [List.append_nil]
          exact hleaf.mem
        · rw [List.append_nil]
          exact hleaf.not_mem_erase
      | cons d ds =>
        have hname := FileTree.isName_of_mem (hreads.directory (hdirs ▸ List.mem_cons_self ..))
        have hnot : ¬Stuck os base t cwd depth (n + 2) (p ++ d) := fun hd =>
          hstuck (.first hopen hfiles hdirs hd)
        rw [hfiles, hdirs] at hdelete
        obtain ⟨r₁, t₁, hfirst, hsub⟩ := (first_does hdelete hname).fst
          (deleteDirectory_growing os depth _ false p) fun _ => afterFiles_growing os depth p ds _
        obtain ⟨x, hmem, hgone, -⟩ := ih hnot hfirst (hname.append hp.slash hp.null)
          (by rw [getValidFile_append_slash hname.slash]) (by rw [hlength, hn]) hs₁
        rw [List.append_assoc] at hmem hgone
        exact ⟨d ++ x, hmem, fun h => hgone (hsub h),
          fun h => absurd (List.append_eq_nil_iff.mp h).1 hname.ne_nil⟩
    · have hnames (file : Bytes) (hf : file ∈ fileNames entries) : Path.IsName file :=
        FileTree.isName_of_mem (hreads.file hf)
      have hsome : ∃ file ∈ fileNames entries, t.leafAt base (cwd ++ (p ++ file)) ≠ none := by
        by_contra hall
        exact hstuck (.blocked hopen hfiles fun file hf =>
          by_contra fun hne => hall ⟨file, hf, hne⟩)
      obtain ⟨r₁, t₁, hloop, hsub⟩ := hdelete.fst (deleteFiles_growing os p _ false)
        (afterFiles_growing os depth p _)
      obtain ⟨file, hf, hmem, hgone⟩ := deleteFiles_does_of_some hloop hs₁ hcwd
        (fun file hf => (hnames file hf).append hp.slash hp.null) hsome
      exact ⟨file, hmem, fun h => hgone (hsub h), fun h => absurd h (hnames file hf).ne_nil⟩

end Removed

/-! ## `rmdir` -/

/-- **A deletion of a directory** in a file tree: its name is one that an entry can have, the path
of the session's directory has no null and does not lead through the directory to delete, `./page/`
is a directory, and the system answers every call as the tree has it. -/
structure Rmdir where
  os : Os
  base : Location
  tree : FileTree
  session : Session
  name : Bytes
  isName : Path.IsName name
  null : 0 ∉ workingDir session.completePath
  apart : ¬Path.resolve base (workingDir session.completePath) ++ [name] <+:
    Path.directory base (workingDir session.completePath)
  page : (tree.dirAt base pagePath).isSome
  follows : os.Follows base tree session.calls.length
    (newCalls (deleteDirectory os os.stack name false []) session)

namespace Rmdir

variable (r : Rmdir)

/-- The path of the session's directory. -/
def cwd : Bytes := workingDir r.session.completePath

/-- What `deleteDirectory` answers, and the session it leaves. -/
def run : Option Bool × Session := deleteDirectory r.os r.os.stack r.name false [] r.session

/-- The tree that is left. -/
def left : FileTree :=
  (newCalls (deleteDirectory r.os r.os.stack r.name false []) r.session).foldl
    (SysCall.after r.base) r.tree

/-- The directory to delete: the one of that name in the session's directory. -/
def target : Location := Path.resolve r.base r.cwd ++ [r.name]

/-- **What `rmdir` must do**: nothing goes but the directory and what is below it, and if there is
no error the directory is gone. -/
def TouchesOnlyTarget : Prop :=
  (∀ l ∈ r.tree.nodes, l ∉ r.left.nodes → r.target <+: l) ∧
    (r.run.1 = some false → r.target ∉ r.left.nodes)

/-- **An empty directory**, of a session whose path ends in a slash. -/
def Empty : Prop :=
  Path.final r.cwd = [] ∧ (r.tree.emptyDirAt r.base (r.cwd ++ r.name)).isSome

/-- A deletion that removes nothing. -/
def IsStuck : Prop :=
  Stuck r.os r.base r.tree r.cwd r.os.stack r.session.calls.length r.name

theorem does : Does r.os r.base (deleteDirectory r.os r.os.stack r.name false []) r.session r.tree
    r.run r.left :=
  (deleteDirectory_growing r.os r.os.stack r.name false []).does r.follows

theorem stripped : [] ++ getValidFile r.name = r.name := getValidFile_of_not_mem r.isName.slash

/-- **What is removed is beside the directory**, not below it. -/
theorem eq_nil_of_prefix {x : Bytes} (h : r.target <+: placeOf r.base r.cwd (r.name ++ x)) :
    Path.final r.cwd = [] ∧ x = [] := by
  obtain heq | hbelow := List.prefix_concat_iff.mp h
  · have hname : r.name = Path.final r.cwd ++ (r.name ++ x) :=
      List.singleton_inj.mp (List.append_inj' heq rfl).2
    have hlength := congrArg List.length hname
    rw [List.length_append, List.length_append] at hlength
    exact ⟨List.eq_nil_of_length_eq_zero (by omega), List.eq_nil_of_length_eq_zero (by omega)⟩
  · exact absurd hbelow r.apart

theorem placeOf_name (h : Path.final r.cwd = []) : placeOf r.base r.cwd r.name = r.target := by
  rw [placeOf, target, Path.resolve_eq_go, h, Path.go_nil, List.nil_append]

/-- **A deletion that is stuck** leaves the tree as it is. -/
theorem IsStuck.touchesOnlyTarget {r : Rmdir} (h : r.IsStuck) : r.TouchesOnlyTarget := by
  obtain ⟨hsame, hr⟩ := Stuck.does h r.does r.isName r.stripped rfl rfl r.null r.page
  refine ⟨fun l hl hgone => ?_, fun hfalse => absurd hfalse hr⟩
  rw [hsame] at hgone
  exact absurd hl hgone

/-- **An empty directory** goes, and nothing else. -/
theorem Empty.touchesOnlyTarget {r : Rmdir} (h : r.Empty) : r.TouchesOnlyTarget := by
  obtain ⟨hfinal, hempty⟩ := h
  obtain ⟨l, hl⟩ := Option.isSome_iff_exists.mp hempty
  obtain ⟨hleafAt, -⟩ := FileTree.emptyDirAt_eq_some.mp hl
  obtain ⟨hfind, -, hleaf⟩ := FileTree.leafAt_eq_some.mp hleafAt
  obtain rfl : l = r.target := (eq_placeOf r.null r.isName hfind).trans (r.placeOf_name hfinal)
  cases hstack : r.os.stack with
  | zero => exact IsStuck.touchesOnlyTarget (by rw [IsStuck, hstack]; exact .deep)
  | succ depth =>
    have hdoes := r.does
    rw [hstack] at hdoes
    obtain ⟨hleft, -⟩ :=
      deleteDirectory_does_of_empty hdoes r.isName r.stripped rfl r.null r.page hl
    refine ⟨fun m hm hgone => ?_, fun _ => ?_⟩
    · rw [hleft, FileTree.mem_erase] at hgone
      obtain ⟨-, rfl⟩ := not_not.mp fun h => hgone ⟨hm, h⟩
      exact List.prefix_rfl
    · rw [hleft]
      exact hleaf.not_mem_erase

/-- **`rmdir` does as it must** exactly if the directory is empty, or nothing is removed at all. -/
theorem touchesOnlyTarget_iff : r.TouchesOnlyTarget ↔ r.Empty ∨ r.IsStuck := by
  refine ⟨fun ⟨hframe, _⟩ => ?_, fun h => h.elim Empty.touchesOnlyTarget IsStuck.touchesOnlyTarget⟩
  by_contra hnot
  obtain ⟨hempty, hstuck⟩ := not_or.mp hnot
  obtain ⟨x, hmem, hgone, hself⟩ :=
    removes_of_not_stuck hstuck r.does r.isName r.stripped rfl rfl r.null r.page
  obtain ⟨hfinal, hx⟩ := r.eq_nil_of_prefix (hframe _ hmem hgone)
  exact hempty ⟨hfinal, hself hx⟩

/-! ### Two deletions -/

/-- A session in `./page/`. -/
def inPage : Session := .new oneUser (text "./page/") 1 (fun _ => none) []

/-- `./page/` with the empty directory `a`. -/
def oneDirectory : FileTree where
  files := ∅
  dirs := {[], [text "page"], [text "page", text "a"]}
  disjoint := by decide
  top := by decide
  entry := by decide

/-- `rmdir a`, where `a` is empty. -/
def ofEmpty : Rmdir where
  os := { Os.refusing with
    opendir := fun _ p => some (if p = pagePath then [⟨text "a", true⟩] else [])
    rmdir := fun _ _ => true
    stack := 1 }
  base := []
  tree := oneDirectory
  session := inPage
  name := text "a"
  isName := by decide
  null := by decide
  apart := by decide
  page := by decide
  follows := by decide

theorem touchesOnlyTarget_ofEmpty : ofEmpty.TouchesOnlyTarget :=
  ofEmpty.touchesOnlyTarget_iff.mpr (.inl ⟨by decide, by decide⟩)

/-- `./page/` with the file `ab`, and the directory `a` with the file `b`. -/
def joinedNames : FileTree where
  files := {[text "page", text "ab"], [text "page", text "a", text "b"]}
  dirs := {[], [text "page"], [text "page", text "a"]}
  disjoint := by decide
  top := by decide
  entry := by decide

/-- `rmdir a`, where `a` holds `b`. -/
def ofJoined : Rmdir where
  os := { Os.refusing with
    opendir := fun _ p => some (if p = pagePath then [⟨text "a", true⟩, ⟨text "ab", false⟩]
      else [⟨text "b", false⟩])
    remove := fun _ _ => some 0
    stack := 1 }
  base := []
  tree := joinedNames
  session := inPage
  name := text "a"
  isName := by decide
  null := by decide
  apart := by decide
  page := by decide
  follows := by decide

/-- **`rmdir a` removes the file `ab`** for the file `b` of `a`. -/
theorem not_touchesOnlyTarget_ofJoined : ¬ofJoined.TouchesOnlyTarget := by
  rintro ⟨hframe, -⟩
  have hbelow := hframe [text "page", text "ab"] (by decide) (by decide)
  revert hbelow
  decide

end Rmdir

end WebServer.Ftp
