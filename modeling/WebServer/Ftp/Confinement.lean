import WebServer.Ftp.Effects
import WebServer.Lib.Path
import WebServer.Lib.Run

/-!
# Ftp/Confinement — which commands stay below the server root

The paths of a session are the root, the directories that `cd` has entered, and a parameter, put
together as they are.  A command stays below the root if what it puts behind the root starts at a
slash and never leads up past it (`Command.Confined`); a run of such commands asks the system for
nothing else (`confined_of_run`).  The code itself checks little of this: `upload ../x` leaves the
root at once.
-/

namespace WebServer.Ftp

open Utility (ReadResult)

/-! ## What must hold of a command -/

section Confined

variable (os : Os) (base : List Bytes) (root : Bytes)

/-- A text that stays in the root when it is put behind it.  The system reads up to the first
null. -/
def Stays (p : Bytes) : Prop := 0 ∈ root ∨ Path.Inside root (cString p)

/-- …and so do the names that are put behind it in turn. -/
def LeadsOn (p : Bytes) : Prop :=
  0 ∈ root ∨ if 0 ∈ p then Path.Inside root (cString p) else Path.Joined root p

/-- The directory that `dirCanBeOpened` opens is in the root. -/
def PageInside : Prop := Path.Within base (cString root) pagePath

/-- **The system lists names** of which none but `.` and `..`, which are directories, means another
place. -/
def Os.Ordinary : Prop := ∀ name isDir, os.Lists name isDir → Chr.slash ∉ name ∧ 0 ∉ name ∧
  (isDir = false → name ≠ text "." ∧ name ≠ text "..")

/-- **A command that stays below the root**, for a session that has entered some directories. -/
def Command.Confined (dirs : List Bytes) : Command → Prop
  | .ls dir => PageInside base root ∧ Stays root
      (if dir = text "../" ∧ dirs = [] ∨ dir = text "./" then dirs.flatten else dirs.flatten ++ dir)
  | .download file => Stays root (dirs.flatten ++ file)
  | .upload file => Stays root (dirs.flatten ++ file)
  | .touch file => Stays root (dirs.flatten ++ getValidFile file)
  | .cd dir => IsChild dir → PageInside base root
  | .mkdir dir => dir = text "../" ∧ dirs = [] ∨ Stays root (dirs.flatten ++ dir)
  | .rmdir dir => dir = text "../" ∧ dirs = [] ∨ PageInside base root ∧ os.Ordinary ∧
      LeadsOn root (dirs.flatten ++ getValidFile dir)
  | .pwd | .getparentdir | .quit | .unknown => True

end Confined

section Stays

variable {os : Os} {base : List Bytes} {root t x : Bytes}

/-- **A text that stays in the root** makes a path below it. -/
theorem Stays.within (h : Stays root t) :
    Path.Within base (cString root) (cString (root ++ t)) := by
  rw [cString_append]
  by_cases hroot : 0 ∈ root
  · rw [if_pos hroot]
    exact Path.Within.refl
  · rw [if_neg hroot, cString_of_notMem hroot]
    exact (h.resolve_left hroot).within

theorem LeadsOn.stays (h : LeadsOn root t) : Stays root t := by
  refine h.imp_right fun h => ?_
  split at h
  · exact h
  · next ht =>
    rw [cString_of_notMem ht]
    exact .inr h

/-- A name, or names one after the other, that mean no other place. -/
structure Plain (x : Bytes) : Prop where
  slash : Chr.slash ∉ x
  null : 0 ∉ x
  dot : x ≠ text "."
  dots : x ≠ text ".."

theorem Plain.nil : Plain [] := ⟨List.not_mem_nil, List.not_mem_nil, by decide, by decide⟩

theorem Plain.append {y : Bytes} (hx : Plain x) (hy : Plain y) : Plain (x ++ y) where
  slash h := (List.mem_append.mp h).elim hx.slash hy.slash
  null h := (List.mem_append.mp h).elim hx.null hy.null
  dot h := by
    obtain _ | ⟨a, x⟩ := x
    · exact hy.dot h
    · obtain ⟨rfl, htail⟩ := List.cons.inj h
      exact hx.dot (congrArg (_ :: ·) (List.append_eq_nil_iff.mp htail).1)
  dots h := by
    obtain _ | ⟨a, _ | ⟨b, x⟩⟩ := x
    · exact hy.dots h
    · obtain ⟨rfl, -⟩ := List.cons.inj h
      exact hx.dot rfl
    · obtain ⟨rfl, htail⟩ := List.cons.inj h
      obtain ⟨rfl, hnil⟩ := List.cons.inj htail
      exact hx.dots (congrArg (_ :: _ :: ·) (List.append_eq_nil_iff.mp hnil).1)

/-- **Names lead on.** -/
theorem LeadsOn.append (h : LeadsOn root t) (hx : Plain x) : LeadsOn root (t ++ x) := by
  refine h.imp_right fun h => ?_
  have hmem : (0 ∈ t ++ x) ↔ 0 ∈ t := by
    rw [List.mem_append]
    exact or_iff_left hx.null
  simp only [hmem]
  split at h
  · next ht =>
    rw [if_pos ht, cString_append, if_pos ht]
    exact h
  · next ht =>
    rw [if_neg ht]
    exact h.append hx.slash hx.dot hx.dots

theorem getValidFile_of_not_mem {d : Bytes} (h : Chr.slash ∉ d) : getValidFile d = d :=
  List.filter_eq_self.mpr fun _ hc => decide_eq_true fun he => h (he ▸ hc)

/-- The slash that `deleteDirectory` puts behind a name is stripped again. -/
theorem getValidFile_append_slash {d : Bytes} (h : Chr.slash ∉ d) :
    getValidFile (d ++ text "/") = d := by
  rw [getValidFile, List.filter_append]
  exact (List.append_nil _).trans (getValidFile_of_not_mem h)

/-- What `deleteDirectory` reaches is the name it is called for, and names behind it. -/
theorem Reached.exists_append {top p : Bytes} (ho : os.Ordinary) (h : Reached os top p) :
    ∃ x, p = top ++ x ∧ Plain x := by
  induction h with
  | top => exact ⟨[], (List.append_nil _).symm, .nil⟩
  | @sub p d h hd hdot hdots ih =>
    obtain ⟨x, rfl, hx⟩ := ih
    obtain ⟨hslash, hnull, -⟩ := ho d true hd
    rw [getValidFile_append_slash hslash, List.append_assoc]
    exact ⟨x ++ d, rfl, hx.append ⟨hslash, hnull, hdot, hdots⟩⟩

theorem length_cons_le_one {dirs : List Bytes} : (root :: dirs).length ≤ 1 ↔ dirs = [] := by
  rw [List.length_cons, Nat.succ_le_succ_iff, Nat.le_zero, List.length_eq_zero_iff]

theorem workingDir_append (dirs : List Bytes) (p : Bytes) :
    workingDir (root :: dirs) ++ p = root ++ (dirs.flatten ++ p) := by
  rw [workingDir, List.flatten_cons, List.append_assoc]

/-- The directory that `ls` opens. -/
theorem browsed_strict (dirs : List Bytes) (dir : Bytes) :
    browsed (root :: dirs) dir true = root ++
      if dir = text "../" ∧ dirs = [] ∨ dir = text "./" then dirs.flatten
      else dirs.flatten ++ dir := by
  rw [browsed]
  simp only [length_cons_le_one, getValidDir, true_and]
  by_cases hup : dir = text "../" ∧ dirs = []
  · rw [if_pos hup, if_pos rfl, if_pos (.inl hup)]
    rfl
  · rw [if_neg hup]
    by_cases hsame : dir = text "./"
    · rw [if_pos hsame, if_pos (.inr hsame)]
      rfl
    · rw [if_neg hsame, if_neg (not_or.mpr ⟨hup, hsame⟩), workingDir_append]

/-- A directory that `deleteDirectory` opens. -/
theorem browsed_name (dirs : List Bytes) {p : Bytes} (hp : Chr.slash ∉ p) :
    browsed (root :: dirs) p false = root ++ (dirs.flatten ++ p) := by
  have hne : p ≠ text "./" := fun h => hp (by rw [h]; decide)
  rw [browsed]
  simp only [Bool.false_eq_true, false_and, if_false]
  rw [if_neg hne, workingDir_append]

/-- **A confined command asks for nothing outside the root.** -/
theorem Command.Confined.within {dirs : List Bytes} {command : Command} {c : SysCall}
    (h : command.Confined os base root dirs) (hc : command.Asks os (root :: dirs) c) :
    Path.Within base (cString root) c.path := by
  cases command with
  | ls dir =>
    obtain ⟨hpage, hdir⟩ := h
    obtain rfl | rfl := hc
    · exact hpage
    · rw [browsed_strict]
      exact hdir.within
  | download file =>
    obtain rfl := hc
    rw [workingDir_append]
    exact Stays.within h
  | upload file =>
    obtain rfl := hc
    rw [workingDir_append]
    exact Stays.within h
  | touch file =>
    obtain rfl := hc
    rw [workingDir_append]
    exact Stays.within h
  | cd dir =>
    obtain ⟨hchild, rfl⟩ := hc
    exact h hchild
  | mkdir dir =>
    obtain ⟨hne, rfl⟩ := hc
    rw [length_cons_le_one] at hne
    rw [workingDir_append]
    exact (h.resolve_left hne).within
  | rmdir dir =>
    obtain ⟨hne, hc⟩ := hc
    have hne' : ¬(dir = text "../" ∧ dirs = []) := by
      rintro ⟨rfl, rfl⟩
      exact Bool.noConfusion (show true = false from hne)
    obtain ⟨hpage, ho, htop⟩ := h.resolve_left hne'
    obtain rfl | ⟨p, hp, hc⟩ := hc
    · exact hpage
    · obtain ⟨x, rfl, hx⟩ := hp.exists_append ho
      have hon : LeadsOn root (dirs.flatten ++ (getValidFile dir ++ x)) := by
        rw [← List.append_assoc]
        exact htop.append hx
      have hslash : Chr.slash ∉ getValidFile dir ++ x := by
        rw [List.mem_append, not_or, getValidFile, List.mem_filter]
        exact ⟨fun h => absurd rfl (of_decide_eq_true h.2), hx.slash⟩
      obtain rfl | rfl | ⟨file, hfile, rfl⟩ := hc
      · rw [browsed_name dirs hslash]
        exact hon.stays.within
      · rw [workingDir_append]
        exact hon.stays.within
      · obtain ⟨hs, hn, hdots⟩ := ho file false hfile
        rw [workingDir_append, ← List.append_assoc dirs.flatten]
        exact (hon.append ⟨hs, hn, (hdots rfl).1, (hdots rfl).2⟩).stays.within
  | pwd => exact hc.elim
  | getparentdir => exact hc.elim
  | quit => exact hc.elim
  | unknown => exact hc.elim

end Stays

/-! ## Runs -/

/-- One `handleRead` of a process that goes on. -/
def Reads (os : Os) (s : Session) (rs : List ReadResult) (t : Session) : Prop :=
  handleRead os rs s = (some (), t)

/-- **What must hold of a read**: the command it brings is confined. -/
def ReadConfined (os : Os) (base : List Bytes) (root : Bytes) (s : Session)
    (rs : List ReadResult) : Prop :=
  ∀ command, commandOf rs s = some command → command.Confined os base root s.completePath.tail

section Run

variable {os : Os} {base : List Bytes} {root : Bytes} {s t : Session} {rs : List ReadResult}

/-- **Nothing outside the root has been asked for.** -/
structure Below (base : List Bytes) (root : Bytes) (s : Session) : Prop where
  path : ∃ dirs, s.completePath = root :: dirs
  calls (c : SysCall) : c ∈ s.calls → Path.Within base (cString root) c.path

/-- **One read** keeps the session below the root, also if the process dies of it. -/
theorem Below.handleRead (h : Below base root s) (hr : ReadConfined os base root s rs) :
    Below base root (handleRead os rs s).2 := by
  obtain ⟨⟨dirs, hdirs⟩, hcalls⟩ := h
  by_cases hs : s.processState = .upload
  · obtain ⟨hsame, hpath, -⟩ := handleRead_upload os rs hs
    exact ⟨⟨dirs, by rw [hpath, hdirs]⟩, by rwa [hsame]⟩
  · obtain ⟨⟨cs, hcs, hasks, -⟩, hmoves⟩ := handleRead_effects os rs hs
    refine ⟨?_, fun c hc => ?_⟩
    · rw [hdirs] at hmoves
      generalize (Ftp.handleRead os rs s).2.completePath = path at hmoves
      cases hmoves with
      | stay => exact ⟨dirs, rfl⟩
      | up h =>
        have hne : dirs ≠ [] := by
          rintro rfl
          exact Nat.not_succ_le_self 1 h
        exact ⟨dirs.dropLast, List.dropLast_cons_of_ne_nil hne⟩
      | down dir => exact ⟨dirs ++ [dir], rfl⟩
    · rw [hcs] at hc
      obtain hc | hc := List.mem_append.mp hc
      · exact hcalls c hc
      · obtain ⟨command, hcommand, hask⟩ := hasks c hc
        have hconf := hr command hcommand
        rw [hdirs] at hask hconf
        exact hconf.within hask

/-- **A run whose commands are confined** asks for nothing outside the root, and neither does a last
read of which the process may die. -/
theorem confined_of_run (os : Os) (base : List Bytes) (root : Bytes) (userInfo : UserInfo)
    (commandOffset : ℕ) (disk : ℕ → Option Bytes) (writes : List Utility.WriteResult)
    (scripts : List (List ReadResult)) (s : Session)
    (r : Run (guarded (ReadConfined os base root) (Reads os))
      (.new userInfo root commandOffset disk writes) scripts s)
    (rs : List ReadResult) (hr : ReadConfined os base root s rs) :
    (∀ c ∈ s.calls, Path.Within base (cString root) c.path) ∧
      ∀ c ∈ (handleRead os rs s).2.calls, Path.Within base (cString root) c.path := by
  have hrun : Below base root s := by
    refine r.invariant (I := Below base root) (fun s rs t hs hstep => ?_) ⟨⟨[], rfl⟩, nofun⟩
    obtain ⟨hok, hread⟩ := hstep
    have h := hs.handleRead hok
    rwa [hread] at h
  exact ⟨hrun.calls, (hrun.handleRead hr).calls⟩

/-- One user. -/
def oneUser : UserInfo := fun name => if name = text "a" then some (text "b") else none

/-- What one message brings. -/
def message (m : Bytes) : List ReadResult := [.data m, .again]

/-- An upload into the root. -/
theorem confined_upload : ∃ s,
    Run (guarded (ReadConfined .refusing [text "srv"] (text "./page/")) (Reads .refusing))
      (.new oneUser (text "./page/") 1 (fun _ => none) []) [message (text "%a%b")] s ∧
    ReadConfined .refusing [text "srv"] (text "./page/") s (message (text "upload x")) ∧
    ∀ c ∈ (handleRead .refusing (message (text "upload x")) s).2.calls,
      Path.Within [text "srv"] (cString (text "./page/")) c.path := by
  obtain ⟨s, r, hs, hpath, hoffset⟩ : ∃ s,
      Run (guarded (ReadConfined .refusing [text "srv"] (text "./page/")) (Reads .refusing))
        (.new oneUser (text "./page/") 1 (fun _ => none) []) [message (text "%a%b")] s ∧
      s.processState = .parse ∧ s.completePath = [text "./page/"] ∧ s.commandOffset = 1 :=
    ⟨_, .cons ⟨fun _ h => absurd h (Option.some_ne_none _).symm, rfl⟩ (.nil _), rfl, rfl, rfl⟩
  have hr : ReadConfined .refusing [text "srv"] (text "./page/") s (message (text "upload x")) := by
    intro command hcommand
    have hupload : commandOf (message (text "upload x")) s = some (.upload (text "x")) := by
      rw [commandOf, if_pos ⟨hs, by decide⟩, hoffset]
      decide
    obtain rfl := Option.some.inj (hupload.symm.trans hcommand)
    rw [hpath]
    exact .inr (by decide)
  exact ⟨s, r, hr, (confined_of_run _ _ _ _ _ _ _ _ _ r _ hr).2⟩

/-- **`upload ../x` leaves the root.** -/
theorem escapes : ∃ s, Run (Reads .refusing)
    (.new oneUser (text "./page/") 1 (fun _ => none) [])
      [message (text "%a%b"), message (text "upload ../x")] s ∧
    ∃ c ∈ s.calls, ¬Path.Within [text "srv"] (cString (text "./page/")) c.path := by
  refine ⟨_, .cons rfl (.cons rfl (.nil _)), .openFile .trunc (text "./page/../x"), ?_, ?_⟩
  · exact List.mem_singleton_self _
  · decide

end Run

end WebServer.Ftp
