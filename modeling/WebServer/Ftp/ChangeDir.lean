import WebServer.Ftp.FtpConnection
import WebServer.Lib.Path

/-!
# Ftp/ChangeDir — the working directory as a stack

`changeDir` keeps what it is given, as it is given, and `getCurrentWorkingDir` writes the entries
one behind the other.  The entries move like a stack.  What they denote is another matter: a name
entered without its slash runs into the name that follows it.
-/

namespace WebServer.Ftp

open Path Program

/-! ## The stack -/

/-- **Where a `cd` goes.** -/
inductive Target
  | child (name : { x : Bytes // IsName x })
  | here
  | up

/-- **A stack of directory names** after a `cd` that answers success or failure; `none` where a
stack does not answer so. -/
def Target.move (stack : List Bytes) : Target → Bool → Option (List Bytes)
  | child name, false => some (stack ++ [name.1])
  | child _, true => some stack
  | here, false => some stack
  | here, true => none
  | up, failed =>
    if stack = [] then if failed then some stack else none
    else if failed then none else some stack.dropLast

/-! ## The arguments -/

/-- The argument of a `cd`: where it goes, with or without a slash behind it. -/
structure Cd where
  target : Target
  slash : Bool

/-- How a target is named. -/
def Target.word : Target → Bytes
  | child name => name.1
  | here => text "."
  | up => text ".."

/-- The argument as it is written. -/
def Cd.newPath (cd : Cd) : Bytes := cd.target.word ++ if cd.slash then [Chr.slash] else []

/-! ## Behaving like the stack -/

/-- **A session stands in the top directory of a stack** below a root: it has one entry for each
name, and a file name behind its working directory denotes that file there. -/
structure Stands (base : List Bytes) (root : Bytes) (stack : List Bytes) (s : Session) :
    Prop where
  height : s.completePath.length = stack.length + 1
  file (name : Bytes) : IsName name → resolve base (workingDir s.completePath ++ name) =
    resolve base root ++ stack ++ [name]

/-- **A session behaves like a stack** along a row of `cd`s: it stands in the top directory before
the first and after each of them, each answers as the stack does, and where the stack stays the
entries stay. -/
def Behaves (os : Os) (base : List Bytes) (root : Bytes) :
    List Bytes → Session → List Cd → Prop
  | stack, s, [] => Stands base root stack s
  | stack, s, cd :: cds => Stands base root stack s ∧ ∃ failed s' stack',
      changeDir os cd.newPath s = (some failed, s') ∧ cd.target.move stack failed = some stack' ∧
      (stack' = stack → s'.completePath = s.completePath) ∧
      Behaves os base root stack' s' cds

/-- **Every name is entered with its slash**, or the directory that `dirCanBeOpened` opens cannot be
opened then; the first call is the `n`-th of the session. -/
def Ended (os : Os) : ℕ → List Cd → Prop
  | _, [] => True
  | n, ⟨.child _, slash⟩ :: cds =>
    (slash = true ∨ os.opendir n (text "./page/") = none) ∧ Ended os (n + 1) cds
  | n, _ :: cds => Ended os n cds

/-! ## One `cd` -/

/-- A session after a call to the system. -/
def Session.called (s : Session) (c : SysCall) : Session := { s with calls := s.calls ++ [c] }

section Step

variable {os : Os} {base : List Bytes} {root : Bytes} {stack : List Bytes} {s : Session} {cd : Cd}
  {cds : List Cd}

/-- The name of an entry, with or without a slash, is none of the arguments that stay or go up. -/
theorem newPath_ne {name : { x : Bytes // IsName x }} {word : Bytes} (slash : Bool)
    (hw : name.1 ≠ word) (hslash : Chr.slash ∉ word) :
    (Cd.mk (.child name) slash).newPath ≠ word ∧
      (Cd.mk (.child name) slash).newPath ≠ word ++ [Chr.slash] := by
  cases slash with
  | false =>
    have hpath : (Cd.mk (.child name) false).newPath = name.1 := List.append_nil _
    rw [hpath]
    exact ⟨hw, fun h => name.2.slash (h ▸ List.mem_append_right _ (List.mem_singleton_self _))⟩
  | true =>
    have hpath : (Cd.mk (.child name) true).newPath = name.1 ++ [Chr.slash] := rfl
    rw [hpath]
    exact ⟨fun h => hslash (h ▸ List.mem_append_right _ (List.mem_singleton_self _)),
      fun h => hw (List.append_cancel_right h)⟩

/-- **A `cd` to a name.** -/
theorem changeDir_child (os : Os) (name : { x : Bytes // IsName x }) (slash : Bool) (s : Session) :
    changeDir os (Cd.mk (.child name) slash).newPath s =
      if (os.opendir s.calls.length (text "./page/")).isSome then
        (some false, { s.called (.opendir (text "./page/")) with
          completePath := s.completePath ++ [(Cd.mk (.child name) slash).newPath] })
      else (some true, s.called (.opendir (text "./page/"))) := by
  obtain ⟨hup, hup'⟩ := newPath_ne slash name.2.dots (by decide)
  obtain ⟨hhere, hhere'⟩ := newPath_ne slash name.2.dot (by decide)
  refine (congrFun (if_neg (not_or.mpr ⟨hup, hup'⟩)) s).trans ?_
  refine (congrFun (if_neg (not_or.mpr ⟨hhere, hhere'⟩)) s).trans ?_
  refine (bind_of_some (rfl : dirCanBeOpened os _ s = (some _, s.called _))).trans ?_
  split
  · next hopen => exact (if_pos hopen).symm
  · next hopen => exact (if_neg hopen).symm

theorem changeDir_here (os : Os) (slash : Bool) (s : Session) :
    changeDir os (Cd.mk .here slash).newPath s = (some false, s) := by
  cases slash <;> rfl

theorem changeDir_up (os : Os) (slash : Bool) (s : Session) :
    changeDir os (Cd.mk .up slash).newPath s =
      if s.completePath.length ≤ 1 then (some true, s)
      else (some false, { s with completePath := s.completePath.dropLast }) := by
  have hup : (Cd.mk .up slash).newPath = text ".." ∨ (Cd.mk .up slash).newPath = text "../" := by
    cases slash
    · exact .inl rfl
    · exact .inr rfl
  refine (congrFun (if_pos hup) s).trans ?_
  split <;> rfl

/-! ## Entries with a slash -/

/-- **Every entry has its slash**, below a root that has one. -/
structure Slashed (root : Bytes) (stack : List Bytes) (s : Session) : Prop where
  slash : root.getLast? = some Chr.slash
  path : s.completePath = root :: stack.map (· ++ [Chr.slash])
  name (x : Bytes) : x ∈ stack → IsName x

/-- A session that has not moved. -/
theorem slashed_root (hroot : root.getLast? = some Chr.slash) (hs : s.completePath = [root]) :
    Slashed root [] s := ⟨hroot, hs, fun _ hx => absurd hx List.not_mem_nil⟩

theorem Slashed.getLast? (h : Slashed root stack s) :
    (workingDir s.completePath).getLast? = some Chr.slash := by
  rw [h.path]
  exact (resolve_append_dirs h.slash h.name : _ ∧ Path.resolve [] _ = _).1

/-- **Such entries denote the top directory.** -/
theorem Slashed.resolve (h : Slashed root stack s) :
    Path.resolve base (workingDir s.completePath) = Path.resolve base root ++ stack := by
  rw [h.path]
  exact (resolve_append_dirs h.slash h.name).2

theorem Slashed.stands (h : Slashed root stack s) : Stands base root stack s where
  height := by rw [h.path, List.length_cons, List.length_map]
  file name hname := by rw [resolve_append_name h.getLast? hname, h.resolve]

theorem Slashed.push (h : Slashed root stack s) {x : Bytes} (hx : IsName x) {s' : Session}
    (hs : s'.completePath = s.completePath ++ [x ++ [Chr.slash]]) :
    Slashed root (stack ++ [x]) s' where
  slash := h.slash
  path := by rw [hs, h.path, List.map_append, List.cons_append]; rfl
  name y hy := (List.mem_append.mp hy).elim (h.name y) fun hy => List.mem_singleton.mp hy ▸ hx

theorem Slashed.pop (h : Slashed root stack s) {s' : Session} (hne : stack ≠ [])
    (hs : s'.completePath = s.completePath.dropLast) : Slashed root stack.dropLast s' where
  slash := h.slash
  path := by
    rw [hs, h.path, List.map_dropLast, List.dropLast_cons_of_ne_nil]
    exact fun hnil => hne (List.map_eq_nil_iff.mp hnil)
  name x hx := h.name x (List.mem_of_mem_dropLast hx)

theorem Slashed.of_eq (h : Slashed root stack s) {s' : Session}
    (hs : s'.completePath = s.completePath) : Slashed root stack s' :=
  ⟨h.slash, hs.trans h.path, h.name⟩

/-- **A name without its slash runs into the next.** -/
theorem Slashed.not_stands (h : Slashed root stack s) {x : Bytes} (hx : IsName x) {s' : Session}
    (hs : s'.completePath = s.completePath ++ [x]) : ¬ Stands base root (stack ++ [x]) s' := by
  intro hst
  have hdir : workingDir s'.completePath = workingDir s.completePath ++ x := by
    rw [hs, workingDir, List.flatten_append]
    exact congrArg _ (List.append_nil x)
  have hfile := hst.file x hx
  rw [hdir, List.append_assoc, resolve_append_name h.getLast? (hx.append hx.slash hx.null),
    h.resolve] at hfile
  have hlen := congrArg List.length hfile
  simp only [List.length_append, List.length_singleton] at hlen
  omega

/-! ## A row of `cd`s -/

theorem Behaves.stands : ∀ {cds : List Cd}, Behaves os base root stack s cds →
    Stands base root stack s
  | [], h => h
  | _ :: _, h => h.1

/-- One `cd` that the stack answers alike, and the rest. -/
theorem behaves_cons {failed : Bool} {s' : Session} {stack' : List Bytes}
    (hrun : changeDir os cd.newPath s = (some failed, s'))
    (hmove : cd.target.move stack failed = some stack')
    (hsame : stack' = stack → s'.completePath = s.completePath) :
    Behaves os base root stack s (cd :: cds) ↔
      Stands base root stack s ∧ Behaves os base root stack' s' cds := by
  rw [Behaves]
  refine and_congr_right fun _ => ⟨?_, fun h => ⟨failed, s', stack', hrun, hmove, hsame, h⟩⟩
  rintro ⟨failed₁, s₁, stack₁, hrun₁, hmove₁, -, h⟩
  obtain ⟨hfailed, rfl⟩ := Prod.ext_iff.mp (hrun.symm.trans hrun₁)
  obtain rfl := Option.some.inj hfailed
  obtain rfl := Option.some.inj (hmove.symm.trans hmove₁)
  exact h

/-- **A session behaves like a stack exactly if every name is entered with its slash.** -/
theorem Slashed.behaves_iff (h : Slashed root stack s) :
    Behaves os base root stack s cds ↔ Ended os s.calls.length cds := by
  induction cds generalizing stack s with
  | nil => exact iff_of_true h.stands trivial
  | cons cd cds ih =>
    obtain ⟨target, slash⟩ := cd
    cases target with
    | here =>
      rw [behaves_cons (changeDir_here os slash s) rfl fun _ => rfl, and_iff_right h.stands]
      exact ih h
    | up =>
      have hrun := changeDir_up os slash s
      have hstands : Stands base root stack s := h.stands
      have hheight := hstands.height
      by_cases hnil : stack = []
      · rw [if_pos (by rw [hheight, hnil]; exact le_rfl)] at hrun
        rw [behaves_cons hrun (if_pos hnil) fun _ => rfl, and_iff_right h.stands]
        exact ih h
      · have hpos := List.length_pos_of_ne_nil hnil
        rw [if_neg (by omega)] at hrun
        have hne : stack.dropLast ≠ stack := fun he => by
          have := congrArg List.length he
          rw [List.length_dropLast] at this
          omega
        rw [behaves_cons hrun (if_neg hnil) fun he => absurd he hne, and_iff_right h.stands]
        exact ih (h.pop hnil rfl)
    | child name =>
      have hrun := changeDir_child os name slash s
      have hcalls : (s.called (.opendir (text "./page/"))).calls.length = s.calls.length + 1 :=
        List.length_append
      by_cases hopen : (os.opendir s.calls.length (text "./page/")).isSome
      · rw [if_pos hopen] at hrun
        have hne : stack ++ [name.1] ≠ stack := fun he =>
          absurd (List.append_right_eq_self.mp he) (List.cons_ne_nil _ _)
        rw [behaves_cons hrun rfl fun he => absurd he hne, and_iff_right h.stands, Ended,
          or_iff_left (Option.isSome_iff_ne_none.mp hopen), ← hcalls]
        cases slash with
        | true =>
          rw [ih (h.push name.2 rfl), and_iff_right rfl]
        | false =>
          refine iff_of_false (fun hb => ?_) fun hend => Bool.false_ne_true hend.1
          exact h.not_stands name.2 (congrArg (s.completePath ++ [·]) (List.append_nil _)) hb.stands
      · rw [if_neg hopen] at hrun
        have hnone : os.opendir s.calls.length (text "./page/") = none :=
          Option.not_isSome_iff_eq_none.mp hopen
        rw [behaves_cons hrun rfl fun _ => rfl, and_iff_right h.stands, Ended,
          and_iff_right (.inr hnone), ← hcalls]
        exact ih (h.of_eq rfl)

/-- **The sessions that behave like a stack of directories**: exactly those in which every name that
can be entered is entered with its slash. -/
theorem behaves_iff_ended (hroot : root.getLast? = some Chr.slash) (hs : s.completePath = [root]) :
    Behaves os base root [] s cds ↔ Ended os s.calls.length cds :=
  (slashed_root hroot hs).behaves_iff

end Step

/-! ## Two sessions -/

/-- A system in which every directory can be opened. -/
def Os.opening : Os := { Os.refusing with opendir := fun _ _ => some [] }

/-- A session in its root directory `r/`. -/
def Session.inRoot : Session := .new (fun _ => none) (text "r/") 1 (fun _ => none) []

theorem isName_a : IsName (text "a") := by decide

/-- The name `a`. -/
def aName : { x : Bytes // IsName x } := ⟨text "a", isName_a⟩

/-- `cd a/`, `cd a/`, `cd ..`, `cd .`. -/
theorem behaves_slashes : Behaves .opening [] (text "r/") [] .inRoot
    [⟨.child aName, true⟩, ⟨.child aName, true⟩, ⟨.up, false⟩, ⟨.here, false⟩] :=
  (behaves_iff_ended (by decide) rfl).mpr ⟨.inl rfl, .inl rfl, trivial⟩

/-- **`cd a`**, and a file `a` is `r/aa`. -/
theorem not_behaves_name : ¬ ∀ (os : Os) (base : List Bytes) (root : Bytes) (s : Session)
    (cds : List Cd), (∀ n path, (os.opendir n path).isSome) → root.getLast? = some Chr.slash →
      s.completePath = [root] → Behaves os base root [] s cds := by
  intro hall
  have hroot : (text "r/").getLast? = some Chr.slash := by decide
  have hend := (slashed_root hroot rfl).behaves_iff.mp
    (hall .opening [] (text "r/") .inRoot [⟨.child aName, false⟩] (fun _ _ => rfl) hroot rfl)
  exact hend.1.elim Bool.false_ne_true (Option.some_ne_none _)

end WebServer.Ftp
