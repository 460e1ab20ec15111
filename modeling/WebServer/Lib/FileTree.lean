import Mathlib.Data.Finset.Basic
import WebServer.Lib.Path

/-!
# Lib/FileTree — files, directories, and what a path names among them

A tree is a finite set of files and one of directories, each named by the names that lead to it from
the top.  A path is followed through directories only, one component at a time.  A leaf — a file or
an empty directory — can be removed, and what is left is a tree again (`FileTree.erase`).
-/

/-- A location: the names that lead to it from the top. -/
abbrev Location := List Bytes

/-- **A file tree.**  Every entry but the top has a name, and stands in a directory. -/
structure FileTree where
  files : Finset Location
  dirs : Finset Location
  disjoint : Disjoint files dirs
  top : [] ∈ dirs
  entry : ∀ l ∈ files ∪ dirs, ∀ x ∈ l.getLast?, Path.IsName x ∧ l.dropLast ∈ dirs

namespace FileTree

/-- What there is. -/
def nodes (t : FileTree) : Finset Location := t.files ∪ t.dirs

/-- **A leaf**: nothing is below it. -/
structure Leaf (t : FileTree) (l : Location) : Prop where
  mem : l ∈ t.nodes
  ne_nil : l ≠ []
  below : ∀ m ∈ t.nodes, l <+: m → m = l

instance (t : FileTree) (l : Location) : Decidable (t.Leaf l) :=
  decidable_of_iff (l ∈ t.nodes ∧ l ≠ [] ∧ ∀ m ∈ t.nodes, l <+: m → m = l)
    ⟨fun ⟨hmem, hne, hbelow⟩ => ⟨hmem, hne, hbelow⟩, fun h => ⟨h.mem, h.ne_nil, h.below⟩⟩

section Entries

variable {t : FileTree} {l m : Location} {x : Bytes}

theorem isName_of_mem (h : l ++ [x] ∈ t.nodes) : Path.IsName x :=
  (t.entry _ h x (by rw [List.getLast?_concat]; exact rfl)).1

theorem dir_of_mem (h : l ++ [x] ∈ t.nodes) : l ∈ t.dirs := by
  have hdir := (t.entry _ h x (by rw [List.getLast?_concat]; exact rfl)).2
  rwa [List.dropLast_concat] at hdir

/-- A directory in which nothing stands is a leaf. -/
theorem leaf_of_forall (hl : l ∈ t.dirs) (hne : l ≠ []) (h : ∀ x, l ++ [x] ∉ t.nodes) :
    t.Leaf l where
  mem := Finset.mem_union_right _ hl
  ne_nil := hne
  below m hm hprefix := by
    obtain ⟨rest, rfl⟩ := hprefix
    -- the names below `l` are taken off from the end
    induction rest using List.reverseRecOn with
    | nil => rw [List.append_nil]
    | append_singleton rest y ih =>
      rw [← List.append_assoc] at hm
      have hdir := ih (Finset.mem_union_right _ (dir_of_mem hm))
      rw [hdir] at hm
      exact absurd hm (h y)

theorem Leaf.not_mem (h : t.Leaf l) (x : Bytes) : l ++ [x] ∉ t.nodes := fun hm => by
  have heq := h.below _ hm (List.prefix_append _ _)
  rw [List.append_right_eq_self] at heq
  exact List.cons_ne_nil _ _ heq

end Entries

/-! ## Removing -/

/-- **The tree without a leaf.** -/
def erase (t : FileTree) (l : Location) : FileTree :=
  if h : t.Leaf l then
    { files := t.files.erase l
      dirs := t.dirs.erase l
      disjoint := t.disjoint.mono (Finset.erase_subset _ _) (Finset.erase_subset _ _)
      top := Finset.mem_erase.mpr ⟨h.ne_nil.symm, t.top⟩
      entry := fun m hm x hx => by
        rw [← Finset.erase_union_distrib] at hm
        have hmem : m ∈ t.nodes := Finset.mem_of_mem_erase hm
        obtain ⟨hname, hdir⟩ := t.entry m hmem x hx
        refine ⟨hname, Finset.mem_erase.mpr ⟨fun hl => ?_, hdir⟩⟩
        rw [← List.dropLast_append_getLast? x hx, hl] at hmem
        exact h.not_mem x hmem }
  else t

theorem mem_erase {t : FileTree} {l m : Location} :
    m ∈ (t.erase l).nodes ↔ m ∈ t.nodes ∧ ¬(t.Leaf l ∧ m = l) := by
  rw [erase]
  split
  · next h =>
    rw [nodes, ← Finset.erase_union_distrib, Finset.mem_erase]
    exact ⟨fun ⟨hne, hm⟩ => ⟨hm, fun hl => hne hl.2⟩, fun ⟨hm, hne⟩ => ⟨fun hl => hne ⟨h, hl⟩, hm⟩⟩
  · next h => exact ⟨fun hm => ⟨hm, fun hl => h hl.1⟩, And.left⟩

theorem Leaf.not_mem_erase {t : FileTree} {l : Location} (h : t.Leaf l) : l ∉ (t.erase l).nodes :=
  fun hl => (mem_erase.mp hl).2 ⟨h, rfl⟩

/-! ## Paths -/

/-- **Following components**, through directories. -/
def walk (t : FileTree) : Location → List Bytes → Option Location
  | l, [] => some l
  | l, c :: cs => if l ∈ t.dirs then t.walk (Path.go l c) cs else none

/-- **Where a path leads**; the empty path leads nowhere. -/
def find (t : FileTree) (workingDir : Location) (p : Bytes) : Option Location :=
  if p = [] then none else t.walk (Path.start workingDir p) (Path.components p)

/-- The directory that a path names. -/
def dirAt (t : FileTree) (workingDir : Location) (p : Bytes) : Option Location :=
  (t.find workingDir p).filter (· ∈ t.dirs)

/-- A path that ends in a name, slashes apart: neither in `.` nor in `..`. -/
def endsInName (p : Bytes) : Bool :=
  ((Path.components p).filter (· ≠ [])).getLast?.any fun x => x ≠ text "." ∧ x ≠ text ".."

/-- **The leaf that a path names.** -/
def leafAt (t : FileTree) (workingDir : Location) (p : Bytes) : Option Location :=
  (t.find workingDir p).filter fun l => endsInName p ∧ t.Leaf l

/-- The empty directory that a path names. -/
def emptyDirAt (t : FileTree) (workingDir : Location) (p : Bytes) : Option Location :=
  (t.leafAt workingDir p).filter (· ∈ t.dirs)

section Paths

variable {t : FileTree} {workingDir l : Location} {cs : List Bytes} {p x : Bytes}

theorem eq_of_walk {m : Location} (h : t.walk l cs = some m) : m = cs.foldl Path.go l := by
  induction cs generalizing l with
  | nil => exact (Option.some.inj h).symm
  | cons c cs ih =>
    rw [walk] at h
    split at h
    · exact ih h
    · cases h

/-- **A name behind a path** is looked up where the path's last component is. -/
theorem eq_of_find (hx : Chr.slash ∉ x) (hname : Path.IsName (Path.final p ++ x))
    (h : t.find workingDir (p ++ x) = some l) :
    l = Path.directory workingDir p ++ [Path.final p ++ x] := by
  rw [find] at h
  split at h
  · cases h
  · rw [Path.start_append hx, Path.components_append_of_not_mem p hx] at h
    rw [eq_of_walk h, List.foldl_append, List.foldl_cons, List.foldl_nil, Path.go_of_isName hname]
    rfl

theorem endsInName_append (hx : Chr.slash ∉ x) (hname : Path.IsName (Path.final p ++ x)) :
    endsInName (p ++ x) := by
  have hself : [Path.final p ++ x].filter (· ≠ []) = [Path.final p ++ x] :=
    List.filter_eq_self.mpr fun y hy => decide_eq_true (List.mem_singleton.mp hy ▸ hname.ne_nil)
  rw [endsInName, Path.components_append_of_not_mem p hx, List.filter_append, hself,
    List.getLast?_concat]
  exact decide_eq_true ⟨hname.dot, hname.dots⟩

theorem dirAt_eq_some : t.dirAt workingDir p = some l ↔
    t.find workingDir p = some l ∧ l ∈ t.dirs := by
  rw [dirAt, Option.filter_eq_some_iff, decide_eq_true_iff]

theorem leafAt_eq_some : t.leafAt workingDir p = some l ↔
    t.find workingDir p = some l ∧ endsInName p ∧ t.Leaf l := by
  rw [leafAt, Option.filter_eq_some_iff, decide_eq_true_iff]

theorem emptyDirAt_eq_some : t.emptyDirAt workingDir p = some l ↔
    t.leafAt workingDir p = some l ∧ l ∈ t.dirs := by
  rw [emptyDirAt, Option.filter_eq_some_iff, decide_eq_true_iff]

end Paths

end FileTree
