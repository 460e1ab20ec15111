import WebServer.Ftp.Effects
import WebServer.Lib.FileTree

/-!
# Ftp/Posix — a session over a file tree

What `opendir`, `readdir`, `remove` and `rmdir` answer, and what they do to the tree, as POSIX has
it for a process with every permission.  `Does` is a run over a tree: the answers that the session
gets are those that the tree gives at the time of each call, and the tree changes with the calls.
-/

namespace WebServer.Ftp

open Program

/-! ## The calls -/

/-- **What `readdir` lists** of a directory, in any order: every entry once and with its type; `.`
and `..` may be listed too. -/
structure ReadsDir (t : FileTree) (l : Location) (entries : List Dirent) : Prop where
  once : (entries.map (·.name)).Nodup
  entry : ∀ e ∈ entries, (e.name = text "." ∨ e.name = text "..") ∧ e.isDir = true ∨
    l ++ [e.name] ∈ if e.isDir then t.dirs else t.files
  all : ∀ m ∈ t.nodes, ∀ x ∈ m.getLast?, m.dropLast = l → ∃ e ∈ entries, e.name = x

instance (t : FileTree) (l : Location) (entries : List Dirent) : Decidable (ReadsDir t l entries) :=
  decidable_of_iff ((entries.map (·.name)).Nodup ∧
      (∀ e ∈ entries, (e.name = text "." ∨ e.name = text "..") ∧ e.isDir = true ∨
        l ++ [e.name] ∈ if e.isDir then t.dirs else t.files) ∧
      ∀ m ∈ t.nodes, ∀ x ∈ m.getLast?, m.dropLast = l → ∃ e ∈ entries, e.name = x)
    ⟨fun ⟨honce, hentry, hall⟩ => ⟨honce, hentry, hall⟩, fun h => ⟨h.once, h.entry, h.all⟩⟩

/-- The entry that a call removes. -/
def SysCall.removes (base : Location) (t : FileTree) : SysCall → Option Location
  | .remove p => t.leafAt base p
  | .rmdir p => t.emptyDirAt base p
  | .opendir _ | .openFile _ _ | .mkdir _ => none

/-- The tree that a call leaves. -/
def SysCall.after (base : Location) (t : FileTree) (c : SysCall) : FileTree :=
  match c.removes base t with
  | some l => t.erase l
  | none => t

/-- **The answer to a call** is the tree's.  Opening a file and making a directory are left out: no
answer to them is the tree's. -/
def Os.Answers (os : Os) (base : Location) (t : FileTree) (n : ℕ) : SysCall → Prop
  | .opendir p => match t.dirAt base p, os.opendir n p with
    | some l, some entries => ReadsDir t l entries
    | none, none => True
    | _, _ => False
  | .remove p => (os.remove n p).isSome = (t.leafAt base p).isSome
  | .rmdir p => os.rmdir n p = (t.emptyDirAt base p).isSome
  | .openFile _ _ | .mkdir _ => False

instance (os : Os) (base : Location) (t : FileTree) (n : ℕ) : DecidablePred (os.Answers base t n)
  | .opendir p => by
    dsimp only [Os.Answers]
    split <;> infer_instance
  | .remove p => inferInstanceAs (Decidable (_ = _))
  | .rmdir p => inferInstanceAs (Decidable (_ = _))
  | .openFile _ _ => inferInstanceAs (Decidable False)
  | .mkdir _ => inferInstanceAs (Decidable False)

/-- **The answers to calls in a row**, from the `n`-th on. -/
def Os.Follows (os : Os) (base : Location) : FileTree → ℕ → List SysCall → Prop
  | _, _, [] => True
  | t, n, c :: cs => os.Answers base t n c ∧ os.Follows base (c.after base t) (n + 1) cs

instance Os.Follows.decidable (os : Os) (base : Location) :
    ∀ t n cs, Decidable (os.Follows base t n cs)
  | _, _, [] => inferInstanceAs (Decidable True)
  | t, n, c :: cs =>
    have := Os.Follows.decidable os base (c.after base t) (n + 1) cs
    inferInstanceAs (Decidable (_ ∧ _))

section Calls

variable {os : Os} {base : Location} {t : FileTree} {n : ℕ}

theorem after_of_removes {c : SysCall} {l : Location} (h : c.removes base t = some l) :
    c.after base t = t.erase l := by rw [SysCall.after, h]

theorem after_of_none {c : SysCall} (h : c.removes base t = none) : c.after base t = t := by
  rw [SysCall.after, h]

theorem after_subset (c : SysCall) : (c.after base t).nodes ⊆ t.nodes := by
  intro m hm
  rw [SysCall.after] at hm
  split at hm
  · exact (FileTree.mem_erase.mp hm).1
  · exact hm

theorem foldl_after_subset (cs : List SysCall) :
    (cs.foldl (SysCall.after base) t).nodes ⊆ t.nodes := by
  induction cs generalizing t with
  | nil => exact Finset.Subset.refl _
  | cons c cs ih => exact ih.trans (after_subset c)

theorem follows_append (cs ds : List SysCall) : os.Follows base t n (cs ++ ds) ↔
    os.Follows base t n cs ∧
      os.Follows base (cs.foldl (SysCall.after base) t) (n + cs.length) ds := by
  induction cs generalizing t n with
  | nil => exact (iff_of_eq (true_and _)).symm
  | cons c cs ih =>
    rw [List.cons_append, Os.Follows, ih, Os.Follows, and_assoc, List.length_cons, Nat.add_assoc,
      Nat.add_comm 1, List.foldl_cons]

end Calls

/-! ## Runs over a tree -/

/-- **From a tree to a tree**, along the calls that a session makes. -/
def Leads (os : Os) (base : Location) (t : FileTree) (s : Session) (t' : FileTree) (s' : Session) :
    Prop :=
  ∃ cs, s'.calls = s.calls ++ cs ∧ os.Follows base t s.calls.length cs ∧
    cs.foldl (SysCall.after base) t = t'

/-- **A run over a tree**: what the program answers, the session it leaves, and the tree. -/
def Does {α : Type} (os : Os) (base : Location) (x : Program Session α) (s : Session)
    (t : FileTree) (r : Option α × Session) (t' : FileTree) : Prop :=
  x s = r ∧ Leads os base t s t' r.2

/-- A program that calls the system and stays in its directory. -/
abbrev Growing {α : Type} (os : Os) (x : Program Session α) : Prop :=
  ∀ s : Session, Keeps (Since os s (fun _ => True) (· = s.completePath)) x fun _ => True

/-- The calls that a program makes. -/
def newCalls {α : Type} (x : Program Session α) (s : Session) : List SysCall :=
  (x s).2.calls.drop s.calls.length

section Does

variable {α β : Type} {os : Os} {base : Location} {x : Program Session α}
  {f : α → Program Session β} {s s' : Session} {t t' : FileTree} {a : α}

theorem Leads.subset (h : Leads os base t s t' s') : t'.nodes ⊆ t.nodes := by
  obtain ⟨cs, -, -, rfl⟩ := h
  exact foldl_after_subset cs

/-- Where no call is made the tree is the same. -/
theorem Leads.eq (h : Leads os base t s t' s') (hc : s'.calls = s.calls) : t' = t := by
  obtain ⟨cs, hcs, -, rfl⟩ := h
  rw [hc, List.self_eq_append_right] at hcs
  rw [hcs]
  rfl

/-- One call. -/
theorem Leads.called {c : SysCall} (h : Leads os base t s t' s') (hc : s'.calls = s.calls ++ [c]) :
    os.Answers base t s.calls.length c ∧ t' = c.after base t := by
  obtain ⟨cs, hcs, hfollows, rfl⟩ := h
  obtain rfl := List.append_cancel_left (hc.symm.trans hcs)
  exact ⟨hfollows.1, rfl⟩

theorem Leads.split {s₁ : Session} {cs ds : List SysCall} (h : Leads os base t s t' s')
    (hcs : s₁.calls = s.calls ++ cs) (hds : s'.calls = s₁.calls ++ ds) :
    ∃ t₁, Leads os base t s t₁ s₁ ∧ Leads os base t₁ s₁ t' s' := by
  obtain ⟨es, hes, hfollows, rfl⟩ := h
  rw [hds, hcs, List.append_assoc] at hes
  obtain rfl := List.append_cancel_left hes
  obtain ⟨hfirst, hrest⟩ := (follows_append cs ds).mp hfollows
  refine ⟨_, ⟨cs, hcs, hfirst, rfl⟩, ds, hds, ?_, (List.foldl_append ..).symm⟩
  rwa [hcs, List.length_append]

theorem Growing.calls (hx : Growing os x) (s : Session) : ∃ cs, (x s).2.calls = s.calls ++ cs :=
  (hx s s (Since.refl rfl)).1.calls.imp fun _ h => h.1

theorem Growing.path (hx : Growing os x) (s : Session) : (x s).2.completePath = s.completePath :=
  (hx s s (Since.refl rfl)).1.path

/-- A run whose calls are answered as the tree has it. -/
theorem Growing.does (hx : Growing os x) (h : os.Follows base t s.calls.length (newCalls x s)) :
    Does os base x s t (x s) ((newCalls x s).foldl (SysCall.after base) t) := by
  obtain ⟨cs, hcs⟩ := hx.calls s
  refine ⟨rfl, newCalls x s, ?_, h, rfl⟩
  rw [newCalls, hcs, List.drop_left]

/-- **A run of one program after another.** -/
theorem Does.of_bind {r : Option β × Session} (h : Does os base (x >>= f) s t r t')
    (hx : Growing os x) (hf : ∀ a, Growing os (f a)) :
    (∃ s₁, Does os base x s t (none, s₁) t' ∧ r.1 = none) ∨
      ∃ a s₁ t₁, Does os base x s t (some a, s₁) t₁ ∧ Does os base (f a) s₁ t₁ r t' := by
  obtain ⟨rfl, hleads⟩ := h
  obtain ⟨cs, hcs⟩ := hx.calls s
  obtain ⟨o, s₁, hrun⟩ : ∃ o s₁, x s = (o, s₁) := ⟨_, _, rfl⟩
  rw [hrun] at hcs
  cases o with
  | none =>
    rw [bind_of_none hrun] at hleads ⊢
    exact .inl ⟨s₁, ⟨hrun, hleads⟩, rfl⟩
  | some a =>
    rw [bind_of_some hrun] at hleads ⊢
    obtain ⟨ds, hds⟩ := (hf a).calls s₁
    obtain ⟨t₁, hfirst, hrest⟩ := hleads.split hcs hds
    exact .inr ⟨a, s₁, t₁, ⟨hrun, hfirst⟩, rfl, hrest⟩

/-- What the first of two programs removes is not there in the end. -/
theorem Does.fst {r : Option β × Session} (h : Does os base (x >>= f) s t r t') (hx : Growing os x)
    (hf : ∀ a, Growing os (f a)) : ∃ r₁ t₁, Does os base x s t r₁ t₁ ∧ t'.nodes ⊆ t₁.nodes := by
  obtain ⟨s₁, hfirst, -⟩ | ⟨a, s₁, t₁, hfirst, hrest⟩ := h.of_bind hx hf
  · exact ⟨_, t', hfirst, Finset.Subset.refl _⟩
  · exact ⟨_, t₁, hfirst, hrest.2.subset⟩

end Does

end WebServer.Ftp
