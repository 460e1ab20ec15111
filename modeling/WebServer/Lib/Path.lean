import WebServer.Lib.Bytes
import Mathlib.Logic.Relation

/-!
# Lib/Path — where a path leads, lexically

A path is cut at its slashes; `.` and nothing stay in place, `..` goes up, any other name goes down.
A text that never goes above where it starts stays below the directory whose name it is appended to,
if the two meet at a slash (`Inside.within`).
-/

namespace Path

/-- The parts of a path between its slashes. -/
def components : Bytes → List Bytes
  | [] => [[]]
  | c :: p =>
    if c = Chr.slash then [] :: components p
    else match components p with
      | [] => [[c]]
      | q :: qs => (c :: q) :: qs

/-- **One component**, from a location named by its components from the top. -/
def go (location : List Bytes) (c : Bytes) : List Bytes :=
  if c = [] ∨ c = text "." then location
  else if c = text ".." then location.dropLast
  else location ++ [c]

/-- **Where a path leads**, from the working directory. -/
def resolve (workingDir : List Bytes) (p : Bytes) : List Bytes :=
  (components p).foldl go (if p.head? = some Chr.slash then [] else workingDir)

/-- One path leads to where another leads, or below. -/
def Within (workingDir : List Bytes) (root p : Bytes) : Prop :=
  resolve workingDir root <+: resolve workingDir p

/-- **Components that never lead above** a location `d` levels below the start. -/
def descends : ℕ → List Bytes → Bool
  | _, [] => true
  | d, c :: cs =>
    if c = [] ∨ c = text "." then descends d cs
    else if c = text ".." then 0 < d && descends (d - 1) cs
    else descends (d + 1) cs

/-- **A text that leads on from the directory** it is appended to, and never above: it meets the
directory's name at a slash. -/
def Joined (root p : Bytes) : Prop :=
  (if root = [] then p.head? ≠ some Chr.slash
    else root.getLast? = some Chr.slash ∨ p.head? = some Chr.slash) ∧ descends 0 (components p)

/-- **A text that stays in the directory.** -/
def Inside (root p : Bytes) : Prop := p = [] ∨ Joined root p

instance (root p : Bytes) : Decidable (Joined root p) := by
  unfold Joined
  infer_instance

instance (root p : Bytes) : Decidable (Inside root p) := inferInstanceAs (Decidable (_ ∨ _))

instance (workingDir : List Bytes) (root p : Bytes) : Decidable (Within workingDir root p) :=
  inferInstanceAs (Decidable (_ <+: _))

/-! ## Locations -/

theorem components_ne_nil : ∀ p, components p ≠ []
  | [] => List.cons_ne_nil _ _
  | c :: p => by
      rw [components]
      split
      · exact List.cons_ne_nil _ _
      · split <;> exact List.cons_ne_nil _ _

theorem components_slash (q : Bytes) : components (Chr.slash :: q) = [] :: components q := by
  rw [components, if_pos rfl]

/-- A slash ends the components before it. -/
theorem components_append_slash (p q : Bytes) :
    components (p ++ Chr.slash :: q) = components p ++ components q := by
  induction p with
  | nil =>
    rw [List.nil_append, components_slash]
    rfl
  | cons c p ih =>
    rw [List.cons_append, components, components, ih]
    split
    · rfl
    · obtain ⟨x, xs, hx⟩ := List.exists_cons_of_ne_nil (components_ne_nil p)
      rw [hx]
      rfl

variable {d : ℕ} {location ext : List Bytes} {cs : List Bytes} {workingDir : List Bytes}
  {root p : Bytes}

theorem go_nil : go location [] = location := if_pos (.inl rfl)

/-- **Descending components stay below** the location they start from. -/
theorem prefix_of_descends (h : descends d cs) (hd : ext.length = d) :
    location <+: cs.foldl go (location ++ ext) := by
  induction cs generalizing d ext with
  | nil => exact List.prefix_append _ _
  | cons c cs ih =>
    rw [descends] at h
    rw [List.foldl_cons, go]
    split at h
    · next hc =>
      rw [if_pos hc]
      exact ih h hd
    · next hc =>
      rw [if_neg hc]
      split at h
      · next hup =>
        obtain ⟨hpos, h⟩ := Bool.and_eq_true_iff.mp h
        have hne : ext ≠ [] := List.ne_nil_of_length_pos (hd ▸ of_decide_eq_true hpos)
        rw [if_pos hup, List.dropLast_append_of_ne_nil hne]
        exact ih h (by rw [List.length_dropLast, hd])
      · next hup =>
        rw [if_neg hup, List.append_assoc]
        exact ih h (by rw [List.length_append, hd, List.length_singleton])

theorem Within.refl : Within workingDir root root := List.prefix_rfl

/-- **A text that meets a directory's name at a slash** leads on from the directory. -/
theorem resolve_append (hroot : root ≠ [])
    (h : root.getLast? = some Chr.slash ∨ p.head? = some Chr.slash) :
    resolve workingDir (root ++ p) = (components p).foldl go (resolve workingDir root) := by
  rw [resolve, resolve, List.head?_append_of_ne_nil _ hroot]
  obtain h | h := h
  · obtain ⟨r, rfl⟩ := List.getLast?_eq_some_iff.mp h
    rw [List.append_assoc, List.singleton_append, components_append_slash, List.foldl_append,
      components_append_slash, List.foldl_append]
    exact congrArg (List.foldl go · _) go_nil.symm
  · obtain ⟨q, rfl⟩ := List.head?_eq_some_iff.mp h
    rw [components_append_slash, List.foldl_append, components_slash, List.foldl_cons, go_nil]

/-- **A text inside a directory leads to it or below.** -/
theorem Inside.within (h : Inside root p) : Within workingDir root (root ++ p) := by
  obtain rfl | ⟨hjoin, hdesc⟩ := h
  · rw [List.append_nil]
    exact Within.refl
  · have hbelow (location : List Bytes) : location <+: (components p).foldl go location := by
      have h : location <+: (components p).foldl go (location ++ []) := prefix_of_descends hdesc rfl
      rwa [List.append_nil] at h
    split at hjoin
    · next hroot =>
      subst hroot
      rw [Within, List.nil_append, resolve, resolve, if_neg hjoin]
      change go workingDir [] <+: _
      rw [go_nil]
      exact hbelow workingDir
    · next hroot =>
      rw [Within, resolve_append hroot hjoin]
      exact hbelow _

/-! ## Climbing out -/

/-- One component of a text read from nowhere: how far it has climbed, and the names it has gone
down since. -/
def climbStep (r : ℕ × List Bytes) (c : Bytes) : ℕ × List Bytes :=
  if c = [] ∨ c = text "." then r
  else if c = text ".." then if r.2 = [] then (r.1 + 1, []) else (r.1, r.2.dropLast)
  else (r.1, r.2 ++ [c])

/-- **How far a text climbs**, and the names it then goes down. -/
def climb (p : Bytes) : ℕ × List Bytes := (components p).foldl climbStep (0, [])

/-- A component that leads one level down. -/
def Down (c : Bytes) : Prop := ¬ (c = [] ∨ c = text ".") ∧ c ≠ text ".."

/-- **Components that take each other back**: an empty one or a `.` is none, and a name cancels with
the `..` behind it. -/
inductive Cancel : List Bytes → List Bytes → Prop
  | stay {l r : List Bytes} {c : Bytes} : c = [] ∨ c = text "." → Cancel (l ++ c :: r) (l ++ r)
  | back {l r : List Bytes} {c : Bytes} : Down c → Cancel (l ++ c :: text ".." :: r) (l ++ r)

/-- **A text that comes back** to `location`: what is left of its components is `k` times `..` and
then names, and these begin with the last `k` names of `location`. -/
def ComesBack (location : List Bytes) (p : Bytes) : Prop :=
  ∃ k names, Relation.ReflTransGen Cancel (components p) (List.replicate k (text "..") ++ names) ∧
    (∀ c ∈ names, Down c) ∧ location.drop (location.length - k) <+: names

theorem Cancel.append {cs ds : List Bytes} (h : Cancel cs ds) (x : List Bytes) :
    Cancel (cs ++ x) (ds ++ x) := by
  cases h with
  | stay hc =>
    rw [List.append_assoc, List.append_assoc]
    exact .stay hc
  | back hc =>
    rw [List.append_assoc, List.append_assoc]
    exact .back hc

theorem climbStep_down {c : Bytes} (hc : Down c) (r : ℕ × List Bytes) :
    climbStep r c = (r.1, r.2 ++ [c]) := by
  rw [climbStep, if_neg hc.1, if_neg hc.2]

theorem climbStep_up (r : ℕ × List Bytes) :
    climbStep r (text "..") = if r.2 = [] then (r.1 + 1, []) else (r.1, r.2.dropLast) := by
  rw [climbStep, if_neg (by decide), if_pos rfl]

/-- What cancels does not climb. -/
theorem Cancel.foldl_climbStep {cs ds : List Bytes} (h : Cancel cs ds) (r : ℕ × List Bytes) :
    cs.foldl climbStep r = ds.foldl climbStep r := by
  cases h with
  | stay hc => rw [List.foldl_append, List.foldl_append, List.foldl_cons, climbStep, if_pos hc]
  | back hc =>
    rw [List.foldl_append, List.foldl_append, List.foldl_cons, List.foldl_cons, climbStep_down hc,
      climbStep_up, if_neg (by simp), List.dropLast_concat]

theorem foldl_climbStep_names {names : List Bytes} (h : ∀ c ∈ names, Down c) (k : ℕ) :
    names.foldl climbStep (k, []) = (k, names) := by
  induction names using List.reverseRecOn with
  | nil => rfl
  | append_singleton names c ih =>
    rw [List.foldl_append, ih fun d hd => h d (List.mem_append_left _ hd), List.foldl_cons,
      climbStep_down (h c (by simp))]
    rfl

theorem foldl_climbStep_ups (k : ℕ) :
    (List.replicate k (text "..")).foldl climbStep (0, []) = (k, []) := by
  induction k with
  | zero => rfl
  | succ k ih =>
    rw [List.replicate_succ', List.foldl_append, ih, List.foldl_cons, climbStep_up, if_pos rfl]
    rfl

theorem foldl_climbStep_of_cancel {cs ds : List Bytes} (h : Relation.ReflTransGen Cancel cs ds)
    (r : ℕ × List Bytes) : cs.foldl climbStep r = ds.foldl climbStep r := by
  induction h with
  | refl => rfl
  | tail _ hstep ih => rw [ih, hstep.foldl_climbStep]

/-- The components that are left of a text that climbs `r`. -/
def left (r : ℕ × List Bytes) : List Bytes := List.replicate r.1 (text "..") ++ r.2

/-- **One more component**, behind what is left of the others. -/
theorem cancel_climbStep {r : ℕ × List Bytes} (hr : ∀ d ∈ r.2, Down d) (c : Bytes) :
    Relation.ReflTransGen Cancel (left r ++ [c]) (left (climbStep r c)) ∧
      ∀ d ∈ (climbStep r c).2, Down d := by
  obtain ⟨k, names⟩ := r
  by_cases hstay : c = [] ∨ c = text "."
  · rw [climbStep, if_pos hstay]
    have hout := Cancel.stay (l := left (k, names)) (r := []) hstay
    rw [List.append_nil] at hout
    exact ⟨.single hout, hr⟩
  · by_cases hup : c = text ".."
    · subst hup
      rw [climbStep_up]
      obtain rfl | ⟨init, last, rfl⟩ := List.eq_nil_or_concat' names
      · rw [if_pos rfl, left, left, List.replicate_succ', List.append_nil, List.append_nil]
        exact ⟨.refl, hr⟩
      · rw [if_neg (by simp)]
        dsimp only
        rw [List.dropLast_concat]
        refine ⟨.single ?_, fun d hd => hr d (List.mem_append_left _ hd)⟩
        have hout := Cancel.back (l := left (k, init)) (r := []) (hr last (by simp))
        rw [List.append_nil] at hout
        rw [left, left, List.append_assoc, List.append_assoc, List.singleton_append]
        rwa [left, List.append_assoc] at hout
    · have hdown : Down c := ⟨hstay, hup⟩
      rw [climbStep_down hdown, left, left, List.append_assoc]
      refine ⟨.refl, fun d hd => ?_⟩
      obtain hd | hd := List.mem_append.mp hd
      · exact hr d hd
      · exact List.mem_singleton.mp hd ▸ hdown

/-- **What is left of a text** is what it climbs and the names it then goes down. -/
theorem cancel_foldl_climbStep (cs : List Bytes) :
    Relation.ReflTransGen Cancel cs (left (cs.foldl climbStep (0, []))) ∧
      ∀ c ∈ (cs.foldl climbStep (0, [])).2, Down c := by
  induction cs using List.reverseRecOn with
  | nil => exact ⟨.refl, fun c hc => absurd hc List.not_mem_nil⟩
  | append_singleton cs c ih =>
    obtain ⟨hcancel, hnames⟩ := ih
    obtain ⟨hnext, hdown⟩ := cancel_climbStep hnames c
    rw [List.foldl_append, List.foldl_cons, List.foldl_nil]
    exact ⟨(hcancel.lift (· ++ [c]) fun _ _ h => h.append [c]).trans hnext, hdown⟩

/-- **Whether a text comes back** can be read off what it climbs. -/
theorem comesBack_iff {location : List Bytes} {p : Bytes} : ComesBack location p ↔
    location.drop (location.length - (climb p).1) <+: (climb p).2 := by
  constructor
  · rintro ⟨k, names, hcancel, hnames, hback⟩
    have hclimb : climb p = (k, names) := by
      rw [climb, foldl_climbStep_of_cancel hcancel, List.foldl_append, foldl_climbStep_ups,
        foldl_climbStep_names hnames]
    rw [hclimb]
    exact hback
  · intro hback
    obtain ⟨hcancel, hnames⟩ := cancel_foldl_climbStep (components p)
    exact ⟨_, _, hcancel, hnames, hback⟩

instance (location : List Bytes) (p : Bytes) : Decidable (ComesBack location p) :=
  decidable_of_iff _ comesBack_iff.symm

/-- Where components lead, by what they climb. -/
theorem foldl_go_climb (location : List Bytes) : ∀ (cs : List Bytes) (r : ℕ × List Bytes),
    cs.foldl go (location.take (location.length - r.1) ++ r.2)
      = location.take (location.length - (cs.foldl climbStep r).1) ++ (cs.foldl climbStep r).2
  | [], r => rfl
  | c :: cs, (k, names) => by
      rw [List.foldl_cons, List.foldl_cons, ← foldl_go_climb location cs]
      congr 1
      rw [go, climbStep]
      split
      · rfl
      · split
        · split
          · next hnil =>
            have hnil : names = [] := hnil
            rw [hnil, List.append_nil, List.append_nil, List.dropLast_eq_take, List.take_take,
              List.length_take]
            congr 1
            omega
          · next hne => rw [List.dropLast_append_of_ne_nil hne]
        · rw [List.append_assoc]

/-- **A text appended to a directory leads to it or below** exactly if it comes back. -/
theorem within_append_iff (hroot : root.getLast? = some Chr.slash) :
    Within workingDir root (root ++ p) ↔ ComesBack (resolve workingDir root) p := by
  have hne : root ≠ [] := by
    rintro rfl
    exact absurd hroot (by simp)
  obtain ⟨location, hlocation⟩ : ∃ l, l = resolve workingDir root := ⟨_, rfl⟩
  have hgo := foldl_go_climb location (components p) (0, [])
  rw [Nat.sub_zero, List.take_length, List.append_nil] at hgo
  obtain ⟨m, hm⟩ : ∃ m, m = location.length - (climb p).1 := ⟨_, rfl⟩
  have hcut : location.take m ++ location.drop m <+: location.take m ++ (climb p).2 ↔
      location.drop m <+: (climb p).2 := List.prefix_append_right_inj _
  rw [List.take_append_drop, hm] at hcut
  rw [Within, resolve_append hne (.inl hroot), ← hlocation, hgo, comesBack_iff]
  exact hcut

/-! ## Names added to a path -/

section Append

variable {u x : Bytes}

theorem components_of_not_mem (hx : Chr.slash ∉ x) : components x = [x] := by
  induction x with
  | nil => rfl
  | cons c x ih =>
    obtain ⟨hc, hx⟩ := not_or.mp fun h => hx (List.mem_cons.mpr h)
    rw [components, if_neg (Ne.symm hc), ih hx]

/-- A name without a slash goes on with the last component. -/
theorem components_append_name (u : Bytes) (hx : Chr.slash ∉ x) :
    ∃ init last, components u = init ++ [last] ∧ components (u ++ x) = init ++ [last ++ x] := by
  induction u with
  | nil => exact ⟨[], [], rfl, components_of_not_mem hx⟩
  | cons c u ih =>
    obtain ⟨init, last, hu, hux⟩ := ih
    rw [List.cons_append, components, components, hu, hux]
    by_cases hc : c = Chr.slash
    · rw [if_pos hc, if_pos hc]
      exact ⟨[] :: init, last, rfl, rfl⟩
    · rw [if_neg hc, if_neg hc]
      cases init with
      | nil => exact ⟨[], c :: last, rfl, rfl⟩
      | cons i init => exact ⟨(c :: i) :: init, last, rfl, rfl⟩

/-- The last component matters only if it leads up. -/
theorem descends_last {init : List Bytes} {c c' : Bytes} (h : descends d (init ++ [c]))
    (hc : c' ≠ text "..") : descends d (init ++ [c']) := by
  induction init generalizing d with
  | nil =>
    rw [List.nil_append, descends]
    split
    · rfl
    · rfl
  | cons i init ih =>
    rw [List.cons_append, descends] at h ⊢
    split at h
    · next hi =>
      rw [if_pos hi]
      exact ih h
    · next hi =>
      rw [if_neg hi]
      split at h
      · next hup =>
        rw [if_pos hup]
        obtain ⟨hpos, h⟩ := Bool.and_eq_true_iff.mp h
        exact Bool.and_eq_true_iff.mpr ⟨hpos, ih h⟩
      · next hup =>
        rw [if_neg hup]
        exact ih h

/-- **A name goes on with a text** that leads on from a directory, and so leads on from it too. -/
theorem Joined.append (h : Joined root u) (hslash : Chr.slash ∉ x) (hdot : x ≠ text ".")
    (hdots : x ≠ text "..") : Joined root (u ++ x) := by
  obtain ⟨hjoin, hdesc⟩ := h
  refine ⟨?_, ?_⟩
  · cases u with
    | nil =>
      have hx : x.head? ≠ some Chr.slash := fun h => hslash (List.mem_of_mem_head? h)
      by_cases hroot : root = []
      · rw [if_pos hroot]
        exact hx
      · rw [if_neg hroot] at hjoin ⊢
        exact .inl (hjoin.resolve_right (Option.some_ne_none _).symm)
    | cons c u => exact hjoin
  · by_cases hnil : x = []
    · rwa [hnil, List.append_nil]
    · obtain ⟨init, last, hu, hux⟩ := components_append_name u hslash
      rw [hu] at hdesc
      rw [hux]
      refine descends_last hdesc fun he => ?_
      obtain _ | ⟨a, _ | ⟨b, last⟩⟩ := last
      · exact hdots he
      · exact hdot (List.cons.inj he).2
      · have htail : last ++ x = [] := (List.cons.inj (List.cons.inj he).2).2
        exact hnil (List.append_eq_nil_iff.mp htail).2

end Append

/-! ## The last component -/

/-- **The name of an entry**: it has no slash and no null, and is neither `.` nor `..`. -/
structure IsName (x : Bytes) : Prop where
  ne_nil : x ≠ []
  slash : Chr.slash ∉ x
  null : 0 ∉ x
  dot : x ≠ text "."
  dots : x ≠ text ".."

instance (x : Bytes) : Decidable (IsName x) :=
  decidable_of_iff (x ≠ [] ∧ Chr.slash ∉ x ∧ 0 ∉ x ∧ x ≠ text "." ∧ x ≠ text "..")
    ⟨fun ⟨hnil, hslash, hnull, hdot, hdots⟩ => ⟨hnil, hslash, hnull, hdot, hdots⟩,
      fun h => ⟨h.ne_nil, h.slash, h.null, h.dot, h.dots⟩⟩

/-- The components before the last. -/
def leading (p : Bytes) : List Bytes := (components p).dropLast

/-- **What stands behind the last slash.** -/
def final (p : Bytes) : Bytes := (components p).getLast (components_ne_nil p)

/-- Where a path starts. -/
def start (workingDir : List Bytes) (p : Bytes) : List Bytes :=
  if p.head? = some Chr.slash then [] else workingDir

/-- **Where the last component of a path is looked up.** -/
def directory (workingDir : List Bytes) (p : Bytes) : List Bytes :=
  (leading p).foldl go (start workingDir p)

section Final

variable {u x y : Bytes}

theorem leading_append_final (p : Bytes) : leading p ++ [final p] = components p :=
  List.dropLast_append_getLast (components_ne_nil p)

theorem components_append_of_not_mem (u : Bytes) (hx : Chr.slash ∉ x) :
    components (u ++ x) = leading u ++ [final u ++ x] := by
  obtain ⟨init, last, hu, hux⟩ := components_append_name u hx
  obtain ⟨hinit, hlast⟩ := List.append_inj' ((leading_append_final u).trans hu) rfl
  rw [hux, hinit, List.singleton_inj.mp hlast]

theorem start_append (hx : Chr.slash ∉ x) : start workingDir (u ++ x) = start workingDir u := by
  cases u with
  | nil => exact if_neg fun h => hx (List.mem_of_mem_head? h)
  | cons c u => rfl

theorem resolve_eq_go (p : Bytes) :
    resolve workingDir p = go (directory workingDir p) (final p) := by
  rw [resolve, ← leading_append_final, List.foldl_append]
  rfl

theorem mem_components {q : Bytes} {c : UInt8} (hq : q ∈ components p) (hc : c ∈ q) :
    c ∈ p ∧ c ≠ Chr.slash := by
  induction p generalizing q with
  | nil => exact absurd (List.mem_singleton.mp hq ▸ hc) List.not_mem_nil
  | cons b p ih =>
    rw [components] at hq
    split at hq
    · obtain rfl | hq := List.mem_cons.mp hq
      · exact absurd hc List.not_mem_nil
      · exact (ih hq hc).imp_left (List.mem_cons_of_mem b)
    · next hb =>
      obtain ⟨i, is, hi⟩ := List.exists_cons_of_ne_nil (components_ne_nil p)
      rw [hi] at hq ih
      obtain rfl | hq := List.mem_cons.mp hq
      · obtain rfl | hc := List.mem_cons.mp hc
        · exact ⟨List.mem_cons_self .., hb⟩
        · exact (ih (List.mem_cons_self ..) hc).imp_left (List.mem_cons_of_mem b)
      · exact (ih (List.mem_cons_of_mem i hq) hc).imp_left (List.mem_cons_of_mem b)

theorem mem_of_mem_final {c : UInt8} (h : c ∈ final p) : c ∈ p ∧ c ≠ Chr.slash :=
  mem_components (List.getLast_mem _) h

/-- A name stays one behind other characters that a name can have. -/
theorem IsName.append (hy : IsName y) (hslash : Chr.slash ∉ x) (hnull : 0 ∉ x) :
    IsName (x ++ y) where
  ne_nil h := hy.ne_nil (List.append_eq_nil_iff.mp h).2
  slash h := (List.mem_append.mp h).elim hslash hy.slash
  null h := (List.mem_append.mp h).elim hnull hy.null
  dot h := by
    obtain _ | ⟨a, x⟩ := x
    · exact hy.dot h
    · exact hy.ne_nil (List.append_eq_nil_iff.mp (List.cons.inj h).2).2
  dots h := by
    obtain _ | ⟨a, _ | ⟨b, x⟩⟩ := x
    · exact hy.dots h
    · exact hy.dot (List.cons.inj h).2
    · exact hy.ne_nil (List.append_eq_nil_iff.mp (List.cons.inj (List.cons.inj h).2).2).2

theorem go_of_isName (hx : IsName x) : go location x = location ++ [x] := by
  rw [go, if_neg (not_or.mpr ⟨hx.ne_nil, hx.dot⟩), if_neg hx.dots]

/-- **A name behind a slash** leads one level down. -/
theorem resolve_append_name (hroot : root.getLast? = some Chr.slash) (hx : IsName x) :
    resolve workingDir (root ++ x) = resolve workingDir root ++ [x] := by
  have hne : root ≠ [] := by
    rintro rfl
    exact absurd hroot (Option.some_ne_none _).symm
  rw [resolve_append hne (.inl hroot), components_of_not_mem hx.slash]
  exact go_of_isName hx

/-- A slash at the end leads nowhere. -/
theorem resolve_append_slash (h : u ≠ []) :
    resolve workingDir (u ++ [Chr.slash]) = resolve workingDir u := by
  rw [resolve_append h (.inr rfl), components_slash]
  exact (congrArg (go · []) go_nil).trans go_nil

/-- **A row of names, each with its slash**, leads one level down for each. -/
theorem resolve_append_dirs (hroot : root.getLast? = some Chr.slash) (hcs : ∀ c ∈ cs, IsName c) :
    (root ++ (cs.map (· ++ [Chr.slash])).flatten).getLast? = some Chr.slash ∧
      resolve workingDir (root ++ (cs.map (· ++ [Chr.slash])).flatten) =
        resolve workingDir root ++ cs := by
  induction cs generalizing root with
  | nil =>
    rw [List.map_nil, List.flatten_nil, List.append_nil, List.append_nil]
    exact ⟨hroot, rfl⟩
  | cons c cs ih =>
    have hc : IsName c := hcs c (List.mem_cons_self ..)
    have hne : root ++ c ≠ [] := fun h => hc.ne_nil (List.append_eq_nil_iff.mp h).2
    have hslash : (root ++ c ++ [Chr.slash]).getLast? = some Chr.slash := List.getLast?_concat
    obtain ⟨hlast, hleads⟩ := ih hslash fun d hd => hcs d (List.mem_cons_of_mem c hd)
    rw [resolve_append_slash hne, resolve_append_name hroot hc] at hleads
    rw [List.map_cons, List.flatten_cons, ← List.append_assoc, ← List.append_assoc]
    exact ⟨hlast, hleads.trans (List.append_assoc ..)⟩

end Final

end Path
