import WebServer.Lib.Bytes
import Mathlib.Logic.Function.Basic

/-!
# Ftp/UserManager — the user file, and who may log in

The constructor reads names and passwords with `std::istream::getline` for as long as the stream
tests true.  The end of the file is noticed by the `getline` that finds nothing left, so the loop
always enters one record more than the file has (`load_lines`): after an odd number of lines the
last line with an empty password, after an even number the empty name with an empty password.
-/

namespace WebServer.Ftp

/-! ## Reading a file line by line -/

/-- An input stream: what it still holds, and the bits of its state. -/
structure IStream where
  rest : Bytes
  eof : Bool
  fail : Bool

/-- The characters up to the next line feed. -/
def line (s : Bytes) : Bytes := s.takeWhile (· ≠ Chr.lf)

/-- **`getline(buffer, n)`**: the characters it stores, at most `n - 1`, and the stream behind. -/
def getline (n : ℕ) (s : IStream) : Bytes × IStream :=
  if s.eof || s.fail then ([], { s with fail := true })
  else if s.rest = [] then ([], ⟨[], true, true⟩)
  else if (line s.rest).length < n then
    (line s.rest,
      ⟨s.rest.drop ((line s.rest).length + 1), (line s.rest).length = s.rest.length, false⟩)
  else ((line s.rest).take (n - 1), ⟨s.rest.drop (n - 1), false, true⟩)

theorem getline_le (n : ℕ) (s : IStream) : (getline n s).2.rest.length ≤ s.rest.length := by
  rw [getline]
  split
  · exact Nat.le_refl _
  · split
    · exact Nat.zero_le _
    · split <;> exact (List.length_drop ..).trans_le (Nat.sub_le ..)

/-- A `getline` that does not fail takes something off the stream. -/
theorem getline_lt {n : ℕ} {s : IStream} (h : (getline n s).2.fail = false) :
    (getline n s).2.rest.length < s.rest.length := by
  rw [getline] at h ⊢
  split at h
  · exact Bool.noConfusion (h : true = false)
  · next h₁ =>
    split at h
    · exact Bool.noConfusion (h : true = false)
    · next h₂ =>
      split at h
      · next h₃ =>
        rw [if_neg h₁, if_neg h₂, if_pos h₃]
        refine (List.length_drop ..).trans_lt ?_
        have := List.length_pos_iff.mpr h₂
        omega
      · exact Bool.noConfusion (h : true = false)

/-! ## The user table -/

/-- `userInfo_` -/
abbrev UserInfo := Bytes → Option Bytes

/-- The size of the arrays `name` and `psw`. -/
def lineSize : ℕ := 255

/-- **The loop of `UserManager::UserManager`.** -/
def load (infile : IStream) (userInfo : UserInfo) : UserInfo :=
  if infile.fail then userInfo
  else
    let name := getline lineSize infile
    let psw := getline lineSize name.2
    load psw.2 (Function.update userInfo (cString name.1) (some (cString psw.1)))
termination_by if infile.fail then 0 else infile.rest.length + 1
decreasing_by
  rename_i h
  rw [if_neg h]
  split
  · exact Nat.succ_pos _
  · next hf =>
    have hlt := getline_lt (Bool.eq_false_iff.mpr hf)
    have hle := getline_le lineSize infile
    exact Nat.succ_lt_succ (Nat.lt_of_lt_of_le hlt hle)

/-- **`UserManager::UserManager`**, of a file that opens. -/
def UserManager.new (content : Bytes) : UserInfo := load ⟨content, false, false⟩ fun _ => none

/-- `UserManager::login` -/
def UserManager.login (userInfo : UserInfo) (name psw : Bytes) : Bool :=
  match userInfo name with
  | some p => p = psw
  | none => false

theorem UserManager.login_iff {userInfo : UserInfo} {name psw : Bytes} :
    UserManager.login userInfo name psw = true ↔ userInfo name = some psw := by
  rw [login]
  cases userInfo name with
  | none => exact iff_of_false Bool.false_ne_true nofun
  | some p => rw [decide_eq_true_iff, Option.some_inj, eq_comm]

/-! ## What is loaded -/

/-- The lines of a file.  A last line may lack its line feed. -/
def lines : Bytes → List Bytes
  | [] => []
  | c :: s =>
    if c = Chr.lf then [] :: lines s
    else match lines s with
      | [] => [[c]]
      | l :: ls => (c :: l) :: ls

/-- **The records of a file**: names and passwords in turn. -/
def records : List Bytes → List (Bytes × Bytes)
  | name :: psw :: ls => (name, psw) :: records ls
  | _ => []

/-- **The name that the loop adds** at the end: a name without a password, or none. -/
def addedName : List Bytes → Bytes
  | _ :: _ :: ls => addedName ls
  | [name] => name
  | [] => []

/-- **The last password** recorded for a name. -/
def lastPassword (rs : List (Bytes × Bytes)) (name : Bytes) : Option Bytes :=
  (rs.reverse.find? fun r => r.1 = name).map (·.2)

/-- A record as the table takes it. -/
def cRecord (r : Bytes × Bytes) : Bytes × Bytes := (cString r.1, cString r.2)

theorem lines_of_ne_nil {s : Bytes} (h : s ≠ []) :
    lines s = line s :: lines (s.drop ((line s).length + 1)) := by
  induction s with
  | nil => exact absurd rfl h
  | cons c s ih =>
    rw [lines, line]
    by_cases hc : c = Chr.lf
    · rw [if_pos hc, List.takeWhile_cons_of_neg (by simpa using hc)]
      rfl
    · rw [if_neg hc, List.takeWhile_cons_of_pos (by simpa using hc)]
      cases s with
      | nil => rfl
      | cons d s =>
        rw [ih (List.cons_ne_nil d s)]
        rfl

/-- A stream before some lines. -/
def IStream.Holds (s : IStream) (ls : List Bytes) : Prop :=
  s.fail = false ∧ lines s.rest = ls ∧ (s.eof = true → s.rest = [])

variable {s : IStream} {ls : List Bytes} {l : Bytes}

theorem getline_of_fail (n : ℕ) (h : s.fail = true) : getline n s = ([], s) := by
  obtain ⟨rest, eof, fail⟩ := s
  subst h
  rw [getline, Bool.or_true, if_pos rfl]

theorem IStream.Holds.rest_eq_nil (h : s.Holds []) : s.rest = [] := by
  by_contra hne
  have := h.2.1
  rw [lines_of_ne_nil hne] at this
  exact List.cons_ne_nil _ _ this

/-- At the end of a file a `getline` fails. -/
theorem IStream.Holds.getline_nil (h : s.Holds []) (n : ℕ) :
    (getline n s).1 = [] ∧ (getline n s).2.fail = true := by
  rw [getline]
  split
  · exact ⟨rfl, rfl⟩
  · rw [if_pos h.rest_eq_nil]
    exact ⟨rfl, rfl⟩

/-- Before it, it reads a line. -/
theorem IStream.Holds.getline_cons {n : ℕ} (h : s.Holds (l :: ls)) (hl : l.length < n) :
    (getline n s).1 = l ∧ (getline n s).2.Holds ls := by
  obtain ⟨hfail, hlines, heof⟩ := h
  have hne : s.rest ≠ [] := by
    intro h
    rw [h] at hlines
    exact List.cons_ne_nil _ _ hlines.symm
  have heof' : s.eof = false := by
    by_contra h
    exact hne (heof (by simpa using h))
  rw [lines_of_ne_nil hne] at hlines
  obtain ⟨rfl, rfl⟩ := List.cons.inj hlines
  rw [getline, heof', hfail, Bool.or_false, if_neg Bool.false_ne_true, if_neg hne, if_pos hl]
  refine ⟨rfl, rfl, rfl, fun he => ?_⟩
  refine List.drop_eq_nil_of_le ?_
  have := of_decide_eq_true he
  omega

/-- **What is loaded**: the records of the file, and one more. -/
theorem load_lines (hs : s.Holds ls) (hls : ∀ l ∈ ls, l.length < lineSize) (t : UserInfo) :
    load s t = ((records ls ++ [(addedName ls, [])]).map cRecord).foldl
      (fun (t : UserInfo) (r : Bytes × Bytes) => Function.update t r.1 (some r.2)) t := by
  induction ls using records.induct generalizing s t with
  | case1 name psw ls ih =>
    obtain ⟨hname, hs₁⟩ := hs.getline_cons (hls _ (List.mem_cons_self ..))
    obtain ⟨hpsw, hs₂⟩ :=
      hs₁.getline_cons (hls _ (List.mem_cons_of_mem _ (List.mem_cons_self ..)))
    rw [load, if_neg (by rw [hs.1]; exact Bool.false_ne_true)]
    dsimp only
    rw [ih hs₂ fun l hl => hls l (List.mem_cons_of_mem _ (List.mem_cons_of_mem _ hl)), hname, hpsw]
    rfl
  | case2 ls hls' =>
    have hpos : ¬s.fail = true := by rw [hs.1]; exact Bool.false_ne_true
    obtain _ | ⟨name, _ | ⟨psw, ls⟩⟩ := ls
    · obtain ⟨hname, hf⟩ := hs.getline_nil lineSize
      rw [load, if_neg hpos]
      dsimp only
      rw [getline_of_fail _ hf, load, if_pos hf, hname]
      rfl
    · obtain ⟨hname, hs₁⟩ := hs.getline_cons (hls _ (List.mem_cons_self ..))
      obtain ⟨hpsw, hf⟩ := hs₁.getline_nil lineSize
      rw [load, if_neg hpos]
      dsimp only
      rw [load, if_pos hf, hname, hpsw]
      rfl
    · exact (hls' name psw ls rfl).elim

theorem lastPassword_concat (rs : List (Bytes × Bytes)) (r : Bytes × Bytes) (name : Bytes) :
    lastPassword (rs ++ [r]) name = if r.1 = name then some r.2 else lastPassword rs name := by
  rw [lastPassword, List.reverse_append, List.reverse_singleton, List.singleton_append,
    List.find?_cons]
  by_cases h : r.1 = name
  · rw [decide_eq_true h, if_pos h, Option.map_some]
  · rw [decide_eq_false h, if_neg h, lastPassword]

/-- Of several entries for a name the table keeps the last. -/
theorem foldl_update (rs : List (Bytes × Bytes)) (name : Bytes) :
    rs.foldl (fun (t : UserInfo) (r : Bytes × Bytes) => Function.update t r.1 (some r.2))
      (fun _ => none) name = lastPassword rs name := by
  induction rs using List.reverseRecOn with
  | nil => rfl
  | append_singleton rs r ih =>
    rw [List.foldl_append, List.foldl_cons, List.foldl_nil, lastPassword_concat,
      Function.update_apply, ih]
    exact if_congr eq_comm rfl rfl

/-- **Who may log in**: the record that the loop adds counts before the last of the file. -/
theorem UserManager.new_apply {content : Bytes} (h : ∀ l ∈ lines content, l.length < lineSize)
    (name : Bytes) : UserManager.new content name =
      if cString (addedName (lines content)) = name then some []
      else lastPassword ((records (lines content)).map cRecord) name := by
  rw [UserManager.new, load_lines ⟨rfl, rfl, fun h => Bool.noConfusion h⟩ h, foldl_update,
    List.map_append, List.map_singleton, lastPassword_concat]
  rfl

end WebServer.Ftp
