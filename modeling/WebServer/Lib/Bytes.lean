import Mathlib.Algebra.Group.Int.Defs
import Mathlib.Algebra.Group.Nat.Defs
import Mathlib.Data.List.Basic
import Mathlib.Data.List.Infix

/-!
# Lib/Bytes — byte strings, and positions in them

`std::string` is a list of bytes.  A search answers a position or `npos`; a caller that computes
with that answer without testing it computes modulo `2⁶⁴`, where `npos + 1` is `0` and `npos - p`
is past the end of every string.  `StrPos` keeps `npos` as a value of its own and gives each of
these operations its wrapped result.
-/

/-- A byte string. -/
abbrev Bytes := List UInt8

/-- The bytes of a string literal, in UTF-8. -/
def text (s : String) : Bytes := s.toList.flatMap String.utf8EncodeChar

/-- The decimal digits of a number, as `std::to_string` writes them. -/
def decimal (n : ℕ) : Bytes := (Nat.toDigits 10 n).map Char.toUInt8

namespace Chr

/-- Carriage return. -/
abbrev cr : UInt8 := 13
/-- Line feed. -/
abbrev lf : UInt8 := 10
/-- A blank. -/
abbrev space : UInt8 := 32
/-- `:` -/
abbrev colon : UInt8 := 58
/-- `/` -/
abbrev slash : UInt8 := 47
/-- `?` -/
abbrev question : UInt8 := 63
/-- `.` -/
abbrev dot : UInt8 := 46

/-- `isspace` -/
def isSpace (c : UInt8) : Bool := c = space || (9 ≤ c && c ≤ 13)

/-- `isdigit` -/
def isDigit (c : UInt8) : Bool := 48 ≤ c && c ≤ 57

end Chr

/-- The line end of the protocol. -/
abbrev crlf : Bytes := [Chr.cr, Chr.lf]

/-! ## Positions -/

/-- A position as a `size_t` holds it; `none` is `npos`. -/
abbrev StrPos := Option ℕ

namespace StrPos

/-- `pos + 1`, where `npos + 1` wraps to `0`. -/
def succ : StrPos → ℕ
  | none => 0
  | some p => p + 1

/-- `q - p` for a `q` found at or after `p`; `npos - p` exceeds the length of every string, so it
stays `npos`, and `npos - npos` is `0`. -/
def dist : StrPos → StrPos → StrPos
  | some p, some q => some (q - p)
  | some _, none => none
  | none, _ => some 0

/-- `n < d` for a distance `d`. -/
def exceeds (n : ℕ) : StrPos → Bool
  | none => true
  | some d => n < d

/-- `d - 1`, of a distance that is not `0`. -/
def pred : StrPos → StrPos
  | none => none
  | some d => some (d - 1)

/-- `size - pos`, where `size - npos` wraps to `size + 1`. -/
def before (size : ℕ) : StrPos → ℕ
  | none => size + 1
  | some p => size - p

end StrPos

/-- `s.find(c, pos)` for one character. -/
def findChar (s : Bytes) (c : UInt8) : StrPos → StrPos
  | none => none
  | some p => ((s.drop p).findIdx? (· == c)).map (· + p)

/-- `s.find(pat)`: where the first occurrence of `pat` starts. -/
def findStr (pat : Bytes) : Bytes → StrPos
  | [] => if pat = [] then some 0 else none
  | c :: s => if pat.isPrefixOf (c :: s) then some 0 else (findStr pat s).map (· + 1)

/-- `s.substr(pos, count)`. -/
def substr (s : Bytes) (pos : ℕ) : StrPos → Bytes
  | none => s.drop pos
  | some n => (s.drop pos).take n

/-- The characters between two iterators of a string, `std::string(begin + a, begin + b)`; `none`
where the iterators do not delimit a part of the string and the construction is undefined. -/
def slice (s : Bytes) (a b : ℤ) : Option Bytes :=
  if 0 ≤ a ∧ a ≤ b ∧ b ≤ s.length then some ((s.drop a.toNat).take (b - a).toNat) else none

/-- A byte string that is read as a C string ends at its first null. -/
def cString (s : Bytes) : Bytes := s.takeWhile (· ≠ 0)

/-! ## C strings -/

/-- What is read of two strings in a row: the null may stand in the first. -/
theorem cString_append (a b : Bytes) :
    cString (a ++ b) = if 0 ∈ a then cString a else a ++ cString b := by
  induction a with
  | nil => rfl
  | cons c a ih =>
    by_cases hc : c = 0
    · subst hc
      rw [if_pos (List.mem_cons_self ..)]
      rfl
    · have hmem : (0 ∈ c :: a) ↔ 0 ∈ a := by
        rw [List.mem_cons]
        exact or_iff_right (Ne.symm hc)
      have hcons (l : Bytes) : cString (c :: l) = c :: cString l :=
        List.takeWhile_cons_of_pos (by simpa using hc)
      rw [List.cons_append, hcons, hcons, ih]
      simp only [hmem]
      split <;> rfl

theorem cString_of_notMem {s : Bytes} (h : 0 ∉ s) : cString s = s := by
  have happ := cString_append s []
  rw [if_neg h, List.append_nil] at happ
  exact happ.trans (List.append_nil s)

theorem zero_notMem_cString (s : Bytes) : 0 ∉ cString s := by
  induction s with
  | nil => exact List.not_mem_nil
  | cons c s ih =>
    rw [cString, List.takeWhile_cons]
    split
    · next hc => exact List.not_mem_cons_of_ne_of_not_mem (Ne.symm (of_decide_eq_true hc)) ih
    · exact List.not_mem_nil

/-! ## What a search finds -/

/-- A search from the end of `a` finds the first `c` of what follows. -/
theorem findChar_append {c : UInt8} (a : Bytes) {b : Bytes} (hb : c ∉ b) (s : Bytes) :
    findChar (a ++ (b ++ c :: s)) c (some a.length) = some (a.length + b.length) := by
  have hfirst : (b ++ c :: s).findIdx? (· == c) = some b.length := by
    rw [List.findIdx?_append, List.findIdx?_eq_none_iff.mpr, List.findIdx?_cons]
    · simp
    · intro x hx
      rw [beq_eq_false_iff_ne]
      rintro rfl
      exact hb hx
  rw [findChar, List.drop_left, hfirst, Option.map_some, Nat.add_comm]

/-- A search from the beginning finds the first one. -/
theorem findChar_zero {c : UInt8} {b : Bytes} (hb : c ∉ b) (s : Bytes) :
    findChar (b ++ c :: s) c (some 0) = some b.length := by
  have h := findChar_append [] hb s
  rwa [List.nil_append, List.length_nil, Nat.zero_add] at h

/-- A search that finds nothing answers `npos`. -/
theorem findChar_append_none {c : UInt8} (a : Bytes) {s : Bytes} (hs : c ∉ s) :
    findChar (a ++ s) c (some a.length) = none := by
  rw [findChar, List.drop_left, List.findIdx?_eq_none_iff.mpr, Option.map_none]
  intro x hx
  rw [beq_eq_false_iff_ne]
  rintro rfl
  exact hs hx

/-- A position that is found is at or after the start, and holds the character. -/
theorem findChar_some {s : Bytes} {c : UInt8} {p : StrPos} {q : ℕ} (h : findChar s c p = some q) :
    ∃ p', p = some p' ∧ p' ≤ q ∧ s.drop q = c :: s.drop (q + 1) := by
  cases p with
  | none => exact absurd h (by simp [findChar])
  | some p' =>
    rw [findChar, Option.map_eq_some_iff] at h
    obtain ⟨i, hi, rfl⟩ := h
    obtain ⟨hlt, hc, -⟩ := List.findIdx?_eq_some_iff_getElem.mp hi
    rw [List.length_drop] at hlt
    rw [List.getElem_drop, beq_iff_eq] at hc
    refine ⟨p', rfl, Nat.le_add_left .., ?_⟩
    rw [List.drop_eq_getElem_cons (by omega : i + p' < s.length)]
    congr 1
    rw [← hc]
    congr 1
    omega

/-- A word without the character `c` that begins a string begins the part before `c`. -/
theorem isPrefixOf_append_cons {c : UInt8} : ∀ {pat : Bytes}, c ∉ pat → ∀ (s t : Bytes),
    pat.isPrefixOf (s ++ c :: t) = pat.isPrefixOf s
  | [], _, s, t => by simp
  | p :: pat, hc, [], t => by
      have hne : (p == c) = false := beq_eq_false_iff_ne.mpr fun h => hc (h ▸ List.mem_cons_self ..)
      simp [List.isPrefixOf, hne]
  | p :: pat, hc, b :: s, t => by
      rw [List.cons_append, List.isPrefixOf, List.isPrefixOf,
        isPrefixOf_append_cons (fun h => hc (List.mem_cons_of_mem _ h)) s t]

/-- A word that is not found from a character `c` on, and does not hold it, is found before it. -/
theorem findStr_append {c : UInt8} {pat t : Bytes} (hc : c ∉ pat) (hpat : pat ≠ [])
    (ht : findStr pat (c :: t) = none) : ∀ s, findStr pat (s ++ c :: t) = findStr pat s
  | [] => by rw [List.nil_append, ht, findStr, if_neg hpat]
  | b :: s => by
      rw [List.cons_append, findStr, findStr, ← List.cons_append,
        isPrefixOf_append_cons hc (b :: s) t, findStr_append hc hpat ht s]

/-- A word is not found where its first character does not occur. -/
theorem findStr_skip {b : UInt8} {pat : Bytes} : ∀ {a : Bytes}, b ∉ a → ∀ s,
    findStr (b :: pat) (a ++ s) = (findStr (b :: pat) s).map (· + a.length)
  | [], _, s => by simp
  | c :: a, hb, s => by
      have hne : (b == c) = false := beq_eq_false_iff_ne.mpr fun h => hb (h ▸ List.mem_cons_self ..)
      rw [List.cons_append, findStr, List.isPrefixOf, hne, Bool.false_and,
        findStr_skip (fun h => hb (List.mem_cons_of_mem _ h)) s, Option.map_map]
      rfl

/-- Where a word is found, there is room for it. -/
theorem findStr_le {pat : Bytes} : ∀ {s : Bytes} {p : ℕ}, findStr pat s = some p → p ≤ s.length
  | [], p, h => by
      rw [findStr] at h
      split at h
      · exact (Option.some.inj h).symm.le
      · exact absurd h (by simp)
  | b :: s, p, h => by
      rw [findStr] at h
      split at h
      · exact (Option.some.inj h).symm.le.trans (Nat.zero_le _)
      · obtain ⟨q, hq, rfl⟩ := Option.map_eq_some_iff.mp h
        exact Nat.succ_le_succ (findStr_le hq)

/-- A word is not found where it is no part of the string. -/
theorem findStr_eq_none_iff {pat : Bytes} : ∀ {s : Bytes}, findStr pat s = none ↔ ¬ pat <:+: s
  | [] => by
      rw [findStr, List.infix_nil]
      split <;> simp [*]
  | b :: s => by
      rw [findStr, List.infix_cons_iff, ← List.isPrefixOf_iff_prefix]
      split
      · next h => simp [h]
      · next h => simp [h, findStr_eq_none_iff (s := s)]

/-- **Where a word is found**: it stands there, and not before. -/
theorem findStr_some {b : UInt8} {pat : Bytes} : ∀ {s : Bytes} {p : ℕ},
    findStr (b :: pat) s = some p →
      ∃ before after, s = before ++ (b :: pat ++ after) ∧ before.length = p ∧
        ¬ b :: pat <:+: before
  | [], p, h => by
      rw [findStr, if_neg (List.cons_ne_nil _ _)] at h
      exact absurd h (by simp)
  | c :: s, p, h => by
      rw [findStr] at h
      split at h
      · next hpre =>
        obtain ⟨after, hafter⟩ := List.isPrefixOf_iff_prefix.mp hpre
        exact ⟨[], after, hafter.symm, Option.some.inj h, by simp⟩
      · next hpre =>
        obtain ⟨q, hq, rfl⟩ := Option.map_eq_some_iff.mp h
        obtain ⟨before, after, rfl, hlen, hnot⟩ := findStr_some hq
        refine ⟨c :: before, after, rfl, congrArg (· + 1) hlen, fun hin => ?_⟩
        obtain hin | hin := List.infix_cons_iff.mp hin
        · exact hpre (List.isPrefixOf_iff_prefix.mpr
            (hin.trans (List.prefix_append (c :: before) _)))
        · exact hnot hin

/-- …and a word whose first character is in it once is found where it stands for the first time. -/
theorem findStr_first {b : UInt8} {pat : Bytes} (hb : b ∉ pat) (after : Bytes) :
    ∀ {before : Bytes}, ¬ b :: pat <:+: before →
      findStr (b :: pat) (before ++ (b :: pat ++ after)) = some before.length
  | [], _ => by
      rw [List.nil_append, List.cons_append, findStr, ← List.cons_append,
        if_pos (List.isPrefixOf_iff_prefix.mpr (List.prefix_append _ after))]
      rfl
  | c :: before, hnot => by
      have hpre : ¬ b :: pat <+: c :: before ++ (b :: pat ++ after) := by
        intro h
        obtain hle | hlt := Nat.le_total (b :: pat).length (c :: before).length
        · exact hnot (List.prefix_of_prefix_length_le h (List.prefix_append ..) hle).isInfix
        · obtain ⟨x, hx⟩ :=
            List.prefix_of_prefix_length_le (List.prefix_append _ (b :: pat ++ after)) h hlt
          rw [← hx, List.prefix_append_right_inj] at h
          cases x with
          | nil => exact hnot (by rw [← hx, List.append_nil])
          | cons d x =>
            have hd : d = c := (List.cons_prefix_cons.mp h).1
            rw [List.cons_append] at hx
            obtain ⟨hc, hpat⟩ := List.cons.inj hx
            rw [← hpat, ← hc, ← hd] at hb
            exact hb (List.mem_append_right _ (List.mem_cons_self ..))
      have hrest : ¬ b :: pat <:+: before := fun h => hnot (h.trans (List.infix_cons_iff.mpr
        (.inr List.infix_rfl)))
      rw [List.cons_append] at hpre ⊢
      rw [findStr, if_neg fun h => hpre (List.isPrefixOf_iff_prefix.mp h),
        findStr_first hb after hrest]
      rfl

/-- **What stands before the first `c`.** -/
theorem takeWhile_append_cons {c : UInt8} {l : Bytes} (hl : c ∉ l) (x : Bytes) :
    (l ++ c :: x).takeWhile (· ≠ c) = l := by
  rw [List.takeWhile_append_of_pos fun b hb => ?_]
  · simp
  · exact decide_eq_true fun e => hl (e ▸ hb)

/-- What stands from the first `c` on. -/
theorem dropWhile_append_cons {c : UInt8} {l : Bytes} (hl : c ∉ l) (x : Bytes) :
    (l ++ c :: x).dropWhile (· ≠ c) = c :: x := by
  rw [List.dropWhile_append_of_pos fun b hb => ?_]
  · simp
  · exact decide_eq_true fun e => hl (e ▸ hb)

/-- A string is cut at its first `c` in one way. -/
theorem append_cons_inj {c : UInt8} {l l' x x' : Bytes} (hl : c ∉ l) (hl' : c ∉ l')
    (h : l ++ c :: x = l' ++ c :: x') : l = l' ∧ x = x' := by
  have hll : l = l' := by rw [← takeWhile_append_cons hl x, h, takeWhile_append_cons hl']
  subst hll
  exact ⟨rfl, List.cons_inj_right _ |>.mp (List.append_cancel_left h)⟩

/-- What follows a `c` is part of what follows the first `c`. -/
theorem suffix_of_append_cons {c : UInt8} {a a' x y : Bytes} (ha' : c ∉ a')
    (h : a ++ c :: x <:+ a' ++ c :: y) : x <:+ y := by
  obtain ⟨t, h⟩ := h
  rw [← List.append_assoc, List.append_eq_append_iff] at h
  obtain ⟨b, hb, hx⟩ | ⟨b, -, hy⟩ := h
  · rcases b with _ | ⟨d, b⟩
    · exact (List.cons.inj hx).2 ▸ List.suffix_rfl
    · obtain ⟨rfl, -⟩ := List.cons.inj hx
      exact absurd (hb ▸ List.mem_append_right _ (List.mem_cons_self ..)) ha'
  · rcases b with _ | ⟨d, b⟩
    · exact (List.cons.inj hy).2 ▸ List.suffix_rfl
    · rw [(List.cons.inj hy).2]
      exact (List.suffix_cons c x).trans (List.suffix_append b _)

/-- …and the same of the next character of a string that was already cut off. -/
theorem drop_suffix_next {c : UInt8} {l x a y : Bytes} {p q : ℕ} (hpq : p ≤ q)
    (hq : l.drop q = c :: l.drop (q + 1)) (ha : c ∉ a) (h : l.drop p ++ x <:+ a ++ c :: y) :
    l.drop (q + 1) ++ x <:+ y := by
  obtain ⟨t, ht⟩ := List.drop_suffix_drop_left l hpq
  refine suffix_of_append_cons (a := []) ha (List.IsSuffix.trans ⟨t, ?_⟩ h)
  rw [← ht, hq, List.append_assoc]
  rfl
