import WebServer.Http.Request
import Mathlib.Data.List.TakeWhile

/-!
# Http/LineText — what a request line asks for, on its text

`ParseRequestLine` works with positions.  What it comes to can be said on the text of the line: the
method whose word is looked for first and stands anywhere in the line, and behind that word what
stands between the first slash and the next blank, up to a `?`.
-/

namespace WebServer.Http

/-- The words that are looked for before the method's own. -/
def RequestLine.earlier : RequestMethod → List RequestMethod
  | .get => []
  | .post => [.get]
  | .head => [.get, .post]

/-- **The method of a line**, with what stands behind its word: the word stands nowhere before, and
no word that is looked for earlier stands anywhere in the line. -/
structure MethodWord (line : Bytes) (m : RequestMethod) (after : Bytes) : Prop where
  earlier : ∀ w ∈ RequestLine.earlier m, ¬ methodWord w <:+: line
  first : ∃ before, line = before ++ (methodWord m ++ after) ∧ ¬ methodWord m <:+: before

/-- **The name that is asked for** behind the method's word: from the first slash up to a `?`, to a
blank or to the end.  No slash, or a blank behind it, asks for the default page. -/
inductive NameBehind : Bytes → Bytes → Prop
  | none {after : Bytes} : Chr.slash ∉ after → NameBehind after (text "index.html")
  | blank {gap rest : Bytes} : Chr.slash ∉ gap →
      NameBehind (gap ++ Chr.slash :: Chr.space :: rest) (text "index.html")
  | name {gap name rest : Bytes} : Chr.slash ∉ gap → Chr.space ∉ name → Chr.question ∉ name →
      (∀ b ∈ rest.head?, b = Chr.question ∨ b = Chr.space ∧ name ≠ []) →
      NameBehind (gap ++ Chr.slash :: (name ++ rest)) name

variable {line after name : Bytes} {m : RequestMethod} {start : ℕ}

/-! ## The line -/

/-- The line that is read stands before the first CR. -/
theorem requestLineOf_eq (b : Bytes) : requestLineOf b = b.takeWhile (· ≠ Chr.cr) := by
  by_cases h : Chr.cr ∈ b
  · obtain ⟨l, x, rfl, hl⟩ := List.eq_append_cons_of_mem h
    rw [requestLineOf_append hl, takeWhile_append_cons hl]
  · rw [requestLineOf_open h, List.takeWhile_eq_self_iff.mpr fun d hd => ?_]
    exact decide_eq_true fun e : d = Chr.cr => h (e ▸ hd)

/-! ## The method -/

theorem lineMethod_eq (hm : findStr (methodWord m) line = some start)
    (hearlier : ∀ w ∈ RequestLine.earlier m, findStr (methodWord w) line = none) :
    lineMethod line = some (m, start) := by
  rw [lineMethod]
  cases m with
  | get =>
    simp only [methodWord] at hm
    rw [hm]
  | post =>
    have hget := hearlier .get (by decide)
    simp only [methodWord] at hm hget
    rw [hget, hm]
  | head =>
    have hget := hearlier .get (by decide)
    have hpost := hearlier .post (by decide)
    simp only [methodWord] at hm hget hpost
    rw [hget, hpost, hm]

/-- The word of the method that is read is found, and none that is looked for earlier. -/
theorem findStr_of_lineMethod (h : lineMethod line = some (m, start)) :
    findStr (methodWord m) line = some start ∧
      ∀ w ∈ RequestLine.earlier m, findStr (methodWord w) line = none := by
  rw [lineMethod] at h
  split at h
  · next hget =>
    obtain ⟨rfl, rfl⟩ := Prod.mk.inj (Option.some.inj h)
    exact ⟨hget, fun w hw => absurd hw List.not_mem_nil⟩
  · next hget =>
    split at h
    · next hpost =>
      obtain ⟨rfl, rfl⟩ := Prod.mk.inj (Option.some.inj h)
      exact ⟨hpost, fun w hw => List.mem_singleton.mp hw ▸ hget⟩
    · next hpost =>
      split at h
      · next hhead =>
        obtain ⟨rfl, rfl⟩ := Prod.mk.inj (Option.some.inj h)
        refine ⟨hhead, fun w hw => ?_⟩
        obtain rfl | hw := List.mem_cons.mp hw
        · exact hget
        · exact List.mem_singleton.mp hw ▸ hpost
      · exact absurd h (by simp)

/-- The first character of a method's word does not come again in it. -/
theorem methodWord_eq_cons (m : RequestMethod) : ∃ b pat, methodWord m = b :: pat ∧ b ∉ pat := by
  cases m with
  | get => exact ⟨71, [69, 84], by decide, by decide⟩
  | post => exact ⟨80, [79, 83, 84], by decide, by decide⟩
  | head => exact ⟨72, [69, 65, 68], by decide, by decide⟩

theorem slash_notMem_methodWord (m : RequestMethod) : Chr.slash ∉ methodWord m := by
  cases m <;> decide

/-- **The method of the line** is read. -/
theorem MethodWord.lineMethod_eq (h : MethodWord line m after) :
    ∃ before, line = before ++ (methodWord m ++ after) ∧
      lineMethod line = some (m, before.length) := by
  obtain ⟨before, hline, hfirst⟩ := h.first
  obtain ⟨b, pat, hword, hb⟩ := methodWord_eq_cons m
  refine ⟨before, hline, Http.lineMethod_eq ?_ fun w hw =>
    findStr_eq_none_iff.mpr (h.earlier w hw)⟩
  rw [hword] at hline hfirst ⊢
  rw [hline]
  exact findStr_first hb after hfirst

theorem exists_methodWord (h : lineMethod line = some (m, start)) :
    ∃ after, MethodWord line m after := by
  obtain ⟨hfound, hearlier⟩ := findStr_of_lineMethod h
  obtain ⟨b, pat, hword, -⟩ := methodWord_eq_cons m
  rw [hword] at hfound
  obtain ⟨before, after, hline, -, hfirst⟩ := findStr_some hfound
  rw [← hword] at hline hfirst
  exact ⟨after, fun w hw => findStr_eq_none_iff.mp (hearlier w hw), before, hline, hfirst⟩

/-! ## The name -/

theorem exists_nameBehind (after : Bytes) : ∃ name, NameBehind after name := by
  by_cases hslash : Chr.slash ∈ after
  · obtain ⟨gap, rest, rfl, hgap⟩ := List.eq_append_cons_of_mem hslash
    obtain ⟨plain, hplain⟩ : ∃ f : UInt8 → Bool, f = fun b => b ≠ Chr.space && b ≠ Chr.question :=
      ⟨_, rfl⟩
    have hname : ∀ b ∈ rest.takeWhile plain, b ≠ Chr.space ∧ b ≠ Chr.question := by
      intro b hb
      have := List.mem_takeWhile_imp hb
      simpa [hplain] using this
    by_cases hblank : rest.head? = some Chr.space
    · obtain ⟨rest, rfl⟩ := List.head?_eq_some_iff.mp hblank
      exact ⟨_, .blank hgap⟩
    · refine ⟨rest.takeWhile plain, ?_⟩
      conv => arg 1; rw [← List.takeWhile_append_dropWhile (p := plain) (l := rest)]
      refine .name hgap (fun h => (hname _ h).1 rfl) (fun h => (hname _ h).2 rfl) fun b hb => ?_
      have hstop : plain b = false := by
        have := List.head?_dropWhile_not plain rest
        rw [Option.mem_def.mp hb] at this
        exact this
      obtain hspace | hquestion : b = Chr.space ∨ b = Chr.question := by
        simpa [hplain, or_iff_not_imp_left] using hstop
      · refine .inr ⟨hspace, fun hnil => hblank ?_⟩
        have hwhole := List.takeWhile_append_dropWhile (p := plain) (l := rest)
        rw [hnil, List.nil_append] at hwhole
        rw [← hwhole, ← hspace]
        exact hb
      · exact .inl hquestion
  · exact ⟨_, .none hslash⟩

/-- What is kept of a name up to its `?`. -/
theorem substr_question {rest : Bytes} (hname : Chr.question ∉ name)
    (hrest : ∀ b ∈ rest.head?, b = Chr.question) :
    substr (name ++ rest) 0 (findChar (name ++ rest) Chr.question (some 0)) = name := by
  cases rest with
  | nil =>
    have hnone := findChar_append_none [] hname
    rw [List.nil_append, List.length_nil] at hnone
    rw [List.append_nil, hnone, substr, List.drop_zero]
  | cons b rest =>
    rw [hrest b rfl, findChar_zero hname, substr, List.drop_zero, List.take_left' rfl]

/-- A name that ends at a blank. -/
theorem lineFileName_some (a x : Bytes) {t : Bytes} (ht : t ≠ []) :
    lineFileName (a ++ Chr.slash :: (t ++ x)) (some a.length) (some (a.length + (t.length + 1)))
      = substr t 0 (findChar t Chr.question (some 0)) := by
  have hlen := List.length_pos_iff.mpr ht
  have hname : substr (a ++ Chr.slash :: (t ++ x)) (a.length + 1) (some t.length) = t := by
    rw [substr, List.append_cons, List.drop_left' (by simp), List.take_left' rfl]
  rw [lineFileName]
  simp only [StrPos.dist, StrPos.pred, StrPos.succ, StrPos.exceeds, Nat.add_sub_cancel_left,
    Nat.add_sub_cancel, hname]
  rw [if_pos (decide_eq_true (Nat.lt_add_of_pos_left hlen))]

/-- A name that ends with the line. -/
theorem lineFileName_none (a t : Bytes) :
    lineFileName (a ++ Chr.slash :: t) (some a.length) none
      = substr t 0 (findChar t Chr.question (some 0)) := by
  have hname : substr (a ++ Chr.slash :: t) (a.length + 1) none = t := by
    rw [substr, List.append_cons, List.drop_left' (by simp)]
  rw [lineFileName]
  simp only [StrPos.dist, StrPos.pred, StrPos.succ, StrPos.exceeds, hname, if_true]

/-- A name behind which the line goes on to a blank. -/
theorem lineFileName_to_blank (a : Bytes) {rest : Bytes} (hspace : Chr.space ∉ name)
    (hquestion : Chr.question ∉ name)
    (hrest : ∀ b ∈ rest.head?, b = Chr.question ∨ b = Chr.space ∧ name ≠ [])
    (hblank : Chr.space ∈ rest) :
    lineFileName (a ++ Chr.slash :: (name ++ rest)) (some a.length)
      (findChar (a ++ Chr.slash :: (name ++ rest)) Chr.space (some a.length)) = name := by
  obtain ⟨r, x, rfl, hr⟩ := List.eq_append_cons_of_mem hblank
  have hcut : a ++ Chr.slash :: (name ++ (r ++ Chr.space :: x))
      = a ++ ((Chr.slash :: (name ++ r)) ++ Chr.space :: x) := by simp
  have hne : Chr.space ≠ Chr.slash := by decide
  have hspace' : Chr.space ∉ Chr.slash :: (name ++ r) := by simp [hne, hspace, hr]
  have hr' : (∀ b ∈ r.head?, b = Chr.question) ∧ name ++ r ≠ [] := by
    cases r with
    | nil =>
      obtain h | h := hrest Chr.space rfl
      · exact absurd h (by decide)
      · exact ⟨fun b hb => absurd hb (by simp), fun hnil => h.2 (List.append_eq_nil_iff.mp hnil).1⟩
    | cons b r =>
      obtain h | h := hrest b rfl
      · exact ⟨fun b' hb' => Option.some.inj hb' ▸ h, by simp⟩
      · exact absurd (h.1 ▸ List.mem_cons_self) hr
  rw [hcut, findChar_append a hspace', ← hcut, List.length_cons, ← List.append_assoc name,
    lineFileName_some a _ hr'.2, substr_question hquestion hr'.1]

/-- A name behind which there is no blank. -/
theorem lineFileName_to_end (a : Bytes) {rest : Bytes} (hspace : Chr.space ∉ name)
    (hquestion : Chr.question ∉ name) (hrest : ∀ b ∈ rest.head?, b = Chr.question)
    (hblank : Chr.space ∉ rest) :
    lineFileName (a ++ Chr.slash :: (name ++ rest)) (some a.length)
      (findChar (a ++ Chr.slash :: (name ++ rest)) Chr.space (some a.length)) = name := by
  have hne : Chr.space ≠ Chr.slash := by decide
  have hspace' : Chr.space ∉ Chr.slash :: (name ++ rest) := by simp [hne, hspace, hblank]
  rw [findChar_append_none a hspace', lineFileName_none, substr_question hquestion hrest]

/-- **The file name that is read** is the name behind the method's word. -/
theorem lineFileName_eq (h : NameBehind after name) (before : Bytes) {word : Bytes}
    (hword : Chr.slash ∉ word) {pos : StrPos}
    (hpos : pos = findChar (before ++ (word ++ after)) Chr.slash (some before.length)) :
    lineFileName (before ++ (word ++ after)) pos
      (findChar (before ++ (word ++ after)) Chr.space pos) = name := by
  cases h with
  | none hslash =>
    rw [findChar_append_none before fun h => (List.mem_append.mp h).elim hword hslash] at hpos
    rw [hpos]
    rfl
  | @blank gap rest hgap =>
    have hcut : before ++ (word ++ (gap ++ Chr.slash :: Chr.space :: rest))
        = before ++ (word ++ gap) ++ ([Chr.slash] ++ Chr.space :: rest) := by simp
    rw [← List.append_assoc word, findChar_append before fun h =>
      (List.mem_append.mp h).elim hword hgap, ← List.length_append] at hpos
    rw [hcut, hpos, findChar_append _ (by decide), lineFileName]
    simp [StrPos.dist, StrPos.exceeds]
  | @name gap _ rest hgap hspace hquestion hrest =>
    have hcut : before ++ (word ++ (gap ++ Chr.slash :: (name ++ rest)))
        = before ++ (word ++ gap) ++ Chr.slash :: (name ++ rest) := by simp
    rw [← List.append_assoc word, findChar_append before fun h =>
      (List.mem_append.mp h).elim hword hgap, ← List.length_append] at hpos
    rw [hcut, hpos]
    by_cases hblank : Chr.space ∈ rest
    · exact lineFileName_to_blank _ hspace hquestion hrest hblank
    · exact lineFileName_to_end _ hspace hquestion (fun b hb =>
        (hrest b hb).resolve_right fun h => hblank (h.1 ▸ List.mem_of_mem_head? hb)) hblank

end WebServer.Http
