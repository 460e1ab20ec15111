import WebServer.Lib.CInt
import WebServer.Skiplist.Refine
import WebServer.Ftp.UserManager
import Mathlib.Data.List.Lex
import Mathlib.Data.List.Sort

/-!
# Skiplist/Persist — a list written to a file, and read back

`dumpFile` writes a line `key:value` for each node; `loadFile` cuts a line at its first `:` and
inserts what it finds unless a part is empty.  Nothing is escaped.  What is read back is what was
written exactly if no key is empty, too long for an `int`, or has a `:`, and no value is empty
(`plain_of_roundTrip`, `roundTrip_of_plain`).
-/

namespace WebServer.Skiplist

open WebServer.Ftp (line lines lines_of_ne_nil)

/-! ## The file -/

/-- `DELIMITER` -/
def delimiter : Bytes := [Chr.colon]

section Entries

variable {K V : Type*}

/-- **The loop over the nodes** from `cur` on. -/
def Heap.entries (h : Heap K V) : ℕ → Option ℕ → Option (List (K × V))
  | _, none => some []
  | 0, some _ => none
  | fuel + 1, some cur => (h cur).bind fun n => (h.forward 0 cur).bind fun next =>
      (entries h fuel next).map ((n.key, n.value) :: ·)

/-- **The pairs of a list**, in the order of its nodes. -/
def SkipList.entries (s : SkipList K V) : Option (List (K × V)) :=
  (s.heap.forward 0 s.header).bind (s.heap.entries s.fresh)

end Entries

/-- What `dumpFile` writes for a node. -/
def record (kv : Bytes × Bytes) : Bytes := kv.1 ++ Chr.colon :: kv.2

/-- **`dumpFile`**: the file that it leaves. -/
def SkipList.dumpFile (s : SkipList Bytes Bytes) : Option Bytes :=
  s.entries.map (·.flatMap fun kv => record kv ++ [Chr.lf])

/-- `is_valid_string` -/
def isValidString (str : Bytes) : Bool := !(str.isEmpty || (findStr delimiter str).isNone)

/-- `int pos = str.find(…)` -/
def intPos : StrPos → ℤ
  | none => -1
  | some p => CInt.convert p

/-- **`get_key_value_from_string`**: `*key` and `*value` afterwards.  No answer where `pos + 1`
overflows, and where it is negative and `substr` throws. -/
def getKeyValueFromString (str : Bytes) (kv : Bytes × Bytes) : Option (Bytes × Bytes) :=
  if !isValidString str then some kv
  else
    let pos := intPos (findStr delimiter str)
    if pos = CInt.intMax ∨ pos + 1 < 0 then none
    else some (substr str 0 (if pos < 0 then none else some pos.toNat),
      substr str (pos + 1).toNat (some str.length))

/-- Strings compare as `std::string` does, byte by byte and unsigned. -/
abbrev stringOrder : LinearOrder Bytes :=
  LinearOrder.lift' (fun s : Bytes => s.map UInt8.toNat)
    (List.map_injective_iff.mpr fun _ _ h => UInt8.toNat_inj.mp h)

section Load

attribute [local instance] stringOrder

/-- **The loop of `loadFile`** over the lines, with `*key` and `*value`, and the coins that the
insertions throw. -/
def loadLoop : SkipList Bytes Bytes → Bytes × Bytes → (ℕ → ℕ) → List Bytes →
    Option (SkipList Bytes Bytes)
  | s, _, _, [] => some s
  | s, kv, coins, str :: rest => (getKeyValueFromString str kv).bind fun kv =>
      if kv.1.isEmpty || kv.2.isEmpty then loadLoop s kv coins rest
      else (s.insertElement kv.1 kv.2 (coins 0)).bind fun (_, s) =>
        loadLoop s kv (fun n => coins (n + 1)) rest

/-- **`loadFile`**, of a file with this content. -/
def SkipList.loadFile (s : SkipList Bytes Bytes) (content : Bytes) (coins : ℕ → ℕ) :
    Option (SkipList Bytes Bytes) :=
  loadLoop s ([], []) coins (lines content)

/-- **The list comes back**: dumped, and loaded into an empty one, it has the same pairs. -/
def RoundTrip (s : SkipList Bytes Bytes) (maxLevel : ℕ) (coins : ℕ → ℕ) : Prop :=
  ∃ content s', s.dumpFile = some content ∧
    (SkipList.new [] [] maxLevel).loadFile content coins = some s' ∧ s'.entries = s.entries

/-- **A pair that a line can carry.** -/
structure Plain (kv : Bytes × Bytes) : Prop where
  key : kv.1 ≠ []
  colon : Chr.colon ∉ kv.1
  length : kv.1.length < CInt.intMax
  value : kv.2 ≠ []

end Load

/-! ## The pairs of a list -/

section Entries

variable {K V : Type*}

/-- A cell as a pair. -/
def Cell.pair (c : Cell K V) : K × V := (c.key, c.value)

theorem Heap.entries_spec {h : Heap K V} : ∀ {cells : List (Cell K V)} {a fuel : ℕ},
    InHeap h cells → Linked (h.forward 0) a (cells.map (·.addr)) → cells.length ≤ fuel →
    (h.forward 0 a).bind (h.entries fuel) = some (cells.map Cell.pair)
  | [], a, fuel, _, hl, _ => by
    rw [hl.next_eq, Option.bind_some]
    cases fuel <;> rfl
  | c :: cells, a, 0, _, _, hf => absurd hf (Nat.not_succ_le_zero _)
  | c :: cells, a, fuel + 1, hin, hl, hf => by
    obtain ⟨n, ha, hkey, hvalue, -⟩ := Heap.data_eq_some.mp (hin c (List.mem_cons_self ..))
    have ih : (h.forward 0 c.addr).bind (h.entries fuel) = some (cells.map Cell.pair) :=
      entries_spec (fun d hd => hin d (List.mem_cons_of_mem _ hd)) hl.2 (Nat.le_of_succ_le_succ hf)
    rw [hl.next_eq, Option.bind_some]
    change (h c.addr).bind (fun n => (h.forward 0 c.addr).bind fun next =>
      (h.entries fuel next).map ((n.key, n.value) :: ·)) = _
    rw [ha, Option.bind_some, List.map_cons, Cell.pair, ← hkey, ← hvalue]
    rw [← Option.map_some (f := ((n.key, n.value) :: ·)), ← ih, Option.map_bind]
    rfl

/-- **The pairs of a list are those of its cells.** -/
theorem entries_eq [LinearOrder K] {s : SkipList K V} {cells : List (Cell K V)}
    (hr : Repr s cells) : s.entries = some (cells.map Cell.pair) := by
  have hl := hr.linked 0 (Nat.zero_le _)
  rw [tower_zero] at hl
  exact Heap.entries_spec hr.placed.inHeap hl (Nat.le_of_lt hr.length_lt)

/-- Lists that denote one map have the same pairs. -/
theorem pairs_eq_of_mem_iff [LinearOrder K] {cells cells' : List (Cell K V)}
    (hs : cells.Pairwise (·.key < ·.key)) (hs' : cells'.Pairwise (·.key < ·.key))
    (h : ∀ kv, kv ∈ cells.map Cell.pair ↔ kv ∈ cells'.map Cell.pair) :
    cells.map Cell.pair = cells'.map Cell.pair := by
  have hirr : Std.Irrefl fun a b : K × V => a.1 < b.1 := ⟨fun a => lt_irrefl a.1⟩
  have hanti : Std.Antisymm fun a b : K × V => a.1 < b.1 := ⟨fun a b h h' => absurd h (lt_asymm h')⟩
  have hmap : ∀ {cells : List (Cell K V)}, cells.Pairwise (·.key < ·.key) →
      (cells.map Cell.pair).Pairwise fun a b => a.1 < b.1 := fun h => List.pairwise_map.mpr h
  exact (hmap hs).eq_of_mem_iff (hmap hs') h

end Entries

/-! ## Pairs that go into a map -/

section InsertAll

variable {K V : Type*} [LinearOrder K] {m : KeyMap K V} {kvs : List (K × V)} {k : K} {v : V}
  {cells : List (Cell K V)}

/-- The pairs of a list are the entries of its map. -/
theorem mem_pairs {kv : K × V} (hd : Denotes cells m) :
    kv ∈ cells.map Cell.pair ↔ m.lookup kv.1 = some kv.2 := by
  rw [hd kv.1 kv.2, List.mem_map]
  refine exists_congr fun c => and_congr_right fun _ => ?_
  rw [Cell.pair, Prod.ext_iff]

/-- Pairs that go into a map one after the other. -/
def insertAll (m : KeyMap K V) (kvs : List (K × V)) : KeyMap K V :=
  kvs.foldl (fun m kv => m.insert kv.1 kv.2) m

theorem mem_of_lookup_insertAll (h : (insertAll m kvs).lookup k = some v) :
    m.lookup k = some v ∨ (k, v) ∈ kvs := by
  induction kvs generalizing m with
  | nil => exact .inl h
  | cons kv kvs ih =>
    obtain h | h := ih (m := m.insert kv.1 kv.2) h
    · by_cases hk : k = kv.1
      · rw [hk, Finmap.lookup_insert] at h
        obtain rfl := Option.some.inj h
        exact .inr (hk ▸ List.mem_cons_self ..)
      · rw [Finmap.lookup_insert_of_ne _ hk] at h
        exact .inl h
    · exact .inr (List.mem_cons_of_mem _ h)

theorem mem_of_lookup_insertAll_empty (h : (insertAll ∅ kvs).lookup k = some v) : (k, v) ∈ kvs := by
  obtain h | h := mem_of_lookup_insertAll h
  · rw [Finmap.lookup_empty] at h
    exact absurd h (by simp)
  · exact h

theorem lookup_insertAll_of_notMem (h : k ∉ kvs.map Prod.fst) :
    (insertAll m kvs).lookup k = m.lookup k := by
  induction kvs generalizing m with
  | nil => rfl
  | cons kv kvs ih =>
    rw [List.map_cons, List.mem_cons, not_or] at h
    exact (ih h.2).trans (Finmap.lookup_insert_of_ne _ h.1)

theorem lookup_insertAll (hnd : (kvs.map Prod.fst).Nodup) (h : (k, v) ∈ kvs) :
    (insertAll m kvs).lookup k = some v := by
  induction kvs generalizing m with
  | nil => exact absurd h List.not_mem_nil
  | cons kv kvs ih =>
    rw [List.map_cons, List.nodup_cons] at hnd
    obtain rfl | h := List.mem_cons.mp h
    · exact (lookup_insertAll_of_notMem hnd.1).trans (Finmap.lookup_insert _)
    · exact ih hnd.2 h

end InsertAll

/-! ## One line -/

theorem findStr_colon {a : Bytes} (ha : Chr.colon ∉ a) (b : Bytes) :
    findStr delimiter (a ++ Chr.colon :: b) = some a.length := by
  have hself : findStr delimiter (Chr.colon :: b) = some 0 := by
    rw [delimiter, findStr, if_pos (by simp)]
  rw [delimiter, findStr_skip ha, ← delimiter, hself, Option.map_some, Nat.zero_add]

/-- **A line is cut at its first colon**, whose position is stored in an `int`. -/
theorem getKeyValue_eq {a : Bytes} (ha : Chr.colon ∉ a) (b : Bytes) (kv : Bytes × Bytes) {pos : ℤ}
    (hpos : CInt.convert a.length = pos) :
    getKeyValueFromString (a ++ Chr.colon :: b) kv =
      if pos = CInt.intMax ∨ pos + 1 < 0 then none
      else some (substr (a ++ Chr.colon :: b) 0 (if pos < 0 then none else some pos.toNat),
        substr (a ++ Chr.colon :: b) (pos + 1).toNat (some (a ++ Chr.colon :: b).length)) := by
  have hvalid : isValidString (a ++ Chr.colon :: b) = true := by
    rw [isValidString, findStr_colon ha]
    simp
  rw [getKeyValueFromString, hvalid, findStr_colon ha, intPos, hpos, Bool.not_true,
    if_neg Bool.false_ne_true]

/-- A key that fits is read back, and the rest of the line is the value. -/
theorem getKeyValue_plain {a : Bytes} (ha : Chr.colon ∉ a) (hlen : a.length < CInt.intMax)
    (b : Bytes) (kv : Bytes × Bytes) :
    getKeyValueFromString (a ++ Chr.colon :: b) kv = some (a, b) := by
  have hok : ¬ ((a.length : ℤ) = CInt.intMax ∨ (a.length : ℤ) + 1 < 0) := by omega
  have hkey : substr (a ++ Chr.colon :: b) 0 (some a.length) = a := by
    rw [substr, List.drop_zero, List.take_left]
  have hvalue : substr (a ++ Chr.colon :: b) (a.length + 1)
      (some (a ++ Chr.colon :: b).length) = b := by
    rw [substr, ← List.drop_drop, List.drop_left, List.drop_one, List.tail_cons,
      List.take_of_length_le]
    rw [List.length_append, List.length_cons]
    omega
  rw [getKeyValue_eq ha b kv (CInt.convert_natCast (Nat.le_of_lt hlen)), if_neg hok,
    if_neg (by omega), Int.toNat_natCast, show ((a.length : ℤ) + 1).toNat = a.length + 1 by omega,
    hkey, hvalue]

/-- **What is read as a key**: it has no colon and fits, or it is the whole of a line whose colon is
too far. -/
theorem key_of_getKeyValue {a b : Bytes} (ha : Chr.colon ∉ a) {kv kv' : Bytes × Bytes}
    (h : getKeyValueFromString (a ++ Chr.colon :: b) kv = some kv') :
    (Chr.colon ∉ kv'.1 ∧ kv'.1.length < CInt.intMax) ∨
      (kv'.1 = a ++ Chr.colon :: b ∧ ¬ a.length < CInt.intMax) := by
  obtain ⟨pos, hpos⟩ : ∃ pos, CInt.convert a.length = pos := ⟨_, rfl⟩
  rw [getKeyValue_eq ha b kv hpos] at h
  by_cases hbad : pos = CInt.intMax ∨ pos + 1 < 0
  · rw [if_pos hbad] at h
    exact absurd h (by simp)
  rw [if_neg hbad] at h
  obtain rfl := Option.some.inj h
  by_cases hneg : pos < 0
  · refine .inr ⟨?_, fun hlt => ?_⟩
    · dsimp only
      rw [if_pos hneg, substr, List.drop_zero]
    · rw [CInt.convert_natCast (Nat.le_of_lt hlt)] at hpos
      omega
  · left
    obtain ⟨hle, hmax⟩ := CInt.toNat_convert_natCast (k := a.length) (by omega)
    rw [hpos] at hle hmax
    have hkey : substr (a ++ Chr.colon :: b) 0 (some pos.toNat) = a.take pos.toNat := by
      rw [substr, List.drop_zero, List.take_append_of_le_length hle]
    dsimp only
    rw [if_neg hneg, hkey]
    refine ⟨fun hmem => ha (List.mem_of_mem_take hmem), ?_⟩
    rw [List.length_take]
    omega

/-- **A line is read as a pair**, whatever was read before. -/
def ReadAs (str : Bytes) (kv' : Bytes × Bytes) : Prop :=
  ∀ kv, getKeyValueFromString str kv = some kv'

theorem exists_readAs {kvs kvs' : List (Bytes × Bytes)} {kv : Bytes × Bytes}
    (h : List.Forall₂ ReadAs (kvs.map record) kvs') (hkv : kv ∈ kvs') :
    ∃ kv' ∈ kvs, ReadAs (record kv') kv := by
  rw [List.forall₂_map_left_iff] at h
  induction h with
  | nil => exact absurd hkv List.not_mem_nil
  | cons hread _ ih =>
    obtain rfl | hkv := List.mem_cons.mp hkv
    · exact ⟨_, List.mem_cons_self .., hread⟩
    · obtain ⟨kv', hmem, hr⟩ := ih hkv
      exact ⟨kv', List.mem_cons_of_mem _ hmem, hr⟩

/-- What is read does not depend on the line before. -/
theorem getKeyValue_congr {str : Bytes} (h : isValidString str = true) (kv kv' : Bytes × Bytes) :
    getKeyValueFromString str kv = getKeyValueFromString str kv' := by
  rw [getKeyValueFromString, getKeyValueFromString, h, Bool.not_true, if_neg Bool.false_ne_true,
    if_neg Bool.false_ne_true]

theorem isValidString_record (kv : Bytes × Bytes) : isValidString (record kv) = true := by
  have hmem : Chr.colon ∈ record kv := List.mem_append_right _ (List.mem_cons_self ..)
  obtain ⟨a, b, heq, ha⟩ := List.eq_append_cons_of_mem hmem
  rw [isValidString, heq, findStr_colon ha]
  simp

/-! ## All lines -/

theorem lines_append {l : Bytes} (hl : Chr.lf ∉ l) (s : Bytes) :
    lines (l ++ Chr.lf :: s) = l :: lines s := by
  have hline : line (l ++ Chr.lf :: s) = l := by
    rw [line, List.takeWhile_append_of_pos fun b hb => ?_]
    · simp
    · exact decide_eq_true fun e => hl (e ▸ hb)
  rw [lines_of_ne_nil (by simp), hline, ← List.drop_drop, List.drop_left, List.drop_one,
    List.tail_cons]

/-- **The lines of a file** that was written line by line. -/
theorem lines_flatMap : ∀ {ls : List Bytes}, (∀ l ∈ ls, Chr.lf ∉ l) →
    lines (ls.flatMap (· ++ [Chr.lf])) = ls
  | [], _ => rfl
  | l :: ls, h => by
    rw [List.flatMap_cons, List.append_assoc, List.singleton_append,
      lines_append (h l (List.mem_cons_self ..)),
      lines_flatMap fun l' hl' => h l' (List.mem_cons_of_mem _ hl')]

theorem lf_notMem_record {kv : Bytes × Bytes} (h : Chr.lf ∉ kv.1 ∧ Chr.lf ∉ kv.2) :
    Chr.lf ∉ record kv := by
  rw [record, List.mem_append, List.mem_cons, not_or, not_or]
  exact ⟨h.1, by decide, h.2⟩

/-- A pair that `loadFile` does not skip. -/
def isFull (kv : Bytes × Bytes) : Bool := !(kv.1.isEmpty || kv.2.isEmpty)

section Load

attribute [local instance] stringOrder

variable {s : SkipList Bytes Bytes} {cells : List (Cell Bytes Bytes)} {m : KeyMap Bytes Bytes}
  {strs : List Bytes} {kvs : List (Bytes × Bytes)}

/-- **The loop of `loadFile`** inserts the full pairs it reads. -/
theorem loadLoop_spec (hr : Repr s cells) (hd : Denotes cells m)
    (h : List.Forall₂ ReadAs strs kvs)
    (kv : Bytes × Bytes) (coins : ℕ → ℕ) : ∃ s' cells', loadLoop s kv coins strs = some s' ∧
      Repr s' cells' ∧ Denotes cells' (insertAll m (kvs.filter isFull)) := by
  induction h generalizing s cells m kv coins with
  | nil => exact ⟨s, cells, rfl, hr, hd⟩
  | @cons str kv' strs kvs hread _ ih =>
    rw [loadLoop, hread, Option.bind_some]
    by_cases hfull : (kv'.1.isEmpty || kv'.2.isEmpty) = true
    · have hskip : ¬ isFull kv' = true := by rw [isFull, hfull]; exact Bool.false_ne_true
      rw [if_pos hfull, List.filter_cons_of_neg hskip]
      exact ih hr hd kv' coins
    · have hkeep : isFull kv' = true := by simpa [isFull] using hfull
      obtain ⟨_, s₁, cells₁, hs₁, -, hr₁, hd₁, -⟩ :=
        step_spec hr hd (.insertElement kv'.1 kv'.2 (coins 0))
      rw [SkipList.step, Option.map_eq_some_iff] at hs₁
      obtain ⟨⟨r, s₂⟩, hins, heq⟩ := hs₁
      obtain rfl : s₂ = s₁ := (Prod.mk.inj heq).2
      rw [if_neg hfull, hins, Option.bind_some, List.filter_cons_of_pos hkeep]
      exact ih (s := s₂) hr₁ hd₁ kv' fun n => coins (n + 1)

/-- A load that ends has read every line. -/
theorem forall₂_of_loadLoop {s' : SkipList Bytes Bytes} {kv : Bytes × Bytes} {coins : ℕ → ℕ}
    (hvalid : ∀ str ∈ strs, isValidString str = true) (h : loadLoop s kv coins strs = some s') :
    ∃ kvs, List.Forall₂ ReadAs strs kvs := by
  induction strs generalizing s kv coins with
  | nil => exact ⟨[], .nil⟩
  | cons str strs ih =>
    obtain ⟨kv', hread, h⟩ := Option.bind_eq_some_iff.mp h
    have hrest : ∀ str ∈ strs, isValidString str = true := fun str hstr =>
      hvalid str (List.mem_cons_of_mem _ hstr)
    have hall : ∀ kv, getKeyValueFromString str kv = some kv' := fun kv'' =>
      (getKeyValue_congr (hvalid str (List.mem_cons_self ..)) kv'' kv).trans hread
    obtain ⟨kvs, hkvs⟩ : ∃ kvs, List.Forall₂ ReadAs strs kvs := by
      split at h
      · exact ih hrest h
      · obtain ⟨⟨r, s₁⟩, -, h⟩ := Option.bind_eq_some_iff.mp h
        exact ih hrest h
    exact ⟨kv' :: kvs, .cons hall hkvs⟩

/-! ## The round trip -/

/-- The file of a list, and its lines. -/
theorem dumpFile_eq (hr : Repr s cells)
    (hlf : ∀ kv ∈ cells.map Cell.pair, Chr.lf ∉ kv.1 ∧ Chr.lf ∉ kv.2) :
    ∃ content, s.dumpFile = some content ∧ lines content = (cells.map Cell.pair).map record := by
  refine ⟨_, by rw [SkipList.dumpFile, entries_eq hr, Option.map_some], ?_⟩
  have hlines : ∀ l ∈ (cells.map Cell.pair).map record, Chr.lf ∉ l := by
    intro l hl
    obtain ⟨kv, hkv, rfl⟩ := List.mem_map.mp hl
    exact lf_notMem_record (hlf kv hkv)
  rw [← lines_flatMap hlines]
  have hmap : ((cells.map Cell.pair).map record).flatMap (· ++ [Chr.lf])
      = (cells.map Cell.pair).flatMap fun kv => record kv ++ [Chr.lf] := List.flatMap_map ..
  exact congrArg lines hmap.symm

/-- **Plain pairs come back.** -/
theorem roundTrip_of_plain (hr : Repr s cells)
    (hlf : ∀ kv ∈ cells.map Cell.pair, Chr.lf ∉ kv.1 ∧ Chr.lf ∉ kv.2)
    (hplain : ∀ kv ∈ cells.map Cell.pair, Plain kv) (maxLevel : ℕ) (coins : ℕ → ℕ) :
    RoundTrip s maxLevel coins := by
  obtain ⟨content, hdump, hlines⟩ := dumpFile_eq hr hlf
  have hread : List.Forall₂ ReadAs ((cells.map Cell.pair).map record) (cells.map Cell.pair) := by
    rw [List.forall₂_map_left_iff]
    refine List.forall₂_same.mpr fun kv hkv prev => ?_
    exact getKeyValue_plain (hplain kv hkv).colon (hplain kv hkv).length kv.2 prev
  have hfull : (cells.map Cell.pair).filter isFull = cells.map Cell.pair := by
    refine List.filter_eq_self.mpr fun kv hkv => ?_
    have hp := hplain kv hkv
    simp [isFull, hp.key, hp.value]
  obtain ⟨s', cells', hload, hr', hd'⟩ :=
    loadLoop_spec (repr_new [] [] maxLevel) denotes_empty hread
    ([], []) coins
  refine ⟨content, s', hdump, by rw [SkipList.loadFile, hlines, hload], ?_⟩
  rw [entries_eq hr', entries_eq hr]
  refine congrArg some (pairs_eq_of_mem_iff hr'.sorted hr.sorted fun kv => ?_)
  rw [mem_pairs hd', hfull]
  refine ⟨fun h => ?_, lookup_insertAll ?_⟩
  · exact mem_of_lookup_insertAll_empty h
  · rw [List.map_map]
    exact (List.pairwise_map.mpr (hr.sorted.imp fun h => ne_of_lt h))

/-- **Keys that are read from the lines of each other** have no colon and fit: a key with a colon,
or one that is too long, comes from the line of a shorter key that is no better. -/
theorem colon_notMem_of_readAs {kvs : List (Bytes × Bytes)}
    (hfrom : ∀ kv ∈ kvs, ∃ kv' ∈ kvs, ReadAs (record kv') kv) : ∀ n, ∀ kv ∈ kvs, kv.1.length = n →
      Chr.colon ∉ kv.1 ∧ kv.1.length < CInt.intMax := by
  intro n
  induction n using Nat.strongRecOn with
  | _ n ih =>
    rintro kv hkv rfl
    obtain ⟨kv', hkv', hread⟩ := hfrom kv hkv
    have hcolon : Chr.colon ∈ record kv' := List.mem_append_right _ (List.mem_cons_self ..)
    obtain ⟨a, b, heq, ha⟩ := List.eq_append_cons_of_mem hcolon
    have hkey := hread ([], [])
    rw [heq] at hkey
    obtain h | ⟨hline, hlong⟩ := key_of_getKeyValue ha hkey
    · exact h
    · have hlen : kv'.1.length < kv.1.length := by
        rw [hline, ← heq, record, List.length_append, List.length_cons]
        omega
      obtain ⟨hno, hfit⟩ := ih _ hlen kv' hkv' rfl
      obtain rfl : kv'.1 = a := (append_cons_inj hno ha heq).1
      exact absurd hfit hlong

/-- **What comes back** is full, and read from the line of some pair. -/
theorem readAs_of_roundTrip (hr : Repr s cells)
    (hlf : ∀ kv ∈ cells.map Cell.pair, Chr.lf ∉ kv.1 ∧ Chr.lf ∉ kv.2) {maxLevel : ℕ} {coins : ℕ → ℕ}
    (h : RoundTrip s maxLevel coins) : ∀ kv ∈ cells.map Cell.pair, isFull kv = true ∧
      ∃ kv' ∈ cells.map Cell.pair, ReadAs (record kv') kv := by
  obtain ⟨content, hdump, hlines⟩ := dumpFile_eq hr hlf
  obtain ⟨content', s', hdump', hload, hentries⟩ := h
  obtain rfl : content = content' := Option.some.inj (hdump.symm.trans hdump')
  rw [SkipList.loadFile, hlines] at hload
  have hvalid : ∀ str ∈ (cells.map Cell.pair).map record, isValidString str = true := by
    intro str hstr
    obtain ⟨kv, -, rfl⟩ := List.mem_map.mp hstr
    exact isValidString_record kv
  obtain ⟨kvs, hread⟩ := forall₂_of_loadLoop hvalid hload
  obtain ⟨s₁, cells', hload', hr', hd'⟩ :=
    loadLoop_spec (repr_new [] [] maxLevel) denotes_empty hread
    ([], []) coins
  obtain rfl : s' = s₁ := Option.some.inj (hload.symm.trans hload')
  rw [entries_eq hr', entries_eq hr] at hentries
  have hsame := Option.some.inj hentries
  intro kv hkv
  rw [← hsame, mem_pairs hd'] at hkv
  obtain ⟨hmem, hfull⟩ := List.mem_filter.mp (mem_of_lookup_insertAll_empty hkv)
  exact ⟨hfull, exists_readAs hread hmem⟩

/-- **What comes back was plain.** -/
theorem plain_of_roundTrip (hr : Repr s cells)
    (hlf : ∀ kv ∈ cells.map Cell.pair, Chr.lf ∉ kv.1 ∧ Chr.lf ∉ kv.2) {maxLevel : ℕ} {coins : ℕ → ℕ}
    (h : RoundTrip s maxLevel coins) : ∀ kv ∈ cells.map Cell.pair, Plain kv := by
  have hfrom := readAs_of_roundTrip hr hlf h
  intro kv hkv
  have hfull := (hfrom kv hkv).1
  have hkey := colon_notMem_of_readAs (fun kv hkv => (hfrom kv hkv).2) _ kv hkv rfl
  simp [isFull] at hfull
  exact ⟨hfull.1, hkey.1, hkey.2, hfull.2⟩

/-- **The round trip, exactly**: a list that was reached by any operations comes back from its file,
whatever the levels of the new nodes, if and only if each of its pairs is plain. -/
theorem roundTrip_iff {n : ℕ} {ops : List (Op Bytes Bytes)} {rs : List (Result Bytes)}
    {es : List (Bytes × Bytes)} (hrun : (SkipList.new [] [] n).run ops = some (rs, s))
    (hes : s.entries = some es) (hlf : ∀ kv ∈ es, Chr.lf ∉ kv.1 ∧ Chr.lf ∉ kv.2) (maxLevel : ℕ)
    (coins : ℕ → ℕ) : RoundTrip s maxLevel coins ↔ ∀ kv ∈ es, Plain kv := by
  obtain ⟨_, s', cells, hrun', -, hr, -⟩ := run_spec (repr_new [] [] n) denotes_empty ops
  obtain rfl : s = s' := (Prod.mk.inj (Option.some.inj (hrun.symm.trans hrun'))).2
  obtain rfl : es = cells.map Cell.pair := Option.some.inj (hes.symm.trans (entries_eq hr))
  exact ⟨fun h => plain_of_roundTrip hr hlf h, fun h => roundTrip_of_plain hr hlf h maxLevel coins⟩

/-- A list that some pairs with distinct keys went into. -/
theorem exists_run_insertAll (kvs : List (Bytes × Bytes)) (hnd : (kvs.map Prod.fst).Nodup) :
    ∃ (s : SkipList Bytes Bytes) (rs : List (Result Bytes)) (cells : List (Cell Bytes Bytes)),
    (SkipList.new [] [] 4).run (kvs.map fun kv => .insertElement kv.1 kv.2 0) = some (rs, s) ∧
      Repr s cells ∧ ∀ kv, kv ∈ cells.map Cell.pair ↔ kv ∈ kvs := by
  have hmap (m : KeyMap Bytes Bytes) : (m.run (kvs.map fun kv => .insertElement kv.1 kv.2 0)).2
      = insertAll m kvs := by
    clear hnd
    induction kvs generalizing m with
    | nil => rfl
    | cons kv kvs ih =>
      rw [List.map_cons, KeyMap.run]
      exact ih _
  obtain ⟨rs, s, cells, hrun, -, hr, hd, -⟩ := run_spec (repr_new [] [] 4) denotes_empty
    (kvs.map fun kv => .insertElement kv.1 kv.2 0)
  rw [hmap] at hd
  refine ⟨s, rs, cells, hrun, hr, fun kv => ?_⟩
  rw [mem_pairs hd]
  exact ⟨mem_of_lookup_insertAll_empty, lookup_insertAll hnd⟩

/-- **Two pairs** come back, in the order of their keys. -/
theorem roundTrip_iff_two : ∃ (s : SkipList Bytes Bytes) (es : List (Bytes × Bytes)),
    s.entries = some es ∧ (∀ kv, kv ∈ es ↔ kv ∈ [(text "b", text ":"), (text "a", text "2")]) ∧
      RoundTrip s 4 fun _ => 0 := by
  obtain ⟨s, rs, cells, hrun, hr, hmem⟩ :=
    exists_run_insertAll [(text "b", text ":"), (text "a", text "2")] (by decide)
  have hplain : ∀ kv ∈ [(text "b", text ":"), (text "a", text "2")], Plain kv := by
    intro kv hkv
    rw [List.mem_cons, List.mem_singleton] at hkv
    obtain rfl | rfl := hkv
    · exact ⟨by decide, by decide, by decide, by decide⟩
    · exact ⟨by decide, by decide, by decide, by decide⟩
  have hlf : ∀ kv ∈ [(text "b", text ":"), (text "a", text "2")],
      Chr.lf ∉ kv.1 ∧ Chr.lf ∉ kv.2 := by decide
  exact ⟨s, _, entries_eq hr, hmem, (roundTrip_iff hrun (entries_eq hr)
    (fun kv hkv => hlf kv ((hmem kv).mp hkv)) 4 fun _ => 0).mpr
    fun kv hkv => hplain kv ((hmem kv).mp hkv)⟩

/-- **A key with a colon does not come back**: `a:b` with the value `c` is read as `a`, with the
value `b:c`. -/
theorem not_roundTrip_colon : ¬ ∀ (ops : List (Op Bytes Bytes)) (rs : List (Result Bytes))
    (s : SkipList Bytes Bytes) (es : List (Bytes × Bytes)),
    (SkipList.new [] [] 4).run ops = some (rs, s) → s.entries = some es →
    (∀ kv ∈ es, Chr.lf ∉ kv.1 ∧ Chr.lf ∉ kv.2) → RoundTrip s 4 fun _ => 0 := by
  intro h
  obtain ⟨s, rs, cells, hrun, hr, hmem⟩ :=
    exists_run_insertAll [(text "a:b", text "c")] (by decide)
  have hlf : ∀ kv ∈ cells.map Cell.pair, Chr.lf ∉ kv.1 ∧ Chr.lf ∉ kv.2 := fun kv hkv => by
    obtain rfl := List.mem_singleton.mp ((hmem kv).mp hkv)
    decide
  have hplain := plain_of_roundTrip hr hlf (h _ rs s _ hrun (entries_eq hr) hlf)
  exact absurd (hplain _ ((hmem _).mpr (List.mem_singleton_self _))).colon (by decide)

end Load

end WebServer.Skiplist
