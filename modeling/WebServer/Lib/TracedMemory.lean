import WebServer.Lib.ByteMemory
import WebServer.Lib.Bytes

/-!
# Lib/TracedMemory — a memory that remembers where it was written

Bytes are stored one at a time, and each store is remembered by its address, whatever it changes.
Copying and reversing in place are loops of such stores; `Within` says that a memory comes out of
another by stores between two addresses, and composes.
-/

/-- **A memory, and the addresses it was written at.** -/
structure TracedMemory where
  bytes : Memory
  written : List ℕ

namespace TracedMemory

/-- Storing a byte. -/
def poke (m : TracedMemory) (a : ℕ) (b : UInt8) : TracedMemory :=
  ⟨Function.update m.bytes a b, a :: m.written⟩

/-- **Copying bytes to an address.** -/
def copy (m : TracedMemory) (a : ℕ) : Bytes → TracedMemory
  | [] => m
  | b :: bs => copy (m.poke a b) (a + 1) bs

/-- Exchanging two bytes. -/
def swap (m : TracedMemory) (a b : ℕ) : TracedMemory :=
  (m.poke a (m.bytes b)).poke b (m.bytes a)

/-- The loop of `reverse`, between two addresses of which the second is still swapped. -/
def reverseLoop (m : TracedMemory) (first last : ℕ) : TracedMemory :=
  if first < last then reverseLoop (m.swap first last) (first + 1) (last - 1) else m
termination_by last - first

/-- **Reversing the bytes between two addresses in place.** -/
def reverse (m : TracedMemory) (first last : ℕ) : TracedMemory :=
  if first = last then m else reverseLoop m first (last - 1)

/-- The `n` bytes from an address on. -/
def read (m : TracedMemory) (a n : ℕ) : Bytes := (List.range n).map fun i => m.bytes (a + i)

variable {m m' m'' : TracedMemory} {a b n k lo hi lo' hi' : ℕ} {bs : Bytes}

theorem bytes_poke (v : UInt8) (x : ℕ) :
    (m.poke a v).bytes x = if x = a then v else m.bytes x := Function.update_apply ..

theorem bytes_swap (x : ℕ) : (m.swap a b).bytes x =
    if x = b then m.bytes a else if x = a then m.bytes b else m.bytes x := by
  rw [swap, bytes_poke, bytes_poke]

/-! ## Reading -/

@[simp] theorem length_read : (m.read a n).length = n := by
  rw [read, List.length_map, List.length_range]

theorem read_add : m.read a (n + k) = m.read a n ++ m.read (a + n) k := by
  rw [read, List.range_add, List.map_append, List.map_map]
  congr 1
  exact List.map_congr_left fun _ _ => by rw [Function.comp_apply, Nat.add_assoc]

theorem read_succ : m.read a (n + 1) = m.bytes a :: m.read (a + 1) n := by
  rw [Nat.add_comm, read_add]
  rfl

theorem read_congr (h : ∀ x, a ≤ x → x < a + n → m'.bytes x = m.bytes x) :
    m'.read a n = m.read a n :=
  List.map_congr_left fun _ hi => h _ (Nat.le_add_right ..)
    (Nat.add_lt_add_left (List.mem_range.mp hi) a)

/-! ## Where a memory is written -/

/-- **Only between two addresses** is the one memory written to become the other. -/
structure Within (m m' : TracedMemory) (lo hi : ℕ) : Prop where
  written : ∃ new, m'.written = new ++ m.written ∧ ∀ a ∈ new, lo ≤ a ∧ a < hi
  frame (x : ℕ) : x < lo ∨ hi ≤ x → m'.bytes x = m.bytes x

theorem Within.refl (m : TracedMemory) (lo hi : ℕ) : Within m m lo hi :=
  ⟨⟨[], rfl, fun _ h => absurd h List.not_mem_nil⟩, fun _ _ => rfl⟩

theorem Within.trans (h : Within m m' lo hi) (h' : Within m' m'' lo hi) : Within m m'' lo hi := by
  obtain ⟨new, hnew, hin⟩ := h.written
  obtain ⟨new', hnew', hin'⟩ := h'.written
  refine ⟨⟨new' ++ new, by rw [hnew', hnew, List.append_assoc], fun a ha => ?_⟩, fun x hx => ?_⟩
  · exact (List.mem_append.mp ha).elim (hin' a) (hin a)
  · rw [h'.frame x hx, h.frame x hx]

theorem Within.mono (h : Within m m' lo hi) (hlo : lo' ≤ lo) (hhi : hi ≤ hi') :
    Within m m' lo' hi' := by
  obtain ⟨new, hnew, hin⟩ := h.written
  refine ⟨⟨new, hnew, fun a ha => ?_⟩, fun x hx => h.frame x ?_⟩
  · exact ⟨hlo.trans (hin a ha).1, (hin a ha).2.trans_le hhi⟩
  · exact hx.imp (fun h => h.trans_le hlo) fun h => hhi.trans h

theorem within_poke (m : TracedMemory) (v : UInt8) (ha : lo ≤ a ∧ a < hi) :
    Within m (m.poke a v) lo hi := by
  refine ⟨⟨[a], rfl, fun x hx => ?_⟩, fun x hx => Function.update_of_ne (by omega) ..⟩
  rw [List.mem_singleton.mp hx]
  exact ha

theorem within_copy : ∀ {bs : Bytes} {m : TracedMemory} {a : ℕ},
    Within m (m.copy a bs) a (a + bs.length)
  | [], m, a => .refl ..
  | b :: bs, m, a => by
      rw [copy, List.length_cons]
      refine (within_poke m b (by omega)).trans (within_copy.mono (Nat.le_succ a) ?_)
      omega

theorem within_swap (ha : lo ≤ a ∧ a < hi) (hb : lo ≤ b ∧ b < hi) :
    Within m (m.swap a b) lo hi :=
  (within_poke m _ ha).trans (within_poke _ _ hb)

theorem within_reverseLoop (m : TracedMemory) (a b : ℕ) :
    Within m (m.reverseLoop a b) a (b + 1) := by
  induction m, a, b using reverseLoop.induct with
  | case1 m a b h ih =>
    rw [reverseLoop, if_pos h]
    exact (within_swap (by omega) (by omega)).trans (ih.mono (Nat.le_succ a) (by omega))
  | case2 m a b h =>
    rw [reverseLoop, if_neg h]
    exact .refl ..

theorem within_reverse (h : a ≤ b) : Within m (m.reverse a b) a b := by
  unfold reverse
  split
  · exact .refl ..
  · exact (within_reverseLoop m a (b - 1)).mono (Nat.le_refl a) (by omega)

/-! ## What is stored -/

/-- **What is copied is read.** -/
theorem read_copy : ∀ {bs : Bytes} {m : TracedMemory} {a : ℕ}, (m.copy a bs).read a bs.length = bs
  | [], m, a => rfl
  | b :: bs, m, a => by
      have hfirst : (copy (m.poke a b) (a + 1) bs).bytes a = b := by
        rw [within_copy.frame a (.inl (Nat.lt_succ_self a)), bytes_poke, if_pos rfl]
      rw [copy, List.length_cons, read_succ, hfirst, read_copy]

/-- **Each byte goes to its mirror place.** -/
theorem bytes_reverseLoop (m : TracedMemory) (a b x : ℕ) (hx : a ≤ x ∧ x ≤ b) :
    (m.reverseLoop a b).bytes x = m.bytes (a + b - x) := by
  induction m, a, b using reverseLoop.induct with
  | case1 m a b h ih =>
    rw [reverseLoop, if_pos h]
    by_cases hin : a + 1 ≤ x ∧ x ≤ b - 1
    · rw [ih hin, bytes_swap, if_neg (by omega), if_neg (by omega)]
      congr 1
      omega
    · have hends : x = a ∨ x = b := by omega
      rw [(within_reverseLoop _ _ _).frame x (by omega), bytes_swap]
      obtain rfl | rfl := hends
      · rw [if_neg h.ne, if_pos rfl, Nat.add_sub_cancel_left]
      · rw [if_pos rfl, Nat.add_sub_cancel]
  | case2 m a b h =>
    rw [reverseLoop, if_neg h]
    congr 1
    omega

/-- **Reversing in place reverses.** -/
theorem read_reverse (m : TracedMemory) (a n : ℕ) :
    (m.reverse a (a + n)).read a n = (m.read a n).reverse := by
  refine List.ext_getElem (by simp) fun i hi hi' => ?_
  rw [length_read] at hi
  rw [List.getElem_reverse]
  simp only [read, List.getElem_map, List.getElem_range, List.length_map, List.length_range]
  rw [reverse, if_neg (by omega), bytes_reverseLoop _ _ _ _ (by omega)]
  congr 1
  omega

end TracedMemory
