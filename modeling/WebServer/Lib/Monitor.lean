import Mathlib.Data.Fintype.Basic
import Mathlib.Data.Finset.Card
import Mathlib.Algebra.Order.BigOperators.Group.Finset

/-!
# Lib/Monitor — threads that wait on a condition variable

A critical section of a thread tests a condition and, if it does not hold, puts the thread to sleep;
a thread that is woken tests again, and it may be woken for no reason.  Two ways to leave nobody
asleep for ever: a condition that stays true once it is, and is broadcast (`Rested`); and a stock of
which each unit is signalled, where a signal wakes one thread at least (`Covered`).
-/

/-- **Where a thread is** that uses a monitor. -/
inductive Place (β : Type*)
  /-- In code of its own. -/
  | outside (b : β)
  /-- Before the mutex, to test the condition for the first time. -/
  | entering
  | asleep
  /-- Before the mutex, to test the condition again. -/
  | woken
  deriving DecidableEq

namespace Place

variable {β : Type*}

/-- A thread that is signalled. -/
def wake : Place β → Place β
  | asleep => woken
  | p => p

/-- A thread that was woken and has not tested the condition since. -/
def isWoken : Place β → Bool
  | woken => true
  | _ => false

theorem wake_ne_asleep (p : Place β) : p.wake ≠ asleep := by cases p <;> nofun

theorem wake_of_ne {p : Place β} (h : p ≠ asleep) : p.wake = p := by
  cases p with
  | asleep => exact absurd rfl h
  | _ => rfl

/-- A thread that tests the condition next. -/
def Tests (p : Place β) : Prop := p = entering ∨ p = woken

end Place

namespace Monitor

variable {ι β : Type*} {place : ι → Place β}

/-- The threads in `chosen` are woken, if they sleep. -/
def wake (place : ι → Place β) (chosen : ι → Bool) : ι → Place β :=
  fun i => if chosen i then (place i).wake else place i

/-- **A signal**: if any thread sleeps, it wakes at least one. -/
def Signal (place : ι → Place β) (chosen : ι → Bool) : Prop :=
  (∃ i, place i = .asleep) → ∃ i, place i = .asleep ∧ chosen i = true

theorem asleep_of_wake {chosen : ι → Bool} {i : ι} (h : wake place chosen i = .asleep) :
    place i = .asleep := by
  unfold wake at h
  split at h
  · exact absurd h (Place.wake_ne_asleep _)
  · exact h

theorem wake_of_ne {chosen : ι → Bool} {i : ι} (h : place i ≠ .asleep) :
    wake place chosen i = place i := by
  rw [wake, Place.wake_of_ne h, ite_self]

/-! ## A condition that is broadcast -/

/-- Nobody sleeps. -/
def Rested (place : ι → Place β) : Prop := ∀ i, place i ≠ .asleep

theorem rested_broadcast : Rested (wake place fun _ => true) := fun i h => by
  rw [wake, if_pos rfl] at h
  exact Place.wake_ne_asleep _ h

theorem Rested.wake (h : Rested place) (chosen : ι → Bool) : Rested (wake place chosen) :=
  fun i hi => h i (asleep_of_wake hi)

variable [DecidableEq ι]

/-- A thread that sleeps slept before another one moved. -/
theorem asleep_of_update {i j : ι} {p : Place β} (hp : p ≠ .asleep)
    (hj : Function.update place i p j = .asleep) : place j = .asleep := by
  by_cases hij : j = i
  · rw [hij, Function.update_self] at hj
    exact absurd hj hp
  · rwa [Function.update_of_ne hij] at hj

theorem Rested.update (h : Rested place) {i : ι} {p : Place β} (hp : p ≠ .asleep) :
    Rested (Function.update place i p) := fun j hj => h j (asleep_of_update hp hj)

/-! ## A stock that is signalled -/

variable [Fintype ι]

/-- How many threads have been woken and will look. -/
def coming (place : ι → Place β) : ℕ := ∑ i, (place i).isWoken.toNat

/-- **The stock is covered**: while a thread sleeps, a woken thread is on its way for each unit. -/
def Covered (stock : ℕ) (place : ι → Place β) : Prop :=
  (∃ i, place i = .asleep) → stock ≤ coming place

omit [DecidableEq ι] in
theorem covered_zero (place : ι → Place β) : Covered 0 place := fun _ => Nat.zero_le _

/-- One member of a finite family changes, and so does the sum over it. -/
theorem sum_update_add {γ M : Type*} [AddCommMonoid M] (f : γ → M) (w : ι → γ) (i : ι) (x : γ) :
    ∑ j, f (Function.update w i x j) + f (w i) = ∑ j, f (w j) + f x := by
  have hrest : ∑ j ∈ Finset.univ.erase i, f (Function.update w i x j)
      = ∑ j ∈ Finset.univ.erase i, f (w j) :=
    Finset.sum_congr rfl fun j hj => by rw [Function.update_of_ne (Finset.ne_of_mem_erase hj)]
  rw [← Finset.add_sum_erase _ _ (Finset.mem_univ i),
    ← Finset.add_sum_erase _ (fun j => f (w j)) (Finset.mem_univ i), hrest, Function.update_self,
    add_assoc, add_comm (f x), add_comm (f (w i))]

/-- One thread moves. -/
theorem coming_update (place : ι → Place β) (i : ι) (p : Place β) :
    coming (Function.update place i p) + (place i).isWoken.toNat
      = coming place + p.isWoken.toNat :=
  sum_update_add (fun p : Place β => p.isWoken.toNat) place i p

omit [DecidableEq ι] [Fintype ι] in
theorem isWoken_toNat_le_wake (chosen : ι → Bool) (i : ι) :
    (place i).isWoken.toNat ≤ (wake place chosen i).isWoken.toNat := by
  unfold wake
  split
  · cases place i <;> simp [Place.wake, Place.isWoken]
  · exact le_rfl

omit [DecidableEq ι] in
/-- **A unit is added and signalled.** -/
theorem Covered.signal {stock : ℕ} (h : Covered stock place) {chosen : ι → Bool}
    (hs : Signal place chosen) : Covered (stock + 1) (wake place chosen) := by
  rintro ⟨j, hj⟩
  have hasleep := asleep_of_wake hj
  obtain ⟨i, hi, hchosen⟩ := hs ⟨j, hasleep⟩
  have hle : coming place < coming (wake place chosen) := by
    refine Finset.sum_lt_sum (fun k _ => isWoken_toNat_le_wake chosen k) ⟨i, Finset.mem_univ i, ?_⟩
    rw [wake, if_pos hchosen, hi]
    exact Nat.zero_lt_one
  exact Nat.lt_of_le_of_lt (h ⟨j, hasleep⟩) hle

/-- **A unit is taken** by a thread. -/
theorem Covered.take {stock : ℕ} (h : Covered (stock + 1) place) {i : ι} {p : Place β}
    (hp : p ≠ .asleep) : Covered stock (Function.update place i p) := by
  rintro ⟨j, hj⟩
  have hstock := h ⟨j, asleep_of_update hp hj⟩
  have hcount := coming_update place i p
  have hone : (place i).isWoken.toNat ≤ 1 := Bool.toNat_le _
  omega

/-- **A thread moves** that is not on its way. -/
theorem Covered.move {stock : ℕ} (h : Covered stock place) {i : ι} {p : Place β}
    (hi : (place i).isWoken = false) (hp : p ≠ .asleep) :
    Covered stock (Function.update place i p) := by
  rintro ⟨j, hj⟩
  have hstock := h ⟨j, asleep_of_update hp hj⟩
  have hcount := coming_update place i p
  rw [hi, Bool.toNat_false] at hcount
  omega

omit [DecidableEq ι] in
/-- **Somebody is awake** while there is something in stock. -/
theorem Covered.exists_awake [Nonempty ι] {stock : ℕ} (h : Covered stock place)
    (hstock : 0 < stock) : ∃ i, place i ≠ .asleep := by
  by_contra hall
  rw [not_exists] at hall
  have hasleep : ∀ i, place i = .asleep := fun i => not_not.mp (hall i)
  have hzero : coming place = 0 := Finset.sum_eq_zero fun i _ => by rw [hasleep i]; rfl
  have := h ⟨Classical.arbitrary ι, hasleep _⟩
  omega

end Monitor
