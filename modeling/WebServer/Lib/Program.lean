import Mathlib.Data.List.Basic

/-!
# Lib/Program — programs that change a state and may die

A program answers a value or dies, and leaves a state either way: what it did before it died is not
undone.  `Keeps I x Q` says that `x` keeps the invariant `I`, also when it dies, and that its value
satisfies `Q`; the rules follow the shape of the program.
-/

/-- **A program** over a state. -/
def Program (σ α : Type) : Type := σ → Option α × σ

namespace Program

variable {σ α β : Type}

instance : Monad (Program σ) where
  pure a := fun s => (some a, s)
  bind x f := fun s => match x s with
    | (some a, s') => f a s'
    | (none, s') => (none, s')

/-- The program that dies at once. -/
def die : Program σ α := fun s => (none, s)

/-- A value read off the state. -/
def gets (f : σ → α) : Program σ α := fun s => (some (f s), s)

/-- A change of the state. -/
def modify (f : σ → σ) : Program σ Unit := fun s => (some (), f s)

/-! ## Running a program -/

section Run

variable {x : Program σ α} {f : α → Program σ β} {s s' : σ} {a : α}

theorem bind_apply (x : Program σ α) (f : α → Program σ β) (s : σ) : (x >>= f) s = match x s with
    | (some a, s') => f a s'
    | (none, s') => (none, s') := rfl

theorem bind_of_some (h : x s = (some a, s')) : (x >>= f) s = f a s' := by rw [bind_apply, h]

theorem bind_of_none (h : x s = (none, s')) : (x >>= f) s = (none, s') := by rw [bind_apply, h]

theorem gets_bind (g : σ → α) (f : α → Program σ β) (s : σ) : (gets g >>= f) s = f (g s) s := rfl

theorem modify_bind (g : σ → σ) (f : Unit → Program σ β) (s : σ) :
    (modify g >>= f) s = f () (g s) := rfl

/-- Programs that follow one another can be grouped either way. -/
instance : LawfulMonad (Program σ) := LawfulMonad.mk' _
  (fun x => by
    funext s
    change (x >>= fun a => pure (id a)) s = x s
    rw [bind_apply]
    split <;> exact Eq.symm ‹_›)
  (fun _ _ => rfl)
  (fun x f g => by
    funext s
    obtain ⟨o, s', hx⟩ : ∃ o s', x s = (o, s') := ⟨_, _, rfl⟩
    cases o with
    | none => rw [bind_of_none hx, bind_of_none (bind_of_none hx)]
    | some a =>
      rw [bind_of_some hx, bind_apply (x >>= f), bind_of_some hx]
      rfl)

end Run

/-! ## Invariants -/

/-- **An invariant kept**, with what is known of the value. -/
def Keeps (I : σ → Prop) (x : Program σ α) (Q : α → Prop) : Prop :=
  ∀ s, I s → I (x s).2 ∧ ∀ a, (x s).1 = some a → Q a

namespace Keeps

variable {I : σ → Prop} {x : Program σ α} {f : α → Program σ β} {Q Q' : α → Prop} {R : β → Prop}

theorem weaken (h : Keeps I x Q) (hQ : ∀ a, Q a → Q' a) : Keeps I x Q' := fun s hs =>
  ⟨(h s hs).1, fun a ha => hQ a ((h s hs).2 a ha)⟩

theorem pure {a : α} (h : Q a) : Keeps I (pure a) Q := fun _ hs =>
  ⟨hs, fun _ ha => Option.some.inj ha ▸ h⟩

theorem die : Keeps I (die : Program σ α) Q := fun _ hs => ⟨hs, nofun⟩

theorem gets {g : σ → α} (h : ∀ s, I s → Q (g s)) : Keeps I (gets g) Q := fun s hs =>
  ⟨hs, fun _ ha => Option.some.inj ha ▸ h s hs⟩

theorem modify {g : σ → σ} (h : ∀ s, I s → I (g s)) {Q : Unit → Prop} (hQ : Q ()) :
    Keeps I (modify g) Q := fun s hs => ⟨h s hs, fun _ _ => hQ⟩

/-- **One program after another.** -/
theorem bind (hx : Keeps I x Q) (hf : ∀ a, Q a → Keeps I (f a) R) : Keeps I (x >>= f) R := by
  intro s hs
  obtain ⟨hI, hQ⟩ := hx s hs
  rw [bind_apply]
  generalize x s = r at hI hQ
  obtain ⟨_ | a, s'⟩ := r
  · exact ⟨hI, nofun⟩
  · exact hf a (hQ a rfl) s' hI

/-- A program that keeps an invariant, behind one that establishes it. -/
theorem after {s : σ} (hx : I (x s).2) (hf : ∀ a, Keeps I (f a) R) : I ((x >>= f) s).2 := by
  rw [bind_apply]
  generalize x s = r at hx
  obtain ⟨_ | a, s'⟩ := r
  · exact hx
  · exact (hf a s' hx).1

theorem ite {c : Prop} [Decidable c] {x y : Program σ α} (hx : c → Keeps I x Q)
    (hy : ¬c → Keeps I y Q) : Keeps I (if c then x else y) Q := by
  split
  · next h => exact hx h
  · next h => exact hy h

/-- **A loop** over a list. -/
theorem foldlM {l : List α} {g : β → α → Program σ β}
    (h : ∀ b, ∀ a ∈ l, Keeps I (g b a) fun _ => True) (b : β) :
    Keeps I (l.foldlM g b) fun _ => True := by
  induction l generalizing b with
  | nil => exact pure trivial
  | cons a l ih =>
    rw [List.foldlM_cons]
    refine (h b a (List.mem_cons_self ..)).bind fun b' _ => ih (fun b a' ha => ?_) b'
    exact h b a' (List.mem_cons_of_mem _ ha)

end Keeps

end Program
