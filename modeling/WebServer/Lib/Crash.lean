import WebServer.Lib.Program

/-!
# Lib/Crash — the states in which a program dies

`Ends P x Q C` follows `x` from the states with `P`: if it gets to its end, its value and the state
that it leaves are in `Q`, and if it dies, the state that it leaves is in `C`.  A program that dies
in no state at all survives (`Ends.survives`).
-/

namespace Program

variable {σ α β : Type}

/-- **To the end, or to a death.** -/
def Ends (P : σ → Prop) (x : Program σ α) (Q : α → σ → Prop) (C : σ → Prop) : Prop :=
  ∀ s, P s → (∀ a s', x s = (some a, s') → Q a s') ∧ ∀ s', x s = (none, s') → C s'

/-- A program that dies nowhere. -/
abbrev Survives (x : Program σ α) : Prop :=
  Ends (fun _ => True) x (fun _ _ => True) fun _ => False

namespace Ends

variable {P P' : σ → Prop} {x y : Program σ α} {f : α → Program σ β} {Q Q' : α → σ → Prop}
  {R : β → σ → Prop} {C C' : σ → Prop}

theorem weaken (h : Ends P x Q C) (hP : ∀ s, P' s → P s) (hQ : ∀ a s, Q a s → Q' a s)
    (hC : ∀ s, C s → C' s) : Ends P' x Q' C' := fun s hs =>
  ⟨fun a s' hx => hQ a s' ((h s (hP s hs)).1 a s' hx), fun s' hx => hC s' ((h s (hP s hs)).2 s' hx)⟩

theorem pure {a : α} (h : ∀ s, P s → Q a s) : Ends P (pure a) Q C := by
  refine fun s hs => ⟨fun b s' hx => ?_, nofun⟩
  obtain ⟨hb, hs'⟩ : some a = some b ∧ s = s' := Prod.mk.inj hx
  exact hs' ▸ Option.some.inj hb ▸ h s hs

theorem die (h : ∀ s, P s → C s) : Ends P (die : Program σ α) Q C := by
  refine fun s hs => ⟨nofun, fun s' hx => ?_⟩
  exact (Prod.mk.inj hx).2 ▸ h s hs

theorem modify {g : σ → σ} {Q : Unit → σ → Prop} (h : ∀ s, P s → Q () (g s)) :
    Ends P (modify g) Q C := by
  refine fun s hs => ⟨fun _ s' hx => ?_, nofun⟩
  exact (Prod.mk.inj hx).2 ▸ h s hs

/-- **One program after another.** -/
theorem bind (hx : Ends P x Q C) (hf : ∀ a, Ends (Q a) (f a) R C) : Ends P (x >>= f) R C := by
  intro s hs
  obtain ⟨hend, hdeath⟩ := hx s hs
  obtain ⟨o, s₁, hrun⟩ : ∃ o s₁, x s = (o, s₁) := ⟨_, _, rfl⟩
  cases o with
  | none =>
    rw [bind_of_none hrun]
    exact ⟨nofun, fun s' he => (Prod.mk.inj he).2 ▸ hdeath s₁ hrun⟩
  | some a =>
    rw [bind_of_some hrun]
    exact hf a s₁ (hend a s₁ hrun)

/-- Looking at the state. -/
theorem gets {g : σ → α} (h : ∀ a, Ends P (f a) R C) : Ends P (.gets g >>= f) R C := fun s hs =>
  h (g s) s hs

theorem ite {c : Prop} [Decidable c] (hx : c → Ends P x Q C) (hy : ¬c → Ends P y Q C) :
    Ends P (if c then x else y) Q C := by
  split
  · next h => exact hx h
  · next h => exact hy h

/-- **A loop** over a list. -/
theorem foldlM {l : List α} {g : β → α → Program σ β}
    (h : ∀ b, ∀ a ∈ l, Ends P (g b a) (fun _ => P) C) (b : β) :
    Ends P (l.foldlM g b) (fun _ => P) C := by
  induction l generalizing b with
  | nil => exact pure fun _ hs => hs
  | cons a l ih =>
    rw [List.foldlM_cons]
    refine (h b a (List.mem_cons_self ..)).bind fun b' => ih (fun b a' ha => ?_) b'
    exact h b a' (List.mem_cons_of_mem _ ha)

/-- **Where no state is one to die in**, the program gets to its end. -/
theorem survives (h : Ends P x Q fun _ => False) {s : σ} (hs : P s) : (x s).1 ≠ none := fun hx =>
  (h s hs).2 (x s).2 (Prod.ext hx rfl)

end Ends

/-- What follows a death does not happen. -/
theorem bind_of_dead {x : Program σ α} {s : σ} (h : (x s).1 = none) (f : α → Program σ β) :
    (x >>= f) s = (none, (x s).2) := bind_of_none (Prod.ext h rfl)

/-- **Behind a program that may die**, programs that survive. -/
theorem bind_eq_none_iff {x : Program σ α} {f : α → Program σ β} (hf : ∀ a, Survives (f a))
    (s : σ) : ((x >>= f) s).1 = none ↔ (x s).1 = none := by
  obtain ⟨o, s', hx⟩ : ∃ o s', x s = (o, s') := ⟨_, _, rfl⟩
  cases o with
  | none =>
    rw [bind_of_none hx, hx]
    exact iff_of_true rfl rfl
  | some a =>
    rw [bind_of_some hx, hx]
    exact iff_of_false ((hf a).survives trivial) (Option.some_ne_none a)

end Program
