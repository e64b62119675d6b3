import Mathlib.Tactic.Common

/-! Runs of a deterministic system. `EveryState` and `EveryStep` speak about a whole run; the rules
reduce both to one step: an invariant that every admitted step keeps, and a step that leaves the
property as soon as the condition fails. -/

namespace XenOS.General

variable {S A : Type*} (step : S → A → S)

/-- The state after the actions. -/
def run (s : S) : List A → S
  | [] => s
  | a :: as => run (step s a) as

/-- `C` holds of every step of the run, read in the state before the step. -/
def EveryStep (C : S → A → Prop) (s : S) : List A → Prop
  | [] => True
  | a :: as => C s a ∧ EveryStep C (step s a) as

instance EveryStep.decidable {C : S → A → Prop} [∀ s a, Decidable (C s a)] :
    (as : List A) → (s : S) → Decidable (EveryStep step C s as)
  | [], _ => .isTrue trivial
  | _ :: as, _ => @instDecidableAnd _ _ _ (EveryStep.decidable as _)

/-- `P` holds in every state of the run, the first one included. -/
def EveryState (P : S → Prop) (s : S) : List A → Prop
  | [] => P s
  | a :: as => P s ∧ EveryState P (step s a) as

variable {step}

variable {s : S} {as : List A}

theorem run_append {bs : List A} : run step s (as ++ bs) = run step (run step s as) bs := by
  induction as generalizing s with
  | nil => rfl
  | cons a as ih => exact ih

variable {P : S → Prop}

theorem EveryState.first (h : EveryState step P s as) : P s := by
  cases as with
  | nil => exact h
  | cons a as => exact h.1

theorem everyState_iff_take :
    EveryState step P s as ↔ ∀ n, P (run step s (as.take n)) := by
  induction as generalizing s with
  | nil => simp [EveryState, run]
  | cons a as ih =>
    constructor
    · rintro ⟨h0, h⟩ n
      cases n with
      | zero => exact h0
      | succ n => exact ih.1 h n
    · intro h
      exact ⟨h 0, ih.2 fun n => h (n + 1)⟩

theorem everyState_iff_everyStep_after :
    EveryState step P s as ↔ P s ∧ EveryStep step (fun s a => P (step s a)) s as := by
  induction as generalizing s with
  | nil => simp [EveryState, EveryStep]
  | cons a as ih =>
    simp only [EveryState, EveryStep, ih]

theorem EveryStep.mono {C D : S → A → Prop} (hCD : ∀ s a, C s a → D s a)
    (h : EveryStep step C s as) : EveryStep step D s as := by
  induction as generalizing s with
  | nil => trivial
  | cons a as ih => exact ⟨hCD _ _ h.1, ih h.2⟩

theorem everyStep_of_forall {G : A → Prop} (h : ∀ a ∈ as, G a) :
    EveryStep step (fun _ a => G a) s as := by
  induction as generalizing s with
  | nil => trivial
  | cons a as ih => exact ⟨h a (by simp), ih fun b hb => h b (by simp [hb])⟩

theorem run_invariant {I : S → Prop} {G : S → A → Prop}
    (keep : ∀ s a, I s → G s a → I (step s a)) (h0 : I s)
    (hG : EveryStep step G s as) : I (run step s as) := by
  induction as generalizing s with
  | nil => exact h0
  | cons a as ih => exact ih (keep _ _ h0 hG.1) hG.2

theorem everyState_invariant {I : S → Prop} {G : S → A → Prop}
    (keep : ∀ s a, I s → G s a → I (step s a)) (h0 : I s)
    (hG : EveryStep step G s as) : EveryState step I s as := by
  induction as generalizing s with
  | nil => exact h0
  | cons a as ih => exact ⟨h0, ih (keep _ _ h0 hG.1) hG.2⟩

theorem everyStep_of_invariant {I : S → Prop} {G D : S → A → Prop}
    (keep : ∀ s a, I s → G s a → I (step s a)) (holds : ∀ s a, I s → G s a → D s a) (h0 : I s)
    (hG : EveryStep step G s as) : EveryStep step D s as := by
  induction as generalizing s with
  | nil => trivial
  | cons a as ih => exact ⟨holds _ _ h0 hG.1, ih (keep _ _ h0 hG.1) hG.2⟩

theorem EveryState.imp {Q : S → Prop} (hPQ : ∀ s, P s → Q s)
    (h : EveryState step P s as) : EveryState step Q s as := by
  induction as generalizing s with
  | nil => exact hPQ s h
  | cons a as ih => exact ⟨hPQ s h.1, ih h.2⟩

section Exact
variable {I : S → Prop} {G C D : S → A → Prop}

/-- While the condition holds the invariant survives and each step has the property; the first step
that fails it fails the property. -/
theorem everyStep_iff (keep : ∀ s a, I s → G s a → C s a → I (step s a))
    (holds : ∀ s a, I s → G s a → C s a → D s a) (breaks : ∀ s a, I s → G s a → ¬ C s a → ¬ D s a)
    (h0 : I s) (hG : EveryStep step G s as) :
    EveryStep step D s as ↔ EveryStep step C s as := by
  induction as generalizing s with
  | nil => rfl
  | cons a as ih =>
    constructor
    · rintro ⟨hd, h⟩
      have hc : C s a := by
        by_contra hc
        exact breaks s a h0 hG.1 hc hd
      exact ⟨hc, (ih (keep s a h0 hG.1 hc) hG.2).1 h⟩
    · rintro ⟨hc, h⟩
      exact ⟨holds s a h0 hG.1 hc, (ih (keep s a h0 hG.1 hc) hG.2).2 h⟩

theorem everyState_iff_everyStep (keep : ∀ s a, I s → G s a → C s a → I (step s a))
    (holds : ∀ s, I s → P s) (breaks : ∀ s a, I s → G s a → ¬ C s a → ¬ P (step s a)) (h0 : I s)
    (hG : EveryStep step G s as) :
    EveryState step P s as ↔ EveryStep step C s as := by
  rw [everyState_iff_everyStep_after, and_iff_right (holds s h0)]
  exact everyStep_iff keep (fun s a hi hg hc => holds _ (keep s a hi hg hc)) breaks h0 hG

end Exact

end XenOS.General
