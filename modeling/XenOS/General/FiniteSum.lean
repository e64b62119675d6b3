import Mathlib.Algebra.BigOperators.Finprod

/-! Sums over a type of a function with finitely many nonzero values. A change at one argument
changes the sum by the difference. -/

namespace XenOS.General

open Function

variable {α M : Type*} [AddCommGroup M] {f g : α → M}

theorem finsum_change (hf : f.HasFiniteSupport) (a : α) (hg : ∀ b, b ≠ a → g b = f b) :
    ∑ᶠ b, g b = (∑ᶠ b, f b) + (g a - f a) := by
  classical
  have hsingle : (fun b => if b = a then g a - f a else 0).HasFiniteSupport := by
    refine (Set.finite_singleton a).subset fun b hb => ?_
    by_contra hne
    exact hb (if_neg hne)
  have hsum : g = fun b => f b + if b = a then g a - f a else 0 := by
    funext b
    by_cases hb : b = a
    · subst hb
      rw [if_pos rfl, add_sub_cancel]
    · rw [if_neg hb, add_zero, hg b hb]
  calc ∑ᶠ b, g b = ∑ᶠ b, (f b + if b = a then g a - f a else 0) := congrArg finsum hsum
    _ = (∑ᶠ b, f b) + ∑ᶠ b, (if b = a then g a - f a else 0) := finsum_add_distrib hf hsingle
    _ = (∑ᶠ b, f b) + (g a - f a) := by
      rw [finsum_eq_single _ a fun b hb => if_neg hb, if_pos rfl]

theorem sum_update {β : Type*} [Fintype α] [DecidableEq α] (w : β → M) (h : α → β) (a : α) (x : β) :
    ∑ b, w (update h a x b) = ∑ b, w (h b) + (w x - w (h a)) := by
  have hchange := finsum_change (f := fun b => w (h b)) (g := fun b => w (update h a x b)) (Set.toFinite _) a
    fun b hb => by simp only [update_of_ne hb]
  simp only [finsum_eq_sum_of_fintype, update_self] at hchange
  exact hchange

end XenOS.General
