import Mathlib.Data.List.Count
import Mathlib.Logic.Function.Iterate

/-! Change the values of a map at the keys of a list, one after the other. -/

namespace XenOS.General

variable {α β : Type*} [DecidableEq α]

def updateAll (f : β → β) (keys : List α) (m : α → β) : α → β := keys.foldl (fun m k => Function.update m k (f (m k))) m

variable {f : β → β} {keys : List α} {m : α → β} {k : α}

theorem updateAll_apply (f : β → β) (keys : List α) (m : α → β) (k : α) : updateAll f keys m k = f^[keys.count k] (m k) := by
  induction keys generalizing m with
  | nil => rfl
  | cons k' keys ih =>
    rw [show updateAll f (k' :: keys) m = updateAll f keys (Function.update m k' (f (m k'))) from rfl, ih]
    by_cases hk : k' = k
    · subst hk
      rw [Function.update_self, List.count_cons_self, Function.iterate_succ_apply]
    · rw [Function.update_of_ne (Ne.symm hk), List.count_cons_of_ne hk]

theorem updateAll_of_notMem (hk : k ∉ keys) : updateAll f keys m k = m k := by
  rw [updateAll_apply, List.count_eq_zero_of_not_mem hk]
  rfl

theorem updateAll_of_mem (hf : ∀ b, f (f b) = f b) (hk : k ∈ keys) : updateAll f keys m k = f (m k) := by
  obtain ⟨n, hn⟩ := Nat.exists_eq_succ_of_ne_zero (Nat.pos_iff_ne_zero.1 (List.count_pos_iff.2 hk))
  rw [updateAll_apply, hn]
  clear hn
  induction n with
  | zero => rfl
  | succ n ih => rw [Function.iterate_succ_apply', ih, hf]

end XenOS.General
