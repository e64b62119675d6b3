import Mathlib.Data.List.Basic

/-! Tiles laid back to back on the natural numbers. A tile can be replaced by tiles that cover the
same numbers. -/

namespace XenOS.General

variable {α : Type} {size : α → ℕ} {l r : List (ℕ × α)} {x y : ℕ × α} {p q e : ℕ}

/-- The tiles cover the numbers from `p` up to `e`. -/
def LaidOut (size : α → ℕ) : ℕ → List (ℕ × α) → ℕ → Prop
  | p, [], e => p = e
  | p, x :: l, e => x.1 = p ∧ LaidOut size (p + size x.2) l e

namespace LaidOut

theorem append : LaidOut size p (l ++ r) e ↔ ∃ q, LaidOut size p l q ∧ LaidOut size q r e := by
  induction l generalizing p with
  | nil => exact ⟨fun h => ⟨p, rfl, h⟩, fun ⟨_, h, hr⟩ => by cases h; exact hr⟩
  | cons x l ih =>
    simp only [List.cons_append, LaidOut, ih]
    exact ⟨fun ⟨hx, q, hl, hr⟩ => ⟨q, ⟨hx, hl⟩, hr⟩, fun ⟨q, ⟨hx, hl⟩, hr⟩ => ⟨hx, q, hl, hr⟩⟩

theorem le (h : LaidOut size p l e) : p ≤ e := by
  induction l generalizing p with
  | nil => exact Nat.le_of_eq h
  | cons x l ih => exact Nat.le_trans (Nat.le_add_right _ _) (ih h.2)

/-- A tile starts where those before it end, and those after it start where it ends. -/
theorem split (h : LaidOut size p (l ++ x :: r) e) : LaidOut size p l x.1 ∧ LaidOut size (x.1 + size x.2) r e := by
  obtain ⟨q, hl, hx, hr⟩ := append.1 h
  subst hx
  exact ⟨hl, hr⟩

theorem bounds (h : LaidOut size p l e) (hx : x ∈ l) : p ≤ x.1 ∧ x.1 + size x.2 ≤ e := by
  obtain ⟨l, r, rfl⟩ := List.append_of_mem hx
  exact ⟨h.split.1.le, h.split.2.le⟩

theorem replace {xs : List (ℕ × α)} (h : LaidOut size p (l ++ x :: r) e) (hxs : LaidOut size x.1 xs (x.1 + size x.2)) :
    LaidOut size p (l ++ xs ++ r) e :=
  append.2 ⟨_, append.2 ⟨_, h.split.1, hxs⟩, h.split.2⟩

theorem eq_or_apart (h : LaidOut size p l e) (hx : x ∈ l) (hy : y ∈ l) :
    x = y ∨ x.1 + size x.2 ≤ y.1 ∨ y.1 + size y.2 ≤ x.1 := by
  obtain ⟨l, r, rfl⟩ := List.append_of_mem hx
  rcases List.mem_append.1 hy with hy | hy
  · exact Or.inr (Or.inr (h.split.1.bounds hy).2)
  · rcases List.mem_cons.1 hy with rfl | hy
    · exact Or.inl rfl
    · exact Or.inr (Or.inl (h.split.2.bounds hy).1)

theorem mod_eq {m : ℕ} (h : LaidOut size p l e) (hsize : ∀ x ∈ l, size x.2 % m = 0) : e % m = p % m := by
  induction l generalizing p with
  | nil => rw [show p = e from h]
  | cons x l ih =>
    rw [ih h.2 fun y hy => hsize y (List.mem_cons_of_mem _ hy), Nat.add_mod, hsize x List.mem_cons_self, Nat.add_zero, Nat.mod_mod]

theorem length_le (h : LaidOut size p l e) (hpos : ∀ x ∈ l, 0 < size x.2) : l.length + p ≤ e := by
  induction l generalizing p with
  | nil => simpa using Nat.le_of_eq h
  | cons x l ih =>
    have hx := hpos x (by simp)
    have := ih h.2 fun y hy => hpos y (by simp [hy])
    simp only [List.length_cons]
    omega

end LaidOut

end XenOS.General
