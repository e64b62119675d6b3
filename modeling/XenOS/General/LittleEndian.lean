import Mathlib.Algebra.Group.Nat.Defs
import Mathlib.Tactic.Common

/-! Numbers in a memory of bytes, the least significant first. A write changes its own range only
and is read back up to its size. -/

namespace XenOS.General

/-- The number in the `n` bytes from `off` on. -/
def leValue (f : ℕ → UInt8) (off : ℕ) : ℕ → ℕ
  | 0 => 0
  | n + 1 => (f off).toNat + 256 * leValue f (off + 1) n

/-- Write the low `n` bytes of a number. -/
def leWrite (f : ℕ → UInt8) (off n v : ℕ) : ℕ → UInt8 :=
  fun j => if off ≤ j ∧ j < off + n then UInt8.ofNat (v / 256 ^ (j - off)) else f j

variable {f g : ℕ → UInt8} {off n v j : ℕ}

theorem leWrite_of_notMem (h : ¬ (off ≤ j ∧ j < off + n)) : leWrite f off n v j = f j := if_neg h

theorem leValue_congr (h : ∀ j, off ≤ j → j < off + n → f j = g j) : leValue f off n = leValue g off n := by
  induction n generalizing off with
  | zero => rfl
  | succ n ih =>
    rw [leValue, leValue, h off (Nat.le_refl _) (by omega), ih fun j hlow hhigh => h j (by omega) (by omega)]

theorem leValue_shift (f : ℕ → UInt8) (k off n : ℕ) : leValue (fun i => f (k + i)) off n = leValue f (k + off) n := by
  induction n generalizing off with
  | zero => rfl
  | succ n ih => rw [leValue, leValue, ih, Nat.add_assoc]

theorem leValue_of_digits (h : ∀ i < n, f (off + i) = UInt8.ofNat (v / 256 ^ i)) : leValue f off n = v % 256 ^ n := by
  induction n generalizing off v with
  | zero => simp [leValue, Nat.mod_one]
  | succ n ih =>
    have hfirst : (f off).toNat = v % 256 := by
      have h0 := h 0 (by omega)
      simp only [Nat.add_zero, Nat.pow_zero, Nat.div_one] at h0
      rw [h0]
      simp
    have hrest : leValue f (off + 1) n = v / 256 % 256 ^ n := by
      refine ih fun i hi => ?_
      rw [show off + 1 + i = off + (i + 1) by omega, h (i + 1) (by omega), Nat.pow_succ', Nat.div_div_eq_div_mul]
    rw [leValue, hfirst, hrest, Nat.pow_succ', Nat.mod_mul]

theorem leValue_leWrite : leValue (leWrite f off n v) off n = v % 256 ^ n := by
  refine leValue_of_digits fun i hi => ?_
  unfold leWrite
  rw [if_pos ⟨by omega, by omega⟩, Nat.add_sub_cancel_left]

theorem leValue_lt (f : ℕ → UInt8) (offset n : ℕ) : leValue f offset n < 256 ^ n := by
  induction n generalizing offset with
  | zero => exact Nat.one_pos
  | succ n ih =>
    have := ih (offset + 1)
    have := (f offset).toNat_lt
    rw [leValue, Nat.pow_succ]
    omega

theorem leValue_inj {f g : ℕ → UInt8} {p q n : ℕ} (h : leValue f p n = leValue g q n) : ∀ i < n, f (p + i) = g (q + i) := by
  induction n generalizing p q with
  | zero =>
    intro i hi
    omega
  | succ n ih =>
    simp only [leValue] at h
    have hf := (f p).toNat_lt
    have hg := (g q).toNat_lt
    intro i hi
    cases i with
    | zero => exact UInt8.toNat_inj.1 (by simpa using show (f p).toNat = (g q).toNat by omega)
    | succ i =>
      have htail := ih (show leValue f (p + 1) n = leValue g (q + 1) n by omega) i (by omega)
      rwa [show p + (i + 1) = p + 1 + i by omega, show q + (i + 1) = q + 1 + i by omega]

end XenOS.General
