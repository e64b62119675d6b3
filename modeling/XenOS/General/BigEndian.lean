import Mathlib.Data.Nat.Bits
import Mathlib.Tactic.Ring

/-! Numbers as bytes, the highest first. -/

namespace XenOS.General

/-- The lowest `k` bytes of a number. -/
def toBytes : ℕ → ℕ → List ℕ
  | 0, _ => []
  | k + 1, n => (n >>> (8 * k) &&& 0xFF) :: toBytes k n

def ofBytes (bytes : List ℕ) : ℕ := bytes.foldl (fun n b => 256 * n + b) 0

theorem foldl_toBytes (k n a : ℕ) :
    (toBytes k n).foldl (fun n b => 256 * n + b) a = a * 256 ^ k + n % 256 ^ k := by
  induction k generalizing a with
  | zero => simp [toBytes, Nat.mod_one]
  | succ k ih =>
    have hbyte : n >>> (8 * k) &&& 0xFF = n / 256 ^ k % 256 := by
      rw [Nat.shiftRight_eq_div_pow, pow_mul, show (0xFF : ℕ) = 2 ^ 8 - 1 from rfl, Nat.and_two_pow_sub_one_eq_mod]
      norm_num
    rw [toBytes, List.foldl_cons, ih, hbyte, Nat.mod_pow_succ]
    ring

theorem ofBytes_toBytes {k n : ℕ} (h : n < 256 ^ k) : ofBytes (toBytes k n) = n := by
  rw [ofBytes, foldl_toBytes, Nat.mod_eq_of_lt h, Nat.zero_mul, Nat.zero_add]

end XenOS.General
