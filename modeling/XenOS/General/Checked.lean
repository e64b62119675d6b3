import Mathlib.Tactic.NormNum

/-! Checked arithmetic: a result that its machine integer does not hold is a fault, which is `none`. -/

namespace XenOS.General

/-- The result as a signed integer of `w` bits. -/
def signed (w : ℕ) (x : ℤ) : Option ℤ := if -2 ^ (w - 1) ≤ x ∧ x < 2 ^ (w - 1) then some x else none

/-- The result as an unsigned integer of `w` bits. -/
def unsigned (w x : ℕ) : Option ℕ := if x < 2 ^ w then some x else none

def i32 : ℤ → Option ℤ := signed 32
def i64 : ℤ → Option ℤ := signed 64
def u16 : ℕ → Option ℕ := unsigned 16
def u32 : ℕ → Option ℕ := unsigned 32

theorem i32_eq {x : ℤ} (h : -2147483648 ≤ x ∧ x < 2147483648) : i32 x = some x := by
  unfold i32 signed
  exact if_pos (by norm_num; exact h)

theorem i64_eq {x : ℤ} (h : -9223372036854775808 ≤ x ∧ x < 9223372036854775808) : i64 x = some x := by
  unfold i64 signed
  exact if_pos (by norm_num; exact h)

theorem u16_eq {x : ℕ} (h : x < 65536) : u16 x = some x := if_pos h

theorem u32_eq {x : ℕ} (h : x < 4294967296) : u32 x = some x := if_pos h

end XenOS.General
