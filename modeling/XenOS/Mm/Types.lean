import Mathlib.Algebra.Group.Nat.Defs
import Mathlib.Tactic.Common

/-! Words, constants and status codes of the memory manager. A `usize` is a natural number below `2
^ 64`; what is taken apart bit by bit is a bit vector. -/

namespace XenOS.Mm

/-- `usize::MAX`. -/
def usizeMax : ℕ := 2 ^ 64 - 1

/-- `fetch_add` on an atomic counter. -/
def fetchAdd (a b : ℕ) : ℕ := (a + b) % 2 ^ 64

/-- `fetch_sub` on an atomic counter. -/
def fetchSub (a b : ℕ) : ℕ := (a + (2 ^ 64 - b)) % 2 ^ 64

theorem fetchAdd_of_lt {a b : ℕ} (h : a + b < 2 ^ 64) : fetchAdd a b = a + b :=
  Nat.mod_eq_of_lt h

theorem fetchSub_of_le {a b : ℕ} (hb : b ≤ a) (ha : a < 2 ^ 64) : fetchSub a b = a - b := by
  unfold fetchSub
  rw [show a + (2 ^ 64 - b) = a - b + 2 ^ 64 by omega, Nat.add_mod_right, Nat.mod_eq_of_lt (by omega)]

/-- The status codes the modelled functions return. -/
inductive Ntstatus where
  | success | accessViolation | conflictingAddresses | inPageError | invalidPageProtection
  | invalidParameter | memoryNotAllocated | noMemory | unableToDeleteSection
  deriving DecidableEq, Repr

def pageSize : ℕ := 4096

def mmZeroAccess : ℕ := 0
def mmReadonly : ℕ := 1
def mmExecute : ℕ := 2
def mmExecuteRead : ℕ := 3
def mmReadwrite : ℕ := 4
def mmWritecopy : ℕ := 5
def mmExecuteReadwrite : ℕ := 6
def mmExecuteWritecopy : ℕ := 7

end XenOS.Mm
