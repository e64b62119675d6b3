import Mathlib.Algebra.Group.Nat.Defs
import Mathlib.Tactic.Common

/-! Byte memory. A word is the run of its bytes, least significant first. A memory remembers which
addresses were written, so that a bound on the writes of a routine can be stated. -/

namespace XenOS.General

open List

/-- The value of bytes, least significant first. -/
def leNat : List (BitVec 8) → ℕ
  | [] => 0
  | b :: bs => b.toNat + 256 * leNat bs

/-- The `n` low bytes of a value, least significant first. -/
def leBytes : ℕ → ℕ → List (BitVec 8)
  | 0, _ => []
  | n + 1, v => BitVec.ofNat 8 v :: leBytes n (v / 256)

@[simp] theorem length_leBytes (n v : ℕ) : (leBytes n v).length = n := by
  induction n generalizing v with
  | zero => rfl
  | succ n ih => simp [leBytes, ih]

theorem leNat_leBytes {n v : ℕ} (h : v < 256 ^ n) : leNat (leBytes n v) = v := by
  induction n generalizing v with
  | zero =>
    simp only [Nat.pow_zero] at h
    simp only [leBytes, leNat]
    omega
  | succ n ih =>
    have hdiv : v / 256 < 256 ^ n := Nat.div_lt_of_lt_mul (by rw [Nat.mul_comm]; exact h)
    rw [leBytes, leNat, ih hdiv, BitVec.toNat_ofNat]
    omega

theorem leNat_lt (bs : List (BitVec 8)) : leNat bs < 256 ^ bs.length := by
  induction bs with
  | nil => simp [leNat]
  | cons b bs ih =>
    have hb := b.isLt
    simp only [leNat, length_cons, Nat.pow_succ]
    omega

theorem leBytes_leNat {n : ℕ} {bs : List (BitVec 8)} (h : bs.length = n) : leBytes n (leNat bs) = bs := by
  subst h
  induction bs with
  | nil => rfl
  | cons b bs ih =>
    have hb := b.isLt
    have hlow : BitVec.ofNat 8 (leNat (b :: bs)) = b := by
      apply BitVec.eq_of_toNat_eq
      simp only [leNat, BitVec.toNat_ofNat]
      omega
    have hhigh : leNat (b :: bs) / 256 = leNat bs := by
      simp only [leNat]
      omega
    rw [length_cons, leBytes, hlow, hhigh, ih]

structure Ram where
  byte : ℕ → BitVec 8
  written : List ℕ

namespace Ram

def write (m : Ram) (a : ℕ) (bs : List (BitVec 8)) : Ram where
  byte := fun i => if a ≤ i ∧ i < a + bs.length then bs.getD (i - a) 0 else m.byte i
  written := range' a bs.length ++ m.written

def read (m : Ram) (a n : ℕ) : List (BitVec 8) := (range n).map fun i => m.byte (a + i)

/-- The word of two bytes at the address. -/
def u16 (m : Ram) (a : ℕ) : ℕ := leNat (m.read a 2)

def u32 (m : Ram) (a : ℕ) : ℕ := leNat (m.read a 4)

def u64 (m : Ram) (a : ℕ) : ℕ := leNat (m.read a 8)

/-- Forget which addresses were written. -/
def unlogged (m : Ram) : Ram := { m with written := [] }

variable {m m' : Ram} {a b n k : ℕ} {bs cs : List (BitVec 8)}

theorem byte_write_of_lt {i : ℕ} (h : i < a ∨ a + bs.length ≤ i) : (m.write a bs).byte i = m.byte i :=
  if_neg (by omega)

theorem byte_write_self {i : ℕ} (h : i < bs.length) : (m.write a bs).byte (a + i) = bs.getD i 0 := by
  simp only [write]
  rw [if_pos (by omega), Nat.add_sub_cancel_left]

theorem mem_written_write {i : ℕ} : i ∈ (m.write a bs).written ↔ (a ≤ i ∧ i < a + bs.length) ∨ i ∈ m.written := by
  simp only [write, mem_append, mem_range']
  constructor
  · rintro (⟨j, hj, rfl⟩ | h)
    · exact Or.inl ⟨by omega, by omega⟩
    · exact Or.inr h
  · rintro (⟨h₁, h₂⟩ | h)
    · exact Or.inl ⟨i - a, by omega, by omega⟩
    · exact Or.inr h

@[simp] theorem length_read : (m.read a n).length = n := by
  simp [read]

theorem getElem?_read {i : ℕ} (h : i < n) : (m.read a n)[i]? = some (m.byte (a + i)) := by
  simp [read, h]

theorem read_congr (h : ∀ i < n, m.byte (a + i) = m'.byte (b + i)) : m.read a n = m'.read b n :=
  map_congr_left fun i hi => h i (mem_range.1 hi)

theorem byte_of_read (h : m.read a n = m'.read b n) {i : ℕ} (hi : i < n) : m.byte (a + i) = m'.byte (b + i) := by
  have := congrArg (fun l => l[i]?) h
  simpa [getElem?_read hi] using this

theorem read_add : m.read a (n + k) = m.read a n ++ m.read (a + n) k := by
  simp only [read, range_add, map_append, map_map]
  congr 1
  exact map_congr_left fun i _ => by simp [Nat.add_assoc]

theorem read_write_self : (m.write a bs).read a bs.length = bs := by
  refine ext_getElem? fun i => ?_
  by_cases hi : i < bs.length
  · rw [getElem?_read hi, byte_write_self hi]
    simp [hi]
  · rw [getElem?_eq_none (by simp; omega), getElem?_eq_none (by omega)]

theorem read_write_of_length (h : bs.length = n) : (m.write a bs).read a n = bs :=
  h ▸ read_write_self

theorem read_write_of_disjoint (h : a + n ≤ b ∨ b + bs.length ≤ a) : (m.write b bs).read a n = m.read a n :=
  read_congr fun i hi => byte_write_of_lt (by omega)

theorem byte_write_congr (h : m.byte = m'.byte) : (m.write a bs).byte = (m'.write a bs).byte := by
  simp only [write, h]

theorem byte_write_write : ((m.write a bs).write (a + bs.length) cs).byte = (m.write a (bs ++ cs)).byte := by
  funext i
  simp only [write, length_append, getD_eq_getElem?_getD]
  by_cases hcs : a + bs.length ≤ i ∧ i < a + bs.length + cs.length
  · rw [if_pos hcs, if_pos (by omega), getElem?_append_right (by omega)]
    congr 2
    omega
  · rw [if_neg hcs]
    by_cases hbs : a ≤ i ∧ i < a + bs.length
    · rw [if_pos hbs, if_pos (by omega), getElem?_append_left (by omega)]
    · rw [if_neg hbs, if_neg (by omega)]

end Ram

end XenOS.General
