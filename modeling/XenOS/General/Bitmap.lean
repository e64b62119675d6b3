import Mathlib.Tactic.Common

/-! Sets of numbers as lists of 64-bit words. Taking the lowest bit of a word, clearing a bit and
setting one are the operations of an allocator over such a set. -/

namespace XenOS.General

open List

def bitAt (words : List (BitVec 64)) (i : ℕ) : Bool := (words.getD (i / 64) 0#64).getLsbD (i % 64)

def trailingZeros (word : BitVec 64) : ℕ := ((range 64).find? word.getLsbD).getD 64

def clearAt (words : List (BitVec 64)) (w b : ℕ) : List (BitVec 64) := words.set w (words.getD w 0#64 &&& ~~~(1#64 <<< b))

def setAt (words : List (BitVec 64)) (w b : ℕ) : List (BitVec 64) := words.set w (words.getD w 0#64 ||| 1#64 <<< b)

variable {words : List (BitVec 64)} {word : BitVec 64} {w b i j n : ℕ}

theorem getLsbD_one_shiftLeft (hj : j < 64) : (1#64 <<< b).getLsbD j = decide (j = b) := by
  rw [BitVec.getLsbD_shiftLeft, BitVec.getLsbD_one]
  by_cases hjb : j = b
  · simp [hjb, hjb ▸ hj]
  · simp [hjb, hj]
    omega

theorem bitAt_of_length_le (h : words.length * 64 ≤ i) : bitAt words i = false := by
  unfold bitAt
  rw [getD_eq_getElem?_getD, getElem?_eq_none (by omega)]
  simp

theorem bitAt_set (hw : w < words.length) (hb : b < 64) {v : Bool}
    (hword : ∀ j < 64, word.getLsbD j = if j = b then v else (words.getD w 0#64).getLsbD j) (i : ℕ) :
    bitAt (words.set w word) i = if i = w * 64 + b then v else bitAt words i := by
  unfold bitAt
  by_cases hi : i / 64 = w
  · rw [hi, getD_eq_getElem?_getD, getElem?_set_self hw, Option.getD_some, hword _ (Nat.mod_lt _ (by decide))]
    exact if_congr (by omega) rfl rfl
  · rw [if_neg (by omega), getD_eq_getElem?_getD, getD_eq_getElem?_getD, getElem?_set_ne (Ne.symm hi)]

theorem bitAt_clearAt (hw : w < words.length) (hb : b < 64) (i : ℕ) :
    bitAt (clearAt words w b) i = if i = w * 64 + b then false else bitAt words i := by
  refine bitAt_set hw hb (fun j hj => ?_) i
  rw [BitVec.getLsbD_and, BitVec.getLsbD_not, getLsbD_one_shiftLeft hj]
  split_ifs with hjb
  · simp [hjb]
  · simp [hjb, hj]

theorem bitAt_setAt (hw : w < words.length) (hb : b < 64) (i : ℕ) :
    bitAt (setAt words w b) i = if i = w * 64 + b then true else bitAt words i := by
  refine bitAt_set hw hb (fun j hj => ?_) i
  rw [BitVec.getLsbD_or, getLsbD_one_shiftLeft hj]
  split_ifs with hjb
  · simp [hjb]
  · simp [hjb]

@[simp] theorem length_clearAt : (clearAt words w b).length = words.length := length_set

@[simp] theorem length_setAt : (setAt words w b).length = words.length := length_set

theorem trailingZeros_spec (h : word ≠ 0#64) :
    trailingZeros word < 64 ∧ word.getLsbD (trailingZeros word) = true ∧ ∀ j, word.getLsbD j = true → trailingZeros word ≤ j := by
  cases hfind : (range 64).find? word.getLsbD with
  | none =>
    refine absurd (BitVec.eq_of_getLsbD_eq fun j hj => ?_) h
    have hnone := find?_eq_none.1 hfind j (mem_range.2 hj)
    simpa using hnone
  | some b =>
    have hb : trailingZeros word = b := by rw [trailingZeros, hfind, Option.getD_some]
    rw [hb]
    refine ⟨mem_range.1 (mem_of_find?_eq_some hfind), find?_some hfind, fun j hj => ?_⟩
    obtain ⟨-, as, bs, hsplit, hbefore⟩ := find?_eq_some_iff_append.1 hfind
    by_contra hlt
    have hjlt : j < 64 := BitVec.lt_of_getLsbD hj
    have hmem : j ∈ as := by
      have hlength : as.length = b := by
        have hget := congrArg (fun l => l[as.length]?) hsplit
        have hlt : as.length < 64 := by
          have := congrArg length hsplit
          simp at this
          omega
        simpa [hlt] using hget
      have hget : (range 64)[j]? = as[j]? := by
        rw [hsplit, getElem?_append_left (by omega)]
      rw [getElem?_range hjlt] at hget
      exact mem_of_getElem? hget.symm
    have := hbefore j hmem
    simp [hj] at this

theorem bitAt_replicate (n i : ℕ) : bitAt (replicate n (BitVec.allOnes 64)) i = decide (i < n * 64) := by
  by_cases hi : i < n * 64
  · rw [bitAt, getD_eq_getElem?_getD, getElem?_replicate_of_lt (by omega), Option.getD_some, BitVec.getLsbD_allOnes]
    simp [hi, Nat.mod_lt]
  · rw [bitAt_of_length_le (by rw [length_replicate]; omega)]
    simp [hi]

theorem bitAt_append (words' : List (BitVec 64)) (i : ℕ) :
    bitAt (words ++ words') i = if i < words.length * 64 then bitAt words i else bitAt words' (i - words.length * 64) := by
  unfold bitAt
  simp only [getD_eq_getElem?_getD]
  split_ifs with hi
  · rw [getElem?_append_left (by omega)]
  · rw [getElem?_append_right (by omega), show (i - words.length * 64) / 64 = i / 64 - words.length by omega,
      show (i - words.length * 64) % 64 = i % 64 by omega]

theorem getLsbD_mask (hb : b < 64) (j : ℕ) : (1#64 <<< b - 1#64).getLsbD j = decide (j < b) := by
  have hpow : 2 ^ b < 2 ^ 64 := Nat.pow_lt_pow_right (by decide) hb
  have hpos : 0 < 2 ^ b := Nat.two_pow_pos b
  have hmask : (1#64 <<< b - 1#64).toNat = 2 ^ b - 1 := by
    rw [BitVec.toNat_sub, BitVec.toNat_shiftLeft, Nat.shiftLeft_eq]
    simp only [BitVec.toNat_ofNat]
    omega
  rw [← BitVec.testBit_toNat, hmask, Nat.testBit_two_pow_sub_one]

theorem exists_wrapped (start : ℕ) (hi : i < n) : ∃ k < n, (start + k) % n = i := by
  have hlt := Nat.mod_lt start (Nat.lt_of_le_of_lt (Nat.zero_le i) hi)
  have hdiv := Nat.div_add_mod start n
  refine ⟨(i + (n - start % n)) % n, Nat.mod_lt _ (by omega), ?_⟩
  rw [Nat.add_mod_mod]
  have hsum : start + (i + (n - start % n)) = i + n * (start / n + 1) := by
    rw [Nat.mul_add, Nat.mul_one]
    omega
  rw [hsum, Nat.add_mul_mod_self_left, Nat.mod_eq_of_lt hi]

end XenOS.General
