import XenOS.Mm.Types

/-! Page table entries. A process reaches the entry of a virtual address through
the self-map, so an entry is named by its address there. Bits 12..51 of a valid or
transition entry hold the page frame number. -/

namespace XenOS.Mm

abbrev Pte := BitVec 64

def pteValid : Pte := 1#64 <<< 0
def pteReadwrite : Pte := 1#64 <<< 1
def pteUser : Pte := 1#64 <<< 2
def pteDisableCache : Pte := 1#64 <<< 4
def pteDirty : Pte := 1#64 <<< 6
def pteGlobal : Pte := 1#64 <<< 8
def pteWritecopy : Pte := 1#64 <<< 9
def pteNx : Pte := 1#64 <<< 63

/-- `PTE_BASE`: the self-map window onto the page table entries. -/
def pteBase : ℕ := 0xFFFFF68000000000

/-- The address of the entry of `virtualAddress`; only bits 12..47 of the address count. -/
def mmGetPteAddress (virtualAddress : ℕ) : ℕ :=
  pteBase + virtualAddress / 2 ^ 12 % 2 ^ 36 * 8

namespace PteState

def demandZero : Pte := 1#64 <<< 1
def transition : Pte := 1#64 <<< 2
def prototype : Pte := 1#64 <<< 3
def guard : Pte := 1#64 <<< 4

end PteState

def frameNumber : Pte := 0xFFFFFFFFFF#64

/-- `((pte >> 12) & 0xFFFFFFFFFF) as usize`. -/
def ptePfn (pte : Pte) : ℕ := ((pte >>> 12) &&& frameNumber).toNat

/-- `(pfn as u64) << 12`. -/
def pfnBits (pfn : ℕ) : Pte := BitVec.ofNat 64 pfn <<< 12

def frameless : Pte := 0xFFF0000000000FFF#64

theorem frameNumber_getLsbD (i : ℕ) : frameNumber.getLsbD i = decide (i < 40) := by
  rw [show frameNumber = BitVec.ofNat 64 (2 ^ 40 - 1) from rfl, BitVec.getLsbD_ofNat,
    Nat.testBit_two_pow_sub_one]
  by_cases h : i < 40 <;> simp [h]; omega

theorem frameless_getLsbD : ∀ i < 40, frameless.getLsbD (12 + i) = false := by decide

theorem ptePfn_pfnBits_or {pfn : ℕ} (hp : pfn < 2 ^ 40) {flags : Pte} (hf : flags &&& frameless = flags) :
    ptePfn (pfnBits pfn ||| flags) = pfn := by
  have hfield : (pfnBits pfn ||| flags) >>> 12 &&& frameNumber = BitVec.ofNat 64 pfn := by
    apply BitVec.eq_of_getLsbD_eq
    intro i hi
    rw [← hf]
    simp only [pfnBits, BitVec.getLsbD_and, BitVec.getLsbD_ushiftRight, BitVec.getLsbD_or,
      BitVec.getLsbD_shiftLeft, BitVec.getLsbD_ofNat, frameNumber_getLsbD]
    by_cases h40 : i < 40
    · simp [frameless_getLsbD i h40, h40, hi]
      omega
    · have : pfn.testBit i = false :=
        Nat.testBit_lt_two_pow (Nat.lt_of_lt_of_le hp (Nat.pow_le_pow_right (by omega) (by omega)))
      simp [h40, this]
  rw [ptePfn, hfield, BitVec.toNat_ofNat, Nat.mod_eq_of_lt (by omega)]

theorem pfnBits_or_and_frameless {pfn : ℕ} (hp : pfn < 2 ^ 40) (flags : Pte) {mask : Pte}
    (hm : mask &&& frameless = mask) : (pfnBits pfn ||| flags) &&& mask = flags &&& mask := by
  have hfield : pfnBits pfn &&& frameless = 0#64 := by
    apply BitVec.eq_of_getLsbD_eq
    intro i hi
    simp only [pfnBits, BitVec.getLsbD_and, BitVec.getLsbD_shiftLeft, BitVec.getLsbD_ofNat]
    by_cases h12 : i < 12
    · simp [h12]
    · obtain ⟨j, rfl⟩ := Nat.exists_eq_add_of_le (Nat.le_of_not_lt h12)
      by_cases h40 : j < 40
      · simp [frameless_getLsbD j h40]
      · have : pfn.testBit j = false :=
          Nat.testBit_lt_two_pow (Nat.lt_of_lt_of_le hp (Nat.pow_le_pow_right (by omega) (by omega)))
        simp [this]
  rw [BitVec.and_or_distrib_right, ← hm, BitVec.and_comm mask, ← BitVec.and_assoc, hfield]
  simp

theorem pfnBits_or_and (pfn : ℕ) (flags : Pte) {mask : Pte} (hm : mask &&& 0xFFF#64 = mask) :
    (pfnBits pfn ||| flags) &&& mask = flags &&& mask := by
  rw [← hm]
  apply BitVec.eq_of_getLsbD_eq
  intro i hi
  simp only [pfnBits, BitVec.getLsbD_and, BitVec.getLsbD_or, BitVec.getLsbD_shiftLeft]
  by_cases h12 : i < 12
  · simp [h12]
  · have : (0xFFF#64).getLsbD i = false := by
      rw [show (0xFFF#64) = BitVec.ofNat 64 (2 ^ 12 - 1) from rfl, BitVec.getLsbD_ofNat,
        Nat.testBit_two_pow_sub_one]
      simp [h12]
    simp [this]

end XenOS.Mm
