import XenOS.Mm.SectionView

/-! The kinds of entries that are not valid, and the fault dispatcher that tells them apart
by the order of its bit tests. A guard entry has the demand-zero bit too, and the marker of
a pagefile entry is the prototype bit. -/

namespace XenOS.Mm

open PteState

open BitVec (eq_of_getLsbD_eq getLsbD_and getLsbD_ofNat lt_def)

def mmSystemRangeStart : ℕ := 0xFFFF800000000000

def miMakeGuardPte (protection : BitVec 32) : Pte :=
  guard ||| demandZero ||| ((protection.setWidth 64 &&& 0x1F#64) <<< 5)

def miEncodePagefilePte (pagefileIndex : BitVec 8) (offset : BitVec 64) (protection : BitVec 32) : Pte :=
  (offset <<< 12) ||| ((pagefileIndex.setWidth 64 &&& 0xF#64) <<< 8) ||| ((protection.setWidth 64 &&& 0x7#64) <<< 5) ||| 0x8#64

/-- `mi_decode_pagefile_pte`: index, offset and protection. -/
def miDecodePagefilePte (pteValue : Pte) : BitVec 8 × BitVec 64 × BitVec 32 :=
  (((pteValue >>> 8) &&& 0xF#64).setWidth 8, pteValue >>> 12, ((pteValue >>> 5) &&& 0x7#64).setWidth 32)

def miIsPagefilePte (pteValue : Pte) : Bool := pteValue &&& 0x9#64 = 0x8#64

/-- The address that `mi_handle_prototype_fault` takes from an entry. -/
def protoPteAddr (pteValue : Pte) : BitVec 64 := pteValue &&& ~~~0xFFF#64

/-- Where `mi_resolve_not_present_fault` goes. -/
inductive FaultHandler where
  | accessViolation | stackGrowth | demandZero | transition | guardPage | prototype
  deriving DecidableEq

inductive VadCheckResult where
  | notInVad | notCommitted | stackGuard | committed
  deriving DecidableEq

/-- The tests of the bits of the entry. -/
def faultHandler (pteValue : Pte) : FaultHandler :=
  if pteValue = 0 then .accessViolation
  else if pteValue &&& demandZero ≠ 0 then .demandZero
  else if pteValue &&& transition ≠ 0 then .transition
  else if pteValue &&& guard ≠ 0 then .guardPage
  else if pteValue &&& prototype ≠ 0 then .prototype
  else .accessViolation

/-- The dispatch of `mi_resolve_not_present_fault`, with what the VAD check answers for the address. -/
def resolveHandler (faultAddress : ℕ) (vadCheck : VadCheckResult) (pteValue : Pte) : FaultHandler :=
  if faultAddress < mmSystemRangeStart then
    match vadCheck with
    | .notInVad => .accessViolation
    | .notCommitted => .accessViolation
    | .stackGuard => .stackGrowth
    | .committed => faultHandler pteValue
  else faultHandler pteValue

def Committed (faultAddress : ℕ) (vadCheck : VadCheckResult) : Prop :=
  faultAddress < mmSystemRangeStart → vadCheck = .committed

theorem resolveHandler_of_committed {faultAddress : ℕ} {vadCheck : VadCheckResult} (h : Committed faultAddress vadCheck)
    (pteValue : Pte) : resolveHandler faultAddress vadCheck pteValue = faultHandler pteValue := by
  unfold resolveHandler
  split
  · rename_i huser
    rw [h huser]
  · rfl

/-- An entry as one of its makers makes it. -/
inductive SoftwarePte where
  | demandZero (protection : BitVec 32)
  | guard (protection : BitVec 32)
  | transition (trimmed : Pte)
  | prototype (address : ℕ) (aligned : pageSize ∣ address) (inRange : address < 2 ^ 64)
  | pagefile (index : BitVec 8) (offset : BitVec 64) (protection : BitVec 32) (indexed : index < 16#8)
      (inRange : offset < 0x10000000000000#64)

namespace SoftwarePte

def encode : SoftwarePte → Pte
  | demandZero protection => miMakeDemandZeroPte protection
  | guard protection => miMakeGuardPte protection
  | transition trimmed => transitionPte trimmed
  | prototype address _ _ => prototypeReference address
  | pagefile index offset protection _ _ => miEncodePagefilePte index offset protection

def ownHandler : SoftwarePte → Option FaultHandler
  | demandZero _ => some .demandZero
  | guard _ => some .guardPage
  | transition _ => some .transition
  | prototype _ _ _ => some .prototype
  | pagefile _ _ _ _ _ => none

def Decodes : SoftwarePte → Prop
  | demandZero protection => softwareProtection (miMakeDemandZeroPte protection) = protection &&& 0x1F#32
  | guard protection => faultHandler (miHandleGuardPageFault (miMakeGuardPte protection)) = .demandZero
  | transition trimmed => ptePfn (transitionPte trimmed) = ptePfn trimmed
  | prototype address _ _ => (protoPteAddr (prototypeReference address)).toNat = address
  | pagefile index offset protection _ _ =>
    miIsPagefilePte (miEncodePagefilePte index offset protection) ∧
      miDecodePagefilePte (miEncodePagefilePte index offset protection) = (index, offset, protection)

/-- A fault on the entry goes to the handler of its kind, and nothing that was encoded is lost. -/
def ToldApart (faultAddress : ℕ) (vadCheck : VadCheckResult) (k : SoftwarePte) : Prop :=
  k.ownHandler = some (resolveHandler faultAddress vadCheck k.encode) ∧ k.Decodes

def isGuard : SoftwarePte → Bool
  | guard _ => true
  | _ => false

def isPagefile : SoftwarePte → Bool
  | pagefile _ _ _ _ _ => true
  | _ => false

end SoftwarePte

theorem ne_zero_of_and {pte mask : Pte} (h : pte &&& mask ≠ 0) : pte ≠ 0 := by
  rintro rfl
  exact h (by simp)

theorem faultHandler_demandZero {pte : Pte} (h : pte &&& demandZero ≠ 0) : faultHandler pte = .demandZero := by
  rw [faultHandler, if_neg (ne_zero_of_and h), if_pos h]

theorem faultHandler_miMakeDemandZeroPte (protection : BitVec 32) : faultHandler (miMakeDemandZeroPte protection) = .demandZero := by
  apply faultHandler_demandZero
  rw [miMakeDemandZeroPte_and _ (by decide)]
  decide

theorem faultHandler_miMakeGuardPte (protection : BitVec 32) : faultHandler (miMakeGuardPte protection) = .demandZero := by
  apply faultHandler_demandZero
  rw [miMakeGuardPte, or_protectionField_and _ _ (by decide)]
  decide

theorem faultHandler_transitionPte (pte : Pte) : faultHandler (transitionPte pte) = .transition := by
  have htransition : transitionPte pte &&& transition ≠ 0 := by
    rw [transitionPte_and _ (by decide)]
    decide
  have hdemand : transitionPte pte &&& demandZero = 0 := by
    rw [transitionPte_and _ (by decide)]
    decide
  rw [faultHandler, if_neg (ne_zero_of_and htransition), if_neg (not_not.2 hdemand), if_pos htransition]

theorem faultHandler_prototype {pte : Pte} (h : pte &&& 0x1E#64 = prototype) : faultHandler pte = .prototype := by
  have hbit {mask : Pte} (hm : 0x1E#64 &&& mask = mask) : pte &&& mask = prototype &&& mask := by
    rw [← h, BitVec.and_assoc, hm]
  have hproto : pte &&& prototype ≠ 0 := by
    rw [hbit (by decide)]
    decide
  have hdemand : pte &&& demandZero = 0 := by
    rw [hbit (by decide)]
    decide
  have htransition : pte &&& transition = 0 := by
    rw [hbit (by decide)]
    decide
  have hguard : pte &&& guard = 0 := by
    rw [hbit (by decide)]
    decide
  rw [faultHandler, if_neg (ne_zero_of_and hproto), if_neg (not_not.2 hdemand), if_neg (not_not.2 htransition),
    if_neg (not_not.2 hguard), if_pos hproto]

theorem shiftLeft_and_low (x mask : Pte) {k : ℕ} (hmask : mask &&& BitVec.ofNat 64 (2 ^ k - 1) = mask) : (x <<< k) &&& mask = 0 := by
  apply eq_of_getLsbD_eq
  intro i hi
  rw [← hmask]
  simp only [getLsbD_and, BitVec.getLsbD_shiftLeft, getLsbD_ofNat, Nat.testBit_two_pow_sub_one]
  by_cases hk : i < k
  · simp [hk]
  · simp [hk]

theorem ofNat_pageSize_mul (page : ℕ) : BitVec.ofNat 64 (pageSize * page) = BitVec.ofNat 64 page <<< 12 := by
  apply BitVec.eq_of_toNat_eq
  simp [pageSize, Nat.shiftLeft_eq, Nat.mul_comm]

theorem faultHandler_prototypeReference {address : ℕ} (h : pageSize ∣ address) :
    faultHandler (prototypeReference address) = .prototype := by
  obtain ⟨page, rfl⟩ := h
  apply faultHandler_prototype
  rw [prototypeReference, ofNat_pageSize_mul, BitVec.and_or_distrib_right, shiftLeft_and_low _ _ (k := 12) (by decide)]
  decide

theorem softwareProtection_demandZero (protection : BitVec 32) :
    softwareProtection (miMakeDemandZeroPte protection) = protection &&& 0x1F#32 := by
  apply eq_of_getLsbD_eq
  intro i hi
  have hbit : (0x1F#32).getLsbD i = (decide (i < 32) && decide (i < 5)) := by
    rw [show 0x1F#32 = BitVec.ofNat 32 (2 ^ 5 - 1) from rfl, getLsbD_ofNat, Nat.testBit_two_pow_sub_one]
  by_cases h5 : i < 5
  · have hcases : i = 0 ∨ i = 1 ∨ i = 2 ∨ i = 3 ∨ i = 4 := by omega
    rcases hcases with rfl | rfl | rfl | rfl | rfl
    all_goals simp [softwareProtection, miMakeDemandZeroPte, demandZero]
  · simp [softwareProtection, hbit, h5]

theorem protoPteAddr_prototypeReference {address : ℕ} (h : pageSize ∣ address) (hrange : address < 2 ^ 64) :
    (protoPteAddr (prototypeReference address)).toNat = address := by
  obtain ⟨page, rfl⟩ := h
  have hkeep : protoPteAddr (prototypeReference (pageSize * page)) = BitVec.ofNat 64 (pageSize * page) := by
    have hlow : BitVec.ofNat 64 page <<< 12 &&& 0xFFF#64 = 0 := shiftLeft_and_low _ _ (k := 12) (by decide)
    rw [protoPteAddr, prototypeReference, ofNat_pageSize_mul, BitVec.and_or_distrib_right,
      show prototype &&& ~~~0xFFF#64 = 0#64 by decide, BitVec.or_zero]
    apply eq_of_getLsbD_eq
    intro i hi
    have hbit := congrArg (fun x => x.getLsbD i) hlow
    simp only [getLsbD_and, BitVec.getLsbD_not, hi, decide_true, Bool.true_and] at hbit ⊢
    cases hx : (BitVec.ofNat 64 page <<< 12).getLsbD i with
    | false => rfl
    | true =>
      rw [hx, Bool.true_and] at hbit
      rw [hbit]
      simp
  rw [hkeep, BitVec.toNat_ofNat, Nat.mod_eq_of_lt hrange]

namespace SoftwarePte

/-- Every kind but the guard and pagefile entries is told apart. -/
theorem toldApart_iff (k : SoftwarePte) (faultAddress : ℕ) (vadCheck : VadCheckResult)
    (hcommitted : Committed faultAddress vadCheck) :
    k.ToldApart faultAddress vadCheck ↔ k.isGuard = false ∧ k.isPagefile = false := by
  unfold ToldApart
  rw [resolveHandler_of_committed hcommitted]
  cases k with
  | demandZero protection =>
    exact iff_of_true ⟨congrArg some (faultHandler_miMakeDemandZeroPte protection).symm,
      softwareProtection_demandZero protection⟩ ⟨rfl, rfl⟩
  | guard protection =>
    refine iff_of_false (fun h => ?_) fun h => absurd h.1 (by simp [isGuard])
    have hguard : some FaultHandler.guardPage = some (faultHandler (miMakeGuardPte protection)) := h.1
    rw [faultHandler_miMakeGuardPte] at hguard
    cases hguard
  | transition trimmed =>
    exact iff_of_true ⟨congrArg some (faultHandler_transitionPte trimmed).symm, ptePfn_transitionPte trimmed⟩ ⟨rfl, rfl⟩
  | prototype address aligned inRange =>
    exact iff_of_true ⟨congrArg some (faultHandler_prototypeReference aligned).symm,
      protoPteAddr_prototypeReference aligned inRange⟩ ⟨rfl, rfl⟩
  | pagefile index offset protection indexed inRange =>
    refine iff_of_false (fun h => ?_) fun h => absurd h.2 (by simp [isPagefile])
    cases h.1

theorem toldApart_prototype : (prototype 0x5000 (by decide) (by decide)).ToldApart 0x10000 .committed :=
  (toldApart_iff (prototype 0x5000 (by decide) (by decide)) 0x10000 .committed fun _ => rfl).2 ⟨rfl, rfl⟩

/-- A touched guard page raises no violation. -/
theorem guard_missed : ¬ (guard 4#32).ToldApart 0x10000 .committed := by
  intro h
  have hhandler : some FaultHandler.guardPage = some (faultHandler (miMakeGuardPte 4#32)) := h.1
  rw [faultHandler_miMakeGuardPte] at hhandler
  cases hhandler

end SoftwarePte

end XenOS.Mm
