import XenOS.Mm.VadGapsSpec
import XenOS.Mm.VmProtectSpec

/-! Allocation and decommit on the tree and the page table entries of a process. An overflow stops
the kernel; a call that succeeds has worked on the pages that meet its range. -/

namespace XenOS.Mm

open General BinaryTree MmvadFlags

/-- The tree, the page table entries with the page frame database behind them, the commit counters, and the variables
of the caller. -/
structure VmSpace where
  vads : MmAvlTable
  ptes : ℕ → Pte
  db : PfnState
  commitCharge : ℕ
  totalCommitted : ℕ
  commitLimit : ℕ
  baseAddress : ℕ
  regionSize : ℕ

def MmAvlTable.allocationRange (t : MmAvlTable) (requestedBase requestedSize zeroBits : ℕ) (topDown : Bool) :
    Option (Ntstatus ⊕ (ℕ × ℕ)) :=
  if requestedBase = 0 then
    if 2 ^ 64 ≤ requestedSize + (allocationGranularity - 1) then none
    else
      (t.miFindEmptyAddressRange (alignedSize requestedSize) allocationGranularity topDown).bind fun foundVa =>
        foundRange foundVa (alignedSize requestedSize) zeroBits
  else givenRange requestedBase requestedSize

namespace VmSpace

/-- `mi_charge_commit`; `none` where the sum overflows. -/
def miChargeCommit (s : VmSpace) (pages : ℕ) : Option (Bool × VmSpace) :=
  if s.commitLimit = 0 then some (true, { s with totalCommitted := fetchAdd s.totalCommitted pages })
  else if 2 ^ 64 ≤ s.totalCommitted + pages then none
  else if s.commitLimit < s.totalCommitted + pages then some (false, s)
  else some (true, { s with totalCommitted := s.totalCommitted + pages })

/-- `mi_return_commit`, and the charge of the process. -/
def returnCharge (s : VmSpace) (pages : ℕ) : VmSpace :=
  { s with totalCommitted := fetchSub s.totalCommitted pages, commitCharge := fetchSub s.commitCharge pages }

/-- `mi_commit_pages`. A page whose page tables cannot be made is skipped. -/
def miCommitPages (s : VmSpace) (startVa pageCount : ℕ) (protect : BitVec 32) (hierarchy : ℕ → Bool) : VmSpace :=
  { s with
    ptes := updateAll (fun _ => miMakeDemandZeroPte (miConvertProtection protect))
      (((pageAddresses startVa pageCount).filter hierarchy).map mmGetPteAddress) s.ptes }

/-- The loop of `mi_decommit_page`. -/
def miDecommitPages (s : VmSpace) (entries : List ℕ) : VmSpace :=
  entries.foldl (fun s e =>
    let r := miDecommitPage s.db (s.ptes e)
    { s with ptes := Function.update s.ptes e r.1, db := r.2 }) s

/-- The values that a call gives back. -/
def withRange (s : VmSpace) (baseAddress regionSize : ℕ) : VmSpace := { s with baseAddress, regionSize }

def reserve (s : VmSpace) (existing startVa size : ℕ) (doCommit : Bool) (protect : BitVec 32) (newVad : ℕ)
    (hierarchy : ℕ → Bool) : Option (Ntstatus × VmSpace) :=
  let startVpn := startVa / pageSize
  let endVpn := (startVa + size - 1) / pageSize
  let pageCount := size / pageSize
  if existing ≠ 0 then some (.conflictingAddresses, s)
  else
    (s.vads.miCheckVadConflict startVpn endVpn).bind fun conflict =>
      if conflict then some (.conflictingAddresses, s)
      else if newVad = 0 then some (.noMemory, s)
      else
        let flags := setVadType 0 .vadPrivateMemory
        let flags := setProtection flags (miConvertProtection protect)
        let flags := setPrivateMemory flags true
        let vads := ((s.vads.miAllocateVadShort newVad).setRange newVad startVpn endVpn).setFlags newVad flags
        if doCommit then
          (s.miChargeCommit pageCount).bind fun r =>
            if ¬ r.1 then some (.noMemory, { s with vads })
            else
              let s := { r.2 with vads := vads.setFlags newVad (setCommit flags true)
                                  commitCharge := fetchAdd r.2.commitCharge pageCount }
              (s.vads.miInsertVad newVad).map fun q =>
                if q.1 ≠ .success then (q.1, { s with vads := q.2 }.returnCharge pageCount)
                else (.success, ({ s with vads := q.2 }.miCommitPages startVa pageCount protect hierarchy).withRange startVa
                  (pageCount * pageSize))
        else
          (vads.miInsertVad newVad).map fun q =>
            if q.1 ≠ .success then (q.1, { s with vads := q.2 })
            else (.success, { s with vads := q.2 }.withRange startVa (pageCount * pageSize))

def commitRange (s : VmSpace) (existing startVa size : ℕ) (protect : BitVec 32) (hierarchy : ℕ → Bool) :
    Option (Ntstatus × VmSpace) :=
  let startVpn := startVa / pageSize
  let endVpn := (startVa + size - 1) / pageSize
  let pageCount := size / pageSize
  if existing = 0 then some (.memoryNotAllocated, s)
  else if startVpn < s.vads.startingVpn existing ∨ s.vads.endingVpn existing < endVpn then some (.conflictingAddresses, s)
  else if vadType (s.vads.flags existing) ≠ .vadPrivateMemory then some (.conflictingAddresses, s)
  else if commit (s.vads.flags existing) then
    some (.success, (s.miCommitPages startVa pageCount protect hierarchy).withRange startVa (pageCount * pageSize))
  else
    (s.miChargeCommit pageCount).map fun r =>
      if ¬ r.1 then (.noMemory, r.2)
      else
        let s := { r.2 with vads := r.2.vads.setFlags existing (setCommit (r.2.vads.flags existing) true)
                            commitCharge := fetchAdd r.2.commitCharge pageCount }
        (.success, (s.miCommitPages startVa pageCount protect hierarchy).withRange startVa (pageCount * pageSize))

/-- `mi_allocate_virtual_memory_internal`; `newVad` is what the pool gives, `hierarchy` for which addresses the page
tables can be made. -/
def miAllocateVirtualMemoryInternal (s : VmSpace) (requestedBase requestedSize zeroBits : ℕ) (doReserve doCommit topDown : Bool)
    (protect : BitVec 32) (newVad : ℕ) (hierarchy : ℕ → Bool) : Option (Ntstatus × VmSpace) :=
  (s.vads.allocationRange requestedBase requestedSize zeroBits topDown).bind fun r =>
    match r with
    | .inl status => some (status, s)
    | .inr (startVa, size) =>
      if startVa < mmLowestUserAddress ∨ mmHighestUserAddress < startVa + size - 1 then some (.invalidParameter, s)
      else
        (s.vads.findVad startVa).bind fun existing =>
          if doReserve then s.reserve existing startVa size doCommit protect newVad hierarchy
          else if doCommit then s.commitRange existing startVa size protect hierarchy
          else some (.success, s.withRange startVa (size / pageSize * pageSize))

/-- `mi_free_virtual_memory_decommit`; `none` where an address overflows. -/
def miFreeVirtualMemoryDecommit (s : VmSpace) (requestedBase requestedSize : ℕ) : Option (Ntstatus × VmSpace) :=
  if requestedSize = 0 then some (.invalidParameter, s)
  else if 2 ^ 64 ≤ requestedBase + requestedSize + (pageSize - 1) then none
  else
    let startVa := pageAlign requestedBase
    let endVa := pageAlignUp (requestedBase + requestedSize)
    let startVpn := startVa / pageSize
    let endVpn := (endVa - 1) / pageSize
    (s.vads.findVad startVa).bind fun vad =>
      if vad = 0 then some (.memoryNotAllocated, s)
      else if startVpn < s.vads.startingVpn vad ∨ s.vads.endingVpn vad < endVpn then some (.invalidParameter, s)
      else if vadType (s.vads.flags vad) ≠ .vadPrivateMemory then some (.invalidParameter, s)
      else if ¬ commit (s.vads.flags vad) then some (.success, s.withRange startVa (endVa - startVa))
      else
        let s' := s.miDecommitPages (protectedEntries requestedBase requestedSize)
        let s' :=
          if s.vads.startingVpn vad = startVpn ∧ s.vads.endingVpn vad = endVpn then
            { s' with vads := s'.vads.setFlags vad (setCommit (s'.vads.flags vad) false) }
          else s'
        some (.success, (s'.returnCharge ((endVa - startVa) / pageSize)).withRange startVa (endVa - startVa))

end VmSpace

end XenOS.Mm
