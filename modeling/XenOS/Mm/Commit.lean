import Mathlib.Order.Interval.Finset.Nat
import XenOS.Mm.Protection

/-! Commit accounting of `NtAllocateVirtualMemory` and `NtFreeVirtualMemory` on one process, with
the set of the pages that the calls have committed. -/

namespace XenOS.Mm

open XenOS.General

/-- `MM_ALLOCATION_GRANULARITY`. -/
def allocationGranularity : ℕ := 0x10000

/-- `MM_LOWEST_USER_ADDRESS` and `MM_HIGHEST_USER_ADDRESS`. -/
def mmLowestUserAddress : ℕ := 0x0000000000010000
def mmHighestUserAddress : ℕ := 0x00007FFFFFFFFFFF

structure MmvadShort where
  startingVpn : ℕ
  endingVpn : ℕ
  commit : Bool
  deriving DecidableEq

namespace MmvadShort

def startAddress (vad : MmvadShort) : ℕ := vad.startingVpn * pageSize

def size (vad : MmvadShort) : ℕ := (vad.endingVpn - vad.startingVpn + 1) * pageSize

def pages (vad : MmvadShort) : Finset ℕ := Finset.Icc vad.startingVpn vad.endingVpn

end MmvadShort

/-- A process: its VADs, `commit_charge`, its part of `MM_TOTAL_COMMITTED_PAGES`, and the pages
committed by calls and not given back. The counters are integers, so an underflow is negative. -/
structure CommitSpace where
  vadRoot : Bool
  vads : List MmvadShort
  commitCharge : ℤ
  totalCommitted : ℤ
  committed : Finset ℕ

/-- What a call finds: the limit, the pages of other processes, the pool, the address that is found, in
units of the granularity asked for, and the pages whose page tables are there or can be made. -/
structure VmEnv where
  limit : ℕ
  others : ℤ
  rootAllocated : Bool
  vadAllocated : Bool
  found : ℕ
  hierarchy : ℕ → Bool

namespace CommitSpace

variable (s : CommitSpace)

def miFindVad (vpn : ℕ) : Option MmvadShort := s.vads.find? fun vad => vad.startingVpn ≤ vpn ∧ vpn ≤ vad.endingVpn

def overlaps (startVpn endVpn : ℕ) : Bool := s.vads.any fun vad => vad.startingVpn ≤ endVpn ∧ startVpn ≤ vad.endingVpn

def miCheckVadConflict (startVpn endVpn : ℕ) : Bool :=
  (s.miFindVad startVpn).isSome || (s.miFindVad endVpn).isSome || s.overlaps startVpn endVpn

/-- `mi_insert_vad`, `none` for `STATUS_CONFLICTING_ADDRESSES`. -/
def miInsertVad (vad : MmvadShort) : Option CommitSpace :=
  if s.overlaps vad.startingVpn vad.endingVpn then none else some { s with vads := vad :: s.vads }

/-- `mi_remove_vad`, which releases the pages of the region. -/
def miRemoveVad (vad : MmvadShort) : CommitSpace :=
  { s with vads := s.vads.erase vad, committed := s.committed \ vad.pages }

def setCommit (vad : MmvadShort) (commit : Bool) : CommitSpace :=
  { s with vads := s.vads.map fun v => if v = vad then { v with commit } else v }

/-- `mi_charge_commit` and the charge of the process, `none` above the limit. -/
def miChargeCommit (env : VmEnv) (pageCount : ℕ) : Option CommitSpace :=
  let charged := { s with totalCommitted := s.totalCommitted + pageCount, commitCharge := s.commitCharge + pageCount }
  if env.limit = 0 then some charged
  else if (env.limit : ℤ) < env.others + s.totalCommitted + pageCount then none
  else some charged

/-- `mi_return_commit` and the charge of the process. -/
def miReturnCommit (pageCount : ℕ) : CommitSpace :=
  { s with totalCommitted := s.totalCommitted - pageCount, commitCharge := s.commitCharge - pageCount }

/-- `mi_commit_pages`, which passes over a page without page tables. -/
def miCommitPages (env : VmEnv) (startVpn pageCount : ℕ) : CommitSpace :=
  { s with committed := s.committed ∪ {p ∈ Finset.Ico startVpn (startVpn + pageCount) | env.hierarchy p} }

/-- `mi_decommit_page` of each page. -/
def miDecommitPages (startVpn pageCount : ℕ) : CommitSpace :=
  { s with committed := s.committed \ Finset.Ico startVpn (startVpn + pageCount) }

end CommitSpace

/-! ### Calls -/

/-- `mi_check_zero_bits`; `none` where `48 - zero_bits` underflows, which stops the kernel. -/
def miCheckZeroBits (address zeroBits : ℕ) : Option Bool :=
  if zeroBits = 0 then some true
  else if 48 < zeroBits then none
  else some (decide (address < 2 ^ (48 - zeroBits)))

def alignedSize (requestedSize : ℕ) : ℕ :=
  (requestedSize + (allocationGranularity - 1)) / allocationGranularity * allocationGranularity

/-- The range at the address found: its aligned address and size, a status that refuses it, or
`none` where an address overflows. -/
def foundRange (foundVa size zeroBits : ℕ) : Option (Ntstatus ⊕ (ℕ × ℕ)) :=
  if foundVa = 0 then some (.inl .noMemory)
  else
    match miCheckZeroBits foundVa zeroBits with
    | none => none
    | some false => some (.inl .noMemory)
    | some true => if 2 ^ 64 ≤ foundVa + size then none else some (.inr (foundVa, size))

def givenRange (requestedBase requestedSize : ℕ) : Option (Ntstatus ⊕ (ℕ × ℕ)) :=
  let alignedBase := requestedBase / allocationGranularity * allocationGranularity
  let totalSize := requestedSize + (requestedBase - alignedBase)
  if 2 ^ 64 ≤ totalSize + (pageSize - 1) then none
  else
    let size := pageAlignUp totalSize
    if 2 ^ 64 ≤ alignedBase + size then none else some (.inr (alignedBase, size))

def allocationRange (requestedBase requestedSize zeroBits : ℕ) (env : VmEnv) : Option (Ntstatus ⊕ (ℕ × ℕ)) :=
  if requestedBase = 0 then
    if 2 ^ 64 ≤ requestedSize + (allocationGranularity - 1) then none
    else foundRange (env.found * allocationGranularity) (alignedSize requestedSize) zeroBits
  else givenRange requestedBase requestedSize

namespace CommitSpace

def reserve (s : CommitSpace) (startVpn endVpn pageCount : ℕ) (doCommit : Bool) (env : VmEnv) :
    CommitSpace × Ntstatus :=
  if (s.miFindVad startVpn).isSome then (s, .conflictingAddresses)
  else if s.miCheckVadConflict startVpn endVpn then (s, .conflictingAddresses)
  else if ¬ env.vadAllocated then (s, .noMemory)
  else if doCommit then
    match s.miChargeCommit env pageCount with
    | none => (s, .noMemory)
    | some charged =>
      match charged.miInsertVad ⟨startVpn, endVpn, true⟩ with
      | none => (charged.miReturnCommit pageCount, .conflictingAddresses)
      | some inserted => (inserted.miCommitPages env startVpn pageCount, .success)
  else
    match s.miInsertVad ⟨startVpn, endVpn, false⟩ with
    | none => (s, .conflictingAddresses)
    | some inserted => (inserted, .success)

def commitRange (s : CommitSpace) (startVpn endVpn pageCount : ℕ) (env : VmEnv) : CommitSpace × Ntstatus :=
  match s.miFindVad startVpn with
  | none => (s, .memoryNotAllocated)
  | some vad =>
    if startVpn < vad.startingVpn ∨ vad.endingVpn < endVpn then (s, .conflictingAddresses)
    else if vad.commit then (s.miCommitPages env startVpn pageCount, .success)
    else
      match s.miChargeCommit env pageCount with
      | none => (s, .noMemory)
      | some charged => ((charged.setCommit vad true).miCommitPages env startVpn pageCount, .success)

def miAllocateVirtualMemoryInternal (s : CommitSpace) (requestedBase requestedSize zeroBits : ℕ)
    (doReserve doCommit : Bool) (env : VmEnv) : CommitSpace × Option Ntstatus :=
  match allocationRange requestedBase requestedSize zeroBits env with
  | none => (s, none)
  | some (.inl status) => (s, some status)
  | some (.inr (startVa, size)) =>
    let endVa := startVa + size - 1
    if startVa < mmLowestUserAddress ∨ mmHighestUserAddress < endVa then (s, some .invalidParameter)
    else if doReserve then
      (s.reserve (startVa / pageSize) (endVa / pageSize) (size / pageSize) doCommit env).map id some
    else if doCommit then
      (s.commitRange (startVa / pageSize) (endVa / pageSize) (size / pageSize) env).map id some
    else (s, some .success)

/-- `nt_allocate_virtual_memory`, with no status where it stops the kernel. -/
def ntAllocateVirtualMemory (s : CommitSpace) (requestedBase requestedSize zeroBits : ℕ) (doReserve doCommit : Bool)
    (protect : BitVec 32) (env : VmEnv) : CommitSpace × Option Ntstatus :=
  if requestedSize = 0 then (s, some .invalidParameter)
  else if ¬ doReserve ∧ ¬ doCommit then (s, some .invalidParameter)
  else if ¬ isValidProtection protect then (s, some .invalidPageProtection)
  else if ¬ s.vadRoot ∧ ¬ env.rootAllocated then (s, some .noMemory)
  else { s with vadRoot := true }.miAllocateVirtualMemoryInternal requestedBase requestedSize zeroBits doReserve doCommit env

def miFreeVirtualMemoryRelease (s : CommitSpace) (requestedBase : ℕ) : CommitSpace × Ntstatus :=
  match s.miFindVad (requestedBase / pageSize) with
  | none => (s, .memoryNotAllocated)
  | some vad =>
    if requestedBase ≠ vad.startAddress then (s, .invalidParameter)
    else
      let pageCount := vad.size / pageSize
      let s := if vad.commit then (s.miDecommitPages vad.startingVpn pageCount).miReturnCommit pageCount else s
      (s.miRemoveVad vad, .success)

/-- `mi_free_virtual_memory_decommit`, with no status where the sum of address and size overflows. -/
def miFreeVirtualMemoryDecommit (s : CommitSpace) (requestedBase requestedSize : ℕ) : CommitSpace × Option Ntstatus :=
  if requestedSize = 0 then (s, some .invalidParameter)
  else if 2 ^ 64 ≤ requestedBase + requestedSize + (pageSize - 1) then (s, none)
  else
    let startVa := pageAlign requestedBase
    let endVa := pageAlignUp (requestedBase + requestedSize)
    let startVpn := startVa / pageSize
    let endVpn := (endVa - 1) / pageSize
    match s.miFindVad startVpn with
    | none => (s, some .memoryNotAllocated)
    | some vad =>
      if startVpn < vad.startingVpn ∨ vad.endingVpn < endVpn then (s, some .invalidParameter)
      else if ¬ vad.commit then (s, some .success)
      else
        let pageCount := (endVa - startVa) / pageSize
        let s := s.miDecommitPages startVpn pageCount
        let s := if vad.startingVpn = startVpn ∧ vad.endingVpn = endVpn then s.setCommit vad false else s
        (s.miReturnCommit pageCount, some .success)

def ntFreeVirtualMemory (s : CommitSpace) (requestedBase requestedSize : ℕ) (doDecommit doRelease : Bool) :
    CommitSpace × Option Ntstatus :=
  if doDecommit ∧ doRelease then (s, some .invalidParameter)
  else if ¬ doDecommit ∧ ¬ doRelease then (s, some .invalidParameter)
  else if doRelease ∧ requestedSize ≠ 0 then (s, some .invalidParameter)
  else if ¬ s.vadRoot then (s, some .memoryNotAllocated)
  else if doRelease then (s.miFreeVirtualMemoryRelease requestedBase).map id some
  else s.miFreeVirtualMemoryDecommit requestedBase requestedSize

end CommitSpace

inductive VmCall
  | allocate (requestedBase requestedSize zeroBits : ℕ) (doReserve doCommit : Bool) (protect : BitVec 32) (env : VmEnv)
  | free (requestedBase requestedSize : ℕ) (doDecommit doRelease : Bool)

namespace CommitSpace

/-- A process that has no VADs. -/
def empty : CommitSpace := ⟨false, [], 0, 0, ∅⟩

def call (s : CommitSpace) : VmCall → CommitSpace × Option Ntstatus
  | .allocate requestedBase requestedSize zeroBits doReserve doCommit protect env =>
    s.ntAllocateVirtualMemory requestedBase requestedSize zeroBits doReserve doCommit protect env
  | .free requestedBase requestedSize doDecommit doRelease =>
    s.ntFreeVirtualMemory requestedBase requestedSize doDecommit doRelease

def step (s : CommitSpace) (c : VmCall) : CommitSpace := (s.call c).1

end CommitSpace

end XenOS.Mm
