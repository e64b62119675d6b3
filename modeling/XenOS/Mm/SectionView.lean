import XenOS.Mm.Protection
import XenOS.Mm.Vad

/-! Sections without a file and their views: `mi_init_pagefile_section` makes the prototype entries,
`NtMapViewOfSection` maps a part. Arithmetic wraps at 64 bits, as without overflow
checks. -/

namespace XenOS.Mm

/-- `u64` and `usize` arithmetic. -/
def wrapping (n : ℕ) : ℕ := n % 2 ^ 64

def mmAllocationGranularity : ℕ := 0x10000

/-- `(n + MM_ALLOCATION_GRANULARITY - 1) & !(MM_ALLOCATION_GRANULARITY - 1)`. -/
def alignUp (n alignment : ℕ) : ℕ := wrapping (n + alignment - 1) / alignment * alignment

/-- The answers of the pool to the allocations of a section; `prototypePtes` is given a number of
entries. -/
structure SectionPool where
  controlArea : Bool
  segment : Bool
  subsection : Bool
  prototypePtes : ℕ → Option ℕ

structure SectionObject where
  segmentSize : ℕ
  totalNumberOfPtes : ℕ
  firstPrototypePte : ℕ
  lastPrototypePte : ℕ
  ptesInSubsection : ℕ
  subsectionProtection : BitVec 32
  numberOfMappedViews : ℕ

def miAllocatePrototypePtes (pool : SectionPool) (count : ℕ) : Option ℕ :=
  if count = 0 then none else pool.prototypePtes count

/-- `mi_init_pagefile_section`; `none` is `STATUS_NO_MEMORY`. -/
def miInitPagefileSection (pool : SectionPool) (size : BitVec 64) (protection : BitVec 32) : Option SectionObject :=
  if ¬ pool.controlArea ∨ ¬ pool.segment ∨ ¬ pool.subsection then none
  else
    let pageCount := wrapping (size.toNat + pageSize - 1) / pageSize
    match miAllocatePrototypePtes pool pageCount with
    | none => none
    | some ptes => some
        { segmentSize := size.toNat
          totalNumberOfPtes := pageCount
          firstPrototypePte := ptes
          lastPrototypePte := wrapping (ptes + 8 * pageCount)
          ptesInSubsection := pageCount % 2 ^ 32
          subsectionProtection := miConvertProtection protection
          numberOfMappedViews := 0 }

/-- The loop of `mi_find_next_vad_after`. -/
def nextVadLoop (t : MmAvlTable) (targetVpn : ℕ) : ℕ → ℕ → ℕ → Option ℕ
  | 0, _, _ => none
  | fuel + 1, result, current =>
    if current = 0 then some result
    else if targetVpn < t.startingVpn current then nextVadLoop t targetVpn fuel current (t.tree.leftChild current)
    else nextVadLoop t targetVpn fuel result (t.tree.rightChild current)

def miFindNextVadAfter (t : MmAvlTable) (va : ℕ) : Option ℕ :=
  if t.tree.root = 0 then some 0 else nextVadLoop t (va / pageSize) (t.nodeCount + 1) 0 t.tree.root

def pastVad (t : MmAvlTable) (vad alignment : ℕ) : ℕ :=
  alignUp (wrapping (wrapping (t.endingVpn vad + 1) * pageSize)) alignment

/-- The loop of `mi_find_empty_address_range_in_vad_tree`, for at most `fuel` rounds. -/
def emptyRangeLoop (t : MmAvlTable) (size alignment searchEnd : ℕ) : ℕ → ℕ → Option ℕ
  | 0, _ => none
  | fuel + 1, currentVa =>
    if searchEnd ≤ currentVa then some 0
    else do
      let vad ← t.miFindVad (currentVa / pageSize)
      if vad = 0 then
        let endVa := wrapping (currentVa + size + 2 ^ 64 - 1)
        let nextVad ← miFindNextVadAfter t currentVa
        if nextVad = 0 then
          if endVa < searchEnd then some currentVa else some 0
        else if endVa < wrapping (t.startingVpn nextVad * pageSize) then some currentVa
        else emptyRangeLoop t size alignment searchEnd fuel (pastVad t nextVad alignment)
      else emptyRangeLoop t size alignment searchEnd fuel (pastVad t vad alignment)

/-- `mi_find_empty_address_range_in_vad_tree` for a section that is not an image. -/
def miFindEmptyAddressRangeInVadTree (fuel : ℕ) (t : MmAvlTable) (size alignment : ℕ) : Option ℕ :=
  emptyRangeLoop t size alignment 0x7FEFFFFF0000 fuel (alignUp 0x100000000 alignment)

/-- `mi_find_empty_address_range_for_section`. A process other than the caller's has no table here. -/
def miFindEmptyAddressRangeForSection (fuel : ℕ) (vadTable : Option MmAvlTable) (size alignment : ℕ) : Option ℕ :=
  match vadTable with
  | none => some 0x100000000
  | some t => miFindEmptyAddressRangeInVadTree fuel t size alignment

structure AddressSpace where
  vadTable : Option MmAvlTable
  ptes : ℕ → Pte

structure ViewVad where
  startingVpn : ℕ
  endingVpn : ℕ
  protection : BitVec 32
  firstPrototypePte : ℕ

/-- A call of `NtMapViewOfSection`: its pointers, the answer for the handle, whether the pool has a
VAD, and the arguments. -/
structure MapCall where
  argumentsPresent : Bool
  referenced : Ntstatus
  vadAllocated : Bool
  baseAddress : BitVec 64
  sectionOffset : Option (BitVec 64)
  viewSize : BitVec 64
  win32Protect : BitVec 32

/-- What a call leaves behind. -/
structure MapOutcome where
  status : Ntstatus
  space : AddressSpace
  numberOfMappedViews : ℕ
  baseAddress : ℕ
  viewSize : ℕ
  vad : Option ViewVad

def prototypeReference (protoPte : ℕ) : Pte := BitVec.ofNat 64 protoPte ||| PteState.prototype

/-- The loop of `mi_map_view_in_process` over the first `count` pages of the view. -/
def writeViewPtes (ptes : ℕ → Pte) (base firstPte : ℕ) : ℕ → ℕ → Pte
  | 0 => ptes
  | i + 1 => Function.update (writeViewPtes ptes base firstPte i) (mmGetPteAddress (wrapping (base + i * pageSize)))
      (prototypeReference (wrapping (firstPte + 8 * i)))

/-- `mi_map_view_in_process`; `none` is `STATUS_NO_MEMORY`. -/
def miMapViewInProcess (s : AddressSpace) (sec : SectionObject) (call : MapCall) (base size offset : ℕ) :
    Option (AddressSpace × ViewVad) :=
  if ¬ call.vadAllocated then none
  else
    let firstPte := wrapping (sec.firstPrototypePte + 8 * (offset / pageSize))
    let vad : ViewVad :=
      { startingVpn := base / pageSize
        endingVpn := wrapping (base + size + 2 ^ 64 - 1) / pageSize
        protection := miConvertProtection call.win32Protect
        firstPrototypePte := firstPte }
    some ({ s with ptes := writeViewPtes s.ptes base firstPte (size / pageSize) }, vad)

def MapCall.actualViewSize (call : MapCall) (sec : SectionObject) : ℕ :=
  if call.viewSize.toNat = 0 then sec.segmentSize else call.viewSize.toNat

def MapCall.alignedSize (call : MapCall) (sec : SectionObject) : ℕ :=
  alignUp (call.actualViewSize sec) mmAllocationGranularity

def MapCall.actualBase (fuel : ℕ) (s : AddressSpace) (sec : SectionObject) (call : MapCall) : Option ℕ :=
  if call.baseAddress.toNat = 0 then
    miFindEmptyAddressRangeForSection fuel s.vadTable (call.alignedSize sec) mmAllocationGranularity
  else some (call.baseAddress.toNat / mmAllocationGranularity * mmAllocationGranularity)

def MapCall.offset (call : MapCall) : ℕ := (call.sectionOffset.map BitVec.toNat).getD 0

/-- `NtMapViewOfSection`; `none` if the search takes more than `fuel` rounds. -/
def ntMapViewOfSection (fuel : ℕ) (s : AddressSpace) (sec : SectionObject) (call : MapCall) : Option MapOutcome :=
  let failed (status : Ntstatus) : MapOutcome :=
    { status, space := s, numberOfMappedViews := sec.numberOfMappedViews, baseAddress := call.baseAddress.toNat
      viewSize := call.viewSize.toNat, vad := none }
  if ¬ call.argumentsPresent then some (failed .invalidParameter)
  else if call.referenced ≠ .success then some (failed call.referenced)
  else
    match call.actualBase fuel s sec with
    | none => none
    | some base =>
      if call.baseAddress.toNat = 0 ∧ base = 0 then some (failed .noMemory)
      else
        match miMapViewInProcess s sec call base (call.alignedSize sec) call.offset with
        | none => some (failed .noMemory)
        | some (space, vad) => some
            { status := .success
              space
              numberOfMappedViews := (sec.numberOfMappedViews + 1) % 2 ^ 32
              baseAddress := base
              viewSize := call.alignedSize sec
              vad := some vad }

end XenOS.Mm
