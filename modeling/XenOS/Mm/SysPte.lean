import XenOS.Mm.Types

/-! The system page table entry allocator. The free list lives in the free entries: the first of a
cluster holds the index of the next, a bit tells clusters of one entry apart, and the second of a
larger one holds its size. -/

namespace XenOS.Mm

open BitVec

def maxSystemPtes : ℕ := 0x100000

/-- `MM_EMPTY_LIST`: the end of the list. -/
def mmEmptyList : ℕ := 0xFFFFFFFF

def oneEntryBit : BitVec 64 := 1#64 <<< 1
def nextEntryMask : BitVec 64 := 0xFFFFFFFF00000000#64

def encodeSinglePte (next : ℕ) : BitVec 64 := oneEntryBit ||| (BitVec.ofNat 64 next <<< 32)

def encodeClusterHeadPte (next : ℕ) : BitVec 64 := BitVec.ofNat 64 next <<< 32

def encodeClusterSizePte (size : ℕ) : BitVec 64 := BitVec.ofNat 64 size <<< 32

def isOneEntry (pte : BitVec 64) : Bool := pte &&& oneEntryBit ≠ 0

def decodeNextEntry (pte : BitVec 64) : ℕ := (pte >>> 32).toNat

/-- `set_next_entry`: the other bits stay. -/
def setNextEntry (pte : BitVec 64) (next : ℕ) : BitVec 64 :=
  (pte &&& ~~~nextEntryMask) ||| (BitVec.ofNat 64 next <<< 32)

/-- The globals of the allocator and the entries, by index. -/
structure SysPtes where
  initialized : Bool
  baseVa : ℕ
  pteCount : ℕ
  freeCount : ℕ
  freeListHead : ℕ
  pte : ℕ → BitVec 64

namespace SysPtes

variable (s : SysPtes)

def writePte (index : ℕ) (value : BitVec 64) : SysPtes := { s with pte := Function.update s.pte index value }

/-- Zero the entries `start .. start + count`, one by one. -/
def zeroPtes (start count : ℕ) : SysPtes :=
  { s with pte := fun i => if start ≤ i ∧ i < start + count then 0 else s.pte i }

def indexToVa (index : ℕ) : ℕ := (s.baseVa + index * pageSize) % 2 ^ 64

def vaToIndex (va : ℕ) : ℕ := (va + (2 ^ 64 - s.baseVa)) % 2 ^ 64 / pageSize % 2 ^ 32

def getClusterSize (index : ℕ) : ℕ :=
  if isOneEntry (s.pte index) then 1 else decodeNextEntry (s.pte (index + 1))

def blockNext (index : ℕ) : ℕ := decodeNextEntry (s.pte index)

def setBlockNext (index next : ℕ) : SysPtes := s.writePte index (setNextEntry (s.pte index) next)

def initFreeCluster (index size next : ℕ) : SysPtes :=
  if size = 1 then s.writePte index (encodeSinglePte next)
  else (s.writePte index (encodeClusterHeadPte next)).writePte (index + 1) (encodeClusterSizePte size)

def setLink (prev next : ℕ) : SysPtes :=
  if prev = mmEmptyList then { s with freeListHead := next } else s.setBlockNext prev next

def link (prev : ℕ) : ℕ := if prev = mmEmptyList then s.freeListHead else s.blockNext prev

/-- The writes that wipe the first two entries of a cluster taken off the list. -/
def clearCluster (index size : ℕ) : SysPtes :=
  let s := s.writePte index 0
  if 1 < size then s.writePte (index + 1) 0 else s

/-- Describe the cluster as one of `remaining` pages; a larger cluster keeps its first entry. -/
def shrinkCluster (index remaining : ℕ) : SysPtes :=
  if remaining = 1 then s.writePte index (encodeSinglePte mmEmptyList)
  else s.writePte (index + 1) (encodeClusterSizePte remaining)

end SysPtes

/-- `mi_initialize_system_ptes`: one cluster of the whole region. -/
def miInitializeSystemPtes (s : SysPtes) (baseVa count : ℕ) : SysPtes :=
  if s.initialized then s else
  let actualCount := min count maxSystemPtes
  let s :=
    { s with
      baseVa := baseVa
      pteCount := actualCount
      freeCount := actualCount }
  let s := s.zeroPtes 0 actualCount
  let s := s.writePte 0 (encodeClusterHeadPte mmEmptyList)
  let s := s.writePte 1 (encodeClusterSizePte actualCount)
  { s with freeListHead := 0, initialized := true }

/-! ### Release

The loops carry fuel; the result is `none` if it runs out, or where the index of an entry to clear
overflows. -/

/-- The variables of the loop of `release_ptes_with_coalescing`. -/
structure Release where
  ptes : SysPtes
  startIndex : ℕ
  count : ℕ
  prev : ℕ
  insertAfter : ℕ
  current : ℕ

def Release.turn (r : Release) : Release :=
  let s := r.ptes
  let clusterSize := s.getClusterSize r.current
  if r.current + clusterSize = r.startIndex ∨ r.startIndex + r.count = r.current then
    let s := s.setLink r.prev (s.blockNext r.current)
    let s := s.clearCluster r.current clusterSize
    { ptes := s
      startIndex := if r.current < r.startIndex then r.current else r.startIndex
      count := r.count + clusterSize
      prev := r.prev
      insertAfter := mmEmptyList
      current := s.link r.prev }
  else
    { r with
      prev := r.current
      insertAfter := if r.insertAfter = mmEmptyList ∧ r.count ≤ clusterSize then r.prev else r.insertAfter
      current := s.blockNext r.current }

def Release.loop : ℕ → Release → Option Release
  | 0, _ => none
  | fuel + 1, r => if r.current = mmEmptyList then some r else Release.loop fuel r.turn

def Release.insert (r : Release) : SysPtes :=
  let insertAfter := if r.insertAfter = mmEmptyList then r.prev else r.insertAfter
  let nextCluster := r.ptes.link insertAfter
  (r.ptes.initFreeCluster r.startIndex r.count nextCluster).setLink insertAfter r.startIndex

def releasePtesWithCoalescing (s : SysPtes) (startIndex count : ℕ) : Option SysPtes :=
  (Release.loop (s.pteCount + 1)
    { ptes := s
      startIndex := startIndex
      count := count
      prev := mmEmptyList
      insertAfter := mmEmptyList
      current := s.freeListHead }).map Release.insert

def miReleaseSystemPtes (s : SysPtes) (base count : ℕ) : Option SysPtes :=
  if !s.initialized then some s else
  if count = 0 ∨ base = 0 then some s else
  let index := s.vaToIndex base
  if 2 ^ 32 ≤ index + min (count - 1) (2 ^ 32 - 1) then none else
  (releasePtesWithCoalescing (s.zeroPtes index count) index (count % 2 ^ 32)).map fun s =>
    { s with freeCount := fetchAdd s.freeCount count }

/-- The search of `insert_cluster_sorted`: the links around the first cluster that is
not smaller. -/
def sortedPosition (s : SysPtes) (size : ℕ) : ℕ → ℕ → ℕ → Option (ℕ × ℕ)
  | 0, _, _ => none
  | fuel + 1, prev, current =>
    if current = mmEmptyList then some (prev, current)
    else if size ≤ s.getClusterSize current then some (prev, current)
    else sortedPosition s size fuel current (s.blockNext current)

def insertClusterSorted (s : SysPtes) (index size : ℕ) : Option SysPtes :=
  (sortedPosition s size (s.pteCount + 1) mmEmptyList s.freeListHead).map fun (prev, current) =>
    (s.setBlockNext index current).setLink prev index

/-- What `allocate_from_free_list` does with a cluster that is large enough. -/
def takeFromCluster (s : SysPtes) (count prev current : ℕ) : Option (ℕ × SysPtes) :=
  let clusterSize := s.getClusterSize current
  let s := s.setLink prev (s.blockNext current)
  if count < clusterSize then
    let returnIdx := current + clusterSize - count
    let remaining := clusterSize - count
    let s := s.shrinkCluster current remaining
    (insertClusterSorted s current remaining).map fun s => (returnIdx, s.zeroPtes returnIdx count)
  else some (current, s.clearCluster current clusterSize)

/-- The loop of `allocate_from_free_list`: `some none` if no cluster is large enough. -/
def allocateLoop (s : SysPtes) (count : ℕ) : ℕ → ℕ → ℕ → Option (Option (ℕ × SysPtes))
  | 0, _, _ => none
  | fuel + 1, prev, current =>
    if current = mmEmptyList then some none
    else if count ≤ s.getClusterSize current then (takeFromCluster s count prev current).map some
    else allocateLoop s count fuel current (s.blockNext current)

def allocateFromFreeList (s : SysPtes) (count : ℕ) : Option (Option (ℕ × SysPtes)) :=
  allocateLoop s count (s.pteCount + 1) mmEmptyList s.freeListHead

/-- `mi_reserve_system_ptes`: the address of the entries, or 0. -/
def miReserveSystemPtes (s : SysPtes) (count : ℕ) : Option (ℕ × SysPtes) :=
  if !s.initialized then some (0, s) else
  if count = 0 then some (0, s) else
  (allocateFromFreeList s (count % 2 ^ 32)).map fun
    | some (index, s) => (s.indexToVa index, { s with freeCount := fetchSub s.freeCount count })
    | none => (0, s)

theorem decodeNextEntry_lt (pte : BitVec 64) : decodeNextEntry pte < 2 ^ 32 := by
  have := pte.isLt
  simp only [decodeNextEntry, toNat_ushiftRight, Nat.shiftRight_eq_div_pow]
  omega

theorem decodeNextEntry_or (a b : BitVec 64) : (a >>> 32 = 0) → decodeNextEntry (a ||| b) = decodeNextEntry b := by
  intro ha
  rw [decodeNextEntry, ushiftRight_or_distrib, ha]
  simp [decodeNextEntry]

theorem decodeNextEntry_encodeClusterHeadPte {next : ℕ} (h : next < 2 ^ 32) :
    decodeNextEntry (encodeClusterHeadPte next) = next := by
  simp only [decodeNextEntry, encodeClusterHeadPte, toNat_ushiftRight, toNat_shiftLeft, toNat_ofNat,
    Nat.shiftLeft_eq, Nat.shiftRight_eq_div_pow]
  omega

theorem decodeNextEntry_encodeClusterSizePte {size : ℕ} (h : size < 2 ^ 32) :
    decodeNextEntry (encodeClusterSizePte size) = size := decodeNextEntry_encodeClusterHeadPte h

theorem decodeNextEntry_encodeSinglePte {next : ℕ} (h : next < 2 ^ 32) :
    decodeNextEntry (encodeSinglePte next) = next :=
  (decodeNextEntry_or _ _ (by decide)).trans (decodeNextEntry_encodeClusterHeadPte h)

theorem decodeNextEntry_setNextEntry (pte : BitVec 64) {next : ℕ} (h : next < 2 ^ 32) :
    decodeNextEntry (setNextEntry pte next) = next := by
  refine (decodeNextEntry_or _ _ ?_).trans (decodeNextEntry_encodeClusterHeadPte h)
  rw [ushiftRight_and_distrib, show ~~~nextEntryMask >>> 32 = 0#64 by decide, and_zero]
  rfl

theorem shiftLeft_and_oneEntryBit (next : ℕ) : (BitVec.ofNat 64 next <<< 32) &&& oneEntryBit = 0 := by
  apply BitVec.eq_of_getLsbD_eq
  intro i hi
  simp only [BitVec.getLsbD_and, BitVec.getLsbD_shiftLeft, oneEntryBit, BitVec.getLsbD_one]
  by_cases h : i = 1
  · simp [h]
  · simp
    omega

theorem isOneEntry_encodeSinglePte (next : ℕ) : isOneEntry (encodeSinglePte next) = true := by
  rw [isOneEntry, encodeSinglePte, BitVec.and_or_distrib_right, shiftLeft_and_oneEntryBit]
  decide

theorem isOneEntry_encodeClusterHeadPte (next : ℕ) : isOneEntry (encodeClusterHeadPte next) = false := by
  rw [isOneEntry, encodeClusterHeadPte, shiftLeft_and_oneEntryBit]
  decide

theorem isOneEntry_setNextEntry (pte : BitVec 64) (next : ℕ) : isOneEntry (setNextEntry pte next) = isOneEntry pte := by
  rw [isOneEntry, setNextEntry, BitVec.and_or_distrib_right, shiftLeft_and_oneEntryBit, BitVec.and_assoc,
    show ~~~nextEntryMask &&& oneEntryBit = oneEntryBit by decide]
  simp [isOneEntry]

end XenOS.Mm
