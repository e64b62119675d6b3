import XenOS.General.RamRings
import XenOS.Mm.Pool

/-! The pool allocator of `ex/pool_nt.rs`. Memory is bytes: a pool page is a header and blocks in
units of sixteen bytes with headers of eight; a free block has a signature and its list entry behind
that. A descriptor has 32 free lists by size and a list of its pages. -/

namespace XenOS.Ex

open General Mm

inductive PoolType where
  | nonPagedPool | pagedPool | nonPagedPoolMustSucceed | dontUseThisType | nonPagedPoolCacheAligned
  | pagedPoolCacheAligned | nonPagedPoolCacheAlignedMustS | maxPoolType | nonPagedPoolSession | pagedPoolSession
  deriving DecidableEq, Repr

def PoolType.isPaged : PoolType → Bool
  | .pagedPool | .pagedPoolCacheAligned | .pagedPoolSession => true
  | _ => false

def poolBlockSize : ℕ := 16
def poolHeaderSize : ℕ := 8
def numFreeLists : ℕ := 32
def poolFreeSignature : ℕ := 0x65657246
def poolPageSignature : ℕ := 0x6C6F6F50

def minBlocks : ℕ := 2

/-- `POOL_PAGE_HEADER::header_size()`, and the blocks of a page. -/
def pageHeaderSize : ℕ := 48
def availableBlocks : ℕ := (pageSize - pageHeaderSize) / poolBlockSize

/-- The fields of `POOL_HEADER` and `POOL_FREE_BLOCK` at a block. -/
def previousSize (m : Ram) (block : ℕ) : ℕ := leNat (m.read block 1)
def blockSize (m : Ram) (block : ℕ) : ℕ := leNat (m.read (block + 2) 1)
def blockPoolType (m : Ram) (block : ℕ) : ℕ := leNat (m.read (block + 3) 1)
def poolTag (m : Ram) (block : ℕ) : ℕ := m.u32 (block + 4)
def signature (m : Ram) (block : ℕ) : ℕ := m.u32 (block + 8)
def listEntry (block : ℕ) : ℕ := block + 16

def setPreviousSize (m : Ram) (block v : ℕ) : Ram := m.write block (leBytes 1 v)
def setBlockSize (m : Ram) (block v : ℕ) : Ram := m.write (block + 2) (leBytes 1 v)
def setPoolType (m : Ram) (block v : ℕ) : Ram := m.write (block + 3) (leBytes 1 v)
def setPoolTag (m : Ram) (block v : ℕ) : Ram := m.write (block + 4) (leBytes 4 v)
def setSignature (m : Ram) (block v : ℕ) : Ram := m.write (block + 8) (leBytes 4 v)

/-- The fields of `POOL_PAGE_HEADER` at a page. -/
def setPagePoolType (m : Ram) (page v : ℕ) : Ram := m.write (page + 4) (leBytes 1 v)
def freeBlocks (m : Ram) (page : ℕ) : ℕ := m.u16 (page + 6)
def setFreeBlocks (m : Ram) (page v : ℕ) : Ram := m.write (page + 6) (leBytes 2 v)
def setTotalBlocks (m : Ram) (page v : ℕ) : Ram := m.write (page + 8) (leBytes 2 v)
def setLargestFree (m : Ram) (page v : ℕ) : Ram := m.write (page + 10) (leBytes 2 v)
def pageLinks (page : ℕ) : ℕ := page + 16
def setFirstFree (m : Ram) (page v : ℕ) : Ram := m.write (page + 32) (leBytes 8 v)
def setPfn (m : Ram) (page v : ℕ) : Ram := m.write (page + 40) (leBytes 8 v)

inductive ListId where
  | free (paged : Bool) (i : Fin numFreeLists)
  | pages (paged : Bool)
  deriving DecidableEq

/-- The counters of `NtPoolDescriptor`. -/
structure PoolCounters where
  totalPages : ℕ
  freeBytes : ℕ
  usedBytes : ℕ
  allocCount : ℕ
  freeCount : ℕ

/-- The memory, the two descriptors and what pages are made of. The heads of the lists lie in memory. -/
structure NtPool where
  mem : Ram
  initialized : Bool → Bool
  counters : Bool → PoolCounters
  pfns : PfnState
  ptes : SysPtes

/-- `descriptor.pool_type as u8`. -/
def typeOf (paged : Bool) : ℕ := if paged then 1 else 0

/-- `n - 1` of a `usize`, which wraps. -/
def decremented (n : ℕ) : ℕ := if n = 0 then 2 ^ 64 - 1 else n - 1

def listIndex (size : ℕ) : Fin numFreeLists := ⟨min (decremented size) (numFreeLists - 1), by unfold numFreeLists; omega⟩

namespace NtPool

variable (head : ListId → ℕ) (s : NtPool)

def modifyCounters (paged : Bool) (f : PoolCounters → PoolCounters) : NtPool :=
  { s with counters := Function.update s.counters paged (f (s.counters paged)) }

def splitBlock (m : Ram) (paged : Bool) (block blocksToUse : ℕ) : Ram :=
  let originalSize := blockSize m block
  let remainingSize := originalSize - blocksToUse
  let newFree := block + blocksToUse * poolBlockSize
  let m := setBlockSize m newFree remainingSize
  let m := setPreviousSize m newFree blocksToUse
  let m := setPoolType m newFree (typeOf paged)
  let m := setSignature m newFree poolFreeSignature
  let m := setBlockSize m block blocksToUse
  m.insertHead (head (.free paged (listIndex remainingSize))) (listEntry newFree)

def pageBytes (m : Ram) (paged : Bool) (va pfn : ℕ) : Ram :=
  let m := m.write va (leBytes 4 poolPageSignature ++ List.replicate 44 0)
  let m := setPagePoolType m va (typeOf paged)
  let m := setPfn m va pfn
  let m := setTotalBlocks m va availableBlocks
  let m := setFreeBlocks m va availableBlocks
  let m := setLargestFree m va availableBlocks
  let firstBlock := va + pageHeaderSize
  let m := setBlockSize m firstBlock availableBlocks
  let m := setPreviousSize m firstBlock 0
  let m := setPoolType m firstBlock (typeOf paged)
  let m := setSignature m firstBlock poolFreeSignature
  setFirstFree m va firstBlock

def initPage (m : Ram) (paged : Bool) (va pfn : ℕ) : Ram := (pageBytes m paged va pfn).insertTail (head (.pages paged)) (pageLinks va)

def useFirstBlock (m : Ram) (paged : Bool) (va blocksNeeded : ℕ) (tag : BitVec 32) : Ram :=
  let firstBlock := va + pageHeaderSize
  let m := if blocksNeeded + minBlocks < availableBlocks then splitBlock head m paged firstBlock blocksNeeded else m
  let m := setPoolTag m firstBlock tag.toNat
  let m := setBlockSize m firstBlock blocksNeeded
  setFreeBlocks m va (freeBlocks m va - blocksNeeded)

def allocateNewPoolPage (paged : Bool) (blocksNeeded : ℕ) (tag : BitVec 32) : Option (ℕ × NtPool) :=
  match miAllocatePfn s.pfns with
  | none => some (0, s)
  | some (pfn, pfns) => do
    let (va, ptes) ← miReserveSystemPtes s.ptes 1
    if va = 0 then return (0, { s with pfns := miFreePfn pfns pfn, ptes })
    else
      -- `mi_map_system_pte`
      let ptes := ptes.writePte (ptes.vaToIndex va) (poolPte pfn false)
      let s := { s with mem := initPage head s.mem paged va pfn, pfns, ptes }
      let s := s.modifyCounters paged fun c =>
        { c with
          totalPages := fetchAdd c.totalPages 1
          freeBytes := fetchAdd c.freeBytes (availableBlocks * poolBlockSize) }
      if blocksNeeded ≤ availableBlocks then
        let s := { s with mem := useFirstBlock head s.mem paged va blocksNeeded tag }
        return (va + pageHeaderSize + poolHeaderSize,
          s.modifyCounters paged fun c => { c with freeBytes := fetchSub c.freeBytes (blocksNeeded * poolBlockSize) })
      else return (0, s)

/-- What `find_and_allocate_block` does with a list that is not empty. The entry is taken for the block that it lies in. -/
def takeFirst (paged : Bool) (i : Fin numFreeLists) (blocksNeeded : ℕ) (tag : BitVec 32) : ℕ × NtPool :=
  let entry := s.mem.u64 (head (.free paged i))
  let freeBlock := entry
  let m := s.mem.removeEntry entry
  let m := if blocksNeeded + minBlocks < blockSize m freeBlock then splitBlock head m paged freeBlock blocksNeeded else m
  let m := setPoolType m freeBlock (typeOf paged)
  let m := setPoolTag m freeBlock tag.toNat
  let m := setBlockSize m freeBlock blocksNeeded
  let s := { s with mem := m }
  (freeBlock + poolHeaderSize,
    s.modifyCounters paged fun c => { c with freeBytes := fetchSub c.freeBytes (blocksNeeded * poolBlockSize) })

def startIndex (blocksNeeded : ℕ) : ℕ := decremented (min blocksNeeded numFreeLists)

def findList (m : Ram) (paged : Bool) (blocksNeeded : ℕ) : Option (Fin numFreeLists) :=
  (List.finRange numFreeLists).find? fun i => startIndex blocksNeeded ≤ i ∧ ¬ m.isEmpty (head (.free paged i))

def findAndAllocateBlock (paged : Bool) (blocksNeeded : ℕ) (tag : BitVec 32) : Option (ℕ × NtPool) :=
  match findList head s.mem paged blocksNeeded with
  | some i => some (s.takeFirst head paged i blocksNeeded tag)
  | none => s.allocateNewPoolPage head paged blocksNeeded tag

/-- The sums wrap, as without overflow checks. -/
def blocksNeededFor (size : BitVec 64) : ℕ :=
  let totalSize := (size.toNat + poolHeaderSize) % 2 ^ 64
  (totalSize + (poolBlockSize - 1)) % 2 ^ 64 / poolBlockSize

def ntPoolAllocate (poolType : PoolType) (size : BitVec 64) (tag : BitVec 32) : Option (ℕ × NtPool) :=
  if size = 0 then some (0, s)
  else
    let blocksNeeded := blocksNeededFor size
    let paged := poolType.isPaged
    if !s.initialized paged then some (0, s)
    else do
      let (ptr, s) ← s.findAndAllocateBlock head paged blocksNeeded tag
      if ptr = 0 then return (0, s)
      else
        return (ptr, s.modifyCounters paged fun c =>
          { c with
            allocCount := fetchAdd c.allocCount 1
            usedBytes := fetchAdd c.usedBytes (blocksNeeded * poolBlockSize) })

/-- The first half of `coalesce_blocks`: the block before, if it has the signature. -/
def coalescePrevious (m : Ram) (block : ℕ) : ℕ × Ram :=
  let currentSize := blockSize m block
  let prevSize := previousSize m block
  if 0 < prevSize then
    let prevBlock := block - prevSize * poolBlockSize
    if signature m prevBlock = poolFreeSignature then
      let m := m.removeEntry (listEntry prevBlock)
      let newSize := prevSize + currentSize
      let m := setBlockSize m prevBlock newSize
      let nextBlock := prevBlock + newSize * poolBlockSize
      (newSize, setPreviousSize m nextBlock newSize)
    else (currentSize, m)
  else (currentSize, m)

def coalesceBlocks (m : Ram) (block : ℕ) : ℕ × Ram :=
  let (currentSize, m) := coalescePrevious m block
  let nextBlock := block + currentSize * poolBlockSize
  if signature m nextBlock = poolFreeSignature then
    let nextSize := blockSize m nextBlock
    let m := m.removeEntry (listEntry nextBlock)
    let currentSize := currentSize + nextSize
    (currentSize, setBlockSize m block currentSize)
  else (currentSize, m)

/-- The tag check of `nt_pool_free` refuses the block. -/
def refuses (m : Ram) (header : ℕ) (tag : BitVec 32) : Prop := tag ≠ 0 ∧ poolTag m header ≠ tag.toNat

instance (m : Ram) (header : ℕ) (tag : BitVec 32) : Decidable (refuses m header tag) := inferInstanceAs (Decidable (_ ∧ _))

def ntPoolFree (ptr : ℕ) (tag : BitVec 32) : NtPool :=
  if ptr = 0 then s
  else
    let header := ptr - poolHeaderSize
    if refuses s.mem header tag then s
    else
      let paged := blockPoolType s.mem header = typeOf true
      let size := blockSize s.mem header
      let m := setSignature s.mem header poolFreeSignature
      let (finalSize, m) := coalesceBlocks m header
      let m := m.insertHead (head (.free paged (listIndex finalSize))) (listEntry header)
      { s with mem := m }.modifyCounters paged fun c =>
        { c with
          freeCount := fetchAdd c.freeCount 1
          usedBytes := fetchSub c.usedBytes (size * poolBlockSize)
          freeBytes := fetchAdd c.freeBytes (finalSize * poolBlockSize) }

def heads (paged : Bool) : List ListId := (List.finRange numFreeLists).map (.free paged) ++ [.pages paged]

/-- `NtPoolDescriptor::init`. -/
def initDescriptor (paged : Bool) : NtPool :=
  { s with
    mem := (heads paged).foldl (fun m i => m.initHead (head i)) s.mem
    initialized := Function.update s.initialized paged true }

def ntPoolInit : NtPool := (s.initDescriptor head false).initDescriptor head true

end NtPool

end XenOS.Ex
