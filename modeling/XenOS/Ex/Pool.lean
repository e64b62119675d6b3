import XenOS.Ex.NtPool

/-! The pool interface of `ex/pool.rs`: a bump allocator until the pool of `ex/pool_nt.rs` is
initialised. The flag decides for a free too, wherever the block came from. `KernelAllocator` is
Rust's global allocator. -/

namespace XenOS.Ex

open General Mm NtPool

/-- `pool_type as u8`. -/
def PoolType.code : PoolType → ℕ
  | .nonPagedPool => 0
  | .pagedPool => 1
  | .nonPagedPoolMustSucceed => 2
  | .dontUseThisType => 3
  | .nonPagedPoolCacheAligned => 4
  | .pagedPoolCacheAligned => 5
  | .nonPagedPoolCacheAlignedMustS => 6
  | .maxPoolType => 7
  | .nonPagedPoolSession => 32
  | .pagedPoolSession => 33

def PoolType.isCacheAligned : PoolType → Bool
  | .nonPagedPoolCacheAligned | .pagedPoolCacheAligned | .nonPagedPoolCacheAlignedMustS => true
  | _ => false

def PoolType.alignment (poolType : PoolType) : ℕ := if poolType.isCacheAligned then 64 else 8

structure BumpAllocator where
  heapStart : ℕ
  heapEnd : ℕ
  next : ℕ
  allocations : ℕ

/-- The address rounded up, in `usize`. -/
def alignedUp (current align : ℕ) : ℕ := (current + (align - 1)) % 2 ^ 64 / align * align

/-- `BumpAllocator::allocate`, run alone; the sums wrap. -/
def BumpAllocator.allocate (b : BumpAllocator) (size align : ℕ) : Option (ℕ × BumpAllocator) :=
  let aligned := alignedUp b.next align
  let newNext := (aligned + size) % 2 ^ 64
  if b.heapEnd < newNext then none
  else some (aligned, { b with next := newNext, allocations := fetchAdd b.allocations 1 })

/-- The two allocators, the flag `NT_POOL_ENABLED` and the usage of the descriptors of `ex/pool.rs`. -/
structure PoolSystem where
  pool : NtPool
  enabled : Bool
  bump : BumpAllocator
  totalBytes : Bool → ℕ
  runCount : Bool → ℕ

namespace PoolSystem
variable (head : ListId → ℕ) (s : PoolSystem)

def bumpHeader (m : Ram) (block totalSize : ℕ) (poolType : PoolType) (tag : BitVec 32) : Ram :=
  let m := setPoolType m block poolType.code
  let m := setPoolTag m block tag.toNat
  let m := setBlockSize m block ((totalSize + (poolBlockSize - 1)) % 2 ^ 64 / poolBlockSize)
  let m := setPreviousSize m block 0
  m.write (block + 1) (leBytes 1 0)

def exAllocatePoolWithTag (poolType : PoolType) (numberOfBytes : BitVec 64) (tag : BitVec 32) : Option (ℕ × PoolSystem) :=
  if numberOfBytes = 0 then some (0, s)
  else if s.enabled then
    (s.pool.ntPoolAllocate head poolType numberOfBytes tag).map fun out => (out.1, { s with pool := out.2 })
  else
    let totalSize := (numberOfBytes.toNat + poolHeaderSize) % 2 ^ 64
    match s.bump.allocate totalSize poolType.alignment with
    | none => some (0, s)
    | some (block, bump) =>
      let paged := poolType.isPaged
      some (block + poolHeaderSize,
        { s with
          pool := { s.pool with mem := bumpHeader s.pool.mem block totalSize poolType tag }
          bump
          totalBytes := Function.update s.totalBytes paged (fetchAdd (s.totalBytes paged) numberOfBytes.toNat)
          runCount := Function.update s.runCount paged (fetchAdd (s.runCount paged) 1) })

def exFreePoolWithTag (ptr : ℕ) (tag : BitVec 32) : PoolSystem :=
  if ptr = 0 then s
  else if s.enabled then { s with pool := s.pool.ntPoolFree head ptr tag }
  else
    let header := ptr - poolHeaderSize
    if refuses s.pool.mem header tag then s
    else
      let paged := blockPoolType s.pool.mem header = typeOf true
      let size := blockSize s.pool.mem header * poolBlockSize
      { s with totalBytes := Function.update s.totalBytes paged (fetchSub (s.totalBytes paged) (size - poolHeaderSize)) }

def ntPoolInit : PoolSystem := { s with pool := s.pool.ntPoolInit head, enabled := true }

/-- `"Rust"`. -/
def rustTag : BitVec 32 := 0x74737552

/-- `KernelAllocator::alloc`: the alignment of the layout is not looked at. -/
def alloc (size : BitVec 64) : Option (ℕ × PoolSystem) := s.exAllocatePoolWithTag head .nonPagedPool size rustTag

/-- `copy_nonoverlapping`. -/
def copy (source target count : ℕ) : PoolSystem :=
  { s with pool := { s.pool with mem := s.pool.mem.write target (s.pool.mem.read source count) } }

end PoolSystem

end XenOS.Ex
