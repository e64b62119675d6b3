import XenOS.Mm.CommitCharge
import XenOS.Mm.PfnOps
import XenOS.Mm.SysPteAligned

/-! Pool pages (`mm/pool.rs`). Nonpaged pool lives on system page table entries that map its pages;
paged pool has addresses of its own, never used again, and is charged to the commitment. -/

namespace XenOS.Mm

inductive MmPoolType where
  | nonPagedPool | pagedPool | nonPagedPoolMustSucceed | nonPagedPoolCacheAligned | pagedPoolCacheAligned | nonPagedPoolNx
  deriving DecidableEq, Repr

/-- The types that `mi_allocate_pool_pages` takes for nonpaged. -/
def MmPoolType.isNonPaged : MmPoolType → Bool
  | .nonPagedPool | .nonPagedPoolNx | .nonPagedPoolMustSucceed | .nonPagedPoolCacheAligned => true
  | .pagedPool | .pagedPoolCacheAligned => false

def mmSystemPteStart : ℕ := 0xFFFFF80000000000
def mmSystemPteEnd : ℕ := 0xFFFFFBFFFFFFFFFF

/-- What the pools take from, and the globals of the module. The entries of the paged pool are named
by page number. -/
structure Pools where
  pfns : PfnState
  ptes : SysPtes
  commit : Pagefiles
  pagedPtes : ℕ → Pte
  nonPagedPoolStart : ℕ
  nonPagedPoolEnd : ℕ
  pagedPoolStart : ℕ
  pagedPoolEnd : ℕ
  pagedPoolNextVa : ℕ
  allocatedNonPagedPool : ℕ
  peakNonPagedPoolUsage : ℕ
  allocatedPagedPool : ℕ
  peakPagedPoolUsage : ℕ

/-- `bytes_to_pages`; a sum that overflows is none. -/
def bytesToPages (bytes : ℕ) : Option ℕ :=
  if 2 ^ 64 ≤ bytes + (pageSize - 1) then none else some ((bytes + (pageSize - 1)) / pageSize)

/-- The entry that `mi_map_pool_page` writes. -/
def poolPte (pfn : ℕ) (execute : Bool) : Pte :=
  pfnBits pfn ||| (pteValid ||| pteReadwrite ||| if execute then 0 else pteNx)

/-- The loop that allocates and maps pages from an index on, and how many it mapped: fewer than asked
for if there is no more memory. -/
def mapPoolPages (execute : Bool) : ℕ → ℕ → PfnState → (ℕ → Pte) → ℕ × PfnState × (ℕ → Pte)
  | 0, _, σ, table => (0, σ, table)
  | pages + 1, index, σ, table =>
    match miAllocatePfn σ with
    | none => (0, σ, table)
    | some (pfn, σ) =>
      let (mapped, σ, table) :=
        mapPoolPages execute pages (index + 1) σ (Function.update table index (poolPte pfn execute))
      (mapped + 1, σ, table)

/-- The loop of a rollback and of both frees: the page of each valid entry is freed, and the entry
cleared. -/
def unmapPoolPages : ℕ → ℕ → PfnState → (ℕ → Pte) → PfnState × (ℕ → Pte)
  | 0, _, σ, table => (σ, table)
  | pages + 1, index, σ, table =>
    let pte := table index
    let σ := if pte &&& pteValid ≠ 0 then miFreePfn σ (ptePfn pte) else σ
    unmapPoolPages pages (index + 1) σ (Function.update table index 0)

namespace Pools

variable (s : Pools)

def miUpdatePoolStatsAlloc (poolType : MmPoolType) (size : ℕ) : Pools :=
  if poolType = .nonPagedPool ∨ poolType = .nonPagedPoolNx then
    let newUsage := fetchAdd s.allocatedNonPagedPool size
    { s with
      allocatedNonPagedPool := newUsage
      peakNonPagedPoolUsage := max s.peakNonPagedPoolUsage newUsage }
  else
    let newUsage := fetchAdd s.allocatedPagedPool size
    { s with
      allocatedPagedPool := newUsage
      peakPagedPoolUsage := max s.peakPagedPoolUsage newUsage }

def miUpdatePoolStatsFree (poolType : MmPoolType) (size : ℕ) : Pools :=
  if poolType = .nonPagedPool ∨ poolType = .nonPagedPoolNx then
    { s with allocatedNonPagedPool := fetchSub s.allocatedNonPagedPool size }
  else { s with allocatedPagedPool := fetchSub s.allocatedPagedPool size }

def mapReserved (va pages : ℕ) (execute : Bool) : Option (ℕ × Pools) :=
  let index := s.ptes.vaToIndex va
  let (mapped, pfns, table) := mapPoolPages execute pages index s.pfns s.ptes.pte
  if mapped = pages then some (va, { s with pfns, ptes := { s.ptes with pte := table } })
  else
    let (pfns, table) := unmapPoolPages mapped index pfns table
    (miReleaseSystemPtes { s.ptes with pte := table } va pages).map fun ptes => (0, { s with pfns, ptes })

def useReserved (reserved : Option (ℕ × SysPtes)) (pages : ℕ) (poolType : MmPoolType) (execute : Bool) :
    Option (ℕ × Pools) := do
  let (va, ptes) ← reserved
  if va = 0 then return (0, { s with ptes })
  else
    let (address, s) ← mapReserved { s with ptes } va pages execute
    if address = 0 then return (0, s) else return (address, s.miUpdatePoolStatsAlloc poolType (pages * pageSize))

/-- `mi_allocate_non_paged_pool_pages`; `available` is what it reads of `MM_AVAILABLE_PAGES` before it
takes the lock. -/
def miAllocateNonPagedPoolPages (available pages : ℕ) (poolType : MmPoolType) : Option (ℕ × Pools) :=
  if available < pages then some (0, s)
  else s.useReserved (miReserveSystemPtes s.ptes pages) pages poolType (poolType ≠ .nonPagedPoolNx)

def miReservePagedPoolVa (pages : ℕ) : Option (ℕ × Pools) :=
  let current := if s.pagedPoolNextVa = 0 then s.pagedPoolStart else s.pagedPoolNextVa
  let newVa := current + pages * pageSize
  if 2 ^ 64 ≤ newVa then none
  else if s.pagedPoolEnd < newVa then some (0, { s with pagedPoolNextVa := current })
  else some (current, { s with pagedPoolNextVa := newVa })

/-- `mi_allocate_paged_pool_pages`; `pool` says whether a bitmap of a paging file can grow. -/
def miAllocatePagedPoolPages (pages : ℕ) (pool : ℕ → ℕ → Bool) : Option (ℕ × Pools) := do
  let (charged, commit) ← s.commit.miChargeCommitment pages pool
  if charged then
    let (va, s) ← miReservePagedPoolVa { s with commit } pages
    if va = 0 then return (0, { s with commit := s.commit.miReturnCommitment pages })
    else
      let pagedPtes page :=
        if va / pageSize ≤ page ∧ page < va / pageSize + pages then PteState.demandZero else s.pagedPtes page
      return (va, { s with pagedPtes }.miUpdatePoolStatsAlloc .pagedPool (pages * pageSize))
  else return (0, { s with commit })

def miAllocatePoolPages (available : ℕ) (pool : ℕ → ℕ → Bool) (poolType : MmPoolType) (sizeInBytes : ℕ) :
    Option (ℕ × Pools) := do
  let pagesNeeded ← bytesToPages sizeInBytes
  if poolType.isNonPaged then s.miAllocateNonPagedPoolPages available pagesNeeded poolType
  else s.miAllocatePagedPoolPages pagesNeeded pool

/-- `(alignment + PAGE_SIZE - 1) / PAGE_SIZE`, where the first sum may overflow. -/
def alignmentPages (alignment : ℕ) : Option ℕ :=
  if 2 ^ 64 ≤ alignment + pageSize then none else some ((alignment + pageSize - 1) / pageSize)

def miAllocateContiguousPoolPages (available pages alignment : ℕ) : Option (ℕ × Pools) :=
  if pages = 0 then some (0, s)
  else if available < pages then some (0, s)
  else do
    let count ← alignmentPages alignment
    s.useReserved (miReserveSystemPtesContiguous s.ptes pages (max count 1)) pages .nonPagedPool false

def miIsSystemPteAddress (va : ℕ) : Bool := mmSystemPteStart ≤ va ∧ va < mmSystemPteEnd

def miIsNonPagedPoolAddress (address : ℕ) : Bool := s.nonPagedPoolStart ≤ address ∧ address < s.nonPagedPoolEnd

def miIsPagedPoolAddress (address : ℕ) : Bool := s.pagedPoolStart ≤ address ∧ address < s.pagedPoolEnd

def miFreeNonPagedPoolPages (va pages : ℕ) : Option Pools :=
  let (pfns, table) := unmapPoolPages pages (s.ptes.vaToIndex va) s.pfns s.ptes.pte
  (miReleaseSystemPtes { s.ptes with pte := table } va pages).map fun ptes =>
    { s with pfns, ptes }.miUpdatePoolStatsFree .nonPagedPool (pages * pageSize)

def miFreePagedPoolPages (va pages : ℕ) : Pools :=
  let (pfns, pagedPtes) := unmapPoolPages pages (va / pageSize) s.pfns s.pagedPtes
  { s with
    pfns
    pagedPtes
    commit := s.commit.miReturnCommitment pages }.miUpdatePoolStatsFree .pagedPool (pages * pageSize)

/-- `mi_free_pool_pages`: the address decides which pool the block is from. -/
def miFreePoolPages (address sizeInBytes : ℕ) : Option Pools :=
  if address = 0 then some s
  else do
    let pages ← bytesToPages sizeInBytes
    if s.miIsNonPagedPoolAddress address || miIsSystemPteAddress address then s.miFreeNonPagedPoolPages address pages
    else if s.miIsPagedPoolAddress address then return s.miFreePagedPoolPages address pages
    else return s

end Pools

end XenOS.Mm
