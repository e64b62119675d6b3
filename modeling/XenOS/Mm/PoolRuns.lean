import XenOS.Mm.PoolBlocks

/-! Pool pages over runs of allocations and frees. The books are right as long as no block of one of
the two types counted as paged is given out, and no number of system page table entries is cut to 32
bits. -/

namespace XenOS.Mm

open General PoolBlock

namespace Pagefiles
variable {s s' : Pagefiles} {ramLimit pages fuel : ℕ} {pool : ℕ → ℕ → Bool} {granted : Bool}

theorem Books.chargeLoop_committed (h : s.Books ramLimit) (hram : ramLimit < 2 ^ 52) (hpos : 0 < pages)
    (hret : Pagefiles.chargeLoop pages pool fuel s = some (granted, s')) :
    s'.totalCommittedPages = if granted then s.totalCommittedPages + pages else s.totalCommittedPages := by
  induction fuel generalizing s with
  | zero => cases hret
  | succ fuel ih =>
    unfold Pagefiles.chargeLoop at hret
    simp only at hret
    split at hret
    · obtain ⟨⟨extended, s₁⟩, hextend, hrest⟩ := Option.bind_eq_some_iff.1 hret
      rcases miTryExtendPagefiles_cases h.sized hpos hextend with ⟨rfl, rfl, -⟩ | ⟨rfl, files', added, hone, -, rfl⟩
      · cases hrest
        rfl
      · have hnext := ih (h.extended hram hone) hrest
        exact hnext
    · rename_i hle
      cases hret
      have hlimit := h.limit_le
      simp only [usizeMax] at hle ⊢
      simp only [if_true]
      omega

theorem Books.charged (h : s.Books ramLimit) (hram : ramLimit < 2 ^ 52)
    (hret : s.miChargeCommitment pages pool = some (granted, s')) :
    s'.totalCommittedPages = if granted then s.totalCommittedPages + pages else s.totalCommittedPages := by
  unfold Pagefiles.miChargeCommitment at hret
  split_ifs at hret with hzero
  · cases hret
    rw [hzero]
    rfl
  · exact h.chargeLoop_committed hram (Nat.pos_of_ne_zero hzero) hret

theorem Books.returned (h : s.Books ramLimit) (hram : ramLimit < 2 ^ 52) (hle : pages ≤ s.totalCommittedPages) :
    (s.miReturnCommitment pages).totalCommittedPages = s.totalCommittedPages - pages := by
  unfold miReturnCommitment
  split_ifs with hzero
  · rw [hzero]
    rfl
  · have hlimit := h.limit_le
    have hcommitted := h.committed
    exact fetchSub_of_le hle (by omega)

end Pagefiles

structure PoolClients where
  pools : Pools
  blocks : List PoolBlock

/-- The calls, with what an allocation reads of the number of available pages and whether the bitmaps
of the paging files can grow. -/
inductive PoolCall where
  | allocate (poolType : MmPoolType) (size available : ℕ) (pool : ℕ → ℕ → Bool)
  | contiguous (pages alignment available : ℕ)
  | free (block : PoolBlock)

namespace PoolClients

def allocation (s : PoolClients) : PoolCall → Option (ℕ × Pools)
  | .allocate poolType size available pool => s.pools.miAllocatePoolPages available pool poolType size
  | .contiguous pages alignment available => s.pools.miAllocateContiguousPoolPages available pages alignment
  | .free _ => none

def newBlock (address : ℕ) : PoolCall → PoolBlock
  | .allocate poolType size _ _ => ⟨address, size, !poolType.isNonPaged⟩
  | .contiguous pages _ _ => ⟨address, pages * pageSize, false⟩
  | .free block => block

/-- The state after an allocation. -/
def taken (s : PoolClients) (call : PoolCall) : Option (ℕ × Pools) → PoolClients
  | none => s
  | some (address, pools) => ⟨pools, if address = 0 then s.blocks else newBlock address call :: s.blocks⟩

def step (s : PoolClients) : PoolCall → PoolClients
  | .free block =>
    match s.pools.miFreePoolPages block.address block.size with
    | some pools => ⟨pools, s.blocks.erase block⟩
    | none => s
  | call => s.taken call (s.allocation call)

def Admitted (s : PoolClients) : PoolCall → Prop
  | .free block => block ∈ s.blocks
  | _ => True

instance (s : PoolClients) : (call : PoolCall) → Decidable (s.Admitted call)
  | .allocate _ _ _ _ => inferInstanceAs (Decidable True)
  | .contiguous _ _ _ => inferInstanceAs (Decidable True)
  | .free block => inferInstanceAs (Decidable (block ∈ s.blocks))

/-- A failing allocation leaves the resources as they were. -/
def FailsCleanly (s : PoolClients) (call : PoolCall) : Prop :=
  ∀ pools, s.allocation call = some (0, pools) → s.pools.SameResources pools

structure Balanced (s₀ : Pools) (s : PoolClients) : Prop where
  nonPaged : s.pools.allocatedNonPagedPool = outstanding false s.blocks * pageSize
  paged : s.pools.allocatedPagedPool = outstanding true s.blocks * pageSize
  returned : s.blocks = [] → s₀.SameResources s.pools

/-- The allocation cannot get the pages: there are no pages, or not enough, or no cluster of entries is
large enough. -/
def Refused (s : Pools) (pages : ℕ) : Prop :=
  pages = 0 ∨ (s.pfns.heads .zeroed).total + (s.pfns.heads .free).total < pages ∨
    ∀ cs, FreeList s.ptes cs → ∀ q ∈ cs, q.2 < pages

/-- The types that are allocated as nonpaged and counted as paged. -/
def Miscounted (poolType : MmPoolType) : Prop := poolType = .nonPagedPoolMustSucceed ∨ poolType = .nonPagedPoolCacheAligned

def Counted (s : PoolClients) : PoolCall → Prop
  | .allocate poolType size available _ =>
    ∀ pages, poolType.isNonPaged = true → bytesToPages size = some pages → pages ≤ available →
      Ready.Uncut s.pools.ptes pages ∧ (Miscounted poolType → Refused s.pools pages)
  | .contiguous pages alignment available =>
    ∀ count, pages ≠ 0 → Pools.alignmentPages alignment = some count → pages ≤ available →
      Ready.Uncut s.pools.ptes (pages + (max count 1 - 1))
  | .free _ => True

/-- Where paged pool continues. -/
def nextVa (s : Pools) : ℕ := if s.pagedPoolNextVa = 0 then s.pagedPoolStart else s.pagedPoolNextVa

structure Layout (s : Pools) : Prop where
  ends : s.pagedPoolEnd < 2 ^ 64
  apart : ∀ address, s.miIsPagedPoolAddress address = true →
    s.miIsNonPagedPoolAddress address = false ∧ Pools.miIsSystemPteAddress address = false

structure PagedInv (s : Pools) (blocks : List PoolBlock) : Prop where
  layout : Layout s
  start : s.pagedPoolStart ≤ nextVa s
  stop : nextVa s ≤ s.pagedPoolEnd
  bytes : outstanding true blocks * pageSize ≤ nextVa s - s.pagedPoolStart
  placed : ∀ b ∈ blocks, b.paged = true → b.address ≠ 0 ∧ s.pagedPoolStart ≤ b.address ∧
    b.address + b.pages * pageSize ≤ nextVa s
  unmapped : ∀ k, s.pagedPtes k &&& pteValid = 0

/-- What every call keeps; `others` are the reservations of other clients, `pages` the pages that were
free at first. -/
structure Inv (s₀ : Pools) (others : List Extent) (pages : Set ℕ) (ramLimit : ℕ) (s : PoolClients) : Prop where
  ready : ∃ cs, Ready s.pools.ptes cs (extents s.blocks ++ others)
  baseVa : s.pools.ptes.baseVa = mmSystemPteStart
  pteCount : s.pools.ptes.pteCount = s₀.ptes.pteCount
  mapped : ∃ c, Mapped s.pools.pfns s.pools.ptes.pte (heldBy (extents s.blocks)) pages c
  books : s.pools.commit.Books ramLimit
  committed : s.pools.commit.totalCommittedPages = s₀.commit.totalCommittedPages + outstanding true s.blocks
  nonPaged : s.pools.allocatedNonPagedPool = outstanding false s.blocks * pageSize
  paged : s.pools.allocatedPagedPool = outstanding true s.blocks * pageSize
  addresses : ∀ b ∈ s.blocks, b.paged = false → b.address = mmSystemPteStart + b.extent.1 * pageSize
  pagedPool : PagedInv s.pools s.blocks

end PoolClients

end XenOS.Mm
