import XenOS.Mm.Ownership
import XenOS.Mm.PoolRuns

/-! Conservation of the pools: every allocation and every free keeps what the counters, the page table
entries and the pages have to do with the blocks that are out. -/

namespace XenOS.Mm

open General PoolBlock Nat PoolClients Pools List SysPteClients
open Option (bind_eq_bind bind_some)

namespace PoolClients
variable {s₀ : Pools} {others : List Extent} {pages : Set ℕ} {ramLimit : ℕ} {s : PoolClients} {call : PoolCall} {poolType : MmPoolType}
  {b : PoolBlock} {n : ℕ}

/-- What is to be shown of an allocation: the invariant goes on, and no resource is lost in a failure. -/
def Keeps (s₀ : Pools) (others : List Extent) (pages : Set ℕ) (ramLimit : ℕ) (s : PoolClients) (call : PoolCall)
    (out : Option (ℕ × Pools)) : Prop :=
  ∀ address pools, out = some (address, pools) →
    (address = 0 → s.pools.SameResources pools) ∧ Inv s₀ others pages ramLimit (s.taken call (some (address, pools)))

/-! ### Counts -/

theorem Inv.outstanding_le (h : Inv s₀ others pages ramLimit s) : outstanding false s.blocks ≤ maxSystemPtes := by
  obtain ⟨cs, hready⟩ := h.ready
  have htotal := hready.tiles.totalLength_eq
  have hsize := hready.size
  rw [totalLength_append, totalLength_append, totalLength_extents] at htotal
  omega

variable {p : Pools} {blocks : List PoolBlock}

theorem PagedInv.outstanding_lt (h : PagedInv p blocks) :
    outstanding true blocks * pageSize < 2 ^ 64 := by
  have hbytes := h.bytes
  have hstop := h.stop
  have hends := h.layout.ends
  omega

theorem PagedInv.frame (h : PagedInv p blocks) {pagedPtes : ℕ → Pte}
    (hunmapped : ∀ k, pagedPtes k &&& pteValid = 0) (pfns : PfnState) (ptes : SysPtes)
    (commit : Pagefiles) (a b c d : ℕ) :
    PagedInv
      { p with
        pfns, ptes, commit, pagedPtes
        allocatedNonPagedPool := a
        peakNonPagedPoolUsage := b
        allocatedPagedPool := c
        peakPagedPoolUsage := d } blocks :=
  ⟨⟨h.layout.ends, h.layout.apart⟩, h.start, h.stop, h.bytes, h.placed, hunmapped⟩

theorem PagedInv.erase (h : PagedInv p blocks) (hb : b ∈ blocks) : PagedInv p (blocks.erase b) := by
  refine ⟨h.layout, h.start, h.stop, ?_, fun b' hb' => h.placed b' (mem_of_mem_erase hb'), h.unmapped⟩
  refine le_trans (mul_le_mul_right pageSize ?_) h.bytes
  rw [outstanding_erase hb true]
  exact le_add_left _ _

variable {size : ℕ}

theorem bytesToPages_eq (h : bytesToPages size = some n) : n = (size + (pageSize - 1)) / pageSize := by
  unfold bytesToPages at h
  split_ifs at h
  exact (Option.some.inj h).symm

/-! ### Failures -/

theorem Inv.restore (h : Inv s₀ others pages ramLimit s) {pools : Pools} (hrest : ∃ pfns ptes, pools = { s.pools with pfns, ptes })
    (hready : ∃ cs, Ready pools.ptes cs (extents s.blocks ++ others))
    (hmapped : ∃ c, Mapped pools.pfns pools.ptes.pte (heldBy (extents s.blocks)) pages c)
    (hkeeps : KeepsHeld (extents s.blocks ++ others) s.pools.ptes pools.ptes) (hbase : pools.ptes.baseVa = s.pools.ptes.baseVa)
    (hcount : pools.ptes.pteCount = s.pools.ptes.pteCount) :
    s.pools.SameResources pools ∧ Inv s₀ others pages ramLimit ⟨pools, s.blocks⟩ := by
  obtain ⟨pfns, ptes, rfl⟩ := hrest
  obtain ⟨cs, hready₁⟩ := h.ready
  obtain ⟨c, hmapped₁⟩ := h.mapped
  obtain ⟨cs', hready₂⟩ := hready
  obtain ⟨c', hmapped₂⟩ := hmapped
  have hptes := hready₁.free_same hready₂ hcount
  constructor
  · refine ⟨hmapped₁.free_same hmapped₂ ?_, hptes.1, hptes.2, rfl, rfl, rfl⟩
    rintro k ⟨r, hr, hk⟩
    exact hkeeps r (mem_append_left _ hr) k hk
  · exact ⟨⟨cs', hready₂⟩, hbase.trans h.baseVa, hcount.trans h.pteCount, ⟨c', hmapped₂⟩, h.books, h.committed, h.nonPaged, h.paged,
      h.addresses, h.pagedPool.frame h.pagedPool.unmapped ..⟩

theorem Inv.failed (h : Inv s₀ others pages ramLimit s) (call : PoolCall) : Keeps s₀ others pages ramLimit s call (some (0, s.pools)) := by
  intro address pools hout
  cases hout
  exact ⟨fun _ => ⟨fun _ => Iff.rfl, fun _ => Iff.rfl, rfl, rfl, rfl, rfl⟩, h⟩

theorem keeps_none : Keeps s₀ others pages ramLimit s call none := fun _ _ hout => by cases hout

/-! ### Nonpaged allocation -/

def Reserved (s : PoolClients) (others : List Extent) (n : ℕ) (out : Option (ℕ × SysPtes)) : Prop :=
  out = some (0, s.pools.ptes) ∨ ∃ index ptes cs, out = some (ptes.indexToVa index, ptes) ∧
    Ready ptes cs ((index, n) :: (extents s.blocks ++ others)) ∧ KeepsHeld (extents s.blocks ++ others) s.pools.ptes ptes ∧
    ptes.baseVa = s.pools.ptes.baseVa ∧ ptes.pteCount = s.pools.ptes.pteCount

section
variable (h : Inv s₀ others pages ramLimit s)
include h

theorem Inv.mappedAll {ptes : SysPtes} {cs : List Extent} {index : ℕ} {p' : Pools}
    (hbase : ptes.baseVa = s.pools.ptes.baseVa) (hcount : ptes.pteCount = s.pools.ptes.pteCount)
    (hall : MappedAll { s.pools with ptes } p' cs (extents s.blocks ++ others) (extents s.blocks) pages index n)
    (hsize : n = (size + (pageSize - 1)) / pageSize)
    (htype : poolType = .nonPagedPool ∨ poolType = .nonPagedPoolNx) :
    Inv s₀ others pages ramLimit
      ⟨p'.miUpdatePoolStatsAlloc poolType (n * pageSize), ⟨ptes.indexToVa index, size, false⟩ :: s.blocks⟩ := by
  obtain ⟨pfns, table, rfl⟩ := hall.rest
  have hready := hall.ready
  have hstop := hready.tiles.stop_le (r := (index, n)) (by simp)
  have hpos := hready.tiles.pos (index, n) (by simp)
  have hlarge := hready.size
  have htotal := hready.tiles.totalLength_eq
  have hva : ptes.indexToVa index = mmSystemPteStart + index * pageSize := by
    have heq := hready.indexToVa_eq index (by simp only [Extent.stop] at hstop; simp only; omega)
    rw [← h.baseVa, ← hbase]
    exact heq
  have hextent : (⟨ptes.indexToVa index, size, false⟩ : PoolBlock).extent = (index, n) := by
    rw [extent, PoolBlock.pages, hva, Nat.add_sub_cancel_left, Nat.mul_div_cancel _ (by decide), ← hsize]
  have hout : outstanding false (⟨ptes.indexToVa index, size, false⟩ :: s.blocks) = n + outstanding false s.blocks := by
    rw [outstanding_cons, if_pos rfl, PoolBlock.pages, ← hsize]
  have hout' : outstanding true (⟨ptes.indexToVa index, size, false⟩ :: s.blocks) = outstanding true s.blocks := by
    rw [outstanding_cons, if_neg (by simp), Nat.zero_add]
  have husage : fetchAdd s.pools.allocatedNonPagedPool (n * pageSize) = (n + outstanding false s.blocks) * pageSize := by
    rw [totalLength_append, totalLength_cons, totalLength_append, totalLength_extents] at htotal
    rw [h.nonPaged, fetchAdd_of_lt, Nat.add_mul, Nat.add_comm]
    simp only [maxSystemPtes, pageSize] at *
    omega
  have hpaged := h.pagedPool
  rw [miUpdatePoolStatsAlloc, if_pos htype]
  refine ⟨⟨cs, ?_⟩, hbase.trans h.baseVa, hcount.trans h.pteCount, ?_, h.books, ?_, ?_, ?_, ?_, ?_⟩
  · rw [extents_cons rfl, hextent]
    exact hready
  · obtain ⟨c, hmapped⟩ := hall.mapped
    exact ⟨c, by rw [extents_cons rfl, hextent]; exact hmapped⟩
  · rw [hout']
    exact h.committed
  · rw [hout]
    exact husage
  · rw [hout']
    exact h.paged
  · intro b hb hkind
    rcases mem_cons.1 hb with rfl | hb
    · rw [hextent, hva]
    · exact h.addresses b hb hkind
  · refine ⟨⟨hpaged.layout.ends, hpaged.layout.apart⟩, hpaged.start, hpaged.stop, ?_, ?_, hpaged.unmapped⟩
    · rw [hout']
      exact hpaged.bytes
    · intro b hb hkind
      rcases mem_cons.1 hb with rfl | hb
      · cases hkind
      · exact hpaged.placed b hb hkind

/-- What an allocation does with its reservation; where it counts the block as paged there was not the
memory for it. -/
theorem Inv.useReserved {reserved : Option (ℕ × SysPtes)} (hreserved : Reserved s others n reserved)
    (hblock : ∀ address, ∃ size, newBlock address call = ⟨address, size, false⟩ ∧ n = (size + (pageSize - 1)) / pageSize)
    (htype : (poolType = .nonPagedPool ∨ poolType = .nonPagedPoolNx) ∨
      (s.pools.pfns.heads .zeroed).total + (s.pools.pfns.heads .free).total < n) (execute : Bool) :
    Keeps s₀ others pages ramLimit s call (s.pools.useReserved reserved n poolType execute) := by
  rcases hreserved with rfl | ⟨index, ptes, cs, rfl, hready, hkeeps, hbase, hcount⟩
  · exact h.failed call
  obtain ⟨c, hmapped⟩ := h.mapped
  have hstop := hready.tiles.stop_le (r := (index, n)) (by simp)
  have hpos := hready.tiles.pos (index, n) (by simp)
  have hva : ptes.indexToVa index ≠ 0 := indexToVa_ne_zero hready.fits.le hready.base (by
    simp only [Extent.stop] at hstop hpos
    omega)
  have hmapped' : Mapped s.pools.pfns ptes.pte (heldBy (extents s.blocks)) pages c := by
    refine hmapped.congr ?_
    rintro k ⟨r, hr, hk⟩
    exact hkeeps r (mem_append_left _ hr) k hk
  rcases Pools.mapReserved_spec (s := { s.pools with ptes }) hready hmapped' (fun r hr => mem_append_left _ hr) execute with
    ⟨p', hret, hall⟩ | ⟨p', hret, hback⟩
  · have heq : s.pools.useReserved (some (ptes.indexToVa index, ptes)) n poolType execute =
        some (ptes.indexToVa index, p'.miUpdatePoolStatsAlloc poolType (n * pageSize)) := by
      simp only [Pools.useReserved, bind_eq_bind, bind_some, if_neg hva]
      rw [hret, bind_some, if_neg hva]
      rfl
    intro address pools hout
    rw [heq] at hout
    cases hout
    refine ⟨fun hzero => absurd hzero hva, ?_⟩
    rcases htype with htype | hless
    · obtain ⟨size, hnew, hsize⟩ := hblock (ptes.indexToVa index)
      simp only [taken, if_neg hva, hnew]
      exact h.mappedAll hbase hcount hall hsize htype
    · exact absurd hall.memory (not_le.2 hless)
  · have heq : s.pools.useReserved (some (ptes.indexToVa index, ptes)) n poolType execute = some (0, p') := by
      simp only [Pools.useReserved, bind_eq_bind, bind_some, if_neg hva]
      rw [hret, bind_some, if_pos rfl]
      rfl
    intro address pools hout
    rw [heq] at hout
    cases hout
    have hrest : ∃ pfns ptes, p' = { s.pools with pfns, ptes } := by
      obtain ⟨pfns, ptes', rfl⟩ := hback.rest
      exact ⟨pfns, ptes', rfl⟩
    have hrestored := h.restore hrest hback.ready hback.mapped (hkeeps.trans hback.keeps) (hback.baseVa.trans hbase) (hback.pteCount.trans hcount)
    exact ⟨fun _ => hrestored.1, hrestored.2⟩

theorem Inv.reserved (huncut : Ready.Uncut s.pools.ptes n) :
    Reserved s others n (miReserveSystemPtes s.pools.ptes n) := by
  obtain ⟨cs, hready⟩ := h.ready
  rcases Nat.eq_zero_or_pos n with hzero | hpos
  · left
    rw [miReserveSystemPtes, hready.initialized, if_neg (by simp), if_pos hzero]
  rcases (hready.uncut_iff.1 huncut).2 with hlt | hnone
  · rcases hready.reserve n hpos hlt with hnone | ⟨index, ptes, cs', hsome, hready', hbase, hcount⟩
    · exact Or.inl hnone
    · exact Or.inr ⟨index, ptes, cs', hsome, hready', hready.reserve_keeps hpos hlt hsome, hbase, hcount⟩
  · exact Or.inl (hready.reserve_none hpos hnone)

theorem Inv.reserved_contiguous {alignment : ℕ} (hpos : 0 < n) (halign : 0 < alignment)
    (huncut : Ready.Uncut s.pools.ptes (n + (alignment - 1))) :
    Reserved s others n (miReserveSystemPtesContiguous s.pools.ptes n alignment) := by
  obtain ⟨cs, hready⟩ := h.ready
  rcases (hready.uncut_iff.1 huncut).2 with hlt | hnone
  · rcases hready.contiguous_takes hpos hlt with hnone | ⟨index, ptes, cs', hsome, hready', hkeeps, hbase, hcount⟩
    · exact Or.inl hnone
    · exact Or.inr ⟨index, ptes, cs', hsome, hready', hkeeps, hbase, hcount⟩
  · left
    have hreserve : miReserveSystemPtes s.pools.ptes (n + (alignment - 1)) = some (0, s.pools.ptes) :=
      hready.reserve_none (by omega) hnone
    unfold miReserveSystemPtesContiguous
    by_cases hone : alignment ≤ 1
    · obtain rfl : alignment = 1 := by omega
      rw [if_pos hone]
      exact hreserve
    · have hmax := huncut.1
      rw [if_neg hone]
      simp only
      rw [if_neg (by omega), hreserve]
      rfl

theorem Inv.refused (huncut : Ready.Uncut s.pools.ptes n) (hrefused : Refused s.pools n) :
    miReserveSystemPtes s.pools.ptes n = some (0, s.pools.ptes) ∨
      (s.pools.pfns.heads .zeroed).total + (s.pools.pfns.heads .free).total < n := by
  obtain ⟨cs, hready⟩ := h.ready
  rcases Nat.eq_zero_or_pos n with hzero | hpos
  · left
    rw [miReserveSystemPtes, hready.initialized, if_neg (by simp), if_pos hzero]
  rcases hrefused with hzero | hless | hnone
  · omega
  · exact Or.inr hless
  · left
    rcases (hready.uncut_iff.1 huncut).2 with hlt | hcut
    · refine hready.reserve_none hpos ?_
      rw [mod_eq_of_lt hlt]
      exact hnone cs hready.free
    · exact hready.reserve_none hpos hcut

theorem Inv.allocateNonPaged {available : ℕ} {pool : ℕ → ℕ → Bool}
    (hcounted : s.Counted (.allocate poolType size available pool)) (hkind : poolType.isNonPaged = true)
    (hpages : bytesToPages size = some n) :
    Keeps s₀ others pages ramLimit s (.allocate poolType size available pool)
      (s.pools.miAllocateNonPagedPoolPages available n poolType) := by
  rw [miAllocateNonPagedPoolPages]
  by_cases havailable : available < n
  · rw [if_pos havailable]
    exact h.failed _
  rw [if_neg havailable]
  obtain ⟨huncut, hmiscounted⟩ := hcounted n hkind hpages (not_lt.1 havailable)
  have hblock : ∀ address, ∃ size', newBlock address (.allocate poolType size available pool) = ⟨address, size', false⟩ ∧
      n = (size' + (pageSize - 1)) / pageSize := fun address => ⟨size, by simp [newBlock, hkind], bytesToPages_eq hpages⟩
  by_cases htype : poolType = .nonPagedPool ∨ poolType = .nonPagedPoolNx
  · exact h.useReserved (h.reserved huncut) hblock (Or.inl htype) _
  have hmis : Miscounted poolType := by
    cases poolType with
    | nonPagedPool => exact absurd (Or.inl rfl) htype
    | nonPagedPoolNx => exact absurd (Or.inr rfl) htype
    | nonPagedPoolMustSucceed => exact Or.inl rfl
    | nonPagedPoolCacheAligned => exact Or.inr rfl
    | pagedPool => cases hkind
    | pagedPoolCacheAligned => cases hkind
  rcases h.refused huncut (hmiscounted hmis) with hnone | hless
  · rw [hnone]
    exact h.failed _
  · exact h.useReserved (h.reserved huncut) hblock (Or.inr hless) _

theorem Inv.allocateContiguous {alignment available : ℕ}
    (hcounted : s.Counted (.contiguous n alignment available)) :
    Keeps s₀ others pages ramLimit s (.contiguous n alignment available)
      (s.pools.miAllocateContiguousPoolPages available n alignment) := by
  rw [miAllocateContiguousPoolPages]
  by_cases hzero : n = 0
  · rw [if_pos hzero]
    exact h.failed _
  rw [if_neg hzero]
  by_cases havailable : available < n
  · rw [if_pos havailable]
    exact h.failed _
  rw [if_neg havailable]
  cases hpages : Pools.alignmentPages alignment with
  | none => exact keeps_none
  | some alignmentPages =>
    have huncut := hcounted alignmentPages hzero hpages (Nat.not_lt.1 havailable)
    have hblock : ∀ address, ∃ size, newBlock address (.contiguous n alignment available) = ⟨address, size, false⟩ ∧
        n = (size + (pageSize - 1)) / pageSize := fun address => ⟨n * pageSize, rfl, by unfold pageSize; omega⟩
    rw [bind_eq_bind, bind_some]
    exact h.useReserved (h.reserved_contiguous (Nat.pos_of_ne_zero hzero) (by omega) huncut) hblock (Or.inl (Or.inl rfl)) _

end

/-! ### Paged allocation -/

theorem miReservePagedPoolVa_cases {p' : Pools} {va : ℕ} (hret : p.miReservePagedPoolVa n = some (va, p')) :
    (va = 0 ∧ p' = { p with pagedPoolNextVa := nextVa p }) ∨
      (va = nextVa p ∧ p' = { p with pagedPoolNextVa := nextVa p + n * pageSize } ∧ nextVa p + n * pageSize ≤ p.pagedPoolEnd) := by
  unfold miReservePagedPoolVa at hret
  simp only at hret
  split_ifs at hret with hfirst hover hend hover hend
  · cases hret
    exact Or.inl ⟨rfl, by rw [nextVa, if_pos hfirst]⟩
  · cases hret
    rw [nextVa, if_pos hfirst]
    exact Or.inr ⟨rfl, rfl, not_lt.1 hend⟩
  · cases hret
    exact Or.inl ⟨rfl, by rw [nextVa, if_neg hfirst]⟩
  · cases hret
    rw [nextVa, if_neg hfirst]
    exact Or.inr ⟨rfl, rfl, not_lt.1 hend⟩

theorem PagedInv.advance {v : ℕ} (h : PagedInv p blocks) (hle : nextVa p ≤ v) (hend : v ≤ p.pagedPoolEnd)
    (commit : Pagefiles) :
    nextVa { p with commit, pagedPoolNextVa := v } = v ∧ PagedInv { p with commit, pagedPoolNextVa := v } blocks := by
  have hstart := h.start
  have hbytes := h.bytes
  have hnext : nextVa { p with commit, pagedPoolNextVa := v } = v := by
    rw [nextVa]
    split_ifs with hzero
    · simp only at hzero ⊢
      omega
    · rfl
  refine ⟨hnext, ⟨h.layout.ends, h.layout.apart⟩, ?_, ?_, ?_, ?_, h.unmapped⟩
  · rw [hnext]
    exact hstart.trans hle
  · rw [hnext]
    exact hend
  · rw [hnext]
    simp only
    omega
  · intro b hb hkind
    have hplaced := h.placed b hb hkind
    rw [hnext]
    exact ⟨hplaced.1, hplaced.2.1, hplaced.2.2.trans hle⟩

section
variable (h : Inv s₀ others pages ramLimit s)
include h

theorem Inv.pagedFailed {commit : Pagefiles} {v : ℕ} (hbooks : commit.Books ramLimit)
    (hcommitted : commit.totalCommittedPages = s.pools.commit.totalCommittedPages)
    (hpaged : PagedInv { s.pools with commit, pagedPoolNextVa := v } s.blocks) :
    s.pools.SameResources { s.pools with commit, pagedPoolNextVa := v } ∧
      Inv s₀ others pages ramLimit ⟨{ s.pools with commit, pagedPoolNextVa := v }, s.blocks⟩ :=
  ⟨⟨fun _ => Iff.rfl, fun _ => Iff.rfl, rfl, hcommitted, rfl, rfl⟩,
    ⟨h.ready, h.baseVa, h.pteCount, h.mapped, hbooks, hcommitted.trans h.committed, h.nonPaged, h.paged, h.addresses, hpaged⟩⟩

theorem Inv.pagedTaken {commit : Pagefiles} {pagedPtes : ℕ → Pte} (hbooks : commit.Books ramLimit)
    (hcommitted : commit.totalCommittedPages = s.pools.commit.totalCommittedPages + n)
    (hsize : n = (size + (pageSize - 1)) / pageSize) (hunmapped : ∀ k, pagedPtes k &&& pteValid = 0)
    (hne : nextVa s.pools ≠ 0) (hend : nextVa s.pools + n * pageSize ≤ s.pools.pagedPoolEnd) :
    Inv s₀ others pages ramLimit
      ⟨{ s.pools with commit, pagedPoolNextVa := nextVa s.pools + n * pageSize, pagedPtes }.miUpdatePoolStatsAlloc .pagedPool (n * pageSize),
        ⟨nextVa s.pools, size, true⟩ :: s.blocks⟩ := by
  have hpaged := h.pagedPool
  have hstart := hpaged.start
  have hbytes := hpaged.bytes
  have hends := hpaged.layout.ends
  obtain ⟨hnext, hadvanced⟩ := hpaged.advance (Nat.le_add_right _ (n * pageSize)) hend commit
  have hout : outstanding true (⟨nextVa s.pools, size, true⟩ :: s.blocks) = n + outstanding true s.blocks := by
    rw [outstanding_cons, if_pos rfl, PoolBlock.pages, ← hsize]
  have hout' : outstanding false (⟨nextVa s.pools, size, true⟩ :: s.blocks) = outstanding false s.blocks := by
    rw [outstanding_cons, if_neg (by simp), Nat.zero_add]
  have husage : fetchAdd s.pools.allocatedPagedPool (n * pageSize) = (n + outstanding true s.blocks) * pageSize := by
    rw [h.paged, fetchAdd_of_lt (by omega), Nat.add_mul, Nat.add_comm]
  rw [miUpdatePoolStatsAlloc, if_neg (by decide)]
  refine ⟨?_, h.baseVa, h.pteCount, ?_, hbooks, ?_, ?_, ?_, ?_, ?_⟩
  · rw [extents_cons_paged rfl]
    exact h.ready
  · rw [extents_cons_paged rfl]
    exact h.mapped
  · rw [hout]
    have hbefore := h.committed
    simp only
    omega
  · rw [hout']
    exact h.nonPaged
  · rw [hout]
    exact husage
  · intro b hb hkind
    rcases mem_cons.1 hb with rfl | hb
    · cases hkind
    · exact h.addresses b hb hkind
  · refine ⟨⟨hpaged.layout.ends, hpaged.layout.apart⟩, hadvanced.start, hadvanced.stop, ?_, ?_, hunmapped⟩
    · have hnext' : outstanding true (⟨nextVa s.pools, size, true⟩ :: s.blocks) * pageSize ≤
          nextVa { s.pools with commit, pagedPoolNextVa := nextVa s.pools + n * pageSize } - s.pools.pagedPoolStart := by
        rw [hnext, hout, Nat.add_mul]
        omega
      exact hnext'
    · intro b hb hkind
      rcases mem_cons.1 hb with rfl | hb
      · have hplaced : nextVa s.pools + PoolBlock.pages ⟨nextVa s.pools, size, true⟩ * pageSize ≤
            nextVa { s.pools with commit, pagedPoolNextVa := nextVa s.pools + n * pageSize } := by
          rw [hnext, PoolBlock.pages, ← hsize]
        exact ⟨hne, hstart, hplaced⟩
      · exact hadvanced.placed b hb hkind

theorem Inv.allocatePaged {available : ℕ} {pool : ℕ → ℕ → Bool} (hram : ramLimit < 2 ^ 52)
    (hkind : poolType.isNonPaged = false) (hpages : bytesToPages size = some n) :
    Keeps s₀ others pages ramLimit s (.allocate poolType size available pool) (s.pools.miAllocatePagedPoolPages n pool) := by
  intro address pools hout
  obtain ⟨⟨charged, commit⟩, hcharge, hrest⟩ := Option.bind_eq_some_iff.1 hout
  have hbooks : commit.Books ramLimit := h.books.miChargeCommitment hram hcharge
  have hcommitted := h.books.charged hram hcharge
  have hpaged := h.pagedPool
  cases charged with
  | false =>
    cases hrest
    have hfailed := h.pagedFailed (v := s.pools.pagedPoolNextVa) hbooks hcommitted (hpaged.frame hpaged.unmapped ..)
    exact ⟨fun _ => hfailed.1, hfailed.2⟩
  | true =>
    rw [if_pos rfl] at hcommitted
    obtain ⟨⟨va, p'⟩, hreserve, hrest⟩ := Option.bind_eq_some_iff.1 hrest
    -- giving the charge back
    have hgiven : (commit.miReturnCommitment n).Books ramLimit := hbooks.giveBack hram (by omega)
    have hgave : (commit.miReturnCommitment n).totalCommittedPages = s.pools.commit.totalCommittedPages := by
      rw [hbooks.returned hram (by omega)]
      omega
    rcases miReservePagedPoolVa_cases hreserve with ⟨rfl, rfl⟩ | ⟨rfl, rfl, hend⟩
    · cases hrest
      have hfailed := h.pagedFailed hgiven hgave (hpaged.advance (le_refl _) hpaged.stop _).2
      exact ⟨fun _ => hfailed.1, hfailed.2⟩
    · by_cases hzero : nextVa { s.pools with commit } = 0
      · simp only [if_pos hzero] at hrest
        cases hrest
        have hfailed := h.pagedFailed hgiven hgave (hpaged.advance (le_add_right _ (n * pageSize)) hend _).2
        exact ⟨fun _ => hfailed.1, hfailed.2⟩
      · simp only [if_neg hzero] at hrest
        cases hrest
        refine ⟨fun h0 => absurd h0 hzero, ?_⟩
        have hnew : newBlock (nextVa { s.pools with commit }) (.allocate poolType size available pool) = ⟨nextVa s.pools, size, true⟩ := by
          simp only [newBlock, hkind]
          rfl
        simp only [taken, if_neg hzero, hnew]
        refine h.pagedTaken hbooks hcommitted (bytesToPages_eq hpages) (fun k => ?_) hzero hend
        split_ifs
        · decide
        · exact hpaged.unmapped k

theorem Inv.allocation (hram : ramLimit < 2 ^ 52) (hcounted : s.Counted call) :
    Keeps s₀ others pages ramLimit s call (s.allocation call) := by
  cases call with
  | allocate poolType size available pool =>
    rw [allocation, miAllocatePoolPages]
    cases hpages : bytesToPages size with
    | none => exact keeps_none
    | some n =>
      rw [bind_eq_bind, bind_some]
      cases hkind : poolType.isNonPaged with
      | true => exact h.allocateNonPaged hcounted hkind hpages
      | false => exact h.allocatePaged hram hkind hpages
  | contiguous n alignment available => exact h.allocateContiguous hcounted
  | free b => exact keeps_none

end

/-! ### Release -/

theorem bytesToPages_block (h : b.pages * pageSize < 2 ^ 64) : bytesToPages b.size = some b.pages := by
  rw [bytesToPages, if_neg, PoolBlock.pages]
  simp only [PoolBlock.pages, pageSize] at *
  omega

section
variable (h : Inv s₀ others pages ramLimit s)
include h

theorem Inv.freeNonPaged (hb : b ∈ s.blocks) (hkind : b.paged = false) :
    ∃ p', s.pools.miFreePoolPages b.address b.size = some p' ∧ Inv s₀ others pages ramLimit ⟨p', s.blocks.erase b⟩ := by
  obtain ⟨cs, hready⟩ := h.ready
  obtain ⟨c, hmapped⟩ := h.mapped
  have hperm : (extents s.blocks).Perm (b.extent :: extents (s.blocks.erase b)) := by
    rw [← extents_cons hkind]
    exact extents_erase hb
  have hready : Ready s.pools.ptes cs ((b.extent.1, b.pages) :: (extents (s.blocks.erase b) ++ others)) :=
    hready.perm (hperm.append_right others)
  have hheld : heldBy (extents s.blocks) = heldBy (extents (s.blocks.erase b)) ∪ Set.Ico b.extent.1 (b.extent.1 + b.pages) := by
    rw [heldBy_perm hperm, heldBy_cons]
    rfl
  rw [hheld] at hmapped
  obtain ⟨ptes, cs', c', hrelease, hready', hmapped', -, hbase, hcount⟩ :=
    hready.unmapRelease hmapped (fun r hr => mem_append_left _ hr) (Nat.le_refl _)
  -- the address leads to the nonpaged pool and to the entries
  have hstop := hready.tiles.stop_le (r := (b.extent.1, b.pages)) (by simp)
  have hpos := hready.tiles.pos (b.extent.1, b.pages) (by simp)
  have hsize := hready.size
  simp only [Extent.stop] at hstop hpos
  have haddress := h.addresses b hb hkind
  have hva : s.pools.ptes.indexToVa b.extent.1 = b.address := by
    rw [hready.indexToVa_eq _ (by omega), h.baseVa, haddress]
  have hindex : s.pools.ptes.vaToIndex b.address = b.extent.1 := by
    rw [← hva]
    exact vaToIndex_indexToVa hready.fits.le (by omega) hsize
  have hbytes : bytesToPages b.size = some b.pages := bytesToPages_block (by
    simp only [maxSystemPtes, pageSize] at *
    omega)
  have hsystem : miIsSystemPteAddress b.address = true := by
    rw [miIsSystemPteAddress, decide_eq_true_eq, haddress]
    simp only [mmSystemPteStart, mmSystemPteEnd, maxSystemPtes, pageSize] at hsize ⊢
    omega
  have hne : b.address ≠ 0 := by
    simp only [mmSystemPteStart] at haddress
    omega
  rw [hva] at hrelease
  refine ⟨{ s.pools with pfns := (unmapPoolPages b.pages b.extent.1 s.pools.pfns s.pools.ptes.pte).1, ptes }.miUpdatePoolStatsFree
    .nonPagedPool (b.pages * pageSize), ?_, ?_⟩
  · rw [miFreePoolPages, if_neg hne, hbytes, bind_eq_bind, bind_some, if_pos (by rw [hsystem, Bool.or_true])]
    simp only [miFreeNonPagedPoolPages, hindex]
    rw [hrelease]
    rfl
  have hout := outstanding_erase_same hb hkind
  have hout' := @outstanding_erase_other b s.blocks true hb (by simp [hkind])
  have hle := h.outstanding_le
  have husage : fetchSub s.pools.allocatedNonPagedPool (b.pages * pageSize) = outstanding false (s.blocks.erase b) * pageSize := by
    rw [h.nonPaged, hout, Nat.add_mul, fetchSub_of_le (Nat.le_add_right _ _), Nat.add_sub_cancel_left]
    simp only [maxSystemPtes, pageSize] at *
    omega
  rw [miUpdatePoolStatsFree, if_pos (Or.inl rfl)]
  refine ⟨⟨cs', hready'⟩, hbase.trans h.baseVa, hcount.trans h.pteCount, ⟨c', hmapped'⟩, h.books, ?_, husage, ?_,
    fun b' hb' => h.addresses b' (mem_of_mem_erase hb'), (h.pagedPool.erase hb).frame h.pagedPool.unmapped ..⟩
  · rw [← hout']
    exact h.committed
  · rw [← hout']
    exact h.paged

theorem Inv.freeEmpty (hb : b ∈ s.blocks) (hkind : b.paged = true) (hzero : b.pages = 0) :
    Inv s₀ others pages ramLimit ⟨s.pools, s.blocks.erase b⟩ := by
  have hout := outstanding_erase_same hb hkind
  rw [hzero, zero_add] at hout
  have hout' := @outstanding_erase_other b s.blocks false hb (by simp [hkind])
  have hperm := extents_erase hb
  rw [extents_cons_paged hkind] at hperm
  obtain ⟨cs, hready⟩ := h.ready
  refine ⟨⟨cs, hready.perm (hperm.append_right others)⟩, h.baseVa, h.pteCount, ?_, h.books, ?_, ?_, ?_,
    fun b' hb' => h.addresses b' (mem_of_mem_erase hb'), h.pagedPool.erase hb⟩
  · rw [← heldBy_perm hperm]
    exact h.mapped
  · rw [← hout]
    exact h.committed
  · rw [← hout']
    exact h.nonPaged
  · rw [← hout]
    exact h.paged

theorem Inv.freePaged (hram : ramLimit < 2 ^ 52) (hb : b ∈ s.blocks) (hkind : b.paged = true) :
    ∃ p', s.pools.miFreePoolPages b.address b.size = some p' ∧ Inv s₀ others pages ramLimit ⟨p', s.blocks.erase b⟩ := by
  have hpaged := h.pagedPool
  obtain ⟨hne, hplaced⟩ := hpaged.placed b hb hkind
  have hstop := hpaged.stop
  have hends := hpaged.layout.ends
  have hlt := hpaged.outstanding_lt
  have hbytes : bytesToPages b.size = some b.pages := bytesToPages_block (by omega)
  have hout := outstanding_erase_same hb hkind
  have hout' := @outstanding_erase_other b s.blocks false hb (by simp [hkind])
  have hcommitted := h.committed
  have hle : b.pages ≤ s.pools.commit.totalCommittedPages := by omega
  have husage : fetchSub s.pools.allocatedPagedPool (b.pages * pageSize) = outstanding true (s.blocks.erase b) * pageSize := by
    rw [h.paged, fetchSub_of_le, hout, Nat.add_mul, Nat.add_sub_cancel_left]
    · rw [hout, Nat.add_mul]
      exact Nat.le_add_right _ _
    · exact hlt
  obtain ⟨hpfns, hunmapped⟩ := unmapPoolPages_unmapped b.pages (b.address / pageSize) s.pools.pfns hpaged.unmapped
  have hperm := extents_erase hb
  rw [extents_cons_paged hkind] at hperm
  -- what the free of the paged pool leaves
  have hfreed : Inv s₀ others pages ramLimit ⟨s.pools.miFreePagedPoolPages b.address b.pages, s.blocks.erase b⟩ := by
    obtain ⟨cs, hready⟩ := h.ready
    obtain ⟨c, hmapped⟩ := h.mapped
    rw [heldBy_perm hperm] at hmapped
    simp only [miFreePagedPoolPages, hpfns]
    rw [miUpdatePoolStatsFree, if_neg (by decide)]
    refine ⟨⟨cs, hready.perm (hperm.append_right others)⟩, h.baseVa, h.pteCount, ⟨c, hmapped⟩, h.books.giveBack hram hle, ?_, ?_, husage,
      fun b' hb' => h.addresses b' (mem_of_mem_erase hb'), (hpaged.erase hb).frame hunmapped ..⟩
    · have hreturned := h.books.returned hram hle
      simp only
      omega
    · rw [← hout']
      exact h.nonPaged
  rw [miFreePoolPages, if_neg hne, hbytes, bind_eq_bind, bind_some]
  rcases Nat.eq_zero_or_pos b.pages with hzero | hpos
  · -- nothing is freed, wherever the address is
    have hempty := h.freeEmpty hb hkind hzero
    have hnonPaged : fetchSub s.pools.allocatedNonPagedPool (b.pages * pageSize) = s.pools.allocatedNonPagedPool := by
      have hle := h.outstanding_le
      rw [hzero, Nat.zero_mul, fetchSub_of_le (Nat.zero_le _), Nat.sub_zero]
      rw [h.nonPaged]
      simp only [maxSystemPtes, pageSize] at hle ⊢
      omega
    split_ifs
    · refine ⟨s.pools, ?_, hempty⟩
      have hrelease : miReleaseSystemPtes s.pools.ptes b.address 0 = some s.pools.ptes := by
        obtain ⟨cs, hready⟩ := h.ready
        rw [miReleaseSystemPtes, hready.initialized, if_neg (by simp), if_pos (Or.inl rfl)]
      rw [hzero] at hnonPaged ⊢
      simp only [miFreeNonPagedPoolPages, unmapPoolPages]
      rw [hrelease, Option.map_some, miUpdatePoolStatsFree, if_pos (Or.inl rfl)]
      simp only [hnonPaged]
    · exact ⟨_, rfl, hfreed⟩
    · exact ⟨s.pools, rfl, hempty⟩
  · have hregion : s.pools.miIsPagedPoolAddress b.address = true := by
      rw [miIsPagedPoolAddress, decide_eq_true_eq]
      refine ⟨hplaced.1, ?_⟩
      unfold pageSize at *
      omega
    obtain ⟨hnonPaged, hsystem⟩ := hpaged.layout.apart b.address hregion
    rw [if_neg (by rw [hnonPaged, hsystem]; decide), if_pos hregion]
    exact ⟨_, rfl, hfreed⟩

end

/-! ### Runs -/

theorem Inv.step (h : Inv s₀ others pages ramLimit s) (hram : ramLimit < 2 ^ 52) (hcall : s.Admitted call) (hcounted : s.Counted call) :
    Inv s₀ others pages ramLimit (s.step call) := by
  have htaken : Inv s₀ others pages ramLimit (s.taken call (s.allocation call)) := by
    cases hret : s.allocation call with
    | none => exact h
    | some out => exact (h.allocation hram hcounted out.1 out.2 hret).2
  cases call with
  | allocate poolType size available pool => exact htaken
  | contiguous n alignment available => exact htaken
  | free b =>
    have hfree : ∃ p', s.pools.miFreePoolPages b.address b.size = some p' ∧ Inv s₀ others pages ramLimit ⟨p', s.blocks.erase b⟩ := by
      cases hkind : b.paged with
      | false => exact h.freeNonPaged hcall hkind
      | true => exact h.freePaged hram hcall hkind
    obtain ⟨p', hret, hinv⟩ := hfree
    rw [step, hret]
    exact hinv

/-- The pools before the first allocation; `others` are reservations of other clients of the system
page table entries. -/
structure Start (s₀ : Pools) (others : List Extent) (ramLimit : ℕ) : Prop where
  ready : ∃ cs, Ready s₀.ptes cs others
  baseVa : s₀.ptes.baseVa = mmSystemPteStart
  lists : ∃ c, Lists s₀.pfns c
  end_le : s₀.pfns.endPfn ≤ 2 ^ 40
  books : s₀.commit.Books ramLimit
  nonPaged : s₀.allocatedNonPagedPool = 0
  paged : s₀.allocatedPagedPool = 0
  pagedPool : PagedInv s₀ []

theorem Start.inv (h : Start s₀ others ramLimit) : Inv s₀ others {p | s₀.pfns.FreePfn p} ramLimit ⟨s₀, []⟩ := by
  obtain ⟨c, hlists⟩ := h.lists
  have hnone : heldBy (extents []) = ∅ := by
    ext k
    exact ⟨fun ⟨r, hr, _⟩ => (not_mem_nil hr).elim, fun hk => hk.elim⟩
  refine ⟨h.ready, h.baseVa, rfl, ⟨c, ?_⟩, h.books, rfl, ?_, ?_, fun b hb => (not_mem_nil hb).elim, h.pagedPool⟩
  · rw [hnone]
    refine ⟨hlists, h.end_le, fun k hk => hk.elim, fun k hk => hk.elim, fun k hk => hk.elim, fun k hk => hk.elim, fun p => ?_⟩
    constructor
    · intro hp
      have hfree : s₀.pfns.FreePfn p := hp
      rw [PfnState.FreePfn, hlists.onList_iff, hlists.onList_iff] at hfree
      exact Or.inl hfree
    · rintro (hp | ⟨k, hk, -⟩)
      · have hfree : s₀.pfns.FreePfn p := by
          rw [PfnState.FreePfn, hlists.onList_iff, hlists.onList_iff]
          exact hp
        exact hfree
      · exact hk.elim
  · rw [h.nonPaged]
    exact (zero_mul pageSize).symm
  · rw [h.paged]
    exact (zero_mul pageSize).symm

theorem Inv.balanced (h : Inv s₀ others pages ramLimit s) (h₀ : Inv s₀ others pages ramLimit ⟨s₀, []⟩) : Balanced s₀ s := by
  refine ⟨h.nonPaged, h.paged, fun hempty => ?_⟩
  obtain ⟨p, blocks⟩ := s
  obtain rfl : blocks = [] := hempty
  obtain ⟨cs, hready⟩ := h.ready
  obtain ⟨cs₀, hready₀⟩ := h₀.ready
  obtain ⟨c, hmapped⟩ := h.mapped
  obtain ⟨c₀, hmapped₀⟩ := h₀.mapped
  have hptes := hready₀.free_same hready h.pteCount
  refine ⟨hmapped₀.free_same hmapped ?_, hptes.1, hptes.2, h.committed, h.nonPaged.trans h₀.nonPaged.symm, h.paged.trans h₀.paged.symm⟩
  rintro k ⟨r, hr, -⟩
  exact (not_mem_nil hr).elim

/-- In every run without blocks of a miscounted type and cut counts, a failing allocation leaves all
as it was, the counters are the bytes that are out, and without blocks everything is back. -/
theorem conserves_of_counted (h₀ : Start s₀ others ramLimit) (hram : ramLimit < 2 ^ 52) {calls : List PoolCall}
    (hcalls : EveryStep step (fun s call => s.Admitted call ∧ s.Counted call) ⟨s₀, []⟩ calls) :
    EveryStep step FailsCleanly ⟨s₀, []⟩ calls ∧ EveryState step (Balanced s₀) ⟨s₀, []⟩ calls := by
  have hkeep : ∀ s call, Inv s₀ others {p | s₀.pfns.FreePfn p} ramLimit s → s.Admitted call ∧ s.Counted call →
      Inv s₀ others {p | s₀.pfns.FreePfn p} ramLimit (s.step call) := fun s call hinv hcall => hinv.step hram hcall.1 hcall.2
  constructor
  · refine everyStep_of_invariant hkeep (fun s call hinv hcall => ?_) h₀.inv hcalls
    intro pools hret
    exact (hinv.allocation hram hcall.2 0 pools hret).1 rfl
  · exact (everyState_invariant hkeep h₀.inv hcalls).imp fun s hinv => hinv.balanced h₀.inv

def boot (endPfn : ℕ) (free : List ℕ) (count ramLimit pagedStart pagedEnd : ℕ) : Pools where
  pfns := Paging.bootDb 0 endPfn free
  ptes := miInitializeSystemPtes uninitialized mmSystemPteStart count
  commit := .init ramLimit
  pagedPtes _ := 0
  nonPagedPoolStart := 0
  nonPagedPoolEnd := 0
  pagedPoolStart := pagedStart
  pagedPoolEnd := pagedEnd
  pagedPoolNextVa := 0
  allocatedNonPagedPool := 0
  peakNonPagedPoolUsage := 0
  allocatedPagedPool := 0
  peakPagedPoolUsage := 0

theorem start_boot {endPfn count pagedStart pagedEnd : ℕ} {free : List ℕ} (hend : endPfn ≤ 2 ^ 40) (hnodup : free.Nodup)
    (hvalid : ∀ p ∈ free, p < endPfn) (hcount : 2 ≤ count) (hregion : pagedStart ≤ pagedEnd) (hbelow : pagedEnd ≤ mmSystemPteStart) :
    Start (boot endPfn free count ramLimit pagedStart pagedEnd) [] ramLimit := by
  have hfits : mmSystemPteStart + min count maxSystemPtes * pageSize < 2 ^ 64 := by
    simp only [mmSystemPteStart, maxSystemPtes, pageSize]
    omega
  have hinv := inv_miInitializeSystemPtes (p := uninitialized) rfl hcount (by decide) hfits.le
  obtain ⟨c, hplaced, -⟩ := @Paging.placed_bootDb 0 endPfn free (by unfold usizeMax; omega) hnodup
    fun p hp => ⟨zero_le p, hvalid p hp⟩
  have hsame : (Paging.bootDb 0 endPfn free).endPfn = endPfn := (@Paging.samePages_bootDb 0 endPfn free).endPfn
  have haligned : mmSystemPteStart % pageSize = 0 := by decide
  have hnext : nextVa (boot endPfn free count ramLimit pagedStart pagedEnd) = pagedStart := rfl
  have hunmapped : (0 : Pte) &&& pteValid = 0 := by decide
  refine ⟨hinv.ready haligned hfits, rfl, ⟨c, hplaced.lists⟩, hsame.trans_le hend, Pagefiles.books_init ramLimit, rfl, rfl, ?_⟩
  refine ⟨⟨lt_of_le_of_lt hbelow (by decide), fun address haddress => ?_⟩, hnext.ge, hregion, zero_le _,
    fun b hb => (not_mem_nil hb).elim, fun _ => hunmapped⟩
  rw [miIsPagedPoolAddress, decide_eq_true_eq] at haddress
  have hhigh : address < pagedEnd := haddress.2
  exact ⟨decide_eq_false fun h => not_lt_zero _ h.2, decide_eq_false fun h => not_le.2 (hhigh.trans_le hbelow) h.1⟩

def twoPages : Pools := boot 8 [5, 3] 8 100 0xFFFFA00000000000 0xFFFFA00000010000

theorem start_twoPages : Start twoPages [] 100 := start_boot (by decide) (by decide) (by decide) (by decide) (by decide) (by decide)

/-- Two pages are allocated, then one of the paged pool, and the first block is freed. -/
theorem conserves_twoPages :
    EveryStep step FailsCleanly ⟨twoPages, []⟩
        [.allocate .nonPagedPool 5000 2 fun _ _ => false, .allocate .pagedPool 4096 0 fun _ _ => false,
          .free ⟨0xFFFFF80000006000, 5000, false⟩] ∧
      EveryState step (Balanced twoPages) ⟨twoPages, []⟩
        [.allocate .nonPagedPool 5000 2 fun _ _ => false, .allocate .pagedPool 4096 0 fun _ _ => false,
          .free ⟨0xFFFFF80000006000, 5000, false⟩] := by
  refine conserves_of_counted start_twoPages (by decide) ⟨⟨trivial, ?_⟩, ⟨trivial, ?_⟩, ⟨?_, trivial⟩, trivial⟩
  · intro pages _ hpages _
    obtain rfl : 2 = pages := Option.some.inj hpages
    refine ⟨⟨by decide, Or.inl (by decide)⟩, fun hmiscounted => ?_⟩
    rcases hmiscounted with h | h <;> cases h
  · intro pages hkind
    cases hkind
  · decide

/-- A block of a type that is counted as paged: after the free the paged pool still has a page, and the
nonpaged one less than none. -/
theorem mustSucceed_miscounted :
    (EveryStep step Admitted ⟨twoPages, []⟩
        [.allocate .nonPagedPoolMustSucceed 4096 2 fun _ _ => false, .free ⟨0xFFFFF80000007000, 4096, false⟩]) ∧
      (run step ⟨twoPages, []⟩ [.allocate .nonPagedPoolMustSucceed 4096 2 fun _ _ => false]).pools.allocatedPagedPool = 4096 ∧
      (run step ⟨twoPages, []⟩ [.allocate .nonPagedPoolMustSucceed 4096 2 fun _ _ => false,
        .free ⟨0xFFFFF80000007000, 4096, false⟩]).blocks = [] ∧
      (run step ⟨twoPages, []⟩ [.allocate .nonPagedPoolMustSucceed 4096 2 fun _ _ => false,
        .free ⟨0xFFFFF80000007000, 4096, false⟩]).pools.allocatedNonPagedPool = 2 ^ 64 - 4096 ∧
      ¬ EveryState step (Balanced twoPages) ⟨twoPages, []⟩
        [.allocate .nonPagedPoolMustSucceed 4096 2 fun _ _ => false, .free ⟨0xFFFFF80000007000, 4096, false⟩] := by
  have hblocks : (run step ⟨twoPages, []⟩ [.allocate .nonPagedPoolMustSucceed 4096 2 fun _ _ => false,
      .free ⟨0xFFFFF80000007000, 4096, false⟩]).blocks = [] := by decide
  have husage : (run step ⟨twoPages, []⟩ [.allocate .nonPagedPoolMustSucceed 4096 2 fun _ _ => false,
      .free ⟨0xFFFFF80000007000, 4096, false⟩]).pools.allocatedNonPagedPool = 2 ^ 64 - 4096 := by decide
  refine ⟨⟨trivial, by decide, trivial⟩, by decide, hblocks, husage, fun hall => ?_⟩
  have hlast := hall.2.2.nonPaged
  have hzero : outstanding false (run step ⟨twoPages, []⟩ [.allocate .nonPagedPoolMustSucceed 4096 2 fun _ _ => false,
      .free ⟨0xFFFFF80000007000, 4096, false⟩]).blocks * pageSize = 0 := by
    rw [hblocks]
    exact zero_mul pageSize
  have hnone := husage.symm.trans (hlast.trans hzero)
  exact absurd hnone (by decide)

end PoolClients

end XenOS.Mm
