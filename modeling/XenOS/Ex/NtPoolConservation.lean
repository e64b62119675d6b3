import XenOS.Ex.NtPoolRuns
import XenOS.Mm.PoolConservation

/-! Conservation of the pools: what a store, a free and an allocation do to the pages, and what follows for runs. -/

namespace XenOS.Ex

open General Mm NtPool List NtPoolClients
open Function (update update_self update_of_ne update_idem)

namespace NtPoolClients
variable {head : ListId → ℕ}

namespace Laid
variable {base count : ℕ} {others : List Extent} {allPages : Set ℕ} {Q : List (Bool × ℕ)} {used : ℕ → ℕ}
  {R : ListId → List ℕ} {s : NtPoolClients} {paged : Bool} {j k : ℕ}

/-! ### Stores -/

theorem store (h : Laid head base count others allPages Q used R s) {address : ℕ} {bytes : List (BitVec 8)}
    (hlegal : s.Legal (.store address bytes)) : Laid head base count others allPages Q used R (s.step head (.store address bytes)) := by
  obtain ⟨u, hu, hlow, hhigh⟩ := hlegal
  obtain ⟨b, k, hk, hne, haddress, hsize⟩ := h.live u hu
  have hused := h.used_le hk
  have havailable : availableBlocks = 253 := rfl
  unfold pageHeaderSize poolHeaderSize at haddress
  unfold poolHeaderSize poolBlockSize at hsize
  have hframe : ∀ i, i < pageAt base k + 56 ∨ pageAt base k + 48 + used k * 16 ≤ i →
      (s.pool.mem.write address bytes).byte i = s.pool.mem.byte i := fun i hi => Ram.byte_write_of_lt (by omega)
  have hclear : Clear head R (pageAt base k + 56) (pageAt base k + 48 + used k * 16) :=
    h.clear_page hk (by omega) (by unfold pageSize; omega) fun _ => by omega
  refine { h with rings := hclear.rings h.rings hframe, holds := fun b' j hj => ?_ }
  have hfits := h.fits b' j hj
  have hused' := h.used_le hj
  rcases eq_or_ne j k with rfl | hjk
  · exact (h.holds b' j hj).congr (fun i hlow hhigh => hframe i (by omega)) fun _ i hlow hhigh => hframe i (by omega)
  · have hapart : pageAt base j + 4096 ≤ pageAt base k ∨ pageAt base k + 4096 ≤ pageAt base j := by
      unfold pageAt pageSize
      omega
    unfold minBlocks at hfits
    exact (h.holds b' j hj).congr (fun i hlow hhigh => hframe i (by omega)) fun _ i hlow hhigh => hframe i (by omega)

/-! ### Frees -/

theorem units_lt (h : Laid head base count others allPages Q used R s) (paged : Bool) :
    (pagesOf Q paged).length * availableBlocks * poolBlockSize < 2 ^ 63 := by
  obtain ⟨cs, hready⟩ := h.ready
  have hsize := hready.size
  have hlength := h.length_le paged
  rw [h.pteCount] at hsize
  have havailable : availableBlocks = 253 := rfl
  unfold maxSystemPtes at hsize
  unfold poolBlockSize
  rw [havailable]
  omega

theorem freed (h : Laid head base count others allPages Q used R s) {u : LiveBlock} (hu : u ∈ s.live)
    (halone : Alone s.pool.mem (u.address - poolHeaderSize)) :
    ∃ b, ∃ k ∈ pagesOf Q b, used k = availableBlocks ∧ u.address = pageAt base k + pageHeaderSize + poolHeaderSize := by
  obtain ⟨b, k, hk, hne, haddress, -⟩ := h.live u hu
  refine ⟨b, k, hk, ?_, haddress⟩
  by_contra hrest
  rw [haddress, Nat.add_sub_cancel] at halone
  obtain ⟨hsize, -⟩ := (h.holds b k hk).used hne
  obtain ⟨-, hfree⟩ := (h.holds b k hk).rest hrest
  refine halone.2 ?_
  rw [hsize]
  exact hfree

def freedMemory (head : ListId → ℕ) (m : Ram) (paged : Bool) (block : ℕ) : Ram :=
  (setSignature m block poolFreeSignature).insertHead (head (.free paged (listIndex availableBlocks))) (listEntry block)

section
variable (h : Laid head base count others allPages Q used R s)
include h

theorem freedMemory_spec (hk : k ∈ pagesOf Q paged) (hused : used k = availableBlocks) :
    Rings (freedMemory head s.pool.mem paged (pageAt base k + pageHeaderSize)) head
        (withBlock R paged (pageAt base k + pageHeaderSize) availableBlocks) ∧
      blockSize (freedMemory head s.pool.mem paged (pageAt base k + pageHeaderSize)) (pageAt base k + pageHeaderSize) = availableBlocks ∧
      signature (freedMemory head s.pool.mem paged (pageAt base k + pageHeaderSize)) (pageAt base k + pageHeaderSize) = poolFreeSignature ∧
      ∀ i, i < pageAt base k + 56 ∨ pageAt base k + 80 ≤ i → Clear head R i (i + 1) →
        (freedMemory head s.pool.mem paged (pageAt base k + pageHeaderSize)).byte i = s.pool.mem.byte i := by
  have hend := h.end_lt
  have hcount := h.lt_count hk
  have hpage : pageAt base k + 4096 < 2 ^ 64 := by
    unfold pageAt pageSize at *
    omega
  have hclear : ∀ {a b}, pageAt base k + 32 ≤ a → b ≤ pageAt base k + 4096 → Clear head R a b :=
    fun ha hb => h.clear_page hk ha hb fun hne => absurd hused hne
  have hframe : ∀ i, i < pageAt base k + 56 ∨ pageAt base k + 60 ≤ i →
      (setSignature s.pool.mem (pageAt base k + pageHeaderSize) poolFreeSignature).byte i = s.pool.mem.byte i := by
    intro i hi
    unfold setSignature pageHeaderSize
    exact byte_write_other (by omega)
  have hrings : Rings (setSignature s.pool.mem (pageAt base k + pageHeaderSize) poolFreeSignature) head R :=
    (hclear (show _ ≤ pageAt base k + 56 by omega) (show pageAt base k + 60 ≤ _ by omega)).rings h.rings hframe
  have hfresh : Rings.Fresh head R (listEntry (pageAt base k + pageHeaderSize)) := by
    unfold listEntry pageHeaderSize
    exact (hclear (by omega) (by omega)).fresh (by omega)
  have hread : ∀ a n, pageAt base k + 32 ≤ a → a + n ≤ pageAt base k + 64 →
      (freedMemory head s.pool.mem paged (pageAt base k + pageHeaderSize)).read a n =
        (setSignature s.pool.mem (pageAt base k + pageHeaderSize) poolFreeSignature).read a n := by
    intro a n ha hn
    exact (hclear ha (by omega)).read_insertHead hrings (by unfold listEntry pageHeaderSize; omega)
  have hsize : blockSize s.pool.mem (pageAt base k + pageHeaderSize) = availableBlocks := by
    have hne : used k ≠ 0 := by
      rw [hused]
      decide
    rw [((h.holds paged k hk).used hne).1, hused]
  refine ⟨hrings.insertHead _ hfresh, ?_, ?_, ?_⟩
  · unfold blockSize at hsize ⊢
    rw [hread _ _ (by unfold pageHeaderSize; omega) (by unfold pageHeaderSize; omega), ← hsize]
    unfold setSignature
    rw [read_write_other (by omega)]
  · unfold signature Ram.u32
    rw [hread _ _ (by unfold pageHeaderSize; omega) (by unfold pageHeaderSize; omega)]
    unfold setSignature
    exact read_write_field (by decide)
  · intro i hi hcells
    unfold freedMemory
    rw [hrings.byte_insertHead _ (by unfold listEntry pageHeaderSize; omega) fun c hc => ?_, hframe i (by omega)]
    have := hcells _ c hc
    omega

theorem ntPoolFree_eq {tag : BitVec 32} (hk : k ∈ pagesOf Q paged)
    (hused : used k = availableBlocks) (hrefuses : ¬ refuses s.pool.mem (pageAt base k + pageHeaderSize) tag)
    (halone : Alone s.pool.mem (pageAt base k + pageHeaderSize)) :
    s.pool.ntPoolFree head (pageAt base k + pageHeaderSize + poolHeaderSize) tag =
      { s.pool with mem := freedMemory head s.pool.mem paged (pageAt base k + pageHeaderSize) }.modifyCounters paged fun c =>
        { c with
          freeCount := fetchAdd c.freeCount 1
          usedBytes := fetchSub c.usedBytes (availableBlocks * poolBlockSize)
          freeBytes := fetchAdd c.freeBytes (availableBlocks * poolBlockSize) } := by
  have hne : used k ≠ 0 := by
    rw [hused]
    decide
  obtain ⟨hsize, htype⟩ := (h.holds paged k hk).used hne
  have hpaged : decide (blockPoolType s.pool.mem (pageAt base k + pageHeaderSize) = typeOf true) = paged := by
    rw [htype]
    cases paged <;> rfl
  rw [hused] at hsize
  -- the signature is written into the block itself
  have hsign : ∀ {a n}, a + n ≤ pageAt base k + 56 ∨ pageAt base k + 60 ≤ a →
      (setSignature s.pool.mem (pageAt base k + pageHeaderSize) poolFreeSignature).read a n = s.pool.mem.read a n := by
    intro a n ha
    unfold setSignature pageHeaderSize
    exact read_write_other (by omega)
  have hsize' : blockSize (setSignature s.pool.mem (pageAt base k + pageHeaderSize) poolFreeSignature) (pageAt base k + pageHeaderSize) =
      blockSize s.pool.mem (pageAt base k + pageHeaderSize) := by
    unfold blockSize
    rw [hsign (by unfold pageHeaderSize; omega)]
  have hprevious : previousSize (setSignature s.pool.mem (pageAt base k + pageHeaderSize) poolFreeSignature) (pageAt base k + pageHeaderSize) =
      previousSize s.pool.mem (pageAt base k + pageHeaderSize) := by
    unfold previousSize
    rw [hsign (by unfold pageHeaderSize; omega)]
  have halone' : Alone (setSignature s.pool.mem (pageAt base k + pageHeaderSize) poolFreeSignature) (pageAt base k + pageHeaderSize) := by
    unfold Alone at halone ⊢
    rw [hsize', hprevious]
    refine ⟨fun hpos => ?_, ?_⟩
    · have hbefore := halone.1 hpos
      generalize previousSize s.pool.mem (pageAt base k + pageHeaderSize) = prevSize at hpos hbefore ⊢
      unfold signature Ram.u32 at hbefore ⊢
      rwa [hsign (by unfold pageHeaderSize poolBlockSize; omega)]
    · have hbehind := halone.2
      rw [hsize] at hbehind ⊢
      have havailable : availableBlocks = 253 := rfl
      unfold signature Ram.u32 at hbehind ⊢
      rwa [hsign (by rw [havailable]; unfold pageHeaderSize poolBlockSize; omega)]
  have hptr : pageAt base k + pageHeaderSize + poolHeaderSize ≠ 0 := by
    unfold poolHeaderSize
    omega
  unfold ntPoolFree
  rw [if_neg hptr]
  simp only [Nat.add_sub_cancel]
  rw [if_neg hrefuses]
  simp only [coalesceBlocks_alone halone', hpaged, hsize', hsize]
  rfl

theorem freed_counters (hk : k ∈ pagesOf Q paged) (hused : used k = availableBlocks) :
    fetchAdd (s.pool.counters paged).freeBytes (availableBlocks * poolBlockSize) =
        ((pagesOf Q paged).map fun j => availableBlocks - update used k 0 j).sum * poolBlockSize ∧
      fetchSub (s.pool.counters paged).usedBytes (availableBlocks * poolBlockSize) =
        ((pagesOf Q paged).map (update used k 0)).sum * poolBlockSize := by
  have hfree := sum_map_update (h.nodup_pagesOf paged) hk (fun n => availableBlocks - n) used 0
  have hheld := sum_map_update (h.nodup_pagesOf paged) hk (fun n => n) used 0
  have hunits := sum_units used (l := pagesOf Q paged) fun j hj => h.used_le hj
  have hlt := h.units_lt paged
  have havailable : availableBlocks = 253 := rfl
  rw [h.freeBytes, h.usedBytes]
  simp only [hused, Nat.sub_self, Nat.sub_zero, Nat.add_zero] at hfree hheld
  rw [hfree]
  change (map (update used k 0) (pagesOf Q paged)).sum + _ = (map used (pagesOf Q paged)).sum at hheld
  generalize (map (update used k 0) (pagesOf Q paged)).sum = held at hheld ⊢
  generalize (map (fun j => availableBlocks - used j) (pagesOf Q paged)).sum = free at hunits ⊢
  generalize (map used (pagesOf Q paged)).sum = before at hheld hunits ⊢
  rw [havailable] at hheld hunits hlt ⊢
  unfold poolBlockSize at hlt ⊢
  unfold fetchAdd fetchSub
  constructor
  · omega
  · omega

theorem free {ptr : ℕ} {tag : BitVec 32} (hlegal : s.Legal (.free ptr tag))
    (hspared : s.Spared head (.free ptr tag)) : ∃ used' R', Laid head base count others allPages Q used' R' (s.step head (.free ptr tag)) := by
  have hpositive : ∀ u ∈ s.live, u.address ≠ 0 := by
    intro u hu hzero
    obtain ⟨b, k, -, -, haddress, -⟩ := h.live u hu
    unfold pageHeaderSize at haddress
    omega
  by_cases hzero : ptr = 0
  · have hlive : (if refuses s.pool.mem (ptr - poolHeaderSize) tag then s.live else s.live.filter fun b => b.address ≠ ptr) = s.live := by
      split_ifs
      · rfl
      · refine filter_eq_self.2 fun u hu => ?_
        rw [hzero]
        exact decide_eq_true (hpositive u hu)
    rw [step, hlive, ntPoolFree, if_pos hzero]
    exact ⟨used, R, h⟩
  by_cases hrefuses : refuses s.pool.mem (ptr - poolHeaderSize) tag
  · rw [step, if_pos hrefuses, ntPoolFree, if_neg hzero]
    simp only [if_pos hrefuses]
    exact ⟨used, R, h⟩
  obtain ⟨u, hu, rfl⟩ := hlegal.resolve_left hzero
  have halone := hspared hzero hrefuses
  obtain ⟨b, k, hk, hused, haddress⟩ := h.freed hu halone
  rw [step, if_neg hrefuses]
  rw [haddress, Nat.add_sub_cancel] at halone hrefuses
  rw [haddress, h.ntPoolFree_eq hk hused hrefuses halone]
  obtain ⟨hrings, hsize, hsign, hframe⟩ := h.freedMemory_spec hk hused
  have havailable : availableBlocks = 253 := rfl
  have hother : ∀ {j}, j ≠ k → update used k 0 j = used j := fun hne => update_of_ne hne _ _
  have hself : update used k 0 k = 0 := update_self ..
  refine ⟨update used k 0, _,
    { rings := hrings
      outside := h.outside
      ready := h.ready
      baseVa := h.baseVa
      pteCount := h.pteCount
      mapped := h.mapped
      pageList := fun b' => ?_
      entries := fun b' i x => ?_
      fits := fun b' j hj => ?_
      holds := fun b' j hj => ?_
      live := fun v hv => ?_
      owned := fun b' j hj hne => ?_
      totalPages := fun b' => ?_
      freeBytes := fun b' => ?_
      usedBytes := fun b' => ?_ }⟩
  · rw [withBlock, update_of_ne (by simp), h.pageList]
  · -- the page is in the last list, every other one where it was
    have hold : x ∈ R (.free b' i) ↔ ∃ j ∈ pagesOf Q b', j ≠ k ∧ update used k 0 j ≠ availableBlocks ∧
        listIndex (availableBlocks - update used k 0 j) = i ∧ x = listEntry (restAt base (update used k 0) j) := by
      rw [h.entries]
      refine exists_congr fun j => and_congr_right fun hj => ?_
      rcases eq_or_ne j k with rfl | hjk
      · exact ⟨fun hne => absurd hused hne.1, fun hne => absurd rfl hne.1⟩
      · simp only [hother hjk, restAt, ne_eq, hjk, not_false_eq_true, true_and]
    have hnew : listEntry (restAt base (update used k 0) k) = listEntry (pageAt base k + pageHeaderSize) := by
      rw [restAt, hself, Nat.zero_mul, Nat.add_zero]
    have hzero' : (0 : ℕ) ≠ availableBlocks := by decide
    have hsplit : (∃ j ∈ pagesOf Q b', update used k 0 j ≠ availableBlocks ∧
        listIndex (availableBlocks - update used k 0 j) = i ∧ x = listEntry (restAt base (update used k 0) j)) ↔
        (b' = b ∧ listIndex availableBlocks = i ∧ x = listEntry (pageAt base k + pageHeaderSize)) ∨ x ∈ R (.free b' i) := by
      rw [hold]
      constructor
      · rintro ⟨j, hj, hne, hindex, hx⟩
        rcases eq_or_ne j k with rfl | hjk
        · rw [hself] at hindex
          exact Or.inl ⟨h.pool_eq hj hk, hindex, hx.trans hnew⟩
        · exact Or.inr ⟨j, hj, hjk, hne, hindex, hx⟩
      · rintro (⟨rfl, hindex, hx⟩ | ⟨j, hj, -, hrest⟩)
        · exact ⟨k, hk, by rw [hself]; exact hzero', by rw [hself]; exact hindex, hx.trans hnew.symm⟩
        · exact ⟨j, hj, hrest⟩
    exact mem_withBlock_free.trans hsplit.symm
  · rcases eq_or_ne j k with rfl | hjk
    · rw [hself]
      exact Or.inl (by decide)
    · rw [hother hjk]
      exact h.fits b' j hj
  · rcases eq_or_ne j k with rfl | hjk
    · obtain rfl := h.pool_eq hj hk
      rw [hself]
      refine ⟨fun hne => absurd rfl hne, fun _ => ?_⟩
      rw [Nat.zero_mul]
      exact ⟨hsize, hsign⟩
    · rw [hother hjk]
      have hfits := h.fits b' j hj
      have hused' := h.used_le hj
      have hapart : pageAt base j + 4096 ≤ pageAt base k ∨ pageAt base k + 4096 ≤ pageAt base j := by
        unfold pageAt pageSize
        omega
      unfold minBlocks at hfits
      refine (h.holds b' j hj).congr (fun i hlow hhigh => hframe i (by omega) ?_) fun hne i hlow hhigh => hframe i (by omega) ?_
      · exact h.clear_page hj (by omega) (by unfold pageSize; omega) fun _ => by omega
      · exact h.clear_page hj (by omega) (by unfold pageSize; omega) fun _ => by omega
  · obtain ⟨hv, hne⟩ := mem_filter.1 hv
    obtain ⟨b', j, hj, hpos, haddress', hfit⟩ := h.live v hv
    have hjk : j ≠ k := by
      rintro rfl
      exact of_decide_eq_true hne haddress'
    exact ⟨b', j, hj, by rw [hother hjk]; exact hpos, haddress', by rw [hother hjk]; exact hfit⟩
  · have hjk : j ≠ k := by
      rintro rfl
      exact hne hself
    rw [hother hjk] at hne
    obtain ⟨v, hv, haddress'⟩ := h.owned b' j hj hne
    refine ⟨v, mem_filter.2 ⟨hv, decide_eq_true ?_⟩, haddress'⟩
    rw [haddress']
    unfold pageAt pageSize
    omega
  · rcases eq_or_ne b' b with rfl | hbb
    · simp only [modifyCounters, update_self]
      exact h.totalPages b'
    · simp only [modifyCounters, update_of_ne hbb]
      exact h.totalPages b'
  · rcases eq_or_ne b' b with rfl | hbb
    · simp only [modifyCounters, update_self]
      exact (h.freed_counters hk hused).1
    · simp only [modifyCounters, update_of_ne hbb]
      rw [map_update_of_notMem (fun hk' => hbb (h.pool_eq hk' hk)) fun n => availableBlocks - n]
      exact h.freeBytes b'
  · rcases eq_or_ne b' b with rfl | hbb
    · simp only [modifyCounters, update_self]
      exact (h.freed_counters hk hused).2
    · simp only [modifyCounters, update_of_ne hbb]
      rw [map_update_of_notMem (fun hk' => hbb (h.pool_eq hk' hk)) fun n => n]
      exact h.usedBytes b'

end

/-! ### Allocations -/

/-- The page table entries after a page was mapped at the entry `k`. -/
def mapAt (ptes : SysPtes) (base k pfn : ℕ) : SysPtes := ptes.writePte (ptes.vaToIndex (pageAt base k)) (poolPte pfn false)

structure NewEntry (base count : ℕ) (others : List Extent) (Q : List (Bool × ℕ)) (ptes : SysPtes) (k : ℕ) : Prop where
  lt : k < count
  positive : pageAt base k ≠ 0
  new : ∀ paged, k ∉ pagesOf Q paged
  ready : ∃ cs, Ready ptes cs ((k, 1) :: (extents Q ++ others))
  baseVa : ptes.baseVa = base
  pteCount : ptes.pteCount = count

variable {ptes : SysPtes}

theorem newEntry_cases {cs : List Extent} (hready : Ready ptes cs (extents Q ++ others))
    (hbaseVa : ptes.baseVa = base) (hpteCount : ptes.pteCount = count) (pfn : ℕ) :
    miReserveSystemPtes ptes 1 = some (0, ptes) ∨
      ∃ k ptes', miReserveSystemPtes ptes 1 = some (pageAt base k, ptes') ∧ ptes'.vaToIndex (pageAt base k) = k ∧
        NewEntry base count others Q (mapAt ptes' base k pfn) k := by
  rcases hready.reserve 1 (by decide) (by decide) with hnone | ⟨k, ptes', cs', hsome, hready', hbase, hcount⟩
  · exact Or.inl hnone
  right
  have hstop := hready'.tiles.stop_le (r := (k, 1)) (by simp)
  have hlt : k < ptes'.pteCount := hstop
  have hva : ptes'.indexToVa k = pageAt base k := by
    rw [hready'.indexToVa_eq k hlt.le, hbase, hbaseVa]
    rfl
  have hindex : ptes'.vaToIndex (pageAt base k) = k := by
    rw [← hva]
    exact SysPteClients.vaToIndex_indexToVa hready'.fits.le hlt hready'.size
  refine ⟨k, ptes', by rw [hsome, hva], hindex, ⟨by rw [← hpteCount, ← hcount]; exact hlt, ?_, fun paged hk => ?_, ⟨cs', ?_⟩,
    hbase.trans hbaseVa, hcount.trans hpteCount⟩⟩
  · rw [← hva]
    exact SysPteClients.indexToVa_ne_zero hready'.fits.le hready'.base hlt
  · have hmem : (k, 1) ∈ extents Q := mem_map.2 ⟨(paged, k), mem_pagesOf.1 hk, rfl⟩
    have hapart := hready'.apart (mem_append_left others hmem)
    simp only [Extent.Apart, Extent.stop] at hapart
    omega
  · rw [mapAt, hindex]
    refine hready'.store fun j hj => update_of_ne ?_ _ _
    rintro rfl
    exact hj (j, 1) mem_cons_self ⟨Nat.le_refl _, Nat.lt_succ_self _⟩

structure NewPage (base count : ℕ) (others : List Extent) (allPages : Set ℕ) (Q : List (Bool × ℕ)) (pfns : PfnState) (ptes : SysPtes)
    (pfn k : ℕ) : Prop where
  lt : k < count
  positive : pageAt base k ≠ 0
  new : ∀ paged, k ∉ pagesOf Q paged
  ready : ∃ cs, Ready (mapAt ptes base k pfn) cs ((k, 1) :: (extents Q ++ others))
  baseVa : ptes.baseVa = base
  pteCount : ptes.pteCount = count
  mapped : ∃ c, Mapped pfns (mapAt ptes base k pfn).pte (heldBy ((k, 1) :: extents Q)) allPages c

section
variable (h : Laid head base count others allPages Q used R s)
include h

variable {pfn : ℕ} {pfns : PfnState}

theorem reserve_cases (hpfn : miAllocatePfn s.pool.pfns = some (pfn, pfns)) :
    miReserveSystemPtes s.pool.ptes 1 = some (0, s.pool.ptes) ∨
      ∃ k ptes, miReserveSystemPtes s.pool.ptes 1 = some (pageAt base k, ptes) ∧ NewPage base count others allPages Q pfns ptes pfn k := by
  obtain ⟨cs, hready⟩ := h.ready
  rcases newEntry_cases hready h.baseVa h.pteCount pfn with hnone | ⟨k, ptes, hsome, hindex, hentry⟩
  · exact Or.inl hnone
  right
  have hnotheld : k ∉ heldBy (extents Q) := by
    intro hheld
    obtain ⟨paged, hmem⟩ := mem_extents.1 hheld
    exact hentry.new paged (mem_pagesOf.2 hmem)
  have hmapped : ∃ c, Mapped pfns (mapAt ptes base k pfn).pte (heldBy ((k, 1) :: extents Q)) allPages c := by
    obtain ⟨c, hmapped⟩ := h.mapped
    have hsame : Mapped s.pool.pfns ptes.pte (heldBy (extents Q)) allPages c := by
      refine hmapped.congr ?_
      rintro j ⟨r, hr, hj⟩
      exact hready.reserve_keeps (by decide) (by decide) hsome r (mem_append_left others hr) j hj
    obtain ⟨c', hall⟩ := hsame.map hpfn hnotheld false
    have hheld : heldBy ((k, 1) :: extents Q) = insert k (heldBy (extents Q)) := by
      rw [heldBy_cons]
      ext j
      have hone : j ∈ Set.Ico k (k + 1) ↔ j = k := by
        rw [Set.mem_Ico]
        omega
      rw [Set.mem_union, Set.mem_insert_iff, hone, or_comm]
    refine ⟨c', ?_⟩
    rw [hheld, mapAt, hindex]
    exact hall
  exact ⟨k, ptes, hsome, hentry.lt, hentry.positive, hentry.new, hentry.ready, hentry.baseVa, hentry.pteCount, hmapped⟩

theorem returned (hpfn : miAllocatePfn s.pool.pfns = some (pfn, pfns)) :
    (∃ c, Mapped (miFreePfn pfns pfn) s.pool.ptes.pte (heldBy (extents Q)) allPages c) ∧
      ∀ p, (miFreePfn pfns pfn).FreePfn p ↔ s.pool.pfns.FreePfn p := by
  obtain ⟨c, hmapped⟩ := h.mapped
  -- any entry that is not held serves for the time between
  have hnotheld : count ∉ heldBy (extents Q) := by
    intro hheld
    obtain ⟨paged, hmem⟩ := mem_extents.1 hheld
    exact Nat.lt_irrefl _ (h.lt_count (mem_pagesOf.2 hmem))
  obtain ⟨L, -, htaken⟩ := miAllocatePfn_some hmapped.lists hpfn
  have hlt : pfn < 2 ^ 40 := (hmapped.lists.valid L pfn htaken.left.mem).2.trans_le hmapped.end_le
  obtain ⟨c', htook⟩ := hmapped.map hpfn hnotheld false
  obtain ⟨c'', hgave⟩ := htook.unmap (Set.mem_insert _ _)
  rw [update_self, ptePfn_poolPte hlt, Set.insert_sdiff_self_of_notMem hnotheld] at hgave
  have hback : Mapped (miFreePfn pfns pfn) s.pool.ptes.pte (heldBy (extents Q)) allPages c'' := by
    refine hgave.congr fun j hj => ?_
    have hne : j ≠ count := fun hjc => hnotheld (hjc ▸ hj)
    rw [update_of_ne hne, update_of_ne hne]
  exact ⟨⟨c'', hback⟩, hmapped.free_same hback fun _ _ => rfl⟩

theorem allocated_counters (paged : Bool) {n : ℕ} (hn : n ≤ availableBlocks) :
    fetchAdd (s.pool.counters paged).totalPages 1 = (pagesOf Q paged).length + 1 ∧
      fetchSub (fetchAdd (s.pool.counters paged).freeBytes (availableBlocks * poolBlockSize)) (n * poolBlockSize) =
        (availableBlocks - n + ((pagesOf Q paged).map fun j => availableBlocks - used j).sum) * poolBlockSize ∧
      fetchAdd (s.pool.counters paged).usedBytes (n * poolBlockSize) = (n + ((pagesOf Q paged).map used).sum) * poolBlockSize := by
  have hunits := sum_units used (l := pagesOf Q paged) fun j hj => h.used_le hj
  have hlt := h.units_lt paged
  have havailable : availableBlocks = 253 := rfl
  rw [h.totalPages, h.freeBytes, h.usedBytes]
  generalize (map (fun j => availableBlocks - used j) (pagesOf Q paged)).sum = free at hunits ⊢
  generalize (map used (pagesOf Q paged)).sum = held at hunits ⊢
  rw [havailable] at hn hunits hlt ⊢
  unfold poolBlockSize at hlt ⊢
  unfold fetchAdd fetchSub
  refine ⟨?_, ?_, ?_⟩
  · omega
  · omega
  · omega

theorem allocated {n size : ℕ} (hpage : NewPage base count others allPages Q pfns ptes pfn k)
    (hpos : 0 < n) (hn : n + minBlocks < availableBlocks ∨ n = availableBlocks)
    (hsize : size + poolHeaderSize ≤ n * poolBlockSize) (tag : BitVec 32) {pool : NtPool}
    (hmem : pool.mem = useFirstBlock head (initPage head s.pool.mem paged (pageAt base k) pfn) paged (pageAt base k) n tag)
    (hpfns : pool.pfns = pfns) (hptes : pool.ptes = mapAt ptes base k pfn)
    (hsame : ∀ b, b ≠ paged → pool.counters b = s.pool.counters b)
    (htotal : (pool.counters paged).totalPages = fetchAdd (s.pool.counters paged).totalPages 1)
    (hfree : (pool.counters paged).freeBytes = fetchSub (fetchAdd (s.pool.counters paged).freeBytes (availableBlocks * poolBlockSize)) (n * poolBlockSize))
    (hheld : (pool.counters paged).usedBytes = fetchAdd (s.pool.counters paged).usedBytes (n * poolBlockSize))
    :
    Laid head base count others allPages ((paged, k) :: Q) (update used k n) (listsWith R paged (pageAt base k) n)
      ⟨pool, ⟨pageAt base k + pageHeaderSize + poolHeaderSize, size⟩ :: s.live⟩ := by
  have havailable : availableBlocks = 253 := rfl
  have hend : pageAt base k + pageSize ≤ 2 ^ 64 := by
    have := h.end_lt
    have := hpage.lt
    unfold pageAt pageSize at *
    omega
  have hused : FirstUsed head R s.pool.mem pool.mem paged (pageAt base k) n := by
    rw [hmem]
    exact firstUsed h.rings (h.clear_new hpage.new hpage.lt) hend hpos (by omega) pfn tag
  have hrest : n + minBlocks < availableBlocks ↔ n ≠ availableBlocks := by
    unfold minBlocks at *
    omega
  obtain ⟨hrings, hfirst, htype, hrestSize, hrestFree, hframe⟩ := hused
  have hother : ∀ {b j}, j ∈ pagesOf Q b → update used k n j = used j := by
    intro b j hj
    refine update_of_ne ?_ _ _
    rintro rfl
    exact hpage.new b hj
  have hself : update used k n k = n := update_self ..
  have hpages : ∀ {b j}, j ∈ pagesOf ((paged, k) :: Q) b → (b = paged ∧ j = k) ∨ j ∈ pagesOf Q b := by
    intro b j hj
    rcases eq_or_ne b paged with rfl | hne
    · rw [pagesOf_cons_same] at hj
      exact (mem_cons.1 hj).imp_left fun hjk => ⟨rfl, hjk⟩
    · rw [pagesOf_cons_other hne] at hj
      exact Or.inr hj
  have hold : ∀ {b j}, j ∈ pagesOf Q b → j ∈ pagesOf ((paged, k) :: Q) b :=
    fun hj => mem_pagesOf.2 (mem_cons_of_mem _ (mem_pagesOf.1 hj))
  have hk : k ∈ pagesOf ((paged, k) :: Q) paged := mem_pagesOf.2 mem_cons_self
  have hsum : ∀ f : ℕ → ℕ, ((pagesOf Q paged).map fun j => f (update used k n j)) = (pagesOf Q paged).map fun j => f (used j) :=
    fun f => map_update_of_notMem (hpage.new paged) f used n
  have hcounters := h.allocated_counters paged (show n ≤ availableBlocks by omega)
  exact
    { rings := hrings
      outside := h.outside
      ready := by
        rw [hptes]
        exact hpage.ready
      baseVa := by
        rw [hptes]
        exact hpage.baseVa
      pteCount := by
        rw [hptes]
        exact hpage.pteCount
      mapped := by
        rw [hptes, hpfns]
        exact hpage.mapped
      pageList := fun b => by
        rw [listsWith_pages, h.pageList]
        rcases eq_or_ne b paged with rfl | hne
        · rw [if_pos rfl, pagesOf_cons_same, map_cons, reverse_cons]
        · rw [if_neg hne, pagesOf_cons_other hne]
      entries := fun b i x => by
        rw [mem_listsWith_free, h.entries]
        constructor
        · rintro (⟨rfl, hne, hindex, hx⟩ | ⟨j, hj, hne, hindex, hx⟩)
          · exact ⟨k, hk, by rw [hself]; exact hrest.1 hne, by rw [hself]; exact hindex, by rw [restAt, hself]; exact hx⟩
          · exact ⟨j, hold hj, by rw [hother hj]; exact hne, by rw [hother hj]; exact hindex, by rw [restAt, hother hj]; exact hx⟩
        · rintro ⟨j, hj, hne, hindex, hx⟩
          rcases hpages hj with ⟨rfl, rfl⟩ | hj
          · rw [restAt] at hx
            rw [hself] at hne hindex hx
            exact Or.inl ⟨rfl, hrest.2 hne, hindex, hx⟩
          · rw [restAt] at hx
            rw [hother hj] at hne hindex hx
            exact Or.inr ⟨j, hj, hne, hindex, hx⟩
      fits := fun b j hj => by
        rcases hpages hj with ⟨rfl, rfl⟩ | hj
        · rw [hself]
          exact hn
        · rw [hother hj]
          exact h.fits b j hj
      holds := fun b j hj => by
        rcases hpages hj with ⟨rfl, rfl⟩ | hj
        · rw [hself]
          exact ⟨fun _ => ⟨hfirst, htype⟩, fun hne => ⟨hrestSize (hrest.2 hne), hrestFree (hrest.2 hne)⟩⟩
        · have hne : j ≠ k := fun hjk => hpage.new b (hjk ▸ hj)
          have hfits := h.fits b j hj
          have hle := h.used_le hj
          have hapart : pageAt base j + 4096 ≤ pageAt base k ∨ pageAt base k + 4096 ≤ pageAt base j := by
            unfold pageAt pageSize
            omega
          unfold minBlocks at hfits
          unfold pageSize at hframe
          rw [hother hj]
          refine (h.holds b j hj).congr (fun i hlow hhigh => hframe i (by omega) ?_) fun hne i hlow hhigh => hframe i (by omega) ?_
          · exact h.clear_page hj (by omega) (by unfold pageSize; omega) fun _ => by omega
          · exact h.clear_page hj (by omega) (by unfold pageSize; omega) fun _ => by omega
      live := fun u hu => by
        rcases mem_cons.1 hu with rfl | hu
        · exact ⟨paged, k, hk, by rw [hself]; exact hpos.ne', rfl, by rw [hself]; exact hsize⟩
        · obtain ⟨b, j, hj, hne, haddress, hfit⟩ := h.live u hu
          exact ⟨b, j, hold hj, by rw [hother hj]; exact hne, haddress, by rw [hother hj]; exact hfit⟩
      owned := fun b j hj hne => by
        rcases hpages hj with ⟨rfl, rfl⟩ | hj
        · exact ⟨_, mem_cons_self, rfl⟩
        · rw [hother hj] at hne
          obtain ⟨u, hu, haddress⟩ := h.owned b j hj hne
          exact ⟨u, mem_cons_of_mem _ hu, haddress⟩
      totalPages := fun b => by
        rcases eq_or_ne b paged with rfl | hne
        · rw [htotal, hcounters.1, pagesOf_cons_same, length_cons]
        · rw [hsame b hne, pagesOf_cons_other hne, h.totalPages]
      freeBytes := fun b => by
        rcases eq_or_ne b paged with rfl | hne
        · rw [hfree, hcounters.2.1, pagesOf_cons_same, map_cons, sum_cons, hself, hsum fun n => availableBlocks - n]
        · rw [hsame b hne, pagesOf_cons_other hne, h.freeBytes]
          rw [map_update_of_notMem (hpage.new b) fun n => availableBlocks - n]
      usedBytes := fun b => by
        rcases eq_or_ne b paged with rfl | hne
        · rw [hheld, hcounters.2.2, pagesOf_cons_same, map_cons, sum_cons, hself, hsum fun n => n]
        · rw [hsame b hne, pagesOf_cons_other hne, h.usedBytes]
          rw [map_update_of_notMem (hpage.new b) fun n => n] }

theorem freePfn_of_allocated (hpfn : miAllocatePfn s.pool.pfns = some (pfn, pfns)) :
    s.pool.pfns.FreePfn pfn := by
  obtain ⟨c, hmapped⟩ := h.mapped
  obtain ⟨L, hL, htaken⟩ := miAllocatePfn_some hmapped.lists hpfn
  have hmem := htaken.left.mem
  rw [PfnState.FreePfn, hmapped.lists.onList_iff, hmapped.lists.onList_iff]
  rcases hL with rfl | rfl
  · exact Or.inl hmem
  · exact Or.inr hmem

theorem free_of_newPage (hpage : NewPage base count others allPages Q pfns ptes pfn k) :
    s.pool.ptes.Free k := by
  obtain ⟨cs, hready⟩ := h.ready
  obtain ⟨cs', hready'⟩ := hpage.ready
  refine (hready.free_iff k).2 ⟨by rw [h.pteCount]; exact hpage.lt, ?_⟩
  rintro ⟨r, hr, hcontains⟩
  have hapart := hready'.apart hr
  simp only [Extent.Apart, Extent.Contains, Extent.stop] at hapart hcontains
  omega

end

variable {size : BitVec 64}

theorem blocksNeededFor_spec (hlt : size.toNat + poolHeaderSize + (poolBlockSize - 1) < 2 ^ 64) :
    0 < blocksNeededFor size ∧ size.toNat + poolHeaderSize ≤ blocksNeededFor size * poolBlockSize := by
  unfold blocksNeededFor
  unfold poolHeaderSize poolBlockSize at *
  simp only
  omega

variable {poolType : PoolType}

theorem findList_none
    (hempty : ∀ i : Fin numFreeLists, startIndex (blocksNeededFor size) ≤ i → s.pool.mem.isEmpty (head (.free poolType.isPaged i)) = true)
    :
    findList head s.pool.mem poolType.isPaged (blocksNeededFor size) = none := by
  rw [findList, find?_eq_none]
  intro i _ hfound
  obtain ⟨hstart, hlist⟩ := of_decide_eq_true hfound
  exact hlist (hempty i hstart)

variable {tag : BitVec 32}

theorem ntPoolAllocate_eq {σ : NtPool} (hne : size ≠ 0)
    (hinitialized : σ.initialized poolType.isPaged = true)
    (hfind : findList head σ.mem poolType.isPaged (blocksNeededFor size) = none) :
    σ.ntPoolAllocate head poolType size tag =
      (σ.allocateNewPoolPage head poolType.isPaged (blocksNeededFor size) tag).bind fun (ptr, σ) =>
        if ptr = 0 then some (0, σ)
        else some (ptr, σ.modifyCounters poolType.isPaged fun c =>
          { c with
            allocCount := fetchAdd c.allocCount 1
            usedBytes := fetchAdd c.usedBytes (blocksNeededFor size * poolBlockSize) }) := by
  simp only [ntPoolAllocate, if_neg hne, hinitialized, Bool.not_true, Bool.false_eq_true, if_false, findAndAllocateBlock, hfind,
    Option.bind_eq_bind, Option.pure_def]

theorem allocateNewPoolPage_eq {σ : NtPool} {pfn va n : ℕ} {pfns : PfnState}
    (hpfn : miAllocatePfn σ.pfns = some (pfn, pfns))
    (hreserve : miReserveSystemPtes σ.ptes 1 = some (va, ptes)) (hva : va ≠ 0)
    (hn : n ≤ availableBlocks) :
    σ.allocateNewPoolPage head paged n tag = some (va + pageHeaderSize + poolHeaderSize,
      { σ with
        mem := useFirstBlock head (initPage head σ.mem paged va pfn) paged va n tag
        pfns
        ptes := ptes.writePte (ptes.vaToIndex va) (poolPte pfn false)
        counters := update σ.counters paged
          { σ.counters paged with
            totalPages := fetchAdd (σ.counters paged).totalPages 1
            freeBytes := fetchSub (fetchAdd (σ.counters paged).freeBytes (availableBlocks * poolBlockSize)) (n * poolBlockSize) } }) := by
  simp only [allocateNewPoolPage, hpfn, hreserve, Option.bind_eq_bind, Option.bind_some, if_neg hva, if_pos hn, modifyCounters,
    update_self, update_idem, Option.pure_def]

/-- What an allocation does under the condition: nothing is lost, or a new page gives a block. -/
theorem allocate (h : Laid head base count others allPages Q used R s)
    (hspared : s.Spared head (.allocate poolType size tag)) :
    FailsCleanly head s (.allocate poolType size tag) ∧
      ∃ Q' used' R', Laid head base count others allPages Q' used' R' (s.step head (.allocate poolType size tag)) := by
  -- an allocation that returns null with the supplies as they were
  have hnull : ∀ pool : NtPool, s.pool.ntPoolAllocate head poolType size tag = some (0, pool) → pool.mem = s.pool.mem →
      pool.counters = s.pool.counters → (∃ c, Mapped pool.pfns s.pool.ptes.pte (heldBy (extents Q)) allPages c) →
      (∀ p, pool.pfns.FreePfn p ↔ s.pool.pfns.FreePfn p) → pool.ptes = s.pool.ptes →
      FailsCleanly head s (.allocate poolType size tag) ∧
        ∃ Q' used' R', Laid head base count others allPages Q' used' R' (s.step head (.allocate poolType size tag)) := by
    intro pool hret hmem hcounters hmapped hfree hptes
    constructor
    · intro pool' hret'
      obtain rfl : pool = pool' := congrArg Prod.snd (Option.some.inj (hret.symm.trans hret'))
      exact ⟨hmem, hcounters, hfree, fun k => by rw [hptes], by rw [hptes]⟩
    · refine ⟨Q, used, R, ?_⟩
      rw [step, hret]
      simp only [if_true]
      exact
        { h with
          rings := hmem ▸ h.rings
          ready := hptes ▸ h.ready
          baseVa := hptes ▸ h.baseVa
          pteCount := hptes ▸ h.pteCount
          mapped := by
            rw [hptes]
            exact hmapped
          holds := hmem ▸ h.holds
          totalPages := hcounters ▸ h.totalPages
          freeBytes := hcounters ▸ h.freeBytes
          usedBytes := hcounters ▸ h.usedBytes }
  by_cases hzero : size = 0
  · refine hnull s.pool ?_ rfl rfl h.mapped (fun _ => Iff.rfl) rfl
    rw [ntPoolAllocate, if_pos hzero]
  cases hinitialized : s.pool.initialized poolType.isPaged with
  | false =>
    refine hnull s.pool ?_ rfl rfl h.mapped (fun _ => Iff.rfl) rfl
    rw [ntPoolAllocate, if_neg hzero]
    simp [hinitialized]
  | true =>
    obtain ⟨hlt, hempty, hfits⟩ := hspared hzero hinitialized
    obtain ⟨hpos, hsize⟩ := blocksNeededFor_spec hlt
    have heq : s.pool.ntPoolAllocate head poolType size tag = _ := ntPoolAllocate_eq hzero hinitialized (findList_none hempty)
    cases hpfn : miAllocatePfn s.pool.pfns with
    | none =>
      refine hnull s.pool ?_ rfl rfl h.mapped (fun _ => Iff.rfl) rfl
      rw [heq, allocateNewPoolPage, hpfn]
      rfl
    | some out =>
      obtain ⟨pfn, pfns⟩ := out
      rcases h.reserve_cases hpfn with hnone | ⟨k, ptes, hreserve, hpage⟩
      · obtain ⟨hmapped, hfree⟩ := h.returned hpfn
        refine hnull { s.pool with pfns := miFreePfn pfns pfn } ?_ rfl rfl hmapped hfree rfl
        rw [heq, allocateNewPoolPage, hpfn]
        simp only [hnone]
        rfl
      · have hn : blocksNeededFor size + minBlocks < availableBlocks ∨ blocksNeededFor size = availableBlocks := by
          rcases hfits with hnone | hnone | hfits
          · exact absurd (h.freePfn_of_allocated hpfn) (hnone pfn)
          · exact absurd (h.free_of_newPage hpage) (hnone k)
          · exact hfits
        rw [allocateNewPoolPage_eq hpfn hreserve hpage.positive (by omega), Option.bind_some] at heq
        have hptr : pageAt base k + pageHeaderSize + poolHeaderSize ≠ 0 := by
          unfold poolHeaderSize
          omega
        simp only [if_neg hptr] at heq
        constructor
        · intro pool hret
          rw [heq] at hret
          exact absurd (congrArg Prod.fst (Option.some.inj hret)) hptr
        · rw [step, heq]
          simp only [if_neg hptr]
          refine ⟨_, _, _, h.allocated hpage hpos hn hsize tag rfl rfl rfl (fun b hb => ?_) ?_ ?_ ?_⟩
          · simp only [modifyCounters, update_of_ne hb]
          · simp only [modifyCounters, update_self]
          · simp only [modifyCounters, update_self]
          · simp only [modifyCounters, update_self]

end Laid

/-! ### Runs -/

variable (head) in
/-- The pools before they are initialised; `others` are the reservations made so far. Heads of lists
meet neither each other nor pages. -/
structure Start (σ : NtPool) (others : List Extent) : Prop where
  apart : ∀ i j, i = j ∨ head i + 16 ≤ head j ∨ head j + 16 ≤ head i
  lt : ∀ i, head i < 2 ^ 64
  outside : ∀ i, head i + 16 ≤ σ.ptes.baseVa ∨ σ.ptes.baseVa + σ.ptes.pteCount * pageSize ≤ head i
  ready : ∃ cs, Ready σ.ptes cs others
  lists : ∃ c, Lists σ.pfns c
  end_le : σ.pfns.endPfn ≤ 2 ^ 40
  counters : ∀ paged, σ.counters paged = ⟨0, 0, 0, 0, 0⟩

variable {σ : NtPool} {others : List Extent} {calls : List NtPoolCall}

theorem Start.rings (h : Start head σ others) : Rings (σ.ntPoolInit head).mem head fun _ => [] := rings_ntPoolInit h.apart h.lt

theorem Start.laid (h : Start head σ others) :
    Laid head σ.ptes.baseVa σ.ptes.pteCount others {p | σ.pfns.FreePfn p} [] (fun _ => 0) (fun _ => []) ⟨σ.ntPoolInit head, []⟩ := by
  obtain ⟨c, hlists⟩ := h.lists
  have hnone : heldBy (extents []) = ∅ := by
    ext k
    constructor
    · rintro ⟨r, hr, -⟩
      exact (not_mem_nil hr).elim
    · exact fun hk => hk.elim
  have hmapped : Mapped σ.pfns σ.ptes.pte (heldBy (extents [])) {p | σ.pfns.FreePfn p} c := by
    rw [hnone]
    refine ⟨hlists, h.end_le, fun k hk => hk.elim, fun k hk => hk.elim, fun k hk => hk.elim, fun k hk => hk.elim, fun p => ?_⟩
    rw [Set.mem_ofPred_eq, PfnState.FreePfn, hlists.onList_iff, hlists.onList_iff]
    refine ⟨Or.inl, fun hp => hp.resolve_right ?_⟩
    rintro ⟨k, hk, -⟩
    exact hk.elim
  exact
    { rings := h.rings
      outside := h.outside
      ready := h.ready
      baseVa := rfl
      pteCount := rfl
      mapped := ⟨c, hmapped⟩
      pageList := fun _ => rfl
      entries := fun _ _ _ => by simp [pagesOf]
      fits := fun _ k hk => by cases hk
      holds := fun _ k hk => by cases hk
      live := fun u hu => by cases hu
      owned := fun _ k hk => by cases hk
      totalPages := fun paged => congrArg PoolCounters.totalPages (h.counters paged)
      freeBytes := fun paged => congrArg PoolCounters.freeBytes (h.counters paged)
      usedBytes := fun paged => congrArg PoolCounters.usedBytes (h.counters paged) }

theorem Laid.step {base count : ℕ} {allPages : Set ℕ} {Q : List (Bool × ℕ)} {used : ℕ → ℕ} {R : ListId → List ℕ} {s : NtPoolClients}
    {call : NtPoolCall} (h : Laid head base count others allPages Q used R s) (hlegal : s.Legal call) (hspared : s.Spared head call) :
    FailsCleanly head s call ∧ ∃ Q' used' R', Laid head base count others allPages Q' used' R' (s.step head call) := by
  cases call with
  | allocate poolType size tag => exact h.allocate hspared
  | free ptr tag => exact ⟨trivial, Q, h.free hlegal hspared⟩
  | store address bytes => exact ⟨trivial, Q, used, R, h.store hlegal⟩

/-- In every run of spared calls, a failing allocation changes nothing, the counters are the bytes
of the pages and of the free lists, and without blocks every page is one free block. -/
theorem conserves_of_spared (h₀ : Start head σ others)
    (hcalls : EveryStep (step head) (fun s call => s.Legal call ∧ s.Spared head call) ⟨σ.ntPoolInit head, []⟩ calls) :
    EveryStep (step head) (FailsCleanly head) ⟨σ.ntPoolInit head, []⟩ calls ∧
      EveryState (step head) (Balanced head) ⟨σ.ntPoolInit head, []⟩ calls := by
  have hkeep : ∀ s call,
      (∃ Q used R, Laid head σ.ptes.baseVa σ.ptes.pteCount others {p | σ.pfns.FreePfn p} Q used R s) →
      s.Legal call ∧ s.Spared head call →
      ∃ Q used R, Laid head σ.ptes.baseVa σ.ptes.pteCount others {p | σ.pfns.FreePfn p} Q used R (s.step head call) :=
    fun _ _ ⟨_, _, _, hlaid⟩ hcall => (hlaid.step hcall.1 hcall.2).2
  constructor
  · refine everyStep_of_invariant hkeep (fun s call hlaid hcall => ?_) ⟨_, _, _, h₀.laid⟩ hcalls
    obtain ⟨Q, used, R, hlaid⟩ := hlaid
    exact (hlaid.step hcall.1 hcall.2).1
  · refine (everyState_invariant hkeep ⟨_, _, _, h₀.laid⟩ hcalls).imp fun s hlaid => ?_
    obtain ⟨Q, used, R, hlaid⟩ := hlaid
    exact hlaid.balanced

def lowHead : ListId → ℕ
  | .free paged i => 0x1000 + (if paged then 0x400 else 0) + 16 * i
  | .pages paged => 0x1200 + if paged then 0x400 else 0

def twoPagePool : NtPool where
  mem := ⟨fun _ => 0, []⟩
  initialized _ := false
  counters _ := ⟨0, 0, 0, 0, 0⟩
  pfns := PoolClients.twoPages.pfns
  ptes := PoolClients.twoPages.ptes

theorem lowHead_bounds (l : ListId) : 0x1000 ≤ lowHead l ∧ lowHead l < 0x2000 := by
  cases l with
  | free paged i =>
    have hi := i.isLt
    unfold numFreeLists at hi
    simp only [lowHead]
    split <;> omega
  | pages paged => cases paged <;> decide

theorem start_twoPagePool : Start lowHead twoPagePool [] := by
  obtain ⟨hready, hbase, hlists, hend, -⟩ := PoolClients.start_twoPages
  refine ⟨fun i j => ?_, fun i => ?_, fun i => Or.inl ?_, hready, hlists, hend, fun _ => rfl⟩
  · cases i with
    | free b i =>
      have hi := i.isLt
      unfold numFreeLists at hi
      cases j with
      | free b' j =>
        have hj := j.isLt
        unfold numFreeLists at hj
        simp only [lowHead, ListId.free.injEq, Fin.ext_iff]
        cases b <;> cases b' <;> simp <;> omega
      | pages b' =>
        simp only [lowHead]
        cases b <;> cases b' <;> simp <;> omega
    | pages b =>
      cases j with
      | free b' j =>
        have hj := j.isLt
        unfold numFreeLists at hj
        simp only [lowHead]
        cases b <;> cases b' <;> simp <;> omega
      | pages b' => cases b <;> cases b' <;> decide
  · exact (lowHead_bounds i).2.trans (by decide)
  · have hlow := (lowHead_bounds i).2
    have hstart : twoPagePool.ptes.baseVa = mmSystemPteStart := hbase
    rw [hstart]
    unfold mmSystemPteStart
    omega

/-- A whole page is allocated, written to and freed, then the other pool takes the second page and finds none. -/
theorem conserves_wholePages :
    EveryStep (step lowHead) (FailsCleanly lowHead) ⟨twoPagePool.ntPoolInit lowHead, []⟩
        [.allocate .nonPagedPool 4040 1, .store 0xFFFFF80000007040 [1, 2], .free 0xFFFFF80000007038 1, .allocate .pagedPool 4040 2,
          .allocate .pagedPool 4040 2] ∧
      EveryState (step lowHead) (Balanced lowHead) ⟨twoPagePool.ntPoolInit lowHead, []⟩
        [.allocate .nonPagedPool 4040 1, .store 0xFFFFF80000007040 [1, 2], .free 0xFFFFF80000007038 1, .allocate .pagedPool 4040 2,
          .allocate .pagedPool 4040 2] := by
  refine conserves_of_spared start_twoPagePool ⟨⟨trivial, ?_⟩, ⟨?_, trivial⟩, ⟨Or.inr ?_, ?_⟩, ⟨trivial, ?_⟩, ⟨trivial, ?_⟩, trivial⟩
  · exact fun _ _ => ⟨by decide +kernel, by decide +kernel, Or.inr (Or.inr (Or.inr (by decide +kernel)))⟩
  · exact ⟨⟨0xFFFFF80000007038, 4040⟩, by decide +kernel, by decide, by decide⟩
  · exact ⟨⟨0xFFFFF80000007038, 4040⟩, by decide +kernel, rfl⟩
  · exact fun _ _ => by decide +kernel
  · exact fun _ _ => ⟨by decide +kernel, by decide +kernel, Or.inr (Or.inr (Or.inr (by decide +kernel)))⟩
  · exact fun _ _ => ⟨by decide +kernel, by decide +kernel, Or.inr (Or.inr (Or.inr (by decide +kernel)))⟩

/-- A block that no page can hold keeps its page; a freed block of seven units has those of its
neighbour counted twice. -/
theorem oversized_keepsPage :
    Start lowHead twoPagePool [] ∧
      ((twoPagePool.ntPoolInit lowHead).ntPoolAllocate lowHead .nonPagedPool 5000 0).map
          (fun out => (out.1, (out.2.counters false).totalPages)) = some (0, 1) ∧
      ¬ EveryStep (step lowHead) (FailsCleanly lowHead) ⟨twoPagePool.ntPoolInit lowHead, []⟩ [.allocate .nonPagedPool 5000 0] ∧
      EveryStep (step lowHead) Legal ⟨twoPagePool.ntPoolInit lowHead, []⟩
        [.allocate .nonPagedPool 100 1, .free 0xFFFFF80000007038 1] ∧
      ¬ EveryState (step lowHead) (Balanced lowHead) ⟨twoPagePool.ntPoolInit lowHead, []⟩
        [.allocate .nonPagedPool 100 1, .free 0xFFFFF80000007038 1] := by
  have hret : ((twoPagePool.ntPoolInit lowHead).ntPoolAllocate lowHead .nonPagedPool 5000 0).map
      (fun out => (out.1, (out.2.counters false).totalPages)) = some (0, 1) := by decide +kernel
  refine ⟨start_twoPagePool, hret, fun hall => ?_, ⟨trivial, Or.inr ⟨⟨0xFFFFF80000007038, 100⟩, by decide +kernel, rfl⟩, trivial⟩,
    fun hall => ?_⟩
  · obtain ⟨⟨ptr, pool⟩, hpool, hout⟩ := Option.map_eq_some_iff.1 hret
    obtain ⟨rfl, hpages⟩ := Prod.mk.inj hout
    have hsame := (hall.1 pool hpool).2.1
    rw [hsame] at hpages
    exact absurd hpages (by decide)
  · have hbytes := hall.2.2.bytes false
    exact absurd hbytes (by decide +kernel)

end NtPoolClients

end XenOS.Ex
