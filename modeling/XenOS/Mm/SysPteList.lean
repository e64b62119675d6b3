import XenOS.General.Extents
import XenOS.General.Walk
import XenOS.Mm.SysPte

/-! The free list of the system page table entries, read as a list of extents, and
what storing a link does to it. -/

namespace XenOS.Mm

open General SysPtes Extent
open List (map_append map_cons mem_cons mem_map)

def IsCluster (pte : ℕ → BitVec 64) (r : Extent) : Prop :=
  if r.2 = 1 then isOneEntry (pte r.1) = true
  else isOneEntry (pte r.1) = false ∧ decodeNextEntry (pte (r.1 + 1)) = r.2

structure FreeList (s : SysPtes) (cs : List Extent) : Prop where
  walk : Walk mmEmptyList s.blockNext s.freeListHead (cs.map Prod.fst)
  clusters : ∀ r ∈ cs, IsCluster s.pte r

def firstOf (cs : List Extent) : ℕ := (cs.map Prod.fst).headD mmEmptyList

/-- The last cluster of a list, or `mmEmptyList`. -/
def lastOf (cs : List Extent) : ℕ := (cs.map Prod.fst).getLastD mmEmptyList

@[simp] theorem firstOf_cons (r : Extent) (cs : List Extent) : firstOf (r :: cs) = r.1 := rfl

@[simp] theorem lastOf_nil : lastOf [] = mmEmptyList := rfl

@[simp] theorem lastOf_concat (cs : List Extent) (r : Extent) : lastOf (cs ++ [r]) = r.1 := by
  simp [lastOf]

structure SameRegion (s s' : SysPtes) : Prop where
  initialized : s'.initialized = s.initialized
  baseVa : s'.baseVa = s.baseVa
  pteCount : s'.pteCount = s.pteCount
  freeCount : s'.freeCount = s.freeCount

theorem SameRegion.refl (s : SysPtes) : SameRegion s s := ⟨rfl, rfl, rfl, rfl⟩

theorem SameRegion.trans {s s' s'' : SysPtes} (h : SameRegion s s') (h' : SameRegion s' s'') : SameRegion s s'' :=
  ⟨h'.initialized.trans h.initialized, h'.baseVa.trans h.baseVa, h'.pteCount.trans h.pteCount,
    h'.freeCount.trans h.freeCount⟩

section Stores
variable (s : SysPtes) (i n v prev : ℕ)

theorem sameRegion_writePte (value : BitVec 64) : SameRegion s (s.writePte i value) := ⟨rfl, rfl, rfl, rfl⟩

theorem sameRegion_setLink : SameRegion s (s.setLink prev v) := by
  unfold setLink
  split
  · exact ⟨rfl, rfl, rfl, rfl⟩
  · exact sameRegion_writePte s prev _

theorem sameRegion_clearCluster : SameRegion s (s.clearCluster i n) := by
  unfold clearCluster
  dsimp only
  split
  · exact (sameRegion_writePte s i 0).trans (sameRegion_writePte _ _ _)
  · exact sameRegion_writePte s i 0

theorem sameRegion_initFreeCluster : SameRegion s (s.initFreeCluster i n v) := by
  unfold initFreeCluster
  split
  · exact sameRegion_writePte s i _
  · exact (sameRegion_writePte s i _).trans (sameRegion_writePte _ _ _)

end Stores

section
variable {s s' : SysPtes} {cs as bs : List Extent} {r : Extent} {v prev : ℕ}

theorem getClusterSize_of_isCluster (h : IsCluster s.pte r) : s.getClusterSize r.1 = r.2 := by
  unfold IsCluster at h
  unfold getClusterSize
  split at h
  · rw [if_pos h]
    exact Eq.symm ‹_›
  · rw [h.1]
    exact h.2

theorem IsCluster.congr {pte pte' : ℕ → BitVec 64} (hr : 0 < r.2) (h : IsCluster pte r)
    (hpte : ∀ k, r.Contains k → pte' k = pte k) : IsCluster pte' r := by
  have hfirst := hpte r.1 (contains_start hr)
  unfold IsCluster at h ⊢
  split at h
  · rename_i h1
    rwa [if_pos h1, hfirst]
  · rename_i h1
    have hsecond := hpte (r.1 + 1) (by simp only [Contains, stop]; omega)
    rwa [if_neg h1, hfirst, hsecond]

theorem FreeList.frame (h : FreeList s cs) (hpos : ∀ r ∈ cs, 0 < r.2) (hhead : s'.freeListHead = s.freeListHead)
    (hpte : ∀ r ∈ cs, ∀ k, r.Contains k → s'.pte k = s.pte k) : FreeList s' cs where
  walk := by
    rw [hhead]
    refine h.walk.congr fun i hi => ?_
    obtain ⟨r, hr, rfl⟩ := mem_map.1 hi
    unfold blockNext
    rw [hpte r hr r.1 (contains_start (hpos r hr))]
  clusters r hr := (h.clusters r hr).congr (hpos r hr) (hpte r hr)

theorem blockNext_setLink (hv : v < 2 ^ 32) : (s.setLink prev v).blockNext =
    if prev = mmEmptyList then s.blockNext else Function.update s.blockNext prev v := by
  unfold setLink
  split
  · rfl
  · funext k
    by_cases hk : k = prev
    · subst hk
      simp [blockNext, setBlockNext, writePte, decodeNextEntry_setNextEntry _ hv]
    · simp [blockNext, setBlockNext, writePte, hk]

theorem freeListHead_setLink : (s.setLink prev v).freeListHead = if prev = mmEmptyList then v else s.freeListHead := by
  unfold setLink
  split <;> rfl

theorem pte_setLink_of_ne {k : ℕ} (hk : k ≠ prev) : (s.setLink prev v).pte k = s.pte k := by
  unfold setLink
  split
  · rfl
  · exact Function.update_of_ne hk _ _

theorem isOneEntry_setLink (k : ℕ) : isOneEntry ((s.setLink prev v).pte k) = isOneEntry (s.pte k) := by
  by_cases hk : k = prev
  · subst hk
    unfold setLink
    split
    · rfl
    · simp [setBlockNext, writePte, isOneEntry_setNextEntry]
  · rw [pte_setLink_of_ne hk]

theorem IsCluster.setLink (h : IsCluster s.pte r) (hprev : r.2 = 1 ∨ r.1 + 1 ≠ prev) :
    IsCluster (s.setLink prev v).pte r := by
  unfold IsCluster at h ⊢
  split at h
  · rename_i h1
    rwa [if_pos h1, isOneEntry_setLink]
  · rename_i h1
    rwa [if_neg h1, isOneEntry_setLink, pte_setLink_of_ne (hprev.resolve_left h1)]

theorem setLink_apart (hsep : Separate cs) (hr : r ∈ cs) (hprev : prev = mmEmptyList ∨ ∃ q ∈ cs, q.1 = prev)
    (hlt : r.1 + 1 < mmEmptyList) : r.2 = 1 ∨ r.1 + 1 ≠ prev := by
  by_cases h1 : r.2 = 1
  · exact Or.inl h1
  refine Or.inr fun he => ?_
  rcases hprev with rfl | ⟨q, hq, rfl⟩
  · omega
  · have hrpos := hsep.pos r hr
    have hcontains : r.Contains q.1 := by
      simp only [Contains, stop]
      omega
    have := hsep.eq_of_contains hr hq hcontains (contains_start (hsep.pos q hq))
    rw [this] at he
    omega

theorem lastOf_mem (hs : ∀ q ∈ as, q ∈ cs) : lastOf as = mmEmptyList ∨ ∃ q ∈ cs, q.1 = lastOf as := by
  rcases List.eq_nil_or_concat as with rfl | ⟨as, q, rfl⟩
  · exact Or.inl rfl
  · exact Or.inr ⟨q, hs q (by simp), by simp⟩

theorem FreeList.ne_end (h : FreeList s cs) (hr : r ∈ cs) : r.1 ≠ mmEmptyList :=
  fun e => h.walk.2 (mem_map.2 ⟨r, hr, e⟩)

theorem FreeList.first_eq (h : FreeList s cs) : s.freeListHead = firstOf cs := h.walk.head_eq

theorem FreeList.next_eq (h : FreeList s (as ++ r :: bs)) : s.blockNext r.1 = firstOf bs := by
  have hw := h.walk
  rw [map_append, map_cons] at hw
  exact hw.next_eq

theorem FreeList.link_eq (h : FreeList s (as ++ bs)) : s.link (lastOf as) = firstOf bs := by
  unfold link
  rcases List.eq_nil_or_concat as with rfl | ⟨as, q, rfl⟩
  · simpa using h.first_eq
  · have h' : FreeList s (as ++ q :: bs) := by simpa using h
    have hq : q.1 ≠ mmEmptyList := h'.ne_end (by simp)
    rw [List.concat_eq_append, lastOf_concat, if_neg hq, h'.next_eq]

theorem FreeList.unlink (h : FreeList s (as ++ r :: bs)) (hsep : Separate (as ++ r :: bs))
    (hlt : ∀ q ∈ as ++ r :: bs, q.1 + 1 < mmEmptyList) :
    FreeList (s.setLink (lastOf as) (s.blockNext r.1)) (as ++ bs) where
  walk := by
    have hw := h.walk
    rw [map_append, map_cons] at hw
    have hnext : s.blockNext r.1 < 2 ^ 32 := decodeNextEntry_lt _
    rw [blockNext_setLink hnext, freeListHead_setLink, map_append]
    exact hw.cut
  clusters q hq := by
    have hq' : q ∈ as ++ r :: bs := by
      simp only [List.mem_append, mem_cons] at hq ⊢
      tauto
    exact (h.clusters q hq').setLink (setLink_apart hsep hq' (lastOf_mem (by simp; tauto)) (hlt q hq'))

theorem FreeList.link (h : FreeList s (as ++ bs)) (hr : IsCluster s.pte r) (hnext : s.blockNext r.1 = firstOf bs)
    (hsep : Separate (r :: (as ++ bs))) (hnew : r ∉ as ++ bs)
    (hlt : ∀ q ∈ r :: (as ++ bs), q.1 + 1 < mmEmptyList) :
    FreeList (s.setLink (lastOf as) r.1) (as ++ r :: bs) where
  walk := by
    have hw := h.walk
    rw [map_append] at hw
    have hr1 := hlt r (by simp)
    rw [blockNext_setLink (by unfold mmEmptyList at hr1; omega), freeListHead_setLink, map_append, map_cons]
    refine hw.insert ?_ (by omega) hnext
    rw [← map_append]
    intro hmem
    obtain ⟨q, hq, he⟩ := mem_map.1 hmem
    have hrpos := hsep.pos r (by simp)
    have hqpos := hsep.pos q (by simp [hq])
    have := hsep.eq_of_contains (by simp [hq]) (by simp) (contains_start hqpos)
      (he ▸ contains_start hrpos)
    exact hnew (this ▸ hq)
  clusters q hq := by
    have hq' : q ∈ r :: (as ++ bs) := by
      simp only [List.mem_append, mem_cons] at hq ⊢
      tauto
    have hcluster : IsCluster s.pte q := by
      rcases mem_cons.1 hq' with rfl | hq''
      · exact hr
      · exact h.clusters q hq''
    exact hcluster.setLink (setLink_apart hsep hq' (lastOf_mem (by simp; tauto)) (hlt q hq'))

end

end XenOS.Mm
