import XenOS.Mm.SysPteList

/-! What releasing and reserving do to the free list. A release walks it once and leaves behind only
clusters that do not touch the released pages; a reservation takes the tail of the first large
enough cluster and puts the rest back. -/

namespace XenOS.Mm

open General SysPtes Extent Function List Nat

section Entries
variable {s : SysPtes} {cs : List Extent} {r : Extent} {v : ℕ}

theorem pte_clearCluster {k : ℕ} (hk : ¬ r.Contains k) (hr : 0 < r.2) : (s.clearCluster r.1 r.2).pte k = s.pte k := by
  simp only [Contains, stop] at hk
  unfold clearCluster
  split
  · simp only [writePte]
    rw [update_of_ne (by omega), update_of_ne (by omega)]
  · exact update_of_ne (by omega) _ _

theorem pte_initFreeCluster {k : ℕ} (hk : ¬ r.Contains k) (hr : 0 < r.2) :
    (s.initFreeCluster r.1 r.2 v).pte k = s.pte k := by
  simp only [Contains, stop] at hk
  unfold initFreeCluster
  split
  · exact update_of_ne (by omega) _ _
  · simp only [writePte]
    rw [update_of_ne (by omega), update_of_ne (by omega)]

theorem freeListHead_clearCluster : (s.clearCluster r.1 r.2).freeListHead = s.freeListHead := by
  unfold clearCluster
  split <;> rfl

theorem freeListHead_initFreeCluster : (s.initFreeCluster r.1 r.2 v).freeListHead = s.freeListHead := by
  unfold initFreeCluster
  split <;> rfl

theorem isCluster_initFreeCluster (hsize : r.2 < 2 ^ 32) : IsCluster (s.initFreeCluster r.1 r.2 v).pte r := by
  unfold IsCluster initFreeCluster
  by_cases h1 : r.2 = 1
  · rw [if_pos h1, if_pos h1]
    simp [writePte, isOneEntry_encodeSinglePte]
  · rw [if_neg h1, if_neg h1]
    simp [writePte, isOneEntry_encodeClusterHeadPte, decodeNextEntry_encodeClusterSizePte hsize]

theorem blockNext_initFreeCluster (hv : v < 2 ^ 32) : (s.initFreeCluster r.1 r.2 v).blockNext r.1 = v := by
  unfold initFreeCluster
  split
  · simp [blockNext, writePte, decodeNextEntry_encodeSinglePte hv]
  · simp [blockNext, writePte, decodeNextEntry_encodeClusterHeadPte hv]

theorem FreeList.frame_extent {s' : SysPtes} (h : FreeList s cs) (hsep : Separate (r :: cs)) (hnew : r ∉ cs)
    (hhead : s'.freeListHead = s.freeListHead) (hpte : ∀ k, ¬ r.Contains k → s'.pte k = s.pte k) : FreeList s' cs := by
  refine h.frame (fun q hq => hsep.pos q (by simp [hq])) hhead fun q hq k hk => hpte k fun hrk => hnew ?_
  rw [hsep.eq_of_contains (by simp) (by simp [hq]) hrk hk]
  exact hq

end Entries

theorem mem_of_mem_cut {c q : Extent} {as bs : List Extent} (hq : q ∈ as ++ bs) : q ∈ as ++ c :: bs :=
  perm_middle.mem_iff.2 (mem_cons_of_mem c hq)

def SizeSorted (cs : List Extent) : Prop := cs.Pairwise fun q q' => q.2 ≤ q'.2

theorem SizeSorted.insert {c : Extent} {as bs : List Extent} (h : SizeSorted (as ++ bs)) (has : ∀ q ∈ as, q.2 ≤ c.2)
    (hbs : ∀ q ∈ bs, c.2 ≤ q.2) : SizeSorted (as ++ c :: bs) := by
  obtain ⟨ha, hb, hab⟩ := pairwise_append.1 h
  refine pairwise_append.2 ⟨ha, pairwise_cons.2 ⟨hbs, hb⟩, fun q hq q' hq' => ?_⟩
  rcases mem_cons.1 hq' with rfl | hq'
  · exact has q hq
  · exact hab q hq q' hq'

theorem SizeSorted.all_le {n : ℕ} {bs : List Extent} (h : SizeSorted bs) (hfirst : ∀ q ∈ bs.head?, n ≤ q.2) : ∀ q ∈ bs, n ≤ q.2 := by
  cases bs with
  | nil => exact fun q hq => by cases hq
  | cons b bs =>
    have hb := hfirst b rfl
    intro q hq
    rcases mem_cons.1 hq with rfl | hq
    · exact hb
    · exact hb.trans ((pairwise_cons.1 h).1 q hq)

theorem tiles_lt {N : ℕ} {l : List Extent} {q : Extent} (h : Tiles N l) (hN : N ≤ maxSystemPtes) (hq : q ∈ l) :
    q.1 + 1 < mmEmptyList := by
  have hpos := h.pos q hq
  have hstop := h.stop_le hq
  simp only [stop, maxSystemPtes, mmEmptyList] at *
  omega

theorem firstOf_lt {bs : List Extent} (hlt : ∀ q ∈ bs, q.1 + 1 < mmEmptyList) : firstOf bs < 2 ^ 32 := by
  cases bs with
  | nil => decide
  | cons q bs =>
    have := hlt q (by simp)
    simp only [firstOf_cons, mmEmptyList] at this ⊢
    omega

/-! ### The walk of a release -/

namespace Release
variable {N : ℕ} {s : SysPtes} {res : List Extent} {r : Release} {ks todo : List Extent} {c : Extent}

def released (r : Release) : Extent := (r.startIndex, r.count)

/-- The walk has passed the clusters `ks`, none of which touches the released pages, and
has the clusters `todo` before it. -/
structure Walked (N : ℕ) (s : SysPtes) (res : List Extent) (r : Release) (ks todo : List Extent) : Prop where
  region : SameRegion s r.ptes
  free : FreeList r.ptes (ks ++ todo)
  tiles : Tiles N (r.released :: (ks ++ todo ++ res))
  coalesced : Coalesced (ks ++ todo)
  passed : ∀ k ∈ ks, k.stop ≠ r.released.1 ∧ r.released.stop ≠ k.1
  prev : r.prev = lastOf ks
  current : r.current = firstOf todo
  after : ∃ as bs, ks = as ++ bs ∧ r.insertAfter = lastOf as

theorem Walked.separate (h : Walked N s res r ks todo) : Separate (r.released :: (ks ++ todo)) :=
  h.tiles.separate.mono fun _ hq => mem_append_left res hq

theorem Walked.lt (h : Walked N s res r ks todo) (hN : N ≤ maxSystemPtes) :
    ∀ q ∈ r.released :: (ks ++ todo), q.1 + 1 < mmEmptyList :=
  fun _ hq => tiles_lt h.tiles hN (mem_append_left res hq)

def joined (r : Release) (c : Extent) : Extent :=
  (if c.1 < r.startIndex then c.1 else r.startIndex, r.count + c.2)

theorem turn_join (hc : r.current = c.1) (hsize : r.ptes.getClusterSize c.1 = c.2)
    (hadj : c.stop = r.released.1 ∨ r.released.stop = c.1) :
    r.turn =
      { ptes := (r.ptes.setLink r.prev (r.ptes.blockNext c.1)).clearCluster c.1 c.2
        startIndex := (r.joined c).1
        count := (r.joined c).2
        prev := r.prev
        insertAfter := mmEmptyList
        current := ((r.ptes.setLink r.prev (r.ptes.blockNext c.1)).clearCluster c.1 c.2).link r.prev } := by
  simp only [turn, hc, hsize]
  exact if_pos hadj

theorem turn_pass (hc : r.current = c.1) (hsize : r.ptes.getClusterSize c.1 = c.2)
    (hadj : ¬ (c.stop = r.released.1 ∨ r.released.stop = c.1)) :
    r.turn =
      { r with
        prev := c.1
        insertAfter := if r.insertAfter = mmEmptyList ∧ r.count ≤ c.2 then r.prev else r.insertAfter
        current := r.ptes.blockNext c.1 } := by
  simp only [turn, hc, hsize]
  exact if_neg hadj

section
variable (h : Walked N s res r ks (c :: todo))
include h

theorem Walked.tiles_join
    (hadj : c.stop = r.released.1 ∨ r.released.stop = c.1) : Tiles N (r.joined c :: (ks ++ todo ++ res)) := by
  have hc : 0 < c.2 := h.tiles.pos c (by simp)
  have hr : 0 < r.count := h.tiles.pos r.released (by simp)
  obtain ⟨i, n⟩ := c
  have hperm : (r.released :: (ks ++ (i, n) :: todo ++ res)).Perm (r.released :: (i, n) :: (ks ++ todo ++ res)) := by
    simp
  have ht := h.tiles.perm hperm
  simp only [stop, released, joined] at *
  rcases hadj with hadj | hadj
  · rw [if_pos (by omega), add_comm r.count]
    rw [← hadj] at ht
    exact (ht.perm (Perm.swap _ _ _)).join
  · rw [if_neg (by omega)]
    rw [← hadj] at ht
    exact ht.join

theorem Walked.passed_join
    (hadj : c.stop = r.released.1 ∨ r.released.stop = c.1) :
    ∀ k ∈ ks, k.stop ≠ (r.joined c).1 ∧ (r.joined c).stop ≠ k.1 := by
  intro k hk
  have hc : 0 < c.2 := h.tiles.pos c (by simp)
  obtain ⟨h1, h2⟩ := h.passed k hk
  have h3 := h.coalesced k (by simp [hk]) c (by simp)
  have h4 := h.coalesced c (by simp) k (by simp [hk])
  simp only [stop, released, joined] at *
  rcases hadj with hadj | hadj
  · rw [if_pos (by omega)]
    omega
  · rw [if_neg (by omega)]
    omega

theorem Walked.turn (hN : N ≤ maxSystemPtes) :
    Walked N s res r.turn (if c.stop = r.released.1 ∨ r.released.stop = c.1 then ks else ks ++ [c]) todo := by
  have hsize := getClusterSize_of_isCluster (h.free.clusters c (by simp))
  have hcur : r.current = c.1 := h.current
  have hsep := h.separate
  have hlt : ∀ q ∈ ks ++ c :: todo, q.1 + 1 < mmEmptyList := fun q hq => h.lt hN q (mem_cons_of_mem _ hq)
  by_cases hadj : c.stop = r.released.1 ∨ r.released.stop = c.1
  · rw [turn_join hcur hsize hadj, if_pos hadj]
    have hcut := h.free.unlink (hsep.mono fun q hq => mem_cons_of_mem _ hq) hlt
    rw [← h.prev] at hcut
    have htiles : Tiles N (c :: (ks ++ todo ++ (res ++ [r.released]))) := by
      refine h.tiles.perm ?_
      rw [perm_iff_count]
      intro q
      simp only [count_cons, count_append, count_nil]
      omega
    have hfree : FreeList ((r.ptes.setLink r.prev (r.ptes.blockNext c.1)).clearCluster c.1 c.2) (ks ++ todo) := by
      refine hcut.frame_extent (r := c) (htiles.separate.mono fun q hq => mem_append_left _ hq) (fun hmem => ?_)
        freeListHead_clearCluster fun k hk => pte_clearCluster hk (hsep.pos c (by simp))
      exact (nodup_cons.1 htiles.nodup).1 (mem_append_left _ hmem)
    exact
      { region := h.region.trans ((sameRegion_setLink _ _ _).trans (sameRegion_clearCluster _ _ _))
        free := hfree
        tiles := h.tiles_join hadj
        coalesced := h.coalesced.mono fun _ => mem_of_mem_cut
        passed := h.passed_join hadj
        prev := h.prev
        current := by
          rw [h.prev] at hfree ⊢
          exact hfree.link_eq
        after := ⟨[], ks, rfl, rfl⟩ }
  · rw [turn_pass hcur hsize hadj, if_neg hadj]
    have hall : ks ++ [c] ++ todo = ks ++ c :: todo := by simp
    obtain ⟨as, bs, hks, hafter⟩ := h.after
    refine
      { region := h.region
        free := hall ▸ h.free
        tiles := hall ▸ h.tiles
        coalesced := hall ▸ h.coalesced
        passed := fun k hk => ?_
        prev := (lastOf_concat ks c).symm
        current := h.free.next_eq
        after := ?_ }
    · rcases mem_append.1 hk with hk | hk
      · exact h.passed k hk
      · obtain rfl := mem_singleton.1 hk
        exact not_or.1 hadj
    · dsimp only
      split
      · exact ⟨ks, [c], rfl, h.prev⟩
      · exact ⟨as, bs ++ [c], by simp [hks], hafter⟩

end

theorem Walked.loop (hN : N ≤ maxSystemPtes) (todo : List Extent) :
    ∀ {r : Release} {ks : List Extent} {fuel : ℕ}, Walked N s res r ks todo → todo.length < fuel →
      ∃ r' ks', Release.loop fuel r = some r' ∧ Walked N s res r' ks' [] := by
  induction todo with
  | nil =>
    intro r ks fuel h hfuel
    obtain ⟨fuel, rfl⟩ := exists_eq_add_one.2 hfuel
    exact ⟨r, ks, if_pos h.current, h⟩
  | cons c todo ih =>
    intro r ks fuel h hfuel
    obtain ⟨fuel, rfl⟩ := exists_eq_add_one.2 (zero_lt_of_lt hfuel)
    have hne : r.current ≠ mmEmptyList := h.current ▸ h.free.ne_end (r := c) (by simp)
    rw [Release.loop, if_neg hne]
    exact ih (h.turn hN) (by simpa using hfuel)

theorem Walked.insert_after {as bs : List Extent} (h : Walked N s res r ks []) (hN : N ≤ maxSystemPtes) (hks : ks = as ++ bs)
    (hafter : (if r.insertAfter = mmEmptyList then r.prev else r.insertAfter) = lastOf as) :
    SameRegion s r.insert ∧ FreeList r.insert (as ++ r.released :: bs) ∧ Tiles N (as ++ r.released :: bs ++ res) ∧
      Coalesced (as ++ r.released :: bs) := by
  have hfree : FreeList r.ptes (as ++ bs) := by simpa [hks] using h.free
  have hsep : Separate (r.released :: (as ++ bs)) := by simpa [hks] using h.separate
  have hnew : r.released ∉ as ++ bs := fun hmem =>
    (nodup_cons.1 h.tiles.nodup).1 (by rw [append_nil, hks]; exact mem_append_left _ hmem)
  have hlt : ∀ q ∈ r.released :: (as ++ bs), q.1 + 1 < mmEmptyList := by simpa [hks] using h.lt hN
  have hcount : r.count < 2 ^ 32 := by
    have hstop := h.tiles.stop_le (r := r.released) (by simp)
    simp only [stop, released, maxSystemPtes] at hstop hN
    omega
  have hnext : firstOf bs < 2 ^ 32 := firstOf_lt fun q hq => hlt q (by simp [hq])
  have hpos := hsep.pos r.released (by simp)
  have hinit : FreeList (r.ptes.initFreeCluster r.released.1 r.released.2 (firstOf bs)) (as ++ bs) :=
    hfree.frame_extent hsep hnew freeListHead_initFreeCluster fun k hk => pte_initFreeCluster hk hpos
  have hinsert : r.insert =
      (r.ptes.initFreeCluster r.released.1 r.released.2 (firstOf bs)).setLink (lastOf as) r.released.1 := by
    rw [← hfree.link_eq, ← hafter]
    rfl
  rw [hinsert]
  refine ⟨h.region.trans ((sameRegion_initFreeCluster _ _ _ _).trans (sameRegion_setLink _ _ _)),
    hinit.link (isCluster_initFreeCluster hcount) (blockNext_initFreeCluster hnext) hsep hnew hlt,
    h.tiles.perm ?_, ?_⟩
  · rw [hks]
    simpa using perm_middle.symm
  · have hperm : ∀ q ∈ as ++ r.released :: bs, q ∈ r.released :: ks := fun q hq => by
      rw [hks]
      exact perm_middle.mem_iff.1 hq
    refine Coalesced.mono ?_ hperm
    refine (coalesced_cons hpos).2 ⟨by simpa using h.coalesced, h.passed⟩

theorem Walked.insert (h : Walked N s res r ks []) (hN : N ≤ maxSystemPtes) :
    ∃ cs, SameRegion s r.insert ∧ FreeList r.insert cs ∧ Tiles N (cs ++ res) ∧ Coalesced cs := by
  -- the place is a prefix of the clusters, all of them if none was remembered
  obtain ⟨as, bs, hks, hafter⟩ : ∃ as bs, ks = as ++ bs ∧
      (if r.insertAfter = mmEmptyList then r.prev else r.insertAfter) = lastOf as := by
    by_cases he : r.insertAfter = mmEmptyList
    · exact ⟨ks, [], by simp, by rw [if_pos he, h.prev]⟩
    · rw [if_neg he]
      exact h.after
  exact ⟨_, h.insert_after hN hks hafter⟩

end Release

section
variable {N : ℕ} {s : SysPtes} {as bs cs res : List Extent} {c : Extent} {count : ℕ}

theorem walked_start (hfree : FreeList s cs) (ht : Tiles N (c :: (cs ++ res))) (hcs : Coalesced cs) :
    Release.Walked N s res ⟨s, c.1, c.2, mmEmptyList, mmEmptyList, s.freeListHead⟩ [] cs where
  region := SameRegion.refl s
  free := hfree
  tiles := ht
  coalesced := hcs
  passed _ hk := absurd hk not_mem_nil
  prev := rfl
  current := hfree.first_eq
  after := ⟨[], [], rfl, rfl⟩

theorem length_lt_pteCount (ht : Tiles N (c :: (cs ++ res))) (hpc : s.pteCount = N) : cs.length < s.pteCount + 1 := by
  have htotal := ht.totalLength_eq
  have hle := length_le_totalLength (l := cs) fun q hq => ht.pos q (by simp [hq])
  rw [totalLength_cons, totalLength_append] at htotal
  omega

theorem releasePtesWithCoalescing_spec (hfree : FreeList s cs) (ht : Tiles N (c :: (cs ++ res))) (hcs : Coalesced cs)
    (hN : N ≤ maxSystemPtes) (hpc : s.pteCount = N) :
    ∃ s' cs', releasePtesWithCoalescing s c.1 c.2 = some s' ∧ SameRegion s s' ∧ FreeList s' cs' ∧
      Tiles N (cs' ++ res) ∧ Coalesced cs' := by
  have hstart := walked_start hfree ht hcs
  have hlen := length_lt_pteCount ht hpc
  obtain ⟨r, ks, hloop, hr⟩ := hstart.loop hN cs hlen
  obtain ⟨cs', hregion, hfree', ht', hcs'⟩ := hr.insert hN
  refine ⟨r.insert, cs', ?_, hregion, hfree', ht', hcs'⟩
  rw [releasePtesWithCoalescing, hloop]
  rfl

/-! ### Reservation -/

/-- The search ends between two parts of the list, where the clusters are no longer smaller. -/
theorem sortedPosition_spec (size : ℕ) (bs : List Extent) :
    ∀ {as : List Extent} {fuel : ℕ}, FreeList s (as ++ bs) → (∀ q ∈ as, q.2 < size) → bs.length < fuel →
      ∃ as' bs', as ++ bs = as' ++ bs' ∧ (∀ q ∈ as', q.2 < size) ∧ (∀ q ∈ bs'.head?, size ≤ q.2) ∧
        sortedPosition s size fuel (lastOf as) (firstOf bs) = some (lastOf as', firstOf bs') := by
  induction bs with
  | nil =>
    intro as fuel _ hsmall hfuel
    obtain ⟨fuel, rfl⟩ := exists_eq_add_one.2 hfuel
    exact ⟨as, [], rfl, hsmall, fun q hq => (by cases hq), if_pos rfl⟩
  | cons c bs ih =>
    intro as fuel h hsmall hfuel
    obtain ⟨fuel, rfl⟩ := exists_eq_add_one.2 (zero_lt_of_lt hfuel)
    have hne : c.1 ≠ mmEmptyList := h.ne_end (by simp)
    rw [sortedPosition, firstOf_cons, if_neg hne, getClusterSize_of_isCluster (h.clusters c (by simp))]
    split
    · rename_i hle
      refine ⟨as, c :: bs, rfl, hsmall, fun q hq => ?_, rfl⟩
      cases hq
      exact hle
    · rename_i hlt
      have hall : as ++ c :: bs = as ++ [c] ++ bs := by simp
      rw [h.next_eq, ← lastOf_concat as c, hall]
      refine ih (hall ▸ h) (fun q hq => ?_) (by simpa using hfuel)
      rcases mem_append.1 hq with hq | hq
      · exact hsmall q hq
      · rw [mem_singleton.1 hq]
        exact not_le.1 hlt

theorem setBlockNext_eq_setLink {index next : ℕ} (h : index ≠ mmEmptyList) :
    s.setBlockNext index next = s.setLink index next := (if_neg h).symm

theorem insertClusterSorted_spec (h : FreeList s cs) (hc : IsCluster s.pte c) (hsep : Separate (c :: cs))
    (hnew : c ∉ cs) (hlt : ∀ q ∈ c :: cs, q.1 + 1 < mmEmptyList) (hlen : cs.length < s.pteCount + 1) :
    ∃ s' as bs, insertClusterSorted s c.1 c.2 = some s' ∧ cs = as ++ bs ∧ SameRegion s s' ∧
      FreeList s' (as ++ c :: bs) ∧ (SizeSorted cs → SizeSorted (as ++ c :: bs)) := by
  obtain ⟨as, bs, rfl, hbelow, habove, hsorted⟩ :=
    sortedPosition_spec c.2 cs (show FreeList s ([] ++ cs) from h) (fun q hq => by cases hq) hlen
  have hc1 : c.1 ≠ mmEmptyList := by
    have := hlt c (by simp)
    omega
  have hnext : firstOf bs < 2 ^ 32 := firstOf_lt fun q hq => hlt q (by simp [hq])
  have hset : FreeList (s.setLink c.1 (firstOf bs)) (as ++ bs) := by
    refine h.frame_extent hsep hnew ?_ fun k hk => pte_setLink_of_ne ?_
    · rw [freeListHead_setLink, if_neg hc1]
    · rintro rfl
      exact hk (contains_start (hsep.pos c (by simp)))
  have hblock : (s.setLink c.1 (firstOf bs)).blockNext c.1 = firstOf bs := by
    rw [blockNext_setLink hnext, if_neg hc1, update_self]
  refine ⟨_, as, bs, ?_, rfl, (sameRegion_setLink _ _ _).trans (sameRegion_setLink _ _ _),
    hset.link (hc.setLink (Or.inr (by omega))) hblock hsep hnew hlt, fun hsize => ?_⟩
  · rw [insertClusterSorted, h.first_eq]
    rw [lastOf_nil] at hsorted
    rw [hsorted, Option.map_some, ← setBlockNext_eq_setLink hc1]
  · exact hsize.insert (fun q hq => (hbelow q hq).le) (SizeSorted.all_le (pairwise_append.1 hsize).2.1 habove)

/-- The pages have left the free list as the tail of a cluster, a smallest one large enough if the
list is ordered. -/
structure Takes (N : ℕ) (s : SysPtes) (cs res : List Extent) (count index : ℕ) (s' : SysPtes) : Prop where
  region : SameRegion s s'
  list : ∃ cs', FreeList s' cs' ∧ Tiles N ((index, count) :: (cs' ++ res)) ∧ Coalesced cs' ∧ (SizeSorted cs → SizeSorted cs')
  cluster : ∃ c ∈ cs, count ≤ c.2 ∧ index + count = c.stop ∧ (SizeSorted cs → ∀ q ∈ cs, count ≤ q.2 → c.2 ≤ q.2)

theorem SizeSorted.smallest (hbefore : ∀ q ∈ as, q.2 < count) (h : SizeSorted (as ++ c :: bs)) :
    ∀ q ∈ as ++ c :: bs, count ≤ q.2 → c.2 ≤ q.2 := by
  intro q hq hcount
  rcases mem_append.1 hq with hq | hq
  · have := hbefore q hq
    omega
  · rcases mem_cons.1 hq with rfl | hq
    · exact le_refl _
    · exact (pairwise_cons.1 (pairwise_append.1 h).2.1).1 q hq

theorem SizeSorted.cut (h : SizeSorted (as ++ c :: bs)) : SizeSorted (as ++ bs) :=
  h.sublist ((Sublist.refl as).append (sublist_cons_self c bs))

theorem takeFromCluster_whole (h : FreeList s (as ++ c :: bs)) (ht : Tiles N (as ++ c :: bs ++ res))
    (hcs : Coalesced (as ++ c :: bs)) (hN : N ≤ maxSystemPtes) (hbefore : ∀ q ∈ as, q.2 < c.2) :
    ∃ s', takeFromCluster s c.2 (lastOf as) c.1 = some (c.1, s') ∧ Takes N s (as ++ c :: bs) res c.2 c.1 s' := by
  have hsize := getClusterSize_of_isCluster (h.clusters c (by simp))
  have ht' : Tiles N (c :: (as ++ bs ++ res)) := ht.perm (by simp)
  have hcut := h.unlink (ht.separate.mono fun q hq => mem_append_left _ hq) fun q hq => tiles_lt ht hN (mem_append_left _ hq)
  refine ⟨(s.setLink (lastOf as) (s.blockNext c.1)).clearCluster c.1 c.2, ?_,
    (sameRegion_setLink _ _ _).trans (sameRegion_clearCluster _ _ _),
    ⟨as ++ bs, ?_, ht', hcs.mono fun _ => mem_of_mem_cut, SizeSorted.cut⟩,
    ⟨c, by simp, le_refl _, rfl, SizeSorted.smallest hbefore⟩⟩
  · simp only [takeFromCluster, hsize, lt_irrefl, if_false]
  · refine hcut.frame_extent (r := c) (ht'.separate.mono fun q hq => mem_append_left _ hq) (fun hmem => ?_)
      freeListHead_clearCluster fun k hk => pte_clearCluster hk (ht.pos c (by simp))
    exact (nodup_cons.1 ht'.nodup).1 (mem_append_left _ hmem)

theorem sameRegion_shrinkCluster (remaining : ℕ) : SameRegion s (s.shrinkCluster c.1 remaining) := by
  unfold shrinkCluster
  split <;> exact sameRegion_writePte _ _ _

theorem freeListHead_shrinkCluster (remaining : ℕ) : (s.shrinkCluster c.1 remaining).freeListHead = s.freeListHead := by
  unfold shrinkCluster
  split <;> rfl

theorem pte_shrinkCluster {remaining k : ℕ} (hr : remaining < c.2) (h0 : 0 < remaining) (hk : ¬ c.Contains k) :
    (s.shrinkCluster c.1 remaining).pte k = s.pte k := by
  simp only [Contains, stop] at hk
  unfold shrinkCluster
  split <;> exact update_of_ne (by omega) _ _

theorem isCluster_shrinkCluster {remaining : ℕ} (h : IsCluster s.pte c) (hr : remaining < c.2) (h0 : 0 < remaining)
    (hsize : remaining < 2 ^ 32) : IsCluster (s.shrinkCluster c.1 remaining).pte (c.1, remaining) := by
  unfold IsCluster at h
  rw [if_neg (by omega)] at h
  unfold IsCluster shrinkCluster
  by_cases h1 : remaining = 1
  · rw [if_pos h1, if_pos h1]
    simp [writePte, isOneEntry_encodeSinglePte]
  · rw [if_neg h1, if_neg h1]
    simp [writePte, h.1, decodeNextEntry_encodeClusterSizePte hsize]

theorem FreeList.shrink (remaining : ℕ) (h : FreeList s (as ++ c :: bs)) (hsep : Separate (as ++ c :: bs))
    (hnd : (as ++ c :: bs).Nodup) (hlt : ∀ q ∈ as ++ c :: bs, q.1 + 1 < mmEmptyList)
    (h0 : 0 < remaining) (hr : remaining < c.2) (hsize : remaining < 2 ^ 32) :
    let s' := (s.setLink (lastOf as) (s.blockNext c.1)).shrinkCluster c.1 remaining
    SameRegion s s' ∧ FreeList s' (as ++ bs) ∧ IsCluster s'.pte (c.1, remaining) := by
  have hc := (h.clusters c (by simp)).setLink (v := s.blockNext c.1)
    (setLink_apart hsep (by simp) (lastOf_mem fun q hq => mem_append_left (c :: bs) hq) (hlt c (by simp)))
  refine ⟨(sameRegion_setLink _ _ _).trans (sameRegion_shrinkCluster _), ?_, isCluster_shrinkCluster hc hr h0 hsize⟩
  refine (h.unlink hsep hlt).frame_extent (r := c) (hsep.mono fun q hq => perm_middle.mem_iff.2 hq) ?_
    (freeListHead_shrinkCluster _) fun k hk => pte_shrinkCluster hr h0 hk
  exact (nodup_cons.1 (perm_middle.nodup_iff.1 hnd)).1

theorem takeFromCluster_split (h : FreeList s (as ++ c :: bs)) (ht : Tiles N (as ++ c :: bs ++ res))
    (hcs : Coalesced (as ++ c :: bs)) (hN : N ≤ maxSystemPtes) (hpc : s.pteCount = N) (h0 : 0 < count)
    (hbefore : ∀ q ∈ as, q.2 < count) (hcount : count < c.2) :
    ∃ s', takeFromCluster s count (lastOf as) c.1 = some (c.1 + c.2 - count, s') ∧
      Takes N s (as ++ c :: bs) res count (c.1 + c.2 - count) s' := by
  have hsize := getClusterSize_of_isCluster (h.clusters c (by simp))
  have ht' : Tiles N (c :: (as ++ bs ++ res)) := ht.perm (by simp)
  -- the two halves
  obtain ⟨remaining, hc2⟩ : ∃ remaining, c.2 = remaining + count := ⟨c.2 - count, by omega⟩
  have hback : c.1 + c.2 - count = c.1 + remaining := by omega
  have hhalves : Tiles N ((c.1, remaining) :: (c.1 + remaining, count) :: (as ++ bs ++ res)) := by
    refine Tiles.split ?_ (by omega) h0
    rwa [← hc2]
  have hpos : ∀ q ∈ as ++ bs, 0 < q.2 := fun q hq => ht'.pos q (mem_cons_of_mem _ (mem_append_left _ hq))
  have htotal := ht'.totalLength_eq
  have hlen := length_le_totalLength hpos
  rw [totalLength_cons, totalLength_append] at htotal
  -- the first half, off the list and back on it
  obtain ⟨hregion, hoff, hc⟩ := h.shrink remaining (ht.separate.mono fun q hq => mem_append_left res hq)
    (nodup_append.1 ht.nodup).1 (fun q hq => tiles_lt ht hN (mem_append_left _ hq)) (by omega) (by omega)
    (by simp only [maxSystemPtes] at hN; omega)
  have hfirst : ∀ q ∈ (c.1, remaining) :: (as ++ bs), q ∈ (c.1, remaining) :: (c.1 + remaining, count) :: (as ++ bs ++ res) := by
    intro q hq
    rcases mem_cons.1 hq with rfl | hq
    · exact mem_cons_self
    · exact mem_cons_of_mem _ (mem_cons_of_mem _ (mem_append_left res hq))
  obtain ⟨s', as', bs', hinsert, hsplit, hregion', hon, hsorted⟩ :=
    insertClusterSorted_spec hoff hc (hhalves.separate.mono hfirst)
      (fun hmem => (nodup_cons.1 hhalves.nodup).1 (mem_cons_of_mem _ (mem_append_left res hmem)))
      (fun q hq => tiles_lt hhalves hN (hfirst q hq)) (by rw [hregion.pteCount]; omega)
  have hfinal : Tiles N ((c.1 + remaining, count) :: (as' ++ (c.1, remaining) :: bs' ++ res)) := by
    refine hhalves.perm ((Perm.swap _ _ _).trans (Perm.cons _ ?_))
    rw [hsplit]
    simpa using perm_middle.symm
  rw [hback]
  refine ⟨s'.zeroPtes (c.1 + remaining) count, ?_, (hregion.trans hregion').trans ⟨rfl, rfl, rfl, rfl⟩,
    ⟨as' ++ (c.1, remaining) :: bs', ?_, hfinal, ?_, fun hsize => hsorted hsize.cut⟩,
    ⟨c, by simp, hcount.le, by simp only [stop]; omega, SizeSorted.smallest hbefore⟩⟩
  · simp only [takeFromCluster, hsize, if_pos hcount, hback, show c.2 - count = remaining by omega]
    rw [hinsert]
    rfl
  · refine hon.frame_extent (r := (c.1 + remaining, count)) (hfinal.separate.mono fun q hq => mem_append_left res hq)
      (fun hmem => ?_) rfl fun k hk => if_neg hk
    exact (nodup_cons.1 hfinal.nodup).1 (mem_append_left _ hmem)
  · refine (hhalves.coalesced_head (l := as ++ bs) ?_ fun q hq => ?_).mono fun q hq => ?_
    · exact hcs.mono fun _ => mem_of_mem_cut
    · exact hcs q (mem_of_mem_cut hq) c (by simp)
    · rw [hsplit]
      exact perm_middle.mem_iff.1 hq

theorem takeFromCluster_spec (h : FreeList s (as ++ c :: bs)) (ht : Tiles N (as ++ c :: bs ++ res))
    (hcs : Coalesced (as ++ c :: bs)) (hN : N ≤ maxSystemPtes) (hpc : s.pteCount = N) (h0 : 0 < count)
    (hbefore : ∀ q ∈ as, q.2 < count) (hcount : count ≤ c.2) :
    ∃ index s', takeFromCluster s count (lastOf as) c.1 = some (index, s') ∧ Takes N s (as ++ c :: bs) res count index s' := by
  rcases hcount.lt_or_eq with hlt | rfl
  · exact ⟨_, takeFromCluster_split h ht hcs hN hpc h0 hbefore hlt⟩
  · exact ⟨_, takeFromCluster_whole h ht hcs hN hbefore⟩

theorem allocateLoop_spec (ht : Tiles N (cs ++ res)) (hcs : Coalesced cs) (hN : N ≤ maxSystemPtes)
    (hpc : s.pteCount = N) (h0 : 0 < count) (bs : List Extent) :
    ∀ {as : List Extent} {fuel : ℕ}, cs = as ++ bs → FreeList s (as ++ bs) → (∀ q ∈ as, q.2 < count) → bs.length < fuel →
      ∃ taken, allocateLoop s count fuel (lastOf as) (firstOf bs) = some taken ∧
        ∀ index s', taken = some (index, s') → Takes N s cs res count index s' := by
  induction bs with
  | nil =>
    intro as fuel _ _ _ hfuel
    obtain ⟨fuel, rfl⟩ := exists_eq_add_one.2 hfuel
    exact ⟨none, if_pos rfl, fun _ _ h => by cases h⟩
  | cons c bs ih =>
    intro as fuel hsplit h hbefore hfuel
    obtain ⟨fuel, rfl⟩ := exists_eq_add_one.2 (zero_lt_of_lt hfuel)
    have hne : c.1 ≠ mmEmptyList := h.ne_end (by simp)
    rw [allocateLoop, firstOf_cons, if_neg hne, getClusterSize_of_isCluster (h.clusters c (by simp))]
    split
    · rename_i hcount
      obtain ⟨index, s', htake, htakes⟩ := takeFromCluster_spec h (hsplit ▸ ht) (hsplit ▸ hcs) hN hpc h0 hbefore hcount
      rw [htake]
      refine ⟨_, rfl, fun i t hit => ?_⟩
      cases hit
      rw [hsplit]
      exact htakes
    · rename_i hlt
      have hall : as ++ c :: bs = as ++ [c] ++ bs := by simp
      rw [h.next_eq, ← lastOf_concat as c]
      refine ih (hsplit.trans hall) (hall ▸ h) (fun q hq => ?_) (by simpa using hfuel)
      rcases mem_append.1 hq with hq | hq
      · exact hbefore q hq
      · rw [mem_singleton.1 hq]
        exact not_le.1 hlt

theorem allocateFromFreeList_spec (h : FreeList s cs) (ht : Tiles N (cs ++ res)) (hcs : Coalesced cs)
    (hN : N ≤ maxSystemPtes) (hpc : s.pteCount = N) (h0 : 0 < count) :
    ∃ taken, allocateFromFreeList s count = some taken ∧
      ∀ index s', taken = some (index, s') → Takes N s cs res count index s' := by
  have htotal := ht.totalLength_eq
  have hlen := length_le_totalLength (l := cs) fun q hq => ht.pos q (mem_append_left _ hq)
  rw [totalLength_append] at htotal
  rw [allocateFromFreeList, h.first_eq]
  exact allocateLoop_spec ht hcs hN hpc h0 cs (show cs = [] ++ cs from rfl) h (fun q hq => by cases hq) (by omega)

end

end XenOS.Mm
