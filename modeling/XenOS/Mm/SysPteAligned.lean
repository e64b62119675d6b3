import XenOS.Mm.SysPteOrder

/-! Reservations of any size and alignment. The size is cut to 32 bits before the search and counted
in full; an aligned reservation takes more and gives a head and a tail back. -/

namespace XenOS.Mm

open General Nat Extent
open List (mem_append_left mem_cons_self perm_middle)
open Option (bind_eq_some_iff bind_some map_eq_some_iff)

/-- `x & !(align - 1)`. -/
def alignDown (x align : ℕ) : ℕ := (BitVec.ofNat 64 x &&& ~~~BitVec.ofNat 64 (align - 1)).toNat

def releaseSurplus (s : SysPtes) (base pages : ℕ) : Option SysPtes := if 0 < pages then miReleaseSystemPtes s base pages else some s

/-- `mi_reserve_system_ptes_contiguous`; a sum that overflows is none. -/
def miReserveSystemPtesContiguous (s : SysPtes) (count alignment : ℕ) : Option (ℕ × SysPtes) :=
  if alignment ≤ 1 then miReserveSystemPtes s count
  else
    let extra := alignment - 1
    let total := count + extra
    if 2 ^ 64 ≤ total then none
    else do
      let (va, s) ← miReserveSystemPtes s total
      if va = 0 then return (0, s)
      else
        let alignmentBytes := alignment * pageSize
        if 2 ^ 64 ≤ alignmentBytes ∨ 2 ^ 64 ≤ va + alignmentBytes then none
        else
          let alignedVa := alignDown (va + alignmentBytes - 1) alignmentBytes
          -- the head
          let skipPages := (alignedVa - va) / pageSize
          let s ← releaseSurplus s va skipPages
          if extra < skipPages then none
          else
            -- the tail
            let endPages := extra - skipPages
            if 0 < endPages ∧ 2 ^ 64 ≤ alignedVa + count * pageSize then none
            else
              let s ← releaseSurplus s (alignedVa + count * pageSize) endPages
              return (alignedVa, s)

theorem alignDown_two_pow {x k : ℕ} (hx : x < 2 ^ 64) : alignDown x (2 ^ k) = x / 2 ^ k * 2 ^ k := by
  have hbits : BitVec.ofNat 64 x &&& ~~~BitVec.ofNat 64 (2 ^ k - 1) = (BitVec.ofNat 64 x >>> k) <<< k := by
    apply BitVec.eq_of_getLsbD_eq
    intro i hi
    simp only [BitVec.getLsbD_and, BitVec.getLsbD_not, BitVec.getLsbD_ofNat, BitVec.getLsbD_shiftLeft, BitVec.getLsbD_ushiftRight,
      testBit_two_pow_sub_one]
    by_cases hik : i < k
    · simp [hi, hik]
    · simp [hi, hik, show k + (i - k) = i by omega]
  have hle : x / 2 ^ k * 2 ^ k ≤ x := div_mul_le_self x _
  rw [alignDown, hbits, BitVec.toNat_shiftLeft, BitVec.toNat_ushiftRight, BitVec.toNat_ofNat, mod_eq_of_lt hx, shiftRight_eq_div_pow,
    shiftLeft_eq, mod_eq_of_lt (by omega)]

/-! ### The region -/

section Region
variable {s s' : SysPtes} {r r' : Release} {count prev current fuel index : ℕ}

theorem sameRegion_insertClusterSorted {size : ℕ} (h : insertClusterSorted s index size = some s') : SameRegion s s' := by
  obtain ⟨⟨prev, current⟩, -, rfl⟩ := map_eq_some_iff.1 h
  exact (sameRegion_writePte _ _ _).trans (sameRegion_setLink _ _ _)

theorem sameRegion_takeFromCluster (h : takeFromCluster s count prev current = some (index, s')) : SameRegion s s' := by
  unfold takeFromCluster at h
  simp only at h
  split_ifs at h
  · obtain ⟨p, hinsert, heq⟩ := map_eq_some_iff.1 h
    cases heq
    have hshrink : ∀ (p : SysPtes) (i n : ℕ), SameRegion p (p.shrinkCluster i n) := fun p i n => sameRegion_shrinkCluster (c := (i, 0)) n
    exact (sameRegion_setLink _ _ _).trans ((hshrink _ _ _).trans ((sameRegion_insertClusterSorted hinsert).trans ⟨rfl, rfl, rfl, rfl⟩))
  · cases h
    exact (sameRegion_setLink _ _ _).trans (sameRegion_clearCluster _ _ _)

theorem sameRegion_turn (r : Release) : SameRegion r.ptes r.turn.ptes := by
  unfold Release.turn
  simp only
  by_cases hadj : r.current + r.ptes.getClusterSize r.current = r.startIndex ∨ r.startIndex + r.count = r.current
  · rw [if_pos hadj]
    exact (sameRegion_setLink _ _ _).trans (sameRegion_clearCluster _ _ _)
  · rw [if_neg hadj]
    exact SameRegion.refl _

theorem sameRegion_loop (h : Release.loop fuel r = some r') : SameRegion r.ptes r'.ptes := by
  induction fuel generalizing r with
  | zero => cases h
  | succ fuel ih =>
    unfold Release.loop at h
    split_ifs at h
    · cases h
      exact SameRegion.refl _
    · exact (sameRegion_turn r).trans (ih h)

theorem baseVa_miReleaseSystemPtes {base : ℕ} (h : miReleaseSystemPtes s base count = some s') :
    s'.baseVa = s.baseVa ∧ s'.initialized = s.initialized ∧ s'.pteCount = s.pteCount := by
  unfold miReleaseSystemPtes at h
  simp only at h
  split_ifs at h
  · cases h
    exact ⟨rfl, rfl, rfl⟩
  · cases h
    exact ⟨rfl, rfl, rfl⟩
  · obtain ⟨p, hrelease, rfl⟩ := map_eq_some_iff.1 h
    obtain ⟨r, hloop, rfl⟩ := map_eq_some_iff.1 hrelease
    have hinsert : SameRegion r.ptes r.insert := (sameRegion_initFreeCluster _ _ _ _).trans (sameRegion_setLink _ _ _)
    have hsame := (sameRegion_loop hloop).trans hinsert
    exact ⟨hsame.baseVa, hsame.initialized, hsame.pteCount⟩

theorem allocateLoop_some {cs : List Extent} (bs : List Extent) :
    ∀ {as : List Extent} {fuel : ℕ} {taken : Option (ℕ × SysPtes)}, cs = as ++ bs → FreeList s (as ++ bs) →
      allocateLoop s count fuel (lastOf as) (firstOf bs) = some taken → (∃ q ∈ bs, count ≤ q.2) →
      ∃ index s' c, taken = some (index, s') ∧ c ∈ cs ∧ index + count = c.stop ∧ SameRegion s s' := by
  induction bs with
  | nil =>
    rintro as fuel taken - - - ⟨q, hq, -⟩
    cases hq
  | cons c bs ih =>
    intro as fuel taken hsplit h hret hlarge
    cases fuel with
    | zero => cases hret
    | succ fuel =>
      have hne : c.1 ≠ mmEmptyList := h.ne_end (by simp)
      have hsize := getClusterSize_of_isCluster (h.clusters c (by simp))
      rw [allocateLoop, firstOf_cons, if_neg hne, hsize] at hret
      split_ifs at hret with hcount
      · obtain ⟨⟨index, s'⟩, htake, rfl⟩ := map_eq_some_iff.1 hret
        refine ⟨index, s', c, rfl, by simp [hsplit], ?_, sameRegion_takeFromCluster htake⟩
        unfold takeFromCluster at htake
        simp only [hsize] at htake
        split_ifs at htake with hlt
        · obtain ⟨p, -, heq⟩ := map_eq_some_iff.1 htake
          cases heq
          simp only [stop]
          omega
        · cases htake
          simp only [stop]
          omega
      · have hall : as ++ c :: bs = as ++ [c] ++ bs := by simp
        rw [h.next_eq, ← lastOf_concat as c] at hret
        refine ih (hsplit.trans hall) (hall ▸ h) hret ?_
        obtain ⟨q, hq, hle⟩ := hlarge
        rcases List.mem_cons.1 hq with rfl | hq
        · exact absurd hle hcount
        · exact ⟨q, hq, hle⟩

theorem allocateLoop_none (bs : List Extent) :
    ∀ {as : List Extent} {fuel : ℕ}, FreeList s (as ++ bs) → (∀ q ∈ bs, q.2 < count) → bs.length < fuel →
      allocateLoop s count fuel (lastOf as) (firstOf bs) = some none := by
  induction bs with
  | nil =>
    intro as fuel _ _ hfuel
    obtain ⟨fuel, rfl⟩ := exists_eq_add_one.2 hfuel
    exact if_pos rfl
  | cons c bs ih =>
    intro as fuel h hsmall hfuel
    obtain ⟨fuel, rfl⟩ := exists_eq_add_one.2 (zero_lt_of_lt hfuel)
    have hne : c.1 ≠ mmEmptyList := h.ne_end (by simp)
    have hall : as ++ c :: bs = as ++ [c] ++ bs := by simp
    rw [allocateLoop, firstOf_cons, if_neg hne, getClusterSize_of_isCluster (h.clusters c (by simp)),
      if_neg (not_le.2 (hsmall c mem_cons_self)), h.next_eq, ← lastOf_concat as c]
    exact ih (hall ▸ h) (fun q hq => hsmall q (List.mem_cons_of_mem _ hq)) (by simpa using hfuel)

theorem sameRegion_allocateLoop (h : allocateLoop s count fuel prev current = some (some (index, s'))) : SameRegion s s' := by
  induction fuel generalizing prev current with
  | zero => cases h
  | succ fuel ih =>
    unfold allocateLoop at h
    split_ifs at h
    · cases h
    · obtain ⟨out, htake, heq⟩ := map_eq_some_iff.1 h
      cases heq
      exact sameRegion_takeFromCluster htake
    · exact ih h

end Region

def SysPtes.Free (s : SysPtes) (k : ℕ) : Prop := ∃ cs, FreeList s cs ∧ ∃ r ∈ cs, r.Contains k

/-- What a reservation should do: nothing, with 0 returned, or take exactly the entries from an aligned address on. -/
def ReservesRight (s : SysPtes) (count alignment : ℕ) (result : Option (ℕ × SysPtes)) : Prop :=
  ∃ va s', result = some (va, s') ∧
    ((va = 0 ∧ s'.freeCount = s.freeCount ∧ ∀ k, s'.Free k ↔ s.Free k) ∨
      (va ≠ 0 ∧ va % (alignment * pageSize) = 0 ∧ s'.freeCount + count = s.freeCount ∧ ∃ index, va = s.baseVa + index * pageSize ∧
        (∀ k, Contains (index, count) k → s.Free k) ∧ ∀ k, s'.Free k ↔ s.Free k ∧ ¬ Contains (index, count) k))

/-- The clusters and what is held tile the region, which ends before the last address. -/
structure Ready (s : SysPtes) (cs res : List Extent) : Prop where
  initialized : s.initialized = true
  size : s.pteCount ≤ maxSystemPtes
  base : 0 < s.baseVa
  aligned : s.baseVa % pageSize = 0
  fits : s.baseVa + s.pteCount * pageSize < 2 ^ 64
  free : FreeList s cs
  tiles : Tiles s.pteCount (cs ++ res)
  coalesced : Coalesced cs
  count : s.freeCount = totalLength cs

namespace Ready
variable {s : SysPtes} {cs res : List Extent} {c : Extent} {count index : ℕ}

section
variable (h : Ready s cs res)
include h

theorem free_iff (k : ℕ) : s.Free k ↔ k < s.pteCount ∧ ¬ ∃ r ∈ res, r.Contains k := by
  have hcover := h.tiles.cover k
  rw [cover_append] at hcover
  have hcs := cover_pos_iff (l := cs) (k := k)
  have hres := cover_pos_iff (l := res) (k := k)
  have hfree : s.Free k ↔ ∃ r ∈ cs, r.Contains k := by
    refine ⟨fun ⟨cs', hfree, hr⟩ => ?_, fun hr => ⟨cs, h.free, hr⟩⟩
    rwa [h.free.unique hfree]
  rw [hfree, ← hcs, ← hres]
  split_ifs at hcover <;> omega

theorem end_le (hpos : 0 < count) (hfree : ∀ k, Contains (index, count) k → s.Free k) :
    index + count ≤ s.pteCount := by
  have hlast := (h.free_iff _).1 (hfree (index + count - 1) ⟨by simp only; omega, by simp only [stop]; omega⟩)
  omega

theorem indexToVa_eq (index : ℕ) (hindex : index ≤ s.pteCount) : s.indexToVa index = s.baseVa + index * pageSize := by
  refine mod_eq_of_lt ?_
  have hle := mul_le_mul_right pageSize hindex
  have hfits := h.fits
  omega

theorem reserve (count : ℕ) (hpos : 0 < count) (hlt : count < 2 ^ 32) :
    miReserveSystemPtes s count = some (0, s) ∨ ∃ index s' cs', miReserveSystemPtes s count = some (s'.indexToVa index, s') ∧
      Ready s' cs' ((index, count) :: res) ∧ s'.baseVa = s.baseVa ∧ s'.pteCount = s.pteCount := by
  obtain ⟨taken, halloc, htaken⟩ := allocateFromFreeList_spec h.free h.tiles h.coalesced h.size rfl hpos
  have heq : miReserveSystemPtes s count = some (taken.elim (0, s)
      fun t => (t.2.indexToVa t.1, { t.2 with freeCount := fetchSub t.2.freeCount count })) := by
    rw [miReserveSystemPtes, h.initialized, if_neg (by simp), if_neg (by omega), mod_eq_of_lt hlt, halloc]
    cases taken <;> rfl
  cases taken with
  | none => exact Or.inl heq
  | some t =>
    obtain ⟨index, p⟩ := t
    obtain ⟨hregion, ⟨cs', hfree, ht, hcs, -⟩, -⟩ := htaken index p rfl
    refine Or.inr ⟨index, { p with freeCount := fetchSub p.freeCount count }, cs', heq, ⟨hregion.initialized.trans h.initialized, hregion.pteCount ▸ h.size, hregion.baseVa ▸ h.base,
      hregion.baseVa ▸ h.aligned, ?_, ⟨hfree.walk, hfree.clusters⟩, ?_, hcs, ?_⟩, hregion.baseVa, hregion.pteCount⟩
    · simp only [hregion.baseVa, hregion.pteCount]
      exact h.fits
    · simp only [hregion.pteCount]
      exact ht.perm perm_middle.symm
    · have htotal := h.tiles.totalLength_eq
      have htotal' := ht.totalLength_eq
      have hsize := h.size
      simp only [totalLength_append, totalLength_cons, maxSystemPtes] at htotal htotal' hsize
      simp only [hregion.freeCount, h.count]
      rw [fetchSub_of_le (by omega) (by omega)]
      omega

end

theorem release (h : Ready s cs (c :: res)) :
    ∃ s' cs', miReleaseSystemPtes s (s.indexToVa c.1) c.2 = some s' ∧ Ready s' cs' res ∧ s'.baseVa = s.baseVa ∧ s'.pteCount = s.pteCount := by
  have ht' : Tiles s.pteCount (c :: (cs ++ res)) := h.tiles.perm perm_middle
  have hpos : 0 < c.2 := ht'.pos c mem_cons_self
  have hstop := ht'.stop_le (r := c) mem_cons_self
  have hsize := h.size
  have hfits := h.fits
  have hva : s.indexToVa c.1 ≠ 0 := by
    refine SysPteClients.indexToVa_ne_zero hfits.le h.base ?_
    simp only [stop] at hstop
    omega
  have hindex : s.vaToIndex (s.indexToVa c.1) = c.1 := by
    refine SysPteClients.vaToIndex_indexToVa hfits.le ?_ h.size
    simp only [stop] at hstop
    omega
  have hzero : FreeList (s.zeroPtes c.1 c.2) cs := by
    refine h.free.frame_extent (r := c) (ht'.separate.mono (by simp; tauto)) (fun hmem => ?_) rfl fun k hk => if_neg hk
    exact (List.nodup_cons.1 ht'.nodup).1 (mem_append_left _ hmem)
  obtain ⟨p, cs', hrelease, hregion, hfree', htiles, hcs'⟩ := releasePtesWithCoalescing_spec hzero ht' h.coalesced h.size rfl
  simp only [stop, maxSystemPtes] at hstop hsize
  refine ⟨{ p with freeCount := fetchAdd p.freeCount c.2 }, cs', ?_, ?_, hregion.baseVa, hregion.pteCount⟩
  · rw [miReleaseSystemPtes, h.initialized, if_neg (by simp), if_neg (by omega), hindex, if_neg (by omega), mod_eq_of_lt (by omega), hrelease]
    rfl
  · have hbaseVa : p.baseVa = s.baseVa := hregion.baseVa
    have hpteCount : p.pteCount = s.pteCount := hregion.pteCount
    refine ⟨hregion.initialized.trans h.initialized, hpteCount ▸ h.size, hbaseVa ▸ h.base, hbaseVa ▸ h.aligned, ?_,
      ⟨hfree'.walk, hfree'.clusters⟩, ?_, hcs', ?_⟩
    · simp only [hbaseVa, hpteCount]
      exact h.fits
    · simp only [hpteCount]
      exact htiles
    · have htotal := ht'.totalLength_eq
      have htotal' := htiles.totalLength_eq
      simp only [totalLength_append, totalLength_cons] at htotal htotal'
      simp only [show p.freeCount = s.freeCount from hregion.freeCount, h.count]
      rw [fetchAdd_of_lt (by omega)]
      omega

theorem releaseHead {i a b : ℕ} (h : Ready s cs ((i, a + b) :: res)) (hb : 0 < b) :
    ∃ s' cs', releaseSurplus s (s.indexToVa i) a = some s' ∧ Ready s' cs' ((i + a, b) :: res) ∧
      s'.baseVa = s.baseVa ∧ s'.pteCount = s.pteCount := by
  by_cases ha : 0 < a
  · have ht : Tiles s.pteCount (cs ++ (i, a) :: (i + a, b) :: res) := by
      refine ((h.tiles.perm perm_middle).split ha hb).perm ?_
      exact ((List.Perm.cons _ perm_middle.symm).trans perm_middle.symm)
    have hready : Ready s cs ((i, a) :: (i + a, b) :: res) :=
      ⟨h.initialized, h.size, h.base, h.aligned, h.fits, h.free, ht, h.coalesced, h.count⟩
    rw [releaseSurplus, if_pos ha]
    exact hready.release
  · obtain rfl : a = 0 := by omega
    rw [zero_add] at h
    exact ⟨s, cs, if_neg ha, h, rfl, rfl⟩

theorem releaseTail {i a b : ℕ} (h : Ready s cs ((i, a + b) :: res)) (ha : 0 < a) :
    ∃ s' cs', releaseSurplus s (s.indexToVa (i + a)) b = some s' ∧ Ready s' cs' ((i, a) :: res) ∧
      s'.baseVa = s.baseVa ∧ s'.pteCount = s.pteCount := by
  by_cases hb : 0 < b
  · have ht : Tiles s.pteCount (cs ++ (i + a, b) :: (i, a) :: res) := by
      refine ((h.tiles.perm perm_middle).split ha hb).perm ?_
      exact (List.Perm.swap _ _ _).trans ((List.Perm.cons _ perm_middle.symm).trans perm_middle.symm)
    have hready : Ready s cs ((i + a, b) :: (i, a) :: res) :=
      ⟨h.initialized, h.size, h.base, h.aligned, h.fits, h.free, ht, h.coalesced, h.count⟩
    rw [releaseSurplus, if_pos hb]
    exact hready.release
  · obtain rfl : b = 0 := by omega
    rw [add_zero] at h
    exact ⟨s, cs, if_neg hb, h, rfl, rfl⟩

theorem reservesRight {s' : SysPtes} {cs' : List Extent} {alignment va : ℕ} (h : Ready s cs res) (h' : Ready s' cs' ((index, count) :: res))
    (hpteCount : s'.pteCount = s.pteCount) (hva : va = s.baseVa + index * pageSize)
    (halign : va % (alignment * pageSize) = 0) : ReservesRight s count alignment (some (va, s')) := by
  have hpos := h.base
  refine ⟨va, s', rfl, Or.inr ⟨by omega, halign, ?_, index, hva, fun k hk => ?_, fun k => ?_⟩⟩
  · have htotal := h.tiles.totalLength_eq
    have htotal' := h'.tiles.totalLength_eq
    simp only [totalLength_append, totalLength_cons] at htotal htotal'
    rw [h'.count, h.count]
    omega
  · have ht := h'.tiles.perm perm_middle
    have hstop := ht.stop_le (r := (index, count)) mem_cons_self
    refine (h.free_iff k).2 ⟨?_, fun ⟨r, hr, hcontains⟩ => ?_⟩
    · rw [hpteCount] at hstop
      exact lt_of_lt_of_le hk.2 hstop
    · have hapart := ht.apart_head (List.mem_append_right cs' hr)
      simp only [Apart, Contains, stop] at hapart hcontains hk
      omega
  · rw [h.free_iff, h'.free_iff, hpteCount]
    simp only [List.exists_mem_cons_iff, not_or]
    tauto

theorem aligned_index {base k : ℕ} (index : ℕ) (hbase : base % pageSize = 0) (hlt : base + index * pageSize + 2 ^ k * pageSize ≤ 2 ^ 64)
    (hpos : 0 < 2 ^ k) : ∃ skip ≤ 2 ^ k - 1, alignDown (base + index * pageSize + 2 ^ k * pageSize - 1) (2 ^ k * pageSize) = base + (index + skip) * pageSize ∧
      (base + (index + skip) * pageSize) % (2 ^ k * pageSize) = 0 := by
  have hpow : 2 ^ k * pageSize = 2 ^ (k + 12) := by
    rw [Nat.pow_add]
    rfl
  obtain ⟨b, hb⟩ := Nat.dvd_of_mod_eq_zero hbase
  rw [hpow, alignDown_two_pow (by omega), ← hpow]
  -- in pages
  have hpages : base + index * pageSize + 2 ^ k * pageSize - 1 = (b + index + 2 ^ k - 1) * pageSize + (pageSize - 1) := by
    rw [hb]
    unfold pageSize at *
    omega
  have hdiv : (base + index * pageSize + 2 ^ k * pageSize - 1) / (2 ^ k * pageSize) = (b + index + 2 ^ k - 1) / 2 ^ k := by
    rw [hpages, Nat.mul_comm (2 ^ k), ← Nat.div_div_eq_div_mul]
    congr 1
    unfold pageSize
    omega
  have hround := Nat.div_add_mod (b + index + 2 ^ k - 1) (2 ^ k)
  have hmod := Nat.mod_lt (b + index + 2 ^ k - 1) hpos
  rw [hdiv]
  generalize (b + index + 2 ^ k - 1) / 2 ^ k = d at *
  have hcomm : 2 ^ k * d = d * 2 ^ k := Nat.mul_comm _ _
  have heq : d * (2 ^ k * pageSize) = base + (index + (d * 2 ^ k - (b + index))) * pageSize := by
    rw [← Nat.mul_assoc, hb, show index + (d * 2 ^ k - (b + index)) = d * 2 ^ k - b by omega, Nat.sub_mul]
    have hle : b * pageSize ≤ d * 2 ^ k * pageSize := Nat.mul_le_mul_right _ (by omega)
    rw [Nat.mul_comm pageSize b]
    omega
  refine ⟨d * 2 ^ k - (b + index), by omega, heq, ?_⟩
  rw [← heq]
  exact Nat.mul_mod_left _ _

theorem contiguous {k : ℕ} (h : Ready s cs res) (hpos : 0 < count) (hk : 1 < 2 ^ k) (hlt : count + (2 ^ k - 1) < 2 ^ 32) :
    ReservesRight s count (2 ^ k) (miReserveSystemPtesContiguous s count (2 ^ k)) := by
  unfold miReserveSystemPtesContiguous
  simp only
  rw [if_neg (by omega), if_neg (by omega)]
  rcases h.reserve (count + (2 ^ k - 1)) (by omega) hlt with hnone | ⟨index, s₁, cs₁, hsome, h₁, hbase₁, hcount₁⟩
  · rw [hnone]
    exact ⟨0, s, rfl, Or.inl ⟨rfl, rfl, fun _ => Iff.rfl⟩⟩
  have hstop := h₁.tiles.stop_le (r := (index, count + (2 ^ k - 1))) (by simp)
  simp only [stop] at hstop
  have hva := h₁.indexToVa_eq index (by omega)
  have hbase := h₁.base
  have hfits := h₁.fits
  have hmul : (index + 2 ^ k) * pageSize ≤ s₁.pteCount * pageSize := Nat.mul_le_mul_right _ (by omega)
  rw [Nat.add_mul] at hmul
  obtain ⟨skip, hskip, halign, hmod⟩ := aligned_index (k := k) index h₁.aligned (by omega) (by omega)
  have hskips : (s₁.baseVa + (index + skip) * pageSize - s₁.indexToVa index) / pageSize = skip := by
    rw [hva, Nat.add_mul, ← Nat.add_assoc, Nat.add_sub_cancel_left, Nat.mul_div_cancel _ (by decide)]
  simp only [hsome, Option.bind_eq_bind, bind_some]
  rw [if_neg (by omega), if_neg (by omega), hva, halign, ← hva, hskips]
  -- the head
  have hhead : Ready s₁ cs₁ ((index, skip + (count + (2 ^ k - 1 - skip))) :: res) := by
    rwa [show skip + (count + (2 ^ k - 1 - skip)) = count + (2 ^ k - 1) by omega]
  obtain ⟨s₂, cs₂, hret₂, h₂, hbase₂, hcount₂⟩ := hhead.releaseHead (by omega)
  rw [hret₂, bind_some, if_neg (by omega)]
  -- the tail
  obtain ⟨s₃, cs₃, hret₃, h₃, hbase₃, hcount₃⟩ := h₂.releaseTail hpos
  have htail : s₁.baseVa + (index + skip) * pageSize + count * pageSize = s₂.indexToVa (index + skip + count) := by
    rw [h₂.indexToVa_eq _ (by omega), hbase₂, Nat.add_mul (index + skip) count, Nat.add_assoc]
  have htail_lt : s₂.indexToVa (index + skip + count) < 2 ^ 64 := Nat.mod_lt _ (by decide)
  rw [htail, if_neg (by omega), hret₃, bind_some]
  refine reservesRight h h₃ (by rw [hcount₃, hcount₂, hcount₁]) (by rw [hbase₁]) hmod

/-! ### Sizes that are cut -/

/-- The condition: the size does not overflow, and is not cut to 32 bits, or no free cluster has as
many entries as what is left. -/
def Uncut (s : SysPtes) (total : ℕ) : Prop :=
  total < 2 ^ 64 ∧ (total < 2 ^ 32 ∨ ∀ cs, FreeList s cs → ∀ q ∈ cs, q.2 < total % 2 ^ 32)

section
variable (h : Ready s cs res)
include h

theorem uncut_iff {total : ℕ} : Uncut s total ↔ total < 2 ^ 64 ∧ (total < 2 ^ 32 ∨ ∀ q ∈ cs, q.2 < total % 2 ^ 32) := by
  refine and_congr_right fun _ => or_congr_right ⟨fun hall => hall cs h.free, fun hall cs' hfree => ?_⟩
  rwa [hfree.unique h.free]

theorem length_lt : cs.length < s.pteCount + 1 := by
  have htotal := h.tiles.totalLength_eq
  have hlen := length_le_totalLength (l := cs) fun q hq => h.tiles.pos q (mem_append_left _ hq)
  rw [totalLength_append] at htotal
  omega

theorem reserve_none {total : ℕ} (hpos : 0 < total) (hnone : ∀ q ∈ cs, q.2 < total % 2 ^ 32) :
    miReserveSystemPtes s total = some (0, s) := by
  have hloop := allocateLoop_none cs (show FreeList s ([] ++ cs) from h.free) hnone h.length_lt
  rw [miReserveSystemPtes, h.initialized, if_neg (by simp), if_neg (by omega), allocateFromFreeList, h.free.first_eq]
  rw [lastOf_nil] at hloop
  rw [hloop]
  rfl

theorem reserve_cut (total : ℕ) (hpos : 0 < total) (hfound : ∃ q ∈ cs, total % 2 ^ 32 ≤ q.2) :
    miReserveSystemPtes s total = none ∨ ∃ index p, miReserveSystemPtes s total = some (s.baseVa + index * pageSize, p) ∧
      0 < index + total % 2 ^ 32 ∧ p.baseVa = s.baseVa ∧ p.initialized = true := by
  cases halloc : allocateFromFreeList s (total % 2 ^ 32) with
  | none =>
    left
    rw [miReserveSystemPtes, h.initialized, if_neg (by simp), if_neg (by omega), halloc]
    rfl
  | some taken =>
    right
    have hret := halloc
    rw [allocateFromFreeList, h.free.first_eq] at hret
    obtain ⟨index, p, c, rfl, hc, hstop, hregion⟩ := allocateLoop_some cs (show cs = [] ++ cs from rfl) h.free hret hfound
    have hcpos := h.tiles.pos c (mem_append_left _ hc)
    have hcstop := h.tiles.stop_le (r := c) (mem_append_left _ hc)
    have hva : p.indexToVa index = s.baseVa + index * pageSize := by
      rw [← h.indexToVa_eq index (by omega), SysPtes.indexToVa, SysPtes.indexToVa, hregion.baseVa]
    refine ⟨index, { p with freeCount := fetchSub p.freeCount total }, ?_, ?_, hregion.baseVa, hregion.initialized.trans h.initialized⟩
    · rw [miReserveSystemPtes, h.initialized, if_neg (by simp), if_neg (by omega), halloc, Option.map_some, ← hva]
    · rw [hstop, stop]
      omega

theorem plain_iff (hpos : 0 < count) (hmax : count < 2 ^ 64) :
    ReservesRight s count 1 (miReserveSystemPtes s count) ↔ Uncut s count := by
  rw [h.uncut_iff, and_iff_right hmax]
  by_cases hlt : count < 2 ^ 32
  · refine iff_of_true ?_ (Or.inl hlt)
    rcases h.reserve count hpos hlt with hnone | ⟨index, s', cs', hsome, h', hbase, hcount⟩
    · rw [hnone]
      exact ⟨0, s, rfl, Or.inl ⟨rfl, rfl, fun _ => Iff.rfl⟩⟩
    · have hstop := h'.tiles.stop_le (r := (index, count)) (by simp)
      simp only [stop] at hstop
      have hva := h'.indexToVa_eq index (by omega)
      rw [hsome]
      refine h.reservesRight h' hcount (by rw [hva, hbase]) ?_
      rw [hva, one_mul, add_mul_mod_self_right]
      exact h'.aligned
  by_cases hnone : ∀ q ∈ cs, q.2 < count % 2 ^ 32
  · rw [h.reserve_none hpos hnone]
    exact iff_of_true ⟨0, s, rfl, Or.inl ⟨rfl, rfl, fun _ => Iff.rfl⟩⟩ (Or.inr hnone)
  · refine iff_of_false ?_ (not_or.2 ⟨hlt, hnone⟩)
    have hfound : ∃ q ∈ cs, count % 2 ^ 32 ≤ q.2 := by simpa using hnone
    have hbase := h.base
    have hsize := h.size
    unfold maxSystemPtes at hsize
    rintro ⟨va, s', hret, hzero | ⟨-, -, -, index, -, hfree, -⟩⟩
    · rcases h.reserve_cut count hpos hfound with hcut | ⟨index, p, hcut, -⟩
      · cases hret.symm.trans hcut
      · cases hret.symm.trans hcut
        omega
    · -- no more entries can be free than there are
      have hend := h.end_le hpos hfree
      omega

theorem contiguous_cut {k : ℕ} (hpos : 0 < count) (hk64 : k < 64) (hk : 1 < 2 ^ k)
    (hlarge : 2 ^ 32 ≤ count + (2 ^ k - 1)) (hfound : ∃ q ∈ cs, (count + (2 ^ k - 1)) % 2 ^ 32 ≤ q.2) :
    ¬ ReservesRight s count (2 ^ k) (miReserveSystemPtesContiguous s count (2 ^ k)) := by
  rintro ⟨a, s', hret, hright⟩
  have hbase := h.base
  have hfits := h.fits
  have hsize := h.size
  unfold maxSystemPtes at hsize
  unfold miReserveSystemPtesContiguous at hret
  simp only at hret
  rw [if_neg (by omega)] at hret
  by_cases hover : 2 ^ 64 ≤ count + (2 ^ k - 1)
  · rw [if_pos hover] at hret
    cases hret
  rw [if_neg hover] at hret
  obtain ⟨⟨va, p⟩, hreserve, hret⟩ := bind_eq_some_iff.1 hret
  rcases h.reserve_cut (count + (2 ^ k - 1)) (by omega) hfound with hcut | ⟨j, p', hcut, hj, hp, hinit⟩
  · cases hreserve.symm.trans hcut
  cases hreserve.symm.trans hcut
  simp only at hret
  rw [if_neg (by omega)] at hret
  by_cases hbytes : 2 ^ 64 ≤ 2 ^ k * pageSize ∨ 2 ^ 64 ≤ s.baseVa + j * pageSize + 2 ^ k * pageSize
  · rw [if_pos hbytes] at hret
    cases hret
  rw [if_neg hbytes] at hret
  rw [not_or, Nat.not_le, Nat.not_le] at hbytes
  obtain ⟨skip, hskip, halign, hmod⟩ := aligned_index (k := k) j h.aligned (by omega) (by omega)
  have hskips : (s.baseVa + (j + skip) * pageSize - (s.baseVa + j * pageSize)) / pageSize = skip := by
    rw [Nat.add_mul, ← Nat.add_assoc, Nat.add_sub_cancel_left, Nat.mul_div_cancel _ (by decide)]
  rw [halign, hskips] at hret
  obtain ⟨s₁, hhead, hret⟩ := bind_eq_some_iff.1 hret
  rw [if_neg (by omega)] at hret
  by_cases hend : 0 < 2 ^ k - 1 - skip ∧ 2 ^ 64 ≤ s.baseVa + (j + skip) * pageSize + count * pageSize
  · rw [if_pos hend] at hret
    cases hret
  rw [if_neg hend] at hret
  obtain ⟨s₂, htail, hret⟩ := bind_eq_some_iff.1 hret
  cases hret
  -- the address that is returned lies in the region
  rcases hright with ⟨hzero, -⟩ | ⟨-, -, -, i, hi, hfree, -⟩
  · omega
  have hin := h.end_le hpos hfree
  obtain rfl : i = j + skip := by
    have := Nat.add_left_cancel hi
    exact (Nat.mul_right_cancel (by decide) this).symm
  -- so the alignment is a multiple of 2 ^ 32
  have hk32 : 32 ≤ k := by
    by_contra hsmall
    have := Nat.pow_le_pow_right (n := 2) (by decide) (show k ≤ 31 by omega)
    omega
  have hdvd : 2 ^ k = 2 ^ (k - 32) * 2 ^ 32 := by
    rw [← Nat.pow_add, Nat.sub_add_cancel hk32]
  have hpow : 1 ≤ 2 ^ (k - 32) := Nat.one_le_two_pow
  have hregion : s₁.baseVa = s.baseVa ∧ s₁.initialized = true := by
    unfold releaseSurplus at hhead
    split_ifs at hhead
    · obtain ⟨hb, hi', -⟩ := baseVa_miReleaseSystemPtes hhead
      exact ⟨hb.trans hp, hi'.trans hinit⟩
    · cases hhead
      exact ⟨hp, hinit⟩
  have hindex : s₁.vaToIndex (s.baseVa + (j + skip) * pageSize + count * pageSize) = j + skip + count := by
    rw [SysPtes.vaToIndex, hregion.1]
    unfold pageSize at *
    omega
  have hsurplus : 0 < 2 ^ k - 1 - skip := by omega
  rw [releaseSurplus, if_pos hsurplus, miReleaseSystemPtes, hregion.2, if_neg (by simp), if_neg (by omega), hindex, if_pos (by omega)] at htail
  cases htail

theorem contiguous_iff {k : ℕ} (hpos : 0 < count) (hmax : count < 2 ^ 64) (hk64 : k < 64) :
    ReservesRight s count (2 ^ k) (miReserveSystemPtesContiguous s count (2 ^ k)) ↔ Uncut s (count + (2 ^ k - 1)) := by
  by_cases hk : 2 ^ k ≤ 1
  · have hone : 2 ^ k = 1 := Nat.le_antisymm hk Nat.one_le_two_pow
    rw [miReserveSystemPtesContiguous, if_pos hk, hone]
    exact h.plain_iff hpos hmax
  rw [Nat.not_le] at hk
  rw [h.uncut_iff]
  by_cases hover : 2 ^ 64 ≤ count + (2 ^ k - 1)
  · refine iff_of_false ?_ fun hboth => Nat.not_lt.2 hover hboth.1
    rintro ⟨va, s', hret, -⟩
    unfold miReserveSystemPtesContiguous at hret
    simp only at hret
    rw [if_neg (by omega), if_pos hover] at hret
    cases hret
  rw [and_iff_right (Nat.not_le.1 hover)]
  by_cases hlt : count + (2 ^ k - 1) < 2 ^ 32
  · exact iff_of_true (h.contiguous hpos hk hlt) (Or.inl hlt)
  by_cases hnone : ∀ q ∈ cs, q.2 < (count + (2 ^ k - 1)) % 2 ^ 32
  · refine iff_of_true ?_ (Or.inr hnone)
    unfold miReserveSystemPtesContiguous
    simp only
    rw [if_neg (by omega), if_neg hover, h.reserve_none (by omega) hnone]
    exact ⟨0, s, rfl, Or.inl ⟨rfl, rfl, fun _ => Iff.rfl⟩⟩
  · exact iff_of_false (h.contiguous_cut hpos hk64 hk (Nat.not_lt.1 hlt) (by simpa using hnone)) (not_or.2 ⟨hlt, hnone⟩)

end

end Ready

namespace SysPteClients
variable {s : SysPteClients}

theorem step_region (s : SysPteClients) (op : SysPteOp) :
    (s.step op).ptes.baseVa = s.ptes.baseVa ∧ (s.step op).ptes.pteCount = s.ptes.pteCount := by
  cases op with
  | reserve count =>
    unfold step
    simp only
    cases hret : miReserveSystemPtes s.ptes count with
    | none => exact ⟨rfl, rfl⟩
    | some out =>
      unfold miReserveSystemPtes at hret
      split_ifs at hret
      · cases hret
        exact ⟨rfl, rfl⟩
      · cases hret
        exact ⟨rfl, rfl⟩
      · obtain ⟨taken, halloc, rfl⟩ := map_eq_some_iff.1 hret
        cases taken with
        | none => exact ⟨rfl, rfl⟩
        | some t =>
          have hregion := sameRegion_allocateLoop halloc
          exact ⟨hregion.baseVa, hregion.pteCount⟩
  | release base count =>
    unfold step
    simp only
    cases hret : miReleaseSystemPtes s.ptes base count with
    | none => exact ⟨rfl, rfl⟩
    | some p =>
      obtain ⟨hbase, -, hcount⟩ := baseVa_miReleaseSystemPtes hret
      exact ⟨hbase, hcount⟩
  | store index value => exact ⟨rfl, rfl⟩

theorem Inv.ready (h : s.Inv) (haligned : s.ptes.baseVa % pageSize = 0) (hfits : s.ptes.baseVa + s.ptes.pteCount * pageSize < 2 ^ 64) :
    ∃ cs, Ready s.ptes cs (s.reserved.map s.held) := by
  obtain ⟨cs, hfree, ht, hcs, hcount⟩ := h.list
  exact ⟨cs, h.initialized, h.size, h.base, haligned, hfits, hfree, ht, hcs, hcount⟩

/-- After every run, a reservation is right exactly if its size with the alignment is not cut, or
nothing is found for the rest. -/
theorem reservesRight_iff_uncut {p : SysPtes} {baseVa n : ℕ} (hp : p.initialized = false) (hn : 2 ≤ n) (hbase : 0 < baseVa)
    (haligned : baseVa % pageSize = 0) (hfits : baseVa + min n maxSystemPtes * pageSize < 2 ^ 64) {ops : List SysPteOp}
    (hops : EveryStep step Admitted ⟨miInitializeSystemPtes p baseVa n, []⟩ ops) {count k : ℕ} (hpos : 0 < count) (hmax : count < 2 ^ 64)
    (hk : k < 64) :
    (ReservesRight (run step ⟨miInitializeSystemPtes p baseVa n, []⟩ ops).ptes count 1
        (miReserveSystemPtes (run step ⟨miInitializeSystemPtes p baseVa n, []⟩ ops).ptes count) ↔
      Ready.Uncut (run step ⟨miInitializeSystemPtes p baseVa n, []⟩ ops).ptes count) ∧
    (ReservesRight (run step ⟨miInitializeSystemPtes p baseVa n, []⟩ ops).ptes count (2 ^ k)
        (miReserveSystemPtesContiguous (run step ⟨miInitializeSystemPtes p baseVa n, []⟩ ops).ptes count (2 ^ k)) ↔
      Ready.Uncut (run step ⟨miInitializeSystemPtes p baseVa n, []⟩ ops).ptes (count + (2 ^ k - 1))) := by
  have hinit : (miInitializeSystemPtes p baseVa n).baseVa = baseVa ∧ (miInitializeSystemPtes p baseVa n).pteCount = min n maxSystemPtes := by
    simp only [miInitializeSystemPtes, hp, Bool.false_eq_true, if_false]
    exact ⟨rfl, rfl⟩
  have hrun := run_invariant (I := fun s : SysPteClients => s.Inv ∧ s.ptes.baseVa = baseVa ∧ s.ptes.pteCount = min n maxSystemPtes)
    (fun s op hs ha => ⟨(hs.1.step ha).2, (step_region s op).1.trans hs.2.1, (step_region s op).2.trans hs.2.2⟩)
    ⟨inv_miInitializeSystemPtes hp hn hbase hfits.le, hinit⟩ hops
  obtain ⟨cs, hready⟩ := hrun.1.ready (by rw [hrun.2.1]; exact haligned) (by rw [hrun.2.1, hrun.2.2]; exact hfits)
  exact ⟨hready.plain_iff hpos hmax, hready.contiguous_iff hpos hmax hk⟩

def eight : SysPteClients := ⟨miInitializeSystemPtes uninitialized 0xFFFFF80000000000 8, []⟩

theorem reservesRight_eight : ReservesRight (run step eight []).ptes 3 (2 ^ 2) (miReserveSystemPtesContiguous (run step eight []).ptes 3 (2 ^ 2)) := by
  have hboth := @reservesRight_iff_uncut uninitialized 0xFFFFF80000000000 8 rfl (by decide) (by decide) (by decide) (by decide) [] trivial 3 2
    (by decide) (by decide) (by decide)
  exact hboth.2.2 ⟨by decide, Or.inl (by decide)⟩

/-- `2 ^ 32 + 1` entries: one is taken, and the count of the free ones wraps. -/
theorem reserve_truncates : (∃ s, miReserveSystemPtes eight.ptes (2 ^ 32 + 1) = some (0xFFFFF80000007000, s) ∧ s.freeCount = 2 ^ 64 - 2 ^ 32 + 7) ∧
    ¬ ReservesRight eight.ptes (2 ^ 32 + 1) 1 (miReserveSystemPtes eight.ptes (2 ^ 32 + 1)) := by
  have hinv : Inv eight := inv_miInitializeSystemPtes rfl (by decide) (by decide) (by decide)
  obtain ⟨cs, hready⟩ := hinv.ready (by decide) (by decide)
  have hone : FreeList (miInitializeSystemPtes uninitialized 0xFFFFF80000000000 8) [(0, min 8 maxSystemPtes)] :=
    freeList_miInitializeSystemPtes rfl (by decide)
  have hfree : cs = [(0, 8)] := hready.free.unique hone
  refine ⟨⟨_, rfl, by decide⟩, fun hright => ?_⟩
  have huncut := (hready.plain_iff (by decide) (by decide)).1 hright
  rw [hready.uncut_iff, hfree] at huncut
  rcases huncut.2 with hlt | hsmall
  · exact absurd hlt (by decide)
  · exact absurd (hsmall (0, 8) mem_cons_self) (by decide)

end SysPteClients

end XenOS.Mm
