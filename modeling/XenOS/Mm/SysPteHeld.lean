import XenOS.Mm.SysPteAligned

/-! The allocator leaves the entries of outstanding reservations alone. An aligned reservation is
right for every alignment, not only for powers of two. -/

namespace XenOS.Mm

open General Option Nat Extent
open List (mem_append_left mem_cons_of_mem mem_cons_self perm_middle)

/-- The entries of the reservations stay. -/
def KeepsHeld (res : List Extent) (s s' : SysPtes) : Prop := ∀ q ∈ res, ∀ k, q.Contains k → s'.pte k = s.pte k

namespace KeepsHeld
variable {N : ℕ} {s s' s'' : SysPtes} {cs res res' : List Extent} {c : Extent} {prev v : ℕ}

theorem refl (res : List Extent) (s : SysPtes) : KeepsHeld res s s := fun _ _ _ _ => rfl

theorem trans (h : KeepsHeld res s s') (h' : KeepsHeld res s' s'') : KeepsHeld res s s'' :=
  fun q hq k hk => (h' q hq k hk).trans (h q hq k hk)

theorem mono (h : KeepsHeld res s s') (hsub : ∀ q ∈ res', q ∈ res) : KeepsHeld res' s s' := fun q hq => h q (hsub q hq)

section
variable (ht : Tiles N (cs ++ res))
include ht

theorem not_contains (hc : c ∈ cs) {q : Extent} (hq : q ∈ res) {k : ℕ} (hk : q.Contains k) :
    ¬ c.Contains k := by
  have hapart := (List.pairwise_append.1 ht.apart).2.2 c hc q hq
  simp only [Apart, Contains] at hapart hk ⊢
  omega

theorem of_extent (hc : c ∈ cs) (hpte : ∀ k, ¬ c.Contains k → s'.pte k = s.pte k) :
    KeepsHeld res s s' := fun _ hq k hk => hpte k (not_contains ht hc hq hk)

theorem setLink (hN : N ≤ maxSystemPtes)
    (hprev : prev = mmEmptyList ∨ ∃ q ∈ cs, q.1 = prev) : KeepsHeld res s (s.setLink prev v) := by
  intro q hq k hk
  apply pte_setLink_of_ne
  rintro rfl
  rcases hprev with rfl | ⟨c, hc, rfl⟩
  · have hstop := ht.stop_le (List.mem_append_right cs hq)
    simp only [Contains, stop, maxSystemPtes, mmEmptyList] at *
    omega
  · exact not_contains ht hc hq hk (contains_start (ht.pos c (mem_append_left res hc)))

end

end KeepsHeld

namespace Release.Walked
variable {N fuel : ℕ} {s : SysPtes} {res ks todo : List Extent} {r r' : Release} {c : Extent}

theorem turn_keeps (h : Walked N s res r ks (c :: todo)) (hN : N ≤ maxSystemPtes) : KeepsHeld res r.ptes r.turn.ptes := by
  have hsize := getClusterSize_of_isCluster (h.free.clusters c (by simp))
  have ht : Tiles N ((r.released :: (ks ++ c :: todo)) ++ res) := h.tiles
  by_cases hadj : c.stop = r.released.1 ∨ r.released.stop = c.1
  · rw [turn_join h.current hsize hadj]
    have hprev : r.prev = mmEmptyList ∨ ∃ q ∈ r.released :: (ks ++ c :: todo), q.1 = r.prev := by
      rw [h.prev]
      exact lastOf_mem fun q hq => mem_cons_of_mem _ (mem_append_left _ hq)
    exact (KeepsHeld.setLink ht hN hprev).trans (KeepsHeld.of_extent ht (by simp) fun k hk => pte_clearCluster hk (ht.pos c (by simp)))
  · rw [turn_pass h.current hsize hadj]
    exact KeepsHeld.refl res _

theorem loop_keeps (hN : N ≤ maxSystemPtes) (h : Walked N s res r ks todo) (hret : Release.loop fuel r = some r') :
    KeepsHeld res r.ptes r'.ptes := by
  induction todo generalizing r ks fuel with
  | nil =>
    cases fuel with
    | zero => cases hret
    | succ fuel =>
      have hcurrent : r.current = mmEmptyList := h.current
      rw [Release.loop, if_pos hcurrent] at hret
      cases hret
      exact KeepsHeld.refl res _
  | cons c todo ih =>
    cases fuel with
    | zero => cases hret
    | succ fuel =>
      have hne : r.current ≠ mmEmptyList := h.current ▸ h.free.ne_end (r := c) (by simp)
      rw [Release.loop, if_neg hne] at hret
      exact (h.turn_keeps hN).trans (ih (h.turn hN) hret)

theorem insert_keeps (h : Walked N s res r ks []) (hN : N ≤ maxSystemPtes) : KeepsHeld res r.ptes r.insert := by
  have ht : Tiles N ((r.released :: (ks ++ [])) ++ res) := h.tiles
  have hprev : (if r.insertAfter = mmEmptyList then r.prev else r.insertAfter) = mmEmptyList ∨
      ∃ q ∈ r.released :: (ks ++ []), q.1 = if r.insertAfter = mmEmptyList then r.prev else r.insertAfter := by
    obtain ⟨as, bs, hks, hafter⟩ := h.after
    split_ifs
    · rw [h.prev]
      exact lastOf_mem fun q hq => mem_cons_of_mem _ (mem_append_left _ hq)
    · rw [hafter]
      exact lastOf_mem fun q hq => mem_cons_of_mem _ (mem_append_left _ (hks ▸ mem_append_left bs hq))
  have hinit : KeepsHeld res r.ptes (r.ptes.initFreeCluster r.startIndex r.count
      (r.ptes.link (if r.insertAfter = mmEmptyList then r.prev else r.insertAfter))) :=
    KeepsHeld.of_extent ht mem_cons_self fun k hk => pte_initFreeCluster hk (ht.pos r.released (by simp))
  exact hinit.trans (KeepsHeld.setLink ht hN hprev)

end Release.Walked

section
variable {N count index : ℕ} {s s' : SysPtes} {as bs cs res : List Extent} {c : Extent}

theorem releasePtesWithCoalescing_keeps (hfree : FreeList s cs) (ht : Tiles N (c :: (cs ++ res))) (hcs : Coalesced cs)
    (hN : N ≤ maxSystemPtes) (hpc : s.pteCount = N) (hret : releasePtesWithCoalescing s c.1 c.2 = some s') :
    KeepsHeld res s s' := by
  obtain ⟨r, hloop, rfl⟩ := map_eq_some_iff.1 hret
  have hstart := walked_start hfree ht hcs
  have hlen := length_lt_pteCount ht hpc
  obtain ⟨r', ks, hloop', hend⟩ := hstart.loop hN cs hlen
  obtain rfl : r' = r := some.inj (hloop'.symm.trans hloop)
  exact (hstart.loop_keeps hN hloop).trans (hend.insert_keeps hN)

theorem takeFromCluster_keeps (h : FreeList s (as ++ c :: bs)) (ht : Tiles N (as ++ c :: bs ++ res))
    (hN : N ≤ maxSystemPtes) (hpc : s.pteCount = N) (h0 : 0 < count) (hcount : count ≤ c.2)
    (hret : takeFromCluster s count (lastOf as) c.1 = some (index, s')) : KeepsHeld res s s' := by
  have hsize := getClusterSize_of_isCluster (h.clusters c (by simp))
  have hlink : KeepsHeld res s (s.setLink (lastOf as) (s.blockNext c.1)) :=
    KeepsHeld.setLink ht hN (lastOf_mem fun q hq => mem_append_left _ hq)
  unfold takeFromCluster at hret
  simp only [hsize] at hret
  split_ifs at hret with hlt
  · obtain ⟨p, hinsert, heq⟩ := map_eq_some_iff.1 hret
    cases heq
    obtain ⟨⟨prev, current⟩, hposition, rfl⟩ := map_eq_some_iff.1 hinsert
    obtain ⟨hregion, hoff, -⟩ := h.shrink (c.2 - count) (ht.separate.mono fun q hq => mem_append_left res hq)
      (List.nodup_append.1 ht.nodup).1 (fun q hq => tiles_lt ht hN (mem_append_left _ hq)) (by omega) (by omega)
      (by
        have hstop := ht.stop_le (r := c) (by simp)
        simp only [stop, maxSystemPtes] at hstop hN
        omega)
    have hlen : (as ++ bs).length < s.pteCount + 1 := by
      have htotal := ht.totalLength_eq
      have hle := length_le_totalLength (l := as ++ c :: bs) fun q hq => ht.pos q (mem_append_left _ hq)
      rw [totalLength_append] at htotal
      simp only [List.length_append, List.length_cons] at hle ⊢
      omega
    obtain ⟨as', bs', hsplit, -, -, hsorted⟩ := sortedPosition_spec (c.2 - count) (as ++ bs)
      (show FreeList _ ([] ++ (as ++ bs)) from hoff) (fun q hq => by cases hq) (hregion.pteCount ▸ hlen)
    have hplace : prev = lastOf as' := by
      rw [← hoff.first_eq, lastOf_nil, hposition] at hsorted
      exact congrArg Prod.fst (some.inj hsorted)
    have hprev : prev = mmEmptyList ∨ ∃ q ∈ as ++ c :: bs, q.1 = prev := by
      rw [hplace]
      refine lastOf_mem fun q hq => mem_of_mem_cut ?_
      rw [List.nil_append] at hsplit
      rw [hsplit]
      exact mem_append_left bs' hq
    have hc : c ∈ as ++ c :: bs := by simp
    have hfirst : c.1 = mmEmptyList ∨ ∃ q ∈ as ++ c :: bs, q.1 = c.1 := Or.inr ⟨c, hc, rfl⟩
    dsimp only
    rw [setBlockNext_eq_setLink (h.ne_end hc)]
    refine hlink.trans ((KeepsHeld.of_extent ht hc fun k hk => pte_shrinkCluster (by omega) (by omega) hk).trans
      ((KeepsHeld.setLink ht hN hfirst).trans ((KeepsHeld.setLink ht hN hprev).trans (KeepsHeld.of_extent ht hc fun k hk => if_neg ?_))))
    simp only [Contains, stop] at hk
    omega
  · cases hret
    exact hlink.trans (KeepsHeld.of_extent ht (by simp) fun k hk => pte_clearCluster hk (ht.pos c (by simp)))

theorem allocateLoop_keeps (ht : Tiles N (cs ++ res)) (hN : N ≤ maxSystemPtes) (hpc : s.pteCount = N) (h0 : 0 < count)
    (bs : List Extent) : ∀ {as : List Extent} {fuel : ℕ}, cs = as ++ bs → FreeList s (as ++ bs) →
      allocateLoop s count fuel (lastOf as) (firstOf bs) = some (some (index, s')) → KeepsHeld res s s' := by
  induction bs with
  | nil =>
    intro as fuel _ _ hret
    cases fuel with
    | zero => cases hret
    | succ fuel => cases hret
  | cons c bs ih =>
    intro as fuel hsplit h hret
    cases fuel with
    | zero => cases hret
    | succ fuel =>
      have hne : c.1 ≠ mmEmptyList := h.ne_end (by simp)
      rw [allocateLoop, firstOf_cons, if_neg hne, getClusterSize_of_isCluster (h.clusters c (by simp))] at hret
      split_ifs at hret with hcount
      · obtain ⟨out, htake, heq⟩ := map_eq_some_iff.1 hret
        cases heq
        exact takeFromCluster_keeps h (hsplit ▸ ht) hN hpc h0 hcount htake
      · have hall : as ++ c :: bs = as ++ [c] ++ bs := by simp
        rw [h.next_eq, ← lastOf_concat as c] at hret
        exact ih (hsplit.trans hall) (hall ▸ h) hret

end

namespace Ready
variable {s s' : SysPtes} {cs res : List Extent} {c : Extent} {count index va : ℕ}

theorem reserve_keeps (h : Ready s cs res) (hpos : 0 < count) (hlt : count < 2 ^ 32)
    (hret : miReserveSystemPtes s count = some (va, s')) : KeepsHeld res s s' := by
  rw [miReserveSystemPtes, h.initialized, if_neg (by simp), if_neg (by omega), mod_eq_of_lt hlt, allocateFromFreeList,
    h.free.first_eq] at hret
  obtain ⟨taken, halloc, heq⟩ := map_eq_some_iff.1 hret
  cases taken with
  | none =>
    cases heq
    exact KeepsHeld.refl res s
  | some t =>
    obtain ⟨index, p⟩ := t
    cases heq
    have hkeeps : KeepsHeld res s p := allocateLoop_keeps h.tiles h.size rfl hpos cs (show cs = [] ++ cs from rfl) h.free halloc
    exact hkeeps

theorem release_keeps (h : Ready s cs (c :: res)) (hret : miReleaseSystemPtes s (s.indexToVa c.1) c.2 = some s') :
    KeepsHeld res s s' := by
  have ht' : Tiles s.pteCount (c :: (cs ++ res)) := h.tiles.perm perm_middle
  have hpos : 0 < c.2 := ht'.pos c mem_cons_self
  have hstop := ht'.stop_le (r := c) mem_cons_self
  have hsize := h.size
  simp only [stop, maxSystemPtes] at hstop hsize
  have hindex : s.vaToIndex (s.indexToVa c.1) = c.1 := SysPteClients.vaToIndex_indexToVa h.fits.le (by omega) h.size
  have hva : s.indexToVa c.1 ≠ 0 := SysPteClients.indexToVa_ne_zero h.fits.le h.base (by omega)
  have hzero : FreeList (s.zeroPtes c.1 c.2) cs := by
    refine h.free.frame_extent (r := c) (ht'.separate.mono (by simp; tauto)) (fun hmem => ?_) rfl fun k hk => if_neg hk
    exact (List.nodup_cons.1 ht'.nodup).1 (mem_append_left _ hmem)
  have hcleared : KeepsHeld res s (s.zeroPtes c.1 c.2) :=
    KeepsHeld.of_extent (show Tiles s.pteCount ((c :: cs) ++ res) from ht') mem_cons_self fun k hk => if_neg hk
  rw [miReleaseSystemPtes, h.initialized, if_neg (by simp), if_neg (by omega), hindex, if_neg (by omega),
    mod_eq_of_lt (by omega)] at hret
  obtain ⟨p, hrelease, rfl⟩ := map_eq_some_iff.1 hret
  have hkeeps : KeepsHeld res (s.zeroPtes c.1 c.2) p := releasePtesWithCoalescing_keeps hzero ht' h.coalesced h.size rfl hrelease
  exact hcleared.trans hkeeps

theorem split {i a b : ℕ} (h : Ready s cs ((i, a + b) :: res)) (ha : 0 < a) (hb : 0 < b) :
    Ready s cs ((i, a) :: (i + a, b) :: res) := by
  refine ⟨h.initialized, h.size, h.base, h.aligned, h.fits, h.free, ?_, h.coalesced, h.count⟩
  refine ((h.tiles.perm perm_middle).split ha hb).perm ?_
  exact (List.Perm.cons _ perm_middle.symm).trans perm_middle.symm

theorem swap {q q' : Extent} (h : Ready s cs (q :: q' :: res)) : Ready s cs (q' :: q :: res) :=
  ⟨h.initialized, h.size, h.base, h.aligned, h.fits, h.free, h.tiles.perm ((List.Perm.swap _ _ _).append_left cs), h.coalesced,
    h.count⟩

theorem giveBack (res : List Extent) (i n : ℕ) (h : 0 < n → Ready s cs ((i, n) :: res)) (hnone : n = 0 → Ready s cs res) :
    ∃ s' cs', releaseSurplus s (s.indexToVa i) n = some s' ∧ Ready s' cs' res ∧ KeepsHeld res s s' ∧ s'.baseVa = s.baseVa ∧
      s'.pteCount = s.pteCount := by
  unfold releaseSurplus
  split_ifs with hn
  · obtain ⟨s', cs', hret, hready, hbase, hcount⟩ := (h hn).release
    exact ⟨s', cs', hret, hready, (h hn).release_keeps hret, hbase, hcount⟩
  · exact ⟨s, cs, rfl, hnone (by omega), KeepsHeld.refl res s, rfl, rfl⟩

end Ready

theorem alignDown_bounds {x m : ℕ} (hx : x < 2 ^ 64) (hm : m - 1 < 2 ^ 64) :
    alignDown x m ≤ x ∧ x ≤ alignDown x m + (m - 1) := by
  obtain ⟨y, hy⟩ : ∃ y, y = BitVec.ofNat 64 x := ⟨_, rfl⟩
  obtain ⟨mask, hmask⟩ : ∃ mask, mask = BitVec.ofNat 64 (m - 1) := ⟨_, rfl⟩
  have hyx : y.toNat = x := by rw [hy, BitVec.toNat_ofNat, mod_eq_of_lt hx]
  have hmm : mask.toNat = m - 1 := by rw [hmask, BitVec.toNat_ofNat, mod_eq_of_lt hm]
  have hdisjoint : (y &&& ~~~mask) &&& (y &&& mask) = 0#64 := by
    apply BitVec.eq_of_getLsbD_eq
    intro i hi
    simp only [BitVec.getLsbD_and, BitVec.getLsbD_not, BitVec.getLsbD_zero]
    cases y.getLsbD i <;> cases mask.getLsbD i <;> simp
  have hunion : (y &&& ~~~mask) ||| (y &&& mask) = y := by
    apply BitVec.eq_of_getLsbD_eq
    intro i hi
    simp only [BitVec.getLsbD_or, BitVec.getLsbD_and, BitVec.getLsbD_not, hi, decide_true, Bool.true_and]
    cases y.getLsbD i <;> cases mask.getLsbD i <;> rfl
  have hsum : (y &&& ~~~mask).toNat + (y &&& mask).toNat = y.toNat := by
    rw [← BitVec.toNat_add_of_and_eq_zero hdisjoint, BitVec.add_eq_or_of_and_eq_zero _ _ hdisjoint, hunion]
  have hle : (y &&& mask).toNat ≤ mask.toNat := by
    rw [BitVec.toNat_and]
    exact and_le_right
  rw [alignDown, ← hy, ← hmask]
  omega

theorem alignDown_page {x a : ℕ} (ha : 0 < a) : alignDown x (a * pageSize) % pageSize = 0 := by
  have hmask : a * pageSize - 1 = 2 ^ 12 * (a - 1) + (2 ^ 12 - 1) := by
    unfold pageSize
    omega
  apply eq_of_testBit_eq
  intro i
  have hpow (y : ℕ) : y % pageSize = y % 2 ^ 12 := rfl
  rw [hpow, testBit_mod_two_pow, zero_testBit]
  by_cases hi : i < 12
  · have hbit : (a * pageSize - 1).testBit i = true := by
      rw [hmask, testBit_two_pow_mul_add _ (by decide), if_pos hi, testBit_two_pow_sub_one]
      simp [hi]
    have hand : (alignDown x (a * pageSize)).testBit i = false := by
      rw [alignDown, BitVec.testBit_toNat, BitVec.getLsbD_and, BitVec.getLsbD_not, BitVec.getLsbD_ofNat, BitVec.getLsbD_ofNat, hbit]
      simp [show i < 64 by omega]
    rw [hand, Bool.and_false]
  · simp [hi]

theorem aligned_index_any {base index a : ℕ} (hbase : base % pageSize = 0) (ha : 0 < a)
    (hlt : base + index * pageSize + a * pageSize ≤ 2 ^ 64) :
    ∃ skip ≤ a - 1, alignDown (base + index * pageSize + a * pageSize - 1) (a * pageSize) = base + (index + skip) * pageSize := by
  have hsize : 0 < a * pageSize := Nat.mul_pos ha (by decide)
  obtain ⟨hle, hge⟩ := @alignDown_bounds (base + index * pageSize + a * pageSize - 1) (a * pageSize) (by omega) (by omega)
  have hpage := @alignDown_page (base + index * pageSize + a * pageSize - 1) a ha
  generalize alignDown (base + index * pageSize + a * pageSize - 1) (a * pageSize) = y at hle hge hpage ⊢
  refine ⟨(y - (base + index * pageSize)) / pageSize, ?_, ?_⟩
  · unfold pageSize at *
    omega
  · unfold pageSize at *
    omega

namespace Ready
variable {s : SysPtes} {cs res : List Extent} {count alignment : ℕ}

theorem contiguous_takes (h : Ready s cs res) (hpos : 0 < count) (hlt : count + (alignment - 1) < 2 ^ 32) :
    miReserveSystemPtesContiguous s count alignment = some (0, s) ∨
      ∃ index s' cs', miReserveSystemPtesContiguous s count alignment = some (s'.indexToVa index, s') ∧
        Ready s' cs' ((index, count) :: res) ∧ KeepsHeld res s s' ∧ s'.baseVa = s.baseVa ∧ s'.pteCount = s.pteCount := by
  unfold miReserveSystemPtesContiguous
  by_cases hone : alignment ≤ 1
  · rw [if_pos hone]
    rcases h.reserve count hpos (by omega) with hnone | ⟨index, s', cs', hsome, hready, hbase, hcount⟩
    · exact Or.inl hnone
    · exact Or.inr ⟨index, s', cs', hsome, hready, h.reserve_keeps hpos (by omega) hsome, hbase, hcount⟩
  rw [if_neg hone]
  simp only
  rw [if_neg (by omega)]
  rcases h.reserve (count + (alignment - 1)) (by omega) hlt with hnone | ⟨index, s₁, cs₁, hsome, h₁, hbase₁, hcount₁⟩
  · left
    rw [hnone]
    rfl
  right
  have hkeeps₁ := h.reserve_keeps (by omega) hlt hsome
  have hstop := h₁.tiles.stop_le (r := (index, count + (alignment - 1))) (by simp)
  simp only [stop] at hstop
  have hva := h₁.indexToVa_eq index (by omega)
  have hbase := h₁.base
  have hfits := h₁.fits
  have hmul : (index + alignment) * pageSize ≤ s₁.pteCount * pageSize := Nat.mul_le_mul_right _ (by omega)
  rw [Nat.add_mul] at hmul
  obtain ⟨skip, hskip, halign⟩ := @aligned_index_any s₁.baseVa index alignment h₁.aligned (by omega) (by omega)
  have hskips : (s₁.baseVa + (index + skip) * pageSize - s₁.indexToVa index) / pageSize = skip := by
    rw [hva, Nat.add_mul, ← Nat.add_assoc, Nat.add_sub_cancel_left, Nat.mul_div_cancel _ (by decide)]
  simp only [hsome, bind_eq_bind, bind_some]
  rw [if_neg (by omega), if_neg (by omega), hva, halign, ← hva, hskips]
  -- the head
  obtain ⟨rest, hrest⟩ : ∃ rest, count + (alignment - 1) = skip + (count + rest) := ⟨alignment - 1 - skip, by omega⟩
  rw [hrest] at h₁
  obtain ⟨s₂, cs₂, hret₂, h₂, hkeeps₂, hbase₂, hcount₂⟩ := giveBack ((index + skip, count + rest) :: res) index skip
    (fun hskip => h₁.split hskip (by omega)) fun hzero => by
      subst hzero
      simpa using h₁
  rw [hret₂, bind_some, if_neg (by omega), show alignment - 1 - skip = rest by omega]
  -- the tail
  obtain ⟨s₃, cs₃, hret₃, h₃, hkeeps₃, hbase₃, hcount₃⟩ := giveBack ((index + skip, count) :: res)
    (index + skip + count) rest (fun hrest => (h₂.split hpos hrest).swap) fun hzero => by
      subst hzero
      exact h₂
  have htail : s₁.baseVa + (index + skip) * pageSize + count * pageSize = s₂.indexToVa (index + skip + count) := by
    rw [h₂.indexToVa_eq _ (by omega), hbase₂, Nat.add_mul (index + skip) count, Nat.add_assoc]
  have htail_lt : s₂.indexToVa (index + skip + count) < 2 ^ 64 := Nat.mod_lt _ (by decide)
  rw [htail, if_neg (by omega), hret₃, bind_some]
  refine ⟨index + skip, s₃, cs₃, ?_, h₃, ?_, ?_, ?_⟩
  · rw [h₃.indexToVa_eq _ (by omega), hbase₃, hbase₂]
    rfl
  · exact hkeeps₁.trans ((hkeeps₂.mono fun q hq => mem_cons_of_mem _ hq).trans (hkeeps₃.mono fun q hq => mem_cons_of_mem _ hq))
  · rw [hbase₃, hbase₂, hbase₁]
  · rw [hcount₃, hcount₂, hcount₁]

end Ready

end XenOS.Mm
