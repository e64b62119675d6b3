import XenOS.General.Run
import XenOS.Mm.SysPteOps

/-! The system page table entry allocator over its runs: the free clusters and the
outstanding reservations tile the region, and no two clusters touch. -/

namespace XenOS.Mm

open General List SysPtes

structure SysPteClients where
  ptes : SysPtes
  reserved : List (ℕ × ℕ)

inductive SysPteOp where
  | reserve (count : ℕ)
  | release (base count : ℕ)
  | store (index : ℕ) (value : BitVec 64)

namespace SysPteClients

/-- The entries of a reservation. -/
def held (s : SysPteClients) (r : ℕ × ℕ) : Extent := (s.ptes.vaToIndex r.1, r.2)

def Returns (s : SysPteClients) : SysPteOp → Prop
  | .reserve count => (miReserveSystemPtes s.ptes count).isSome
  | .release base count => (miReleaseSystemPtes s.ptes base count).isSome
  | .store _ _ => True

def step (s : SysPteClients) : SysPteOp → SysPteClients
  | .reserve count =>
    match miReserveSystemPtes s.ptes count with
    | some (va, ptes) => ⟨ptes, if va = 0 then s.reserved else (va, count) :: s.reserved⟩
    | none => s
  | .release base count =>
    match miReleaseSystemPtes s.ptes base count with
    | some ptes => ⟨ptes, s.reserved.erase (base, count)⟩
    | none => s
  | .store index value => { s with ptes := s.ptes.writePte index value }

/-- Reserve between one page and all of them, release a reservation as a whole, and store into
entries held. -/
def Admitted (s : SysPteClients) : SysPteOp → Prop
  | .reserve count => 1 ≤ count ∧ count ≤ s.ptes.pteCount
  | .release base count => (base, count) ∈ s.reserved
  | .store index _ => ∃ r ∈ s.reserved, (s.held r).Contains index

instance (s : SysPteClients) : (op : SysPteOp) → Decidable (s.Admitted op)
  | .reserve _ => inferInstanceAs (Decidable (_ ∧ _))
  | .release base count => inferInstanceAs (Decidable ((base, count) ∈ s.reserved))
  | .store index _ => inferInstanceAs (Decidable (∃ r ∈ s.reserved, (s.held r).Contains index))

/-- The free list is acyclic, nothing is free or held twice, no clusters are adjacent, the region is
covered, and the count is right. -/
structure WellFormed (s : SysPteClients) (clusters : List Extent) : Prop where
  list : FreeList s.ptes clusters
  acyclic : (clusters.map Prod.fst).Nodup
  disjoint : (clusters ++ s.reserved.map s.held).Pairwise Extent.Apart
  coalesced : Coalesced clusters
  covered : ∀ k, k < s.ptes.pteCount ↔ ∃ r ∈ clusters ++ s.reserved.map s.held, r.Contains k
  freeCount : s.ptes.freeCount = totalLength clusters

structure Inv (s : SysPteClients) : Prop where
  initialized : s.ptes.initialized = true
  size : s.ptes.pteCount ≤ maxSystemPtes
  base : 0 < s.ptes.baseVa
  fits : s.ptes.baseVa + s.ptes.pteCount * pageSize ≤ 2 ^ 64
  addresses : ∀ r ∈ s.reserved, r.1 ≠ 0
  list : ∃ cs, FreeList s.ptes cs ∧ Tiles s.ptes.pteCount (cs ++ s.reserved.map s.held) ∧ Coalesced cs ∧
    s.ptes.freeCount = totalLength cs

variable {s : SysPteClients}

theorem Inv.wellFormed (h : s.Inv) : ∃ cs, s.WellFormed cs := by
  obtain ⟨cs, hfree, ht, hcs, hcount⟩ := h.list
  refine ⟨cs, hfree, hfree.walk.nodup, ht.apart, hcs, fun k => ?_, hcount⟩
  rw [← cover_pos_iff, ht.cover]
  split <;> omega

variable {p : SysPtes} {index : ℕ}

theorem vaToIndex_indexToVa (hbase : p.baseVa + p.pteCount * pageSize ≤ 2 ^ 64)
    (hindex : index < p.pteCount) (hsize : p.pteCount ≤ maxSystemPtes) :
    p.vaToIndex (p.indexToVa index) = index := by
  simp only [vaToIndex, indexToVa, pageSize, maxSystemPtes] at *
  omega

theorem indexToVa_ne_zero (hbase : p.baseVa + p.pteCount * pageSize ≤ 2 ^ 64)
    (hpos : 0 < p.baseVa) (hindex : index < p.pteCount) : p.indexToVa index ≠ 0 := by
  simp only [indexToVa, pageSize] at *
  omega

theorem held_congr {s' : SysPteClients} (h : s'.ptes.baseVa = s.ptes.baseVa) : s'.held = s.held := by
  funext r
  simp only [held, vaToIndex, h]

variable {count : ℕ} {cs : List Extent}

theorem Inv.reserve_cases (h : s.Inv) (hc : 1 ≤ count ∧ count ≤ s.ptes.pteCount) (hfree : FreeList s.ptes cs)
    (ht : Tiles s.ptes.pteCount (cs ++ s.reserved.map s.held)) (hcs : Coalesced cs) :
    miReserveSystemPtes s.ptes count = some (0, s.ptes) ∨
      ∃ index p, miReserveSystemPtes s.ptes count = some (p.indexToVa index, { p with freeCount := fetchSub p.freeCount count }) ∧
        Takes s.ptes.pteCount s.ptes cs (s.reserved.map s.held) count index p := by
  obtain ⟨taken, halloc, htaken⟩ := allocateFromFreeList_spec hfree ht hcs h.size rfl hc.1
  have hmod : count % 2 ^ 32 = count := by
    have := h.size
    simp only [maxSystemPtes] at this
    omega
  have heq : miReserveSystemPtes s.ptes count = some (taken.elim (0, s.ptes)
      fun t => (t.2.indexToVa t.1, { t.2 with freeCount := fetchSub t.2.freeCount count })) := by
    rw [miReserveSystemPtes, h.initialized, if_neg (by simp), if_neg (by omega), hmod, halloc]
    cases taken <;> rfl
  cases taken with
  | none => exact Or.inl heq
  | some t => exact Or.inr ⟨t.1, t.2, heq, htaken t.1 t.2 rfl⟩

theorem Inv.reserve (h : s.Inv) (hc : 1 ≤ count ∧ count ≤ s.ptes.pteCount) :
    s.Returns (.reserve count) ∧ (s.step (.reserve count)).Inv := by
  obtain ⟨cs, hfree, ht, hcs, hcount⟩ := h.list
  rcases h.reserve_cases hc hfree ht hcs with hnone | ⟨index, p, hsome, htakes⟩
  · simp only [Returns, step, hnone]
    exact ⟨rfl, h⟩
  · obtain ⟨hregion, ⟨cs', hfree', ht', hcs', -⟩, -⟩ := htakes
    have hindex : index < s.ptes.pteCount := by
      have := ht'.stop_le (r := (index, count)) (by simp)
      simp only [Extent.stop] at this
      omega
    have hfits : p.baseVa + p.pteCount * pageSize ≤ 2 ^ 64 := by
      rw [hregion.baseVa, hregion.pteCount]
      exact h.fits
    have hva : p.indexToVa index ≠ 0 :=
      indexToVa_ne_zero hfits (hregion.baseVa ▸ h.base) (hregion.pteCount ▸ hindex)
    simp only [Returns, step, hsome, if_neg hva]
    refine ⟨rfl,
      { initialized := hregion.initialized.trans h.initialized
        size := hregion.pteCount ▸ h.size
        base := hregion.baseVa ▸ h.base
        fits := hfits
        addresses := ?_
        list := ⟨cs', ?_, ?_, hcs', ?_⟩ }⟩
    · intro r hr
      rcases mem_cons.1 hr with rfl | hr
      · exact hva
      · exact h.addresses r hr
    · exact ⟨hfree'.walk, hfree'.clusters⟩
    · rw [map_cons, held_congr (s := s) hregion.baseVa]
      have hidx : held s (p.indexToVa index, count) = (index, count) := by
        have hheld : held ⟨p, []⟩ = held s := held_congr hregion.baseVa
        rw [← hheld]
        simp only [held]
        rw [vaToIndex_indexToVa hfits (hregion.pteCount ▸ hindex) (hregion.pteCount ▸ h.size)]
      rw [hidx]
      show Tiles p.pteCount _
      rw [hregion.pteCount]
      exact ht'.perm perm_middle.symm
    · have htotal := ht.totalLength_eq
      have htotal' := ht'.totalLength_eq
      have hsize := h.size
      simp only [totalLength_append, totalLength_cons, maxSystemPtes] at htotal htotal' hsize
      show fetchSub p.freeCount count = totalLength cs'
      rw [hregion.freeCount, hcount, fetchSub_of_le (by omega) (by omega)]
      omega

theorem Inv.release_start {base : ℕ} (h : s.Inv) (hr : (base, count) ∈ s.reserved)
    (hfree : FreeList s.ptes cs) (ht : Tiles s.ptes.pteCount (cs ++ s.reserved.map s.held)) :
    Tiles s.ptes.pteCount (s.held (base, count) :: (cs ++ (s.reserved.erase (base, count)).map s.held)) ∧
      FreeList (s.ptes.zeroPtes (s.ptes.vaToIndex base) count) cs ∧
      miReleaseSystemPtes s.ptes base count =
        (releasePtesWithCoalescing (s.ptes.zeroPtes (s.ptes.vaToIndex base) count) (s.ptes.vaToIndex base) count).map fun p =>
          { p with freeCount := fetchAdd p.freeCount count } := by
  have hperm : (cs ++ s.reserved.map s.held).Perm (s.held (base, count) :: (cs ++ (s.reserved.erase (base, count)).map s.held)) :=
    ((Perm.refl cs).append ((perm_cons_erase hr).map s.held)).trans perm_middle
  have ht' := ht.perm hperm
  have hpos : 0 < count := ht'.pos (s.held (base, count)) (by simp)
  have hend : s.ptes.vaToIndex base + count ≤ 2 ^ 20 := by
    have hstop := ht'.stop_le (r := s.held (base, count)) (by simp)
    have := h.size
    simp only [held, Extent.stop, maxSystemPtes] at hstop this
    omega
  refine ⟨ht', ?_, ?_⟩
  · refine hfree.frame_extent (r := s.held (base, count)) (ht'.separate.mono (by simp; tauto)) (fun hmem => ?_) rfl fun k hk => if_neg hk
    exact (nodup_cons.1 ht'.nodup).1 (mem_append_left _ hmem)
  · rw [miReleaseSystemPtes, h.initialized, if_neg (by simp), if_neg, if_neg (by omega), show count % 2 ^ 32 = count by omega]
    have := h.addresses _ hr
    simp only at this
    omega

theorem Inv.release {base : ℕ} (h : s.Inv) (hr : (base, count) ∈ s.reserved) :
    s.Returns (.release base count) ∧ (s.step (.release base count)).Inv := by
  obtain ⟨cs, hfree, ht, hcs, hcount⟩ := h.list
  obtain ⟨ht', hzero, hsome⟩ := h.release_start hr hfree ht
  obtain ⟨p, cs', hrelease, hregion, hfree', htiles, hcs'⟩ :=
    releasePtesWithCoalescing_spec (c := s.held (base, count)) hzero ht' hcs h.size rfl
  rw [show releasePtesWithCoalescing (s.ptes.zeroPtes (s.ptes.vaToIndex base) count) (s.ptes.vaToIndex base) count = some p from hrelease,
    Option.map_some] at hsome
  simp only [Returns, step, hsome]
  have hbaseVa : p.baseVa = s.ptes.baseVa := hregion.baseVa
  have hpteCount : p.pteCount = s.ptes.pteCount := hregion.pteCount
  refine ⟨rfl,
    { initialized := hregion.initialized.trans h.initialized
      size := hpteCount ▸ h.size
      base := hbaseVa ▸ h.base
      fits := ?_
      addresses := fun r hr => h.addresses r (mem_of_mem_erase hr)
      list := ⟨cs', ⟨hfree'.walk, hfree'.clusters⟩, ?_, hcs', ?_⟩ }⟩
  · show p.baseVa + p.pteCount * pageSize ≤ 2 ^ 64
    rw [hbaseVa, hpteCount]
    exact h.fits
  · rw [held_congr (s := s) hbaseVa]
    show Tiles p.pteCount _
    rw [hpteCount]
    exact htiles
  · have htotal := ht'.totalLength_eq
    have htotal' := htiles.totalLength_eq
    have hsize := h.size
    simp only [totalLength_append, totalLength_cons, maxSystemPtes, held] at htotal htotal' hsize
    show fetchAdd p.freeCount count = totalLength cs'
    rw [show p.freeCount = s.ptes.freeCount from hregion.freeCount, hcount, fetchAdd_of_lt (by omega)]
    omega

theorem freeList_store {value : BitVec 64} (hfree : FreeList s.ptes cs)
    (ht : Tiles s.ptes.pteCount (cs ++ s.reserved.map s.held))
    (hr : ∃ r ∈ s.reserved, (s.held r).Contains index) :
    FreeList (s.ptes.writePte index value) cs := by
  obtain ⟨r, hr, hindex⟩ := hr
  refine hfree.frame (fun q hq => ht.pos q (mem_append_left _ hq)) rfl fun q hq k hk => ?_
  refine Function.update_of_ne ?_ _ _
  rintro rfl
  have hapart := (pairwise_append.1 ht.apart).2.2 q hq (s.held r) (mem_map_of_mem hr)
  simp only [Extent.Apart, Extent.Contains] at hapart hindex hk
  omega

theorem Inv.store {value : BitVec 64} (h : s.Inv) (hr : ∃ r ∈ s.reserved, (s.held r).Contains index) :
    (s.step (.store index value)).Inv := by
  obtain ⟨cs, hfree, ht, hcs, hcount⟩ := h.list
  exact
    { initialized := h.initialized
      size := h.size
      base := h.base
      fits := h.fits
      addresses := h.addresses
      list := ⟨cs, freeList_store hfree ht hr, ht, hcs, hcount⟩ }

theorem Inv.step {op : SysPteOp} (h : s.Inv) (ha : s.Admitted op) : s.Returns op ∧ (s.step op).Inv := by
  cases op with
  | reserve count => exact h.reserve ha
  | release base count => exact h.release ha
  | store index value => exact ⟨trivial, h.store ha⟩

theorem freeList_miInitializeSystemPtes {baseVa : ℕ} (hp : p.initialized = false) (hcount : 2 ≤ count) :
    FreeList (miInitializeSystemPtes p baseVa count) [(0, min count maxSystemPtes)] := by
  obtain ⟨n, hn⟩ : ∃ n, n = min count maxSystemPtes := ⟨_, rfl⟩
  have hn2 : 2 ≤ n := by
    unfold maxSystemPtes at hn
    omega
  have hmax : n ≤ maxSystemPtes := by omega
  simp only [miInitializeSystemPtes, hp, Bool.false_eq_true, if_false, ← hn]
  refine ⟨walk_cons.2 ⟨rfl, show 0 ≠ mmEmptyList by decide, walk_nil.2 ?_⟩, fun r hr => ?_⟩
  · simp only [blockNext, writePte]
    rw [Function.update_of_ne (by decide), Function.update_self, decodeNextEntry_encodeClusterHeadPte (by decide)]
  · obtain rfl := mem_singleton.1 hr
    unfold IsCluster
    rw [if_neg (by simp only; omega)]
    simp only [writePte]
    rw [Function.update_of_ne (by decide), Function.update_self, Function.update_self]
    exact ⟨isOneEntry_encodeClusterHeadPte _, decodeNextEntry_encodeClusterSizePte (by unfold maxSystemPtes at hmax; omega)⟩

theorem inv_miInitializeSystemPtes {baseVa : ℕ} (hp : p.initialized = false) (hcount : 2 ≤ count)
    (hbase : 0 < baseVa) (hfits : baseVa + min count maxSystemPtes * pageSize ≤ 2 ^ 64) :
    Inv ⟨miInitializeSystemPtes p baseVa count, []⟩ := by
  obtain ⟨n, hn⟩ : ∃ n, n = min count maxSystemPtes := ⟨_, rfl⟩
  have hn2 : 2 ≤ n := by
    unfold maxSystemPtes at hn
    omega
  have hmax : n ≤ maxSystemPtes := by omega
  have hfree : FreeList (miInitializeSystemPtes p baseVa count) [(0, min count maxSystemPtes)] := freeList_miInitializeSystemPtes hp hcount
  simp only [miInitializeSystemPtes, hp, Bool.false_eq_true, if_false, ← hn] at hfits hfree ⊢
  refine ⟨rfl, hmax, hbase, hfits, fun r hr => absurd hr not_mem_nil, [(0, n)], hfree, ?_, ?_, ?_⟩
  · exact Tiles.single (show 0 < n by omega)
  · intro r hr r' hr'
    obtain rfl := mem_singleton.1 hr
    obtain rfl := mem_singleton.1 hr'
    simp only [Extent.stop]
    omega
  · show n = totalLength [(0, n)]
    simp

/-- Every call returns, and in every state of every run the free list is well formed. -/
theorem freeList_wellFormed {p : SysPtes} {baseVa count : ℕ} (hp : p.initialized = false) (hcount : 2 ≤ count)
    (hbase : 0 < baseVa) (hfits : baseVa + min count maxSystemPtes * pageSize ≤ 2 ^ 64) {ops : List SysPteOp}
    (hops : EveryStep step Admitted ⟨miInitializeSystemPtes p baseVa count, []⟩ ops) :
    EveryStep step Returns ⟨miInitializeSystemPtes p baseVa count, []⟩ ops ∧
      EveryState step (fun s => ∃ clusters, s.WellFormed clusters) ⟨miInitializeSystemPtes p baseVa count, []⟩ ops := by
  have hinv := inv_miInitializeSystemPtes hp hcount hbase hfits
  exact ⟨everyStep_of_invariant (fun _ _ hi ha => (hi.step ha).2) (fun _ _ hi ha => (hi.step ha).1) hinv hops,
    (everyState_invariant (fun _ _ hi ha => (hi.step ha).2) hinv hops).imp fun _ hi => hi.wellFormed⟩

/-- Nothing is initialized yet. -/
def uninitialized : SysPtes :=
  { initialized := false
    baseVa := 0
    pteCount := 0
    freeCount := 0
    freeListHead := mmEmptyList
    pte := fun _ => 0 }

theorem admitted_four : EveryStep step Admitted ⟨miInitializeSystemPtes uninitialized 0xFFFFF80000000000 4, []⟩
    [.reserve 1, .reserve 1, .store 2 7, .release 0xFFFFF80000003000 1] :=
  ⟨by decide, by decide, by decide, by decide, trivial⟩

theorem freeList_wellFormed_four :
    EveryState step (fun s => ∃ clusters, s.WellFormed clusters)
      ⟨miInitializeSystemPtes uninitialized 0xFFFFF80000000000 4, []⟩
      [.reserve 1, .reserve 1, .store 2 7, .release 0xFFFFF80000003000 1] :=
  (freeList_wellFormed rfl (by decide) (by decide) (by decide) admitted_four).2

/-- The free list never falls into more clusters than there are reservations, and one. -/
theorem clusters_le_reservations {p : SysPtes} {baseVa count : ℕ} (hp : p.initialized = false) (hcount : 2 ≤ count)
    (hbase : 0 < baseVa) (hfits : baseVa + min count maxSystemPtes * pageSize ≤ 2 ^ 64) {ops : List SysPteOp}
    (hops : EveryStep step Admitted ⟨miInitializeSystemPtes p baseVa count, []⟩ ops) :
    EveryState step (fun s => ∃ clusters, FreeList s.ptes clusters ∧ clusters.length ≤ s.reserved.length + 1)
      ⟨miInitializeSystemPtes p baseVa count, []⟩ ops :=
  (everyState_invariant (fun _ _ hi ha => (hi.step ha).2) (inv_miInitializeSystemPtes hp hcount hbase hfits) hops).imp
    fun _ ⟨_, _, _, _, _, clusters, hfree, htiles, hcoalesced, _⟩ => ⟨clusters, hfree, by simpa using htiles.length_le hcoalesced⟩

theorem clusters_le_reservations_four :
    EveryState step (fun s => ∃ clusters, FreeList s.ptes clusters ∧ clusters.length ≤ s.reserved.length + 1)
      ⟨miInitializeSystemPtes uninitialized 0xFFFFF80000000000 4, []⟩
      [.reserve 1, .reserve 1, .store 2 7, .release 0xFFFFF80000003000 1] :=
  clusters_le_reservations rfl (by decide) (by decide) (by decide) admitted_four

end SysPteClients

end XenOS.Mm
