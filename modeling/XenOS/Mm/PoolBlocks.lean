import XenOS.Mm.PoolPages
import XenOS.Mm.SysPteHeld

/-! The blocks of the pools, and what mapping a reservation does: all its pages are mapped, or the
pages and the reservation are given back. -/

namespace XenOS.Mm

open General Extent List

structure PoolBlock where
  address : ℕ
  size : ℕ
  paged : Bool
  deriving DecidableEq

namespace PoolBlock

def pages (b : PoolBlock) : ℕ := (b.size + (pageSize - 1)) / pageSize

def extent (b : PoolBlock) : Extent := ((b.address - mmSystemPteStart) / pageSize, b.pages)

def outstanding (paged : Bool) (blocks : List PoolBlock) : ℕ :=
  (blocks.map fun b => if b.paged = paged then b.pages else 0).sum

def extents (blocks : List PoolBlock) : List Extent := (blocks.filter fun b => !b.paged).map extent

variable {b : PoolBlock} {blocks : List PoolBlock} {paged : Bool}

theorem outstanding_cons : outstanding paged (b :: blocks) = (if b.paged = paged then b.pages else 0) + outstanding paged blocks :=
  sum_cons

theorem outstanding_erase (hb : b ∈ blocks) (paged : Bool) :
    outstanding paged blocks = (if b.paged = paged then b.pages else 0) + outstanding paged (blocks.erase b) := by
  rw [← outstanding_cons]
  exact ((perm_cons_erase hb).map _).sum_eq

theorem outstanding_erase_same (hb : b ∈ blocks) (hkind : b.paged = paged) :
    outstanding paged blocks = b.pages + outstanding paged (blocks.erase b) := by
  rw [outstanding_erase hb, if_pos hkind]

theorem outstanding_erase_other (hb : b ∈ blocks) (hkind : b.paged ≠ paged) :
    outstanding paged blocks = outstanding paged (blocks.erase b) := by
  rw [outstanding_erase hb, if_neg hkind, Nat.zero_add]

theorem extents_cons (hb : b.paged = false) : extents (b :: blocks) = b.extent :: extents blocks := by
  rw [extents, filter_cons_of_pos (by simp [hb]), map_cons]
  rfl

theorem extents_cons_paged (hb : b.paged = true) : extents (b :: blocks) = extents blocks := by
  rw [extents, filter_cons_of_neg (by simp [hb])]
  rfl

theorem extents_erase (hb : b ∈ blocks) : (extents blocks).Perm (extents (b :: blocks.erase b)) :=
  ((perm_cons_erase hb).filter _).map _

theorem totalLength_extents : totalLength (extents blocks) = outstanding false blocks := by
  induction blocks with
  | nil => rfl
  | cons b blocks ih =>
    cases hb : b.paged with
    | false =>
      rw [extents_cons hb, totalLength_cons, outstanding_cons, if_pos hb, ih]
      rfl
    | true => rw [extents_cons_paged hb, outstanding_cons, if_neg (by simp [hb]), ih, Nat.zero_add]

end PoolBlock

def heldBy (l : List Extent) : Set ℕ := {k | ∃ r ∈ l, r.Contains k}

theorem heldBy_cons (r : Extent) (l : List Extent) : heldBy (r :: l) = heldBy l ∪ Set.Ico r.1 (r.1 + r.2) := by
  ext k
  simp only [heldBy, Set.mem_ofPred_eq, mem_cons, Set.mem_union, Set.mem_Ico, Contains, stop]
  constructor
  · rintro ⟨q, rfl | hq, hk⟩
    · exact Or.inr hk
    · exact Or.inl ⟨q, hq, hk⟩
  · rintro (⟨q, hq, hk⟩ | hk)
    · exact ⟨q, Or.inr hq, hk⟩
    · exact ⟨r, Or.inl rfl, hk⟩

theorem heldBy_perm {l l' : List Extent} (h : l.Perm l') : heldBy l = heldBy l' := by
  ext k
  exact ⟨fun ⟨r, hr, hk⟩ => ⟨r, h.mem_iff.1 hr, hk⟩, fun ⟨r, hr, hk⟩ => ⟨r, h.mem_iff.2 hr, hk⟩⟩

namespace Ready
variable {s s' : SysPtes} {cs cs' res res' : List Extent} {q r : Extent} {table : ℕ → Pte}

theorem perm (h : Ready s cs res) (hp : res.Perm res') : Ready s cs res' :=
  ⟨h.initialized, h.size, h.base, h.aligned, h.fits, h.free, h.tiles.perm (hp.append_left cs), h.coalesced, h.count⟩

theorem apart (h : Ready s cs (q :: res)) (hr : r ∈ res) : q.Apart r :=
  rel_of_pairwise_cons (pairwise_append.1 h.tiles.apart).2.1 hr

theorem notMem_heldBy (h : Ready s cs (q :: res)) {l : List Extent} (hl : ∀ r ∈ l, r ∈ res) {k : ℕ} (hlow : q.1 ≤ k)
    (hhigh : k < q.1 + q.2) : k ∉ heldBy l := by
  rintro ⟨r, hr, hk⟩
  have hapart := h.apart (hl r hr)
  simp only [Apart, Contains, stop] at hapart hk
  omega

theorem store (h : Ready s cs res) (hsame : ∀ k, (∀ q ∈ res, ¬ q.Contains k) → table k = s.pte k) :
    Ready { s with pte := table } cs res := by
  refine ⟨h.initialized, h.size, h.base, h.aligned, h.fits, ?_, h.tiles, h.coalesced, h.count⟩
  refine h.free.frame (fun q hq => h.tiles.pos q (mem_append_left res hq)) rfl fun q hq k hk => hsame k fun r hr hk' => ?_
  exact KeepsHeld.not_contains h.tiles hq hr hk' hk

theorem free_same (h : Ready s cs res) (h' : Ready s' cs' res) (hcount : s'.pteCount = s.pteCount) :
    (∀ k, s'.Free k ↔ s.Free k) ∧ s'.freeCount = s.freeCount := by
  refine ⟨fun k => by rw [h.free_iff, h'.free_iff, hcount], ?_⟩
  have htotal := h.tiles.totalLength_eq
  have htotal' := h'.tiles.totalLength_eq
  rw [totalLength_append] at htotal htotal'
  rw [h.count, h'.count]
  omega

end Ready

theorem Mapped.free_same {σ σ' : PfnState} {table table' : ℕ → Pte} {held pages : Set ℕ} {c c' : PageList → List ℕ}
    (h : Mapped σ table held pages c) (h' : Mapped σ' table' held pages c') (hsame : ∀ k ∈ held, table' k = table k) (p : ℕ) :
    σ'.FreePfn p ↔ σ.FreePfn p := by
  rw [h.free_iff, (h'.congr fun k hk => (hsame k hk).symm).free_iff]

theorem Ready.unmapRelease {s : SysPtes} {cs res l : List Extent} {σ : PfnState} {pages : Set ℕ} {c : PageList → List ℕ} {index m n : ℕ}
    (h : Ready s cs ((index, n) :: res)) (hmapped : Mapped σ s.pte (heldBy l ∪ Set.Ico index (index + m)) pages c)
    (hl : ∀ r ∈ l, r ∈ res) (hm : m ≤ n) :
    ∃ s' cs' c', miReleaseSystemPtes { s with pte := (unmapPoolPages m index σ s.pte).2 } (s.indexToVa index) n = some s' ∧
      Ready s' cs' res ∧ Mapped (unmapPoolPages m index σ s.pte).1 s'.pte (heldBy l) pages c' ∧ KeepsHeld res s s' ∧
      s'.baseVa = s.baseVa ∧ s'.pteCount = s.pteCount := by
  have hnot : ∀ k, index ≤ k → k < index + n → k ∉ heldBy l := fun k hlow hhigh => h.notMem_heldBy hl hlow hhigh
  have hheld : ∀ k, index ≤ k → k < index + m → k ∈ heldBy l ∪ Set.Ico index (index + m) := fun k hlow hhigh => Or.inr ⟨hlow, hhigh⟩
  obtain ⟨⟨c', hunmap⟩, hframe⟩ := hmapped.unmapPages m index hheld
  have hback : (heldBy l ∪ Set.Ico index (index + m)) \ Set.Ico index (index + m) = heldBy l := by
    ext k
    constructor
    · rintro ⟨hk | hk, hk'⟩
      · exact hk
      · exact absurd hk hk'
    · exact fun hk => ⟨Or.inl hk, fun hk' => hnot k hk'.1 (by have := hk'.2; omega) hk⟩
  rw [hback] at hunmap
  generalize (unmapPoolPages m index σ s.pte).1 = σ' at hunmap
  generalize (unmapPoolPages m index σ s.pte).2 = table at hunmap hframe
  have hstore : Ready { s with pte := table } cs ((index, n) :: res) := h.store fun k hk => hframe k fun hin =>
    hk (index, n) mem_cons_self (by simp only [Contains, stop]; omega)
  obtain ⟨s', cs', hret, hready, hbase, hcount⟩ := hstore.release
  have hreleased := hstore.release_keeps hret
  have hva : ({ s with pte := table } : SysPtes).indexToVa (index, n).1 = s.indexToVa index := rfl
  rw [hva] at hret
  have hkeeps : KeepsHeld res s s' := by
    intro q hq k hk
    refine (hreleased q hq k hk).trans (hframe k fun hin => ?_)
    have hapart := h.apart hq
    simp only [Apart, Contains, stop] at hapart hk
    omega
  refine ⟨s', cs', c', hret, hready, hunmap.congr ?_, hkeeps, hbase, hcount⟩
  rintro k ⟨r, hr, hk⟩
  exact hreleased r (hl r hr) k hk

namespace Pools
variable {s : Pools} {cs res l : List Extent} {held pages : Set ℕ} {c : PageList → List ℕ} {index n : ℕ}

structure SameResources (s s' : Pools) : Prop where
  pfns : ∀ p, s'.pfns.FreePfn p ↔ s.pfns.FreePfn p
  ptes : ∀ k, s'.ptes.Free k ↔ s.ptes.Free k
  freePtes : s'.ptes.freeCount = s.ptes.freeCount
  committed : s'.commit.totalCommittedPages = s.commit.totalCommittedPages
  nonPaged : s'.allocatedNonPagedPool = s.allocatedNonPagedPool
  paged : s'.allocatedPagedPool = s.allocatedPagedPool

structure MappedAll (s s' : Pools) (cs res l : List Extent) (pages : Set ℕ) (index n : ℕ) : Prop where
  rest : ∃ pfns table, s' = { s with pfns, ptes := { s.ptes with pte := table } }
  ready : Ready s'.ptes cs ((index, n) :: res)
  mapped : ∃ c, Mapped s'.pfns s'.ptes.pte (heldBy ((index, n) :: l)) pages c
  memory : n ≤ (s.pfns.heads .zeroed).total + (s.pfns.heads .free).total

structure RolledBack (s s' : Pools) (res l : List Extent) (pages : Set ℕ) : Prop where
  rest : ∃ pfns ptes, s' = { s with pfns, ptes }
  ready : ∃ cs, Ready s'.ptes cs res
  mapped : ∃ c, Mapped s'.pfns s'.ptes.pte (heldBy l) pages c
  keeps : KeepsHeld res s.ptes s'.ptes
  baseVa : s'.ptes.baseVa = s.ptes.baseVa
  pteCount : s'.ptes.pteCount = s.ptes.pteCount

theorem mapReserved_spec (hready : Ready s.ptes cs ((index, n) :: res)) (hmapped : Mapped s.pfns s.ptes.pte (heldBy l) pages c)
    (hl : ∀ r ∈ l, r ∈ res) (execute : Bool) :
    (∃ s', s.mapReserved (s.ptes.indexToVa index) n execute = some (s.ptes.indexToVa index, s') ∧ MappedAll s s' cs res l pages index n) ∨
      ∃ s', s.mapReserved (s.ptes.indexToVa index) n execute = some (0, s') ∧ RolledBack s s' res l pages := by
  have hstop := hready.tiles.stop_le (r := (index, n)) (by simp)
  have hpos := hready.tiles.pos (index, n) (by simp)
  simp only [stop] at hstop hpos
  have hindex : s.ptes.vaToIndex (s.ptes.indexToVa index) = index :=
    SysPteClients.vaToIndex_indexToVa hready.fits.le (by omega) hready.size
  have hnot : ∀ k, index ≤ k → k < index + n → k ∉ heldBy l := fun k hlow hhigh => hready.notMem_heldBy hl hlow hhigh
  obtain ⟨hle, ⟨c', hmap⟩, hframe⟩ := hmapped.mapPages execute n index hnot
  have hmemory : (mapPoolPages execute n index s.pfns s.ptes.pte).1 ≤ _ := Mapped.mapPages_le execute n index hmapped.lists
  rw [← hmapped.lists.total, ← hmapped.lists.total] at hmemory
  rcases hmapping : mapPoolPages execute n index s.pfns s.ptes.pte with ⟨m, σ, table⟩
  rw [hmapping] at hle hmap hframe hmemory
  simp only at hle hmap hframe hmemory
  have hreserved : s.mapReserved (s.ptes.indexToVa index) n execute =
      if m = n then some (s.ptes.indexToVa index, { s with pfns := σ, ptes := { s.ptes with pte := table } })
      else
        (miReleaseSystemPtes { s.ptes with pte := (unmapPoolPages m index σ table).2 } (s.ptes.indexToVa index) n).map fun ptes =>
          (0, { s with pfns := (unmapPoolPages m index σ table).1, ptes }) := by
    simp only [mapReserved, hindex, hmapping]
  rw [hreserved]
  have hstore : Ready { s.ptes with pte := table } cs ((index, n) :: res) := hready.store fun k hk => hframe k fun h =>
    hk (index, n) mem_cons_self (by simp only [Contains, stop]; omega)
  by_cases hall : m = n
  · subst hall
    rw [if_pos rfl]
    exact Or.inl ⟨_, rfl, ⟨σ, table, rfl⟩, hstore, ⟨c', by rw [heldBy_cons]; exact hmap⟩, hmemory⟩
  · rw [if_neg hall]
    right
    obtain ⟨ptes, cs', c'', hret, hready', hmapped', hkeeps, hbase, hcount⟩ := hstore.unmapRelease hmap hl hle
    have hva : ({ s.ptes with pte := table } : SysPtes).indexToVa index = s.ptes.indexToVa index := rfl
    simp only [hva] at hret
    refine ⟨{ s with pfns := (unmapPoolPages m index σ table).1, ptes }, ?_, ⟨_, ptes, rfl⟩, ⟨cs', hready'⟩, ⟨c'', hmapped'⟩, ?_, hbase, hcount⟩
    · rw [hret]
      rfl
    · intro q hq k hk
      refine (hkeeps q hq k hk).trans (hframe k fun hin => ?_)
      have hapart := hready.apart hq
      simp only [Apart, Contains, stop] at hapart hk
      omega

end Pools

end XenOS.Mm
