import XenOS.Ex.NtPoolBlocks
import XenOS.Mm.PoolBlocks

/-! Runs of the pool allocator. It is exact as long as no block is taken out of a free list, no new
page leaves a rest too small for a list, and no block is freed next to one with the signature of a
free block. -/

namespace XenOS.Ex

open General Mm NtPool List Function

structure LiveBlock where
  address : ℕ
  size : ℕ
  deriving DecidableEq

structure NtPoolClients where
  pool : NtPool
  live : List LiveBlock

inductive NtPoolCall where
  | allocate (poolType : PoolType) (size : BitVec 64) (tag : BitVec 32)
  | free (ptr : ℕ) (tag : BitVec 32)
  | store (address : ℕ) (bytes : List (BitVec 8))

namespace NtPoolClients
variable (head : ListId → ℕ)

def step (s : NtPoolClients) : NtPoolCall → NtPoolClients
  | .allocate poolType size tag =>
    match s.pool.ntPoolAllocate head poolType size tag with
    | some (ptr, pool) => ⟨pool, if ptr = 0 then s.live else ⟨ptr, size.toNat⟩ :: s.live⟩
    | none => s
  | .free ptr tag =>
    ⟨s.pool.ntPoolFree head ptr tag,
      if refuses s.pool.mem (ptr - poolHeaderSize) tag then s.live else s.live.filter fun b => b.address ≠ ptr⟩
  | .store address bytes => ⟨{ s.pool with mem := s.pool.mem.write address bytes }, s.live⟩

def Legal (s : NtPoolClients) : NtPoolCall → Prop
  | .allocate _ _ _ => True
  | .free ptr _ => ptr = 0 ∨ ∃ b ∈ s.live, b.address = ptr
  | .store address bytes => ∃ b ∈ s.live, b.address ≤ address ∧ address + bytes.length ≤ b.address + b.size

/-- No block is taken from a free list, a new page is used up or leaves a rest for a list, and no
freed block has a neighbour with the signature of a free one. -/
def Spared (s : NtPoolClients) : NtPoolCall → Prop
  | .allocate poolType size _ => size ≠ 0 → s.pool.initialized poolType.isPaged = true →
    size.toNat + poolHeaderSize + (poolBlockSize - 1) < 2 ^ 64 ∧
      (∀ i : Fin numFreeLists, startIndex (blocksNeededFor size) ≤ i → s.pool.mem.isEmpty (head (.free poolType.isPaged i)) = true) ∧
      ((∀ p, ¬ s.pool.pfns.FreePfn p) ∨ (∀ k, ¬ s.pool.ptes.Free k) ∨
        blocksNeededFor size + minBlocks < availableBlocks ∨ blocksNeededFor size = availableBlocks)
  | .free ptr tag => ptr ≠ 0 → ¬ refuses s.pool.mem (ptr - poolHeaderSize) tag → Alone s.pool.mem (ptr - poolHeaderSize)
  | .store _ _ => True

def FailsCleanly (s : NtPoolClients) : NtPoolCall → Prop
  | .allocate poolType size tag => ∀ pool, s.pool.ntPoolAllocate head poolType size tag = some (0, pool) →
    pool.mem = s.pool.mem ∧ pool.counters = s.pool.counters ∧ (∀ p, pool.pfns.FreePfn p ↔ s.pool.pfns.FreePfn p) ∧
      (∀ k, pool.ptes.Free k ↔ s.pool.ptes.Free k) ∧ pool.ptes.freeCount = s.pool.ptes.freeCount
  | _ => True

def blockOf (entry : ℕ) : ℕ := entry - 16

structure WholePage (m : Ram) (paged : Bool) (va : ℕ) : Prop where
  size : blockSize m (va + pageHeaderSize) = availableBlocks
  free : signature m (va + pageHeaderSize) = poolFreeSignature
  listed : ∃ i l, Ring m.links (head (.free paged i)) l ∧ listEntry (va + pageHeaderSize) ∈ l

structure Balanced (s : NtPoolClients) : Prop where
  bytes : ∀ paged, (s.pool.counters paged).freeBytes + (s.pool.counters paged).usedBytes =
    (s.pool.counters paged).totalPages * (availableBlocks * poolBlockSize)
  listed : ∀ paged, ∃ L : Fin numFreeLists → List ℕ, (∀ i, Ring s.pool.mem.links (head (.free paged i)) (L i)) ∧
    (s.pool.counters paged).freeBytes = ∑ i, ((L i).map fun entry => blockSize s.pool.mem (blockOf entry) * poolBlockSize).sum
  whole : s.live = [] → ∀ paged, ∃ l, Ring s.pool.mem.links (head (.pages paged)) l ∧
    l.length = (s.pool.counters paged).totalPages ∧ ∀ entry ∈ l, WholePage head s.pool.mem paged (blockOf entry)

def pagesOf (Q : List (Bool × ℕ)) (paged : Bool) : List ℕ := (Q.filter fun q => q.1 = paged).map Prod.snd

/-- The system page table entries of the pages. -/
def extents (Q : List (Bool × ℕ)) : List Extent := Q.map fun q => (q.2, 1)

def pageAt (base k : ℕ) : ℕ := base + k * pageSize

def restAt (base : ℕ) (used : ℕ → ℕ) (k : ℕ) : ℕ := pageAt base k + pageHeaderSize + used k * poolBlockSize

/-- The headers of a page of which `n` units are used. -/
structure PageHolds (m : Ram) (paged : Bool) (va n : ℕ) : Prop where
  used : n ≠ 0 → blockSize m (va + pageHeaderSize) = n ∧ blockPoolType m (va + pageHeaderSize) = typeOf paged
  rest : n ≠ availableBlocks → blockSize m (va + pageHeaderSize + n * poolBlockSize) = availableBlocks - n ∧
    signature m (va + pageHeaderSize + n * poolBlockSize) = poolFreeSignature

/-- How the pages lie: `Q` are the pages, of which the first `used` units are given out. -/
structure Laid (base count : ℕ) (others : List Extent) (allPages : Set ℕ) (Q : List (Bool × ℕ)) (used : ℕ → ℕ)
    (R : ListId → List ℕ) (s : NtPoolClients) : Prop where
  rings : Rings s.pool.mem head R
  outside : ∀ l, head l + 16 ≤ base ∨ base + count * pageSize ≤ head l
  ready : ∃ cs, Ready s.pool.ptes cs (extents Q ++ others)
  baseVa : s.pool.ptes.baseVa = base
  pteCount : s.pool.ptes.pteCount = count
  mapped : ∃ c, Mapped s.pool.pfns s.pool.ptes.pte (heldBy (extents Q)) allPages c
  pageList : ∀ paged, R (.pages paged) = ((pagesOf Q paged).map fun k => pageLinks (pageAt base k)).reverse
  entries : ∀ paged i x, x ∈ R (.free paged i) ↔
    ∃ k ∈ pagesOf Q paged, used k ≠ availableBlocks ∧ listIndex (availableBlocks - used k) = i ∧ x = listEntry (restAt base used k)
  fits : ∀ paged, ∀ k ∈ pagesOf Q paged, used k + minBlocks < availableBlocks ∨ used k = availableBlocks
  holds : ∀ paged, ∀ k ∈ pagesOf Q paged, PageHolds s.pool.mem paged (pageAt base k) (used k)
  live : ∀ u ∈ s.live, ∃ paged, ∃ k ∈ pagesOf Q paged, used k ≠ 0 ∧ u.address = pageAt base k + pageHeaderSize + poolHeaderSize ∧
    u.size + poolHeaderSize ≤ used k * poolBlockSize
  owned : ∀ paged, ∀ k ∈ pagesOf Q paged, used k ≠ 0 → ∃ u ∈ s.live, u.address = pageAt base k + pageHeaderSize + poolHeaderSize
  totalPages : ∀ paged, (s.pool.counters paged).totalPages = (pagesOf Q paged).length
  freeBytes : ∀ paged, (s.pool.counters paged).freeBytes = ((pagesOf Q paged).map fun k => availableBlocks - used k).sum * poolBlockSize
  usedBytes : ∀ paged, (s.pool.counters paged).usedBytes = ((pagesOf Q paged).map used).sum * poolBlockSize

section Pages
variable {Q : List (Bool × ℕ)} {paged b : Bool} {k : ℕ}

theorem mem_pagesOf : k ∈ pagesOf Q paged ↔ (paged, k) ∈ Q := by
  simp only [pagesOf, mem_map, mem_filter, decide_eq_true_eq]
  constructor
  · rintro ⟨⟨b, j⟩, ⟨hmem, rfl⟩, rfl⟩
    exact hmem
  · exact fun hmem => ⟨(paged, k), ⟨hmem, rfl⟩, rfl⟩

theorem pagesOf_cons_same : pagesOf ((paged, k) :: Q) paged = k :: pagesOf Q paged := by
  simp [pagesOf]

theorem pagesOf_cons_other (h : b ≠ paged) : pagesOf ((paged, k) :: Q) b = pagesOf Q b := by
  simp [pagesOf, Ne.symm h]

theorem mem_extents : (∃ r ∈ extents Q, r.Contains k) ↔ ∃ paged, (paged, k) ∈ Q := by
  simp only [extents, mem_map, Extent.Contains, Extent.stop]
  constructor
  · rintro ⟨_, ⟨⟨b, j⟩, hmem, rfl⟩, hlow, hhigh⟩
    obtain rfl : k = j := by
      simp only at hlow hhigh
      omega
    exact ⟨b, hmem⟩
  · rintro ⟨b, hmem⟩
    exact ⟨_, ⟨(b, k), hmem, rfl⟩, Nat.le_refl _, Nat.lt_succ_self _⟩

theorem nodup_of_ready {ptes : SysPtes} {cs others : List Extent} (h : Ready ptes cs (extents Q ++ others)) : (Q.map Prod.snd).Nodup := by
  have hpairs := (pairwise_append.1 (pairwise_append.1 h.tiles.apart).2.1).1
  rw [extents, pairwise_map] at hpairs
  rw [Nodup, pairwise_map]
  refine hpairs.imp fun {q r} hapart => ?_
  simp only [Extent.Apart, Extent.stop] at hapart
  omega

theorem lt_pteCount_of_ready {ptes : SysPtes} {cs others : List Extent} (h : Ready ptes cs (extents Q ++ others)) (hk : k ∈ pagesOf Q paged) :
    k < ptes.pteCount := by
  have hmem : (k, 1) ∈ extents Q := mem_map.2 ⟨(paged, k), mem_pagesOf.1 hk, rfl⟩
  exact h.tiles.stop_le (mem_append_right cs (mem_append_left others hmem))

theorem map_update_of_notMem {l : List ℕ} (hk : k ∉ l) (f g : ℕ → ℕ) (v : ℕ) :
    (l.map fun j => f (update g k v j)) = l.map fun j => f (g j) :=
  map_congr_left fun i hi => by rw [update_of_ne (fun hik : i = k => hk (hik ▸ hi))]

theorem sum_map_update {l : List ℕ} (hnodup : l.Nodup) (hk : k ∈ l) (f g : ℕ → ℕ) (v : ℕ) :
    (l.map fun j => f (update g k v j)).sum + f (g k) = (l.map fun j => f (g j)).sum + f v := by
  induction l with
  | nil => cases hk
  | cons j l ih =>
    obtain ⟨hj, hl⟩ := nodup_cons.1 hnodup
    simp only [map_cons, sum_cons]
    rcases mem_cons.1 hk with rfl | hk
    · rw [map_update_of_notMem hj, update_self]
      omega
    · have hne : j ≠ k := fun hjk => hj (hjk ▸ hk)
      have := ih hl hk
      rw [update_of_ne hne]
      omega

theorem sum_filter_map {n : ℕ} (l : List ℕ) (g : ℕ → Fin n) (f : ℕ → ℕ) :
    ∑ i, ((l.filter fun k => g k = i).map f).sum = (l.map f).sum := by
  induction l with
  | nil => simp
  | cons k l ih =>
    have hcons : ∀ i, (((k :: l).filter fun j => g j = i).map f).sum =
        (if g k = i then f k else 0) + ((l.filter fun j => g j = i).map f).sum := by
      intro i
      by_cases h : g k = i
      · simp [h]
      · simp [h]
    simp only [hcons, Finset.sum_add_distrib, ih, map_cons, sum_cons]
    simp

end Pages

theorem PageHolds.congr {m m' : Ram} {paged : Bool} {va n : ℕ} (h : PageHolds m paged va n)
    (hfirst : ∀ i, va + 48 ≤ i → i < va + 52 → m'.byte i = m.byte i)
    (hrest : n ≠ availableBlocks → ∀ i, va + 48 + n * 16 ≤ i → i < va + 48 + n * 16 + 12 → m'.byte i = m.byte i) :
    PageHolds m' paged va n := by
  constructor
  · intro hn
    have hsize : m'.read (va + 48 + 2) 1 = m.read (va + 48 + 2) 1 := Ram.read_congr fun i hi => hfirst _ (by omega) (by omega)
    have htype : m'.read (va + 48 + 3) 1 = m.read (va + 48 + 3) 1 := Ram.read_congr fun i hi => hfirst _ (by omega) (by omega)
    have hold := h.used hn
    unfold blockSize blockPoolType pageHeaderSize at hold ⊢
    rw [hsize, htype]
    exact hold
  · intro hn
    have hsize : m'.read (va + 48 + n * 16 + 2) 1 = m.read (va + 48 + n * 16 + 2) 1 :=
      Ram.read_congr fun i hi => hrest hn _ (by omega) (by omega)
    have hsign : m'.read (va + 48 + n * 16 + 8) 4 = m.read (va + 48 + n * 16 + 8) 4 :=
      Ram.read_congr fun i hi => hrest hn _ (by omega) (by omega)
    have hold := h.rest hn
    unfold blockSize signature Ram.u32 pageHeaderSize poolBlockSize at hold ⊢
    rw [hsize, hsign]
    exact hold

namespace Laid
variable {head} {base count : ℕ} {others : List Extent} {allPages : Set ℕ} {Q : List (Bool × ℕ)} {used : ℕ → ℕ}
  {R : ListId → List ℕ} {s : NtPoolClients} {paged : Bool} {j k : ℕ}

section
variable (h : Laid head base count others allPages Q used R s)
include h

theorem lt_count (hk : k ∈ pagesOf Q paged) : k < count := by
  obtain ⟨cs, hready⟩ := h.ready
  exact h.pteCount ▸ lt_pteCount_of_ready hready hk

theorem nodup : (Q.map Prod.snd).Nodup := by
  obtain ⟨cs, hready⟩ := h.ready
  exact nodup_of_ready hready

theorem nodup_pagesOf (paged : Bool) : (pagesOf Q paged).Nodup :=
  h.nodup.sublist (filter_sublist.map Prod.snd)

theorem pool_eq {b : Bool} (hb : k ∈ pagesOf Q b) (hk : k ∈ pagesOf Q paged) :
    b = paged := by
  have hinj := inj_on_of_nodup_map h.nodup (mem_pagesOf.1 hb) (mem_pagesOf.1 hk) rfl
  exact congrArg Prod.fst hinj

theorem length_le (paged : Bool) : (pagesOf Q paged).length ≤ count := by
  have hsub : pagesOf Q paged ⊆ range count := fun k hk => mem_range.2 (h.lt_count hk)
  have hlength := (h.nodup_pagesOf paged).subperm hsub |>.length_le
  rwa [length_range] at hlength

theorem end_lt : base + count * pageSize < 2 ^ 64 := by
  obtain ⟨cs, hready⟩ := h.ready
  have := hready.fits
  rwa [h.baseVa, h.pteCount] at this

theorem cell_cases {l : ListId} {c : ℕ} (hc : c ∈ head l :: R l) :
    (c + 16 ≤ base ∨ base + count * pageSize ≤ c) ∨
      ∃ b, ∃ j ∈ pagesOf Q b, c = pageAt base j + 16 ∨ (used j + 2 < 253 ∧ c = pageAt base j + 64 + used j * 16) := by
  rcases mem_cons.1 hc with rfl | hc
  · exact Or.inl (h.outside l)
  · right
    cases l with
    | free b i =>
      obtain ⟨j, hj, hne, -, rfl⟩ := (h.entries b i c).1 hc
      have hfits := (h.fits b j hj).resolve_right hne
      refine ⟨b, j, hj, Or.inr ⟨hfits, ?_⟩⟩
      unfold listEntry restAt pageHeaderSize poolBlockSize
      omega
    | pages b =>
      rw [h.pageList, mem_reverse, mem_map] at hc
      obtain ⟨j, hj, rfl⟩ := hc
      exact ⟨b, j, hj, Or.inl rfl⟩

/-- The part of a page between its header and its free block, and what lies behind the links of that, meets no cell. -/
theorem clear_page (hk : k ∈ pagesOf Q paged) {a b : ℕ}
    (ha : pageAt base k + 32 ≤ a) (hb : b ≤ pageAt base k + pageSize)
    (hrest : used k ≠ availableBlocks → b ≤ pageAt base k + 64 + used k * 16) : Clear head R a b := by
  intro l c hc
  have hcount := h.lt_count hk
  have havailable : availableBlocks = 253 := rfl
  unfold pageAt pageSize at *
  rcases h.cell_cases hc with houtside | ⟨b', j, hj, hcell⟩
  · unfold pageSize at houtside
    omega
  · unfold pageAt pageSize at hcell
    rcases eq_or_ne j k with rfl | hne
    · omega
    · omega

theorem clear_new (hk : ∀ paged, k ∉ pagesOf Q paged) (hcount : k < count) :
    Clear head R (pageAt base k) (pageAt base k + pageSize) := by
  intro l c hc
  unfold pageAt pageSize
  rcases h.cell_cases hc with houtside | ⟨b', j, hj, hcell⟩
  · unfold pageSize at houtside
    omega
  · unfold pageAt pageSize at hcell
    have hne : j ≠ k := fun hjk => hk b' (hjk ▸ hj)
    omega

end

theorem used_le (h : Laid head base count others allPages Q used R s) (hk : k ∈ pagesOf Q paged) : used k ≤ availableBlocks := by
  have := h.fits paged k hk
  omega

theorem sum_units (used : ℕ → ℕ) {l : List ℕ} (hused : ∀ k ∈ l, used k ≤ availableBlocks) :
    (l.map fun k => availableBlocks - used k).sum + (l.map used).sum = l.length * availableBlocks := by
  induction l with
  | nil => simp
  | cons k l ih =>
    have hk := hused k mem_cons_self
    have := ih fun j hj => hused j (mem_cons_of_mem _ hj)
    simp only [map_cons, sum_cons, length_cons, Nat.add_mul, Nat.one_mul]
    omega

section
variable (h : Laid head base count others allPages Q used R s)
include h

theorem entries_perm (paged : Bool) (i : Fin numFreeLists) :
    (R (.free paged i)).Perm
      ((((pagesOf Q paged).filter fun k => used k ≠ availableBlocks).filter fun k => listIndex (availableBlocks - used k) = i).map
        fun k => listEntry (restAt base used k)) := by
  refine (perm_ext_iff_of_nodup (nodup_cons.1 (h.rings.ring (.free paged i)).nodup).2 ?_).2 fun x => ?_
  · refine (Nodup.filter _ (Nodup.filter _ (h.nodup_pagesOf paged))).map_on fun j hj k hk hsame => ?_
    simp only [mem_filter, decide_eq_true_eq] at hj hk
    have hfitsj := (h.fits paged j hj.1.1).resolve_right hj.1.2
    have hfitsk := (h.fits paged k hk.1.1).resolve_right hk.1.2
    have havailable : availableBlocks = 253 := rfl
    unfold listEntry restAt pageAt pageHeaderSize poolBlockSize pageSize at hsame
    omega
  · rw [h.entries, mem_map]
    simp only [mem_filter, decide_eq_true_eq, and_assoc]
    refine exists_congr fun k => and_congr_right fun _ => and_congr_right fun _ => and_congr_right fun _ => eq_comm

theorem listed (paged : Bool) :
    (s.pool.counters paged).freeBytes =
      ∑ i, ((R (.free paged i)).map fun entry => blockSize s.pool.mem (blockOf entry) * poolBlockSize).sum := by
  have hsize : ∀ k ∈ pagesOf Q paged, used k ≠ availableBlocks →
      blockSize s.pool.mem (blockOf (listEntry (restAt base used k))) = availableBlocks - used k :=
    fun k hk hne => ((h.holds paged k hk).rest hne).1
  have hlist : ∀ i, ((R (.free paged i)).map fun entry => blockSize s.pool.mem (blockOf entry) * poolBlockSize).sum =
      ((((pagesOf Q paged).filter fun k => used k ≠ availableBlocks).filter fun k => listIndex (availableBlocks - used k) = i).map
        fun k => (availableBlocks - used k) * poolBlockSize).sum := by
    intro i
    rw [((h.entries_perm paged i).map _).sum_eq, map_map]
    refine congrArg sum (map_congr_left fun k hk => ?_)
    simp only [mem_filter, decide_eq_true_eq] at hk
    exact congrArg (· * poolBlockSize) (hsize k hk.1.1 hk.1.2)
  rw [h.freeBytes, Finset.sum_congr rfl fun i _ => hlist i, sum_filter_map]
  -- a page without a free block adds nothing
  induction pagesOf Q paged with
  | nil => rfl
  | cons k l ih =>
    by_cases hk : used k = availableBlocks
    · simp [hk, ih]
    · simp [hk, ih, Nat.add_mul]

theorem balanced : Balanced head s := by
  constructor
  · intro paged
    rw [h.freeBytes, h.usedBytes, h.totalPages, ← Nat.add_mul, sum_units used fun k hk => h.used_le hk, Nat.mul_assoc]
  · exact fun paged => ⟨fun i => R (.free paged i), fun i => h.rings.ring _, h.listed paged⟩
  · intro hnone paged
    have hwhole : ∀ k ∈ pagesOf Q paged, used k = 0 := by
      intro k hk
      by_contra hne
      obtain ⟨u, hu, -⟩ := h.owned paged k hk hne
      rw [hnone] at hu
      cases hu
    refine ⟨R (.pages paged), h.rings.ring _, ?_, fun entry hentry => ?_⟩
    · rw [h.pageList, length_reverse, length_map, h.totalPages]
    · rw [h.pageList, mem_reverse, mem_map] at hentry
      obtain ⟨k, hk, rfl⟩ := hentry
      have hzero := hwhole k hk
      have hne : used k ≠ availableBlocks := by
        rw [hzero]
        decide
      have hrest := (h.holds paged k hk).rest hne
      have hpage : blockOf (pageLinks (pageAt base k)) = pageAt base k := Nat.add_sub_cancel _ _
      rw [hzero, Nat.zero_mul] at hrest
      rw [hpage]
      refine ⟨hrest.1, hrest.2, listIndex (availableBlocks - used k), _, h.rings.ring _, (h.entries paged _ _).2 ⟨k, hk, hne, rfl, ?_⟩⟩
      rw [restAt, hzero, Nat.zero_mul]
      rfl

end

end Laid

end NtPoolClients

end XenOS.Ex
