import XenOS.Ex.NtPoolRuns
import XenOS.General.RingCut
import XenOS.Ex.Pool

/-! Runs of the pool interface and the global allocator, with the hand-over from the bump allocator
to the pool in them. They are sound as long as no layout asks for more than eight bytes of
alignment, no sum wraps, no block is taken from a free list or freed in front of a stale signature,
and none of the bump allocator when the pool is there. -/

namespace XenOS.Ex

open General Mm NtPool NtPoolClients

/-- A block that is out; `early` is one of the bump allocator. -/
structure HeldBlock where
  address : ℕ
  size : ℕ
  early : Bool
  deriving DecidableEq

structure PoolHolders where
  system : PoolSystem
  live : List HeldBlock

inductive PoolRequest where
  | init
  | allocate (poolType : PoolType) (size : BitVec 64) (tag : BitVec 32)
  | free (ptr : ℕ) (tag : BitVec 32)
  | alloc (size : BitVec 64) (align : ℕ)
  | dealloc (ptr : ℕ)
  | realloc (ptr : ℕ) (size newSize : BitVec 64) (align : ℕ)
  | store (address : ℕ) (bytes : List (BitVec 8))

namespace PoolHolders
variable (head : ListId → ℕ)

def mem (s : PoolHolders) : Ram := s.system.pool.mem

def taken (s : PoolHolders) (size : BitVec 64) : Option (ℕ × PoolSystem) → ℕ × PoolHolders
  | none => (0, s)
  | some (ptr, system) => (ptr, ⟨system, if ptr = 0 then s.live else ⟨ptr, size.toNat, !s.system.enabled⟩ :: s.live⟩)

def exAllocate (s : PoolHolders) (poolType : PoolType) (size : BitVec 64) (tag : BitVec 32) : ℕ × PoolHolders :=
  s.taken size (s.system.exAllocatePoolWithTag head poolType size tag)

def exFree (s : PoolHolders) (ptr : ℕ) (tag : BitVec 32) : PoolHolders :=
  ⟨s.system.exFreePoolWithTag head ptr tag,
    if refuses s.mem (ptr - poolHeaderSize) tag then s.live else s.live.filter fun b => b.address ≠ ptr⟩

def copied (s : PoolHolders) (source target count : ℕ) : PoolHolders := ⟨s.system.copy source target count, s.live⟩

/-- `realloc`, with the blocks that are out: a new block, the copy, and the free of the old one. -/
def reallocate (s : PoolHolders) (ptr : ℕ) (size newSize : BitVec 64) : ℕ × PoolHolders :=
  let (newPtr, t) := s.exAllocate head .nonPagedPool newSize PoolSystem.rustTag
  if newPtr = 0 then (0, t)
  else (newPtr, (t.copied ptr newPtr (min size.toNat newSize.toNat)).exFree head ptr 0)

def request (s : PoolHolders) : PoolRequest → ℕ × PoolHolders
  | .init => (0, ⟨s.system.ntPoolInit head, s.live⟩)
  | .allocate poolType size tag => s.exAllocate head poolType size tag
  | .free ptr tag => (0, s.exFree head ptr tag)
  | .alloc size _ => s.taken size (s.system.alloc head size)
  | .dealloc ptr => (0, s.exFree head ptr 0)
  | .realloc ptr size newSize _ => s.reallocate head ptr size newSize
  | .store address bytes =>
    (0, ⟨{ s.system with pool := { s.system.pool with mem := s.mem.write address bytes } }, s.live⟩)

def step (s : PoolHolders) (r : PoolRequest) : PoolHolders := (s.request head r).2

/-- What the callers keep to: the pool is initialised once, blocks are freed by their owners, and stores go into blocks. -/
def Legal (s : PoolHolders) : PoolRequest → Prop
  | .init => s.system.enabled = false
  | .allocate _ _ _ => True
  | .free ptr _ => ptr = 0 ∨ ∃ b ∈ s.live, b.address = ptr
  | .alloc _ _ => True
  | .dealloc ptr => ∃ b ∈ s.live, b.address = ptr
  | .realloc ptr size _ _ => ∃ b ∈ s.live, b.address = ptr ∧ b.size = size.toNat
  | .store address bytes => ∃ b ∈ s.live, b.address ≤ address ∧ address + bytes.length ≤ b.address + b.size

def Listed (m : Ram) (block : ℕ) : Prop := ∃ paged i l, Ring m.links (head (.free paged i)) l ∧ listEntry block ∈ l

def Available (s : PoolHolders) (i : ℕ) : Prop :=
  s.system.enabled = true ∧ ∃ block, Listed head s.mem block ∧ block ≤ i ∧ i < block + blockSize s.mem block * poolBlockSize

/-- A new block of `size` bytes meets no block that was out and no free block, and lies in memory. -/
structure Placed (s t : PoolHolders) (ptr size : ℕ) : Prop where
  fits : ptr + size ≤ 2 ^ 64
  live : ∀ b ∈ s.live, b.address + b.size ≤ ptr ∨ ptr + size ≤ b.address
  free : ∀ i, ptr ≤ i → i < ptr + size → ¬ Available head t i
  bump : s.system.enabled = false → s.system.bump.next < ptr ∧ ptr + size ≤ t.system.bump.next ∧
    t.system.bump.next ≤ s.system.bump.heapEnd

/-- Freeing a block of the bump allocator makes no memory available but its own. -/
def FreesOnly (s t : PoolHolders) (ptr : ℕ) : Prop := ∀ b ∈ s.live, b.early = true → b.address = ptr →
  ∀ i, Available head t i → Available head s i ∨ (b.address - poolHeaderSize ≤ i ∧ i < b.address + b.size)

def Keeps (s : PoolHolders) (r : PoolRequest) : Prop :=
  let ptr := (s.request head r).1
  let t := (s.request head r).2
  match r with
  | .allocate _ size _ => ptr ≠ 0 → Placed head s t ptr size.toNat
  | .alloc size align => ptr ≠ 0 → align ∣ ptr ∧ Placed head s t ptr size.toNat
  | .realloc old size newSize align =>
    (ptr ≠ 0 → align ∣ ptr ∧ Placed head s t ptr newSize.toNat ∧
      (∀ i < min size.toNat newSize.toNat, t.mem.byte (ptr + i) = s.mem.byte (old + i)) ∧
      FreesOnly head ((s.exAllocate head .nonPagedPool newSize PoolSystem.rustTag).2.copied old ptr (min size.toNat newSize.toNat)) t old) ∧
      (ptr = 0 → t.live = s.live ∧ ∀ i < size.toNat, t.mem.byte (old + i) = s.mem.byte (old + i))
  | .free ptr _ | .dealloc ptr => FreesOnly head s t ptr
  | .init | .store _ _ => True

/-- No sum wraps, and no block is taken from a free list. -/
def SparedAllocation (s : PoolHolders) (poolType : PoolType) (size : BitVec 64) : Prop :=
  size ≠ 0 →
    (s.system.enabled = false → s.system.bump.next + (poolType.alignment - 1) < 2 ^ 64 ∧
      alignedUp s.system.bump.next poolType.alignment + (size.toNat + poolHeaderSize) < 2 ^ 64) ∧
    (s.system.enabled = true → s.system.pool.initialized poolType.isPaged = true →
      size.toNat + poolHeaderSize + (poolBlockSize - 1) < 2 ^ 64 ∧
        ∀ i : Fin numFreeLists, startIndex (blocksNeededFor size) ≤ i → s.mem.isEmpty (head (.free poolType.isPaged i)) = true)

/-- The block is not one of the bump allocator, and a signature of a free block is not in front of
it, and behind it only in a free list. Behind the last block of a page that is a word of the next page, which is
taken to be mapped. -/
def SparedFree (s : PoolHolders) (ptr : ℕ) (tag : BitVec 32) : Prop :=
  ptr ≠ 0 → s.system.enabled = true → ¬ refuses s.mem (ptr - poolHeaderSize) tag →
    (∀ b ∈ s.live, b.address = ptr → b.early = false) ∧
      (0 < previousSize s.mem (ptr - poolHeaderSize) →
        signature s.mem (ptr - poolHeaderSize - previousSize s.mem (ptr - poolHeaderSize) * poolBlockSize) ≠ poolFreeSignature) ∧
      (signature s.mem (ptr - poolHeaderSize + blockSize s.mem (ptr - poolHeaderSize) * poolBlockSize) = poolFreeSignature →
        Listed head s.mem (ptr - poolHeaderSize + blockSize s.mem (ptr - poolHeaderSize) * poolBlockSize))

def SparedAlignment (s : PoolHolders) (align : ℕ) : Prop :=
  align ∣ poolHeaderSize ∨ (s.system.enabled = false ∧ align ∣ alignedUp s.system.bump.next PoolType.nonPagedPool.alignment + poolHeaderSize)

def Spared (s : PoolHolders) : PoolRequest → Prop
  | .allocate poolType size _ => s.SparedAllocation head poolType size
  | .free ptr tag => s.SparedFree head ptr tag
  | .alloc size align => s.SparedAllocation head .nonPagedPool size ∧ s.SparedAlignment align
  | .dealloc ptr => s.SparedFree head ptr 0
  | .realloc ptr size newSize align => s.SparedAllocation head .nonPagedPool newSize ∧ s.SparedAlignment align ∧
    let (newPtr, t) := s.exAllocate head .nonPagedPool newSize PoolSystem.rustTag
    newPtr ≠ 0 → (t.copied ptr newPtr (min size.toNat newSize.toNat)).SparedFree head ptr 0
  | .init | .store _ _ => True

/-- A page gave its first units, or has them free again, or was left to nobody. -/
inductive PageState where
  | used (n : ℕ)
  | freed (n : ℕ)
  | lost

namespace PageState

def freePart : PageState → Option (ℕ × ℕ)
  | used n => if n + minBlocks < availableBlocks then some (n, availableBlocks - n) else none
  | freed n => some (0, n)
  | lost => none

def Fits : PageState → Prop
  | used n => 0 < n ∧ n ≤ availableBlocks
  | freed n => minBlocks ≤ n ∧ n ≤ availableBlocks
  | lost => True

theorem Fits.freePart {p : PageState} {r n : ℕ} (h : p.Fits) (hfree : p.freePart = some (r, n)) : minBlocks ≤ n ∧ r + n ≤ availableBlocks := by
  have havailable : availableBlocks = 253 := rfl
  cases p with
  | used m =>
    simp only [PageState.freePart] at hfree
    split_ifs at hfree with hm
    cases hfree
    unfold minBlocks at *
    omega
  | freed m =>
    cases hfree
    exact ⟨h.1, by rw [Nat.zero_add]; exact h.2⟩
  | lost => cases hfree

end PageState

/-- The unit `r` of the page `k`. -/
def unitAt (base k r : ℕ) : ℕ := pageAt base k + pageHeaderSize + r * poolBlockSize

/-- What every request keeps. -/
structure Sound (base count : ℕ) (others : List Extent) (Q : List (Bool × ℕ)) (st : ℕ → PageState) (R : ListId → List ℕ)
    (s : PoolHolders) : Prop where
  apart : ∀ i j, i = j ∨ head i + 16 ≤ head j ∨ head j + 16 ≤ head i
  lt : ∀ i, head i < 2 ^ 64
  outside : ∀ l, head l + 16 ≤ base ∨ base + count * pageSize ≤ head l
  outsideHeap : ∀ l, head l + 16 ≤ s.system.bump.heapStart ∨ s.system.bump.heapEnd ≤ head l
  heap : s.system.bump.heapStart ≤ s.system.bump.next ∧ s.system.bump.next ≤ s.system.bump.heapEnd ∧ s.system.bump.heapEnd < 2 ^ 64
  heapApart : s.system.bump.heapEnd ≤ base ∨ base + count * pageSize ≤ s.system.bump.heapStart
  ready : ∃ cs, Ready s.system.pool.ptes cs (extents Q ++ others)
  baseVa : s.system.pool.ptes.baseVa = base
  pteCount : s.system.pool.ptes.pteCount = count
  noPages : s.system.enabled = false → Q = []
  rings : s.system.enabled = true → Rings s.mem head R
  pageList : ∀ b, R (.pages b) = ((pagesOf Q b).map fun k => pageLinks (pageAt base k)).reverse
  entries : ∀ b i x, x ∈ R (.free b i) ↔
    ∃ k ∈ pagesOf Q b, ∃ r n, (st k).freePart = some (r, n) ∧ listIndex n = i ∧ x = listEntry (unitAt base k r)
  fits : ∀ b, ∀ k ∈ pagesOf Q b, (st k).Fits
  used : ∀ b, ∀ k ∈ pagesOf Q b, ∀ n, st k = .used n →
    blockSize s.mem (unitAt base k 0) = n ∧ blockPoolType s.mem (unitAt base k 0) = typeOf b
  free : ∀ b, ∀ k ∈ pagesOf Q b, ∀ r n, (st k).freePart = some (r, n) →
    blockSize s.mem (unitAt base k r) = n ∧ signature s.mem (unitAt base k r) = poolFreeSignature
  early : ∀ b ∈ s.live, b.early = true → s.system.bump.heapStart + poolHeaderSize ≤ b.address ∧ b.address + b.size ≤ s.system.bump.next
  late : ∀ b ∈ s.live, b.early = false → ∃ p, ∃ k ∈ pagesOf Q p, ∃ n, st k = .used n ∧ b.address = unitAt base k 0 + poolHeaderSize ∧
    b.size + poolHeaderSize ≤ n * poolBlockSize

namespace Sound
variable {head} {base count : ℕ} {others : List Extent} {Q : List (Bool × ℕ)} {st : ℕ → PageState} {R : ListId → List ℕ} {s : PoolHolders}
  {paged : Bool} {j k r n : ℕ}

section
variable (h : Sound head base count others Q st R s)
include h

theorem lt_count (hk : k ∈ pagesOf Q paged) : k < count := by
  obtain ⟨cs, hready⟩ := h.ready
  exact h.pteCount ▸ lt_pteCount_of_ready hready hk

theorem nodup : (Q.map Prod.snd).Nodup := by
  obtain ⟨cs, hready⟩ := h.ready
  exact nodup_of_ready hready

theorem pool_eq {b : Bool} (hb : k ∈ pagesOf Q b) (hk : k ∈ pagesOf Q paged) : b = paged :=
  congrArg Prod.fst (List.inj_on_of_nodup_map h.nodup (mem_pagesOf.1 hb) (mem_pagesOf.1 hk) rfl)

theorem end_lt : base + count * pageSize < 2 ^ 64 := by
  obtain ⟨cs, hready⟩ := h.ready
  have := hready.fits
  rwa [h.baseVa, h.pteCount] at this

theorem cell_cases {l : ListId} {c : ℕ} (hc : c ∈ head l :: R l) :
    c = head l ∨ ∃ b, ∃ j ∈ pagesOf Q b, c = pageAt base j + 16 ∨ ∃ r n, (st j).freePart = some (r, n) ∧ c = unitAt base j r + 16 := by
  rcases List.mem_cons.1 hc with rfl | hc
  · exact Or.inl rfl
  · right
    cases l with
    | free b i =>
      obtain ⟨j, hj, r, n, hfree, -, rfl⟩ := (h.entries b i c).1 hc
      exact ⟨b, j, hj, Or.inr ⟨r, n, hfree, rfl⟩⟩
    | pages b =>
      rw [h.pageList, List.mem_reverse, List.mem_map] at hc
      obtain ⟨j, hj, rfl⟩ := hc
      exact ⟨b, j, hj, Or.inl rfl⟩

theorem free_bounds (hk : k ∈ pagesOf Q paged) (hfree : (st k).freePart = some (r, n)) :
    2 ≤ n ∧ r + n ≤ 253 := (h.fits paged k hk).freePart hfree

theorem clear_page (hk : k ∈ pagesOf Q paged) {a b : ℕ}
    (ha : pageAt base k + 32 ≤ a) (hb : b ≤ pageAt base k + pageSize)
    (hfree : ∀ r n, (st k).freePart = some (r, n) → b ≤ unitAt base k r + 16 ∨ unitAt base k r + 32 ≤ a) : Clear head R a b := by
  intro l c hc
  have hcount := h.lt_count hk
  have houtside := h.outside l
  rcases h.cell_cases hc with rfl | ⟨b', j, hj, rfl | ⟨r, n, hpart, rfl⟩⟩
  · unfold pageAt pageSize at *
    omega
  · unfold pageAt pageSize at *
    rcases eq_or_ne j k with rfl | hne
    · omega
    · omega
  · have hbounds := h.free_bounds hj hpart
    rcases eq_or_ne j k with rfl | hne
    · have := hfree r n hpart
      omega
    · unfold unitAt pageAt pageSize pageHeaderSize poolBlockSize at *
      omega

theorem clear_new (hk : ∀ paged, k ∉ pagesOf Q paged) (hcount : k < count) :
    Clear head R (pageAt base k) (pageAt base k + pageSize) := by
  intro l c hc
  have houtside := h.outside l
  rcases h.cell_cases hc with rfl | ⟨b', j, hj, rfl | ⟨r, n, hpart, rfl⟩⟩
  · unfold pageAt pageSize at *
    omega
  · have hne : j ≠ k := fun hjk => hk b' (hjk ▸ hj)
    unfold pageAt pageSize at *
    omega
  · have hne : j ≠ k := fun hjk => hk b' (hjk ▸ hj)
    have hbounds := h.free_bounds hj hpart
    unfold unitAt pageAt pageSize pageHeaderSize poolBlockSize at *
    omega

theorem clear_heap {a b : ℕ} (ha : s.system.bump.heapStart ≤ a)
    (hb : b ≤ s.system.bump.heapEnd) : Clear head R a b := by
  intro l c hc
  have houtside := h.outsideHeap l
  have hapart := h.heapApart
  rcases h.cell_cases hc with rfl | ⟨b', j, hj, rfl | ⟨r, n, hpart, rfl⟩⟩
  · omega
  · have hcount := h.lt_count hj
    unfold pageAt pageSize at *
    omega
  · have hcount := h.lt_count hj
    have hbounds := h.free_bounds hj hpart
    unfold unitAt pageAt pageSize pageHeaderSize poolBlockSize at *
    omega

theorem listed_iff (henabled : s.system.enabled = true) {block : ℕ} :
    Listed head s.mem block ↔ ∃ b, ∃ k ∈ pagesOf Q b, ∃ r n, (st k).freePart = some (r, n) ∧ block = unitAt base k r := by
  constructor
  · rintro ⟨b, i, l, hring, hmem⟩
    rw [hring.unique ((h.rings henabled).ring _), h.entries] at hmem
    obtain ⟨k, hk, r, n, hfree, -, hblock⟩ := hmem
    exact ⟨b, k, hk, r, n, hfree, Nat.add_right_cancel hblock⟩
  · rintro ⟨b, k, hk, r, n, hfree, rfl⟩
    exact ⟨b, listIndex n, _, (h.rings henabled).ring _, (h.entries _ _ _).2 ⟨k, hk, r, n, hfree, rfl, rfl⟩⟩

theorem available {i : ℕ} (hi : Available head s i) :
    ∃ b, ∃ k ∈ pagesOf Q b, ∃ r n, (st k).freePart = some (r, n) ∧ unitAt base k r ≤ i ∧ i < unitAt base k r + n * poolBlockSize := by
  obtain ⟨henabled, block, hlisted, hlow, hhigh⟩ := hi
  obtain ⟨b, k, hk, r, n, hfree, rfl⟩ := (h.listed_iff henabled).1 hlisted
  rw [(h.free b k hk r n hfree).1] at hhigh
  exact ⟨b, k, hk, r, n, hfree, hlow, hhigh⟩

end

end Sound

end PoolHolders

end XenOS.Ex
