import XenOS.Ex.NtPool

/-! What the allocator does to memory: a new page and what is cut off its first block, with the lists they are put into. -/

namespace XenOS.Ex

open General Mm Function List

section Fields
variable {m : Ram} {a b n v : ℕ}

theorem read_write_field (h : v < 256 ^ n) : leNat ((m.write a (leBytes n v)).read a n) = v := by
  rw [Ram.read_write_of_length (length_leBytes n v)]
  exact leNat_leBytes h

theorem read_write_other {k : ℕ} (h : a + n ≤ b ∨ b + k ≤ a) : (m.write b (leBytes k v)).read a n = m.read a n :=
  Ram.read_write_of_disjoint (by rw [length_leBytes]; exact h)

theorem byte_write_other {k i : ℕ} (h : i < b ∨ b + k ≤ i) : (m.write b (leBytes k v)).byte i = m.byte i :=
  Ram.byte_write_of_lt (by rw [length_leBytes]; exact h)

end Fields

/-- No cell of a list meets the bytes from `a` to `b`. -/
def Clear (head : ListId → ℕ) (R : ListId → List ℕ) (a b : ℕ) : Prop := ∀ l, ∀ c ∈ head l :: R l, c + 16 ≤ a ∨ b ≤ c

namespace Clear
variable {head : ListId → ℕ} {R : ListId → List ℕ} {m m' : Ram} {a b n x : ℕ} {l : ListId}

theorem mono {a' b' : ℕ} (h : Clear head R a b) (ha : a ≤ a') (hb : b' ≤ b) : Clear head R a' b' := by
  intro l c hc
  have := h l c hc
  omega

theorem rings (h : Clear head R a b) (hr : Rings m head R) (hsame : ∀ i, i < a ∨ b ≤ i → m'.byte i = m.byte i) : Rings m' head R := by
  refine hr.congr fun l c hc k hk => hsame _ ?_
  have := h l c hc
  omega

theorem fresh (h : Clear head R x (x + 16)) (hx : x < 2 ^ 64) : Rings.Fresh head R x := ⟨hx, fun l a ha => h l a ha⟩

theorem read_insertTail (h : Clear head R a (a + n)) (hr : Rings m head R) (hx : a + n ≤ x ∨ x + 16 ≤ a) :
    (m.insertTail (head l) x).read a n = m.read a n := by
  refine Ram.read_congr fun k hk => hr.byte_insertTail l (by omega) fun c hc => ?_
  have := h l c hc
  omega

theorem read_insertHead (h : Clear head R a (a + n)) (hr : Rings m head R) (hx : a + n ≤ x ∨ x + 16 ≤ a) :
    (m.insertHead (head l) x).read a n = m.read a n := by
  refine Ram.read_congr fun k hk => hr.byte_insertHead l (by omega) fun c hc => ?_
  have := h l c hc
  omega

theorem update (h : Clear head R a b) (hx : x + 16 ≤ a ∨ b ≤ x) {zs : List ℕ} (hzs : ∀ c ∈ zs, c = x ∨ c ∈ R l) :
    Clear head (update R l zs) a b := by
  intro j c hc
  rcases mem_cons.1 hc with rfl | hc
  · exact h j _ mem_cons_self
  · rcases eq_or_ne j l with rfl | hne
    · rw [update_self] at hc
      rcases hzs c hc with rfl | hc
      · exact hx
      · exact h j c (mem_cons_of_mem _ hc)
    · rw [update_of_ne hne] at hc
      exact h j c (mem_cons_of_mem _ hc)

end Clear

namespace NtPool
variable {head : ListId → ℕ} {R : ListId → List ℕ} {m : Ram} {paged : Bool} {va pfn block n total : ℕ} {tag : BitVec 32}

def withPage (R : ListId → List ℕ) (paged : Bool) (va : ℕ) : ListId → List ℕ :=
  update R (.pages paged) (R (.pages paged) ++ [pageLinks va])

def withBlock (R : ListId → List ℕ) (paged : Bool) (block size : ℕ) : ListId → List ℕ :=
  update R (.free paged (listIndex size)) (listEntry block :: R (.free paged (listIndex size)))

theorem clear_withPage {a b : ℕ} (h : Clear head R a b) (hx : va + 32 ≤ a ∨ b ≤ va + 16) : Clear head (withPage R paged va) a b :=
  h.update (x := pageLinks va) (by unfold pageLinks; omega) fun c hc => by
    rcases mem_append.1 hc with hc | hc
    · exact Or.inr hc
    · exact Or.inl (mem_singleton.1 hc)

theorem clear_withBlock {a b size : ℕ} (h : Clear head R a b) (hx : block + 32 ≤ a ∨ b ≤ block + 16) :
    Clear head (withBlock R paged block size) a b :=
  h.update (x := listEntry block) (by unfold listEntry; omega) fun c hc => mem_cons.1 hc

theorem typeOf_lt (paged : Bool) : typeOf paged < 256 ^ 1 := by
  cases paged <;> decide

structure PageMade (head : ListId → ℕ) (R : ListId → List ℕ) (m m' : Ram) (paged : Bool) (va : ℕ) : Prop where
  rings : Rings m' head (withPage R paged va)
  size : blockSize m' (va + pageHeaderSize) = availableBlocks
  type : blockPoolType m' (va + pageHeaderSize) = typeOf paged
  frame : ∀ i, i < va ∨ va + pageSize ≤ i → Clear head R i (i + 1) → m'.byte i = m.byte i

theorem byte_pageBytes {i : ℕ} (hi : i < va ∨ va + 60 ≤ i) : (pageBytes m paged va pfn).byte i = m.byte i := by
  simp only [pageBytes, setPagePoolType, setPfn, setTotalBlocks, setFreeBlocks, setLargestFree, setBlockSize, setPreviousSize,
    setPoolType, setSignature, setFirstFree, pageHeaderSize]
  iterate 10 rw [byte_write_other (by omega)]
  exact Ram.byte_write_of_lt (by
    rw [length_append, length_leBytes, length_replicate]
    omega)

theorem blockSize_pageBytes : blockSize (pageBytes m paged va pfn) (va + pageHeaderSize) = availableBlocks := by
  simp only [pageBytes, setPagePoolType, setPfn, setTotalBlocks, setFreeBlocks, setLargestFree, setBlockSize, setPreviousSize,
    setPoolType, setSignature, setFirstFree, pageHeaderSize, blockSize]
  iterate 4 rw [read_write_other (by omega)]
  exact read_write_field (by decide)

theorem blockPoolType_pageBytes : blockPoolType (pageBytes m paged va pfn) (va + pageHeaderSize) = typeOf paged := by
  simp only [pageBytes, setPagePoolType, setPfn, setTotalBlocks, setFreeBlocks, setLargestFree, setBlockSize, setPreviousSize,
    setPoolType, setSignature, setFirstFree, pageHeaderSize, blockPoolType]
  iterate 2 rw [read_write_other (by omega)]
  exact read_write_field (typeOf_lt paged)

theorem pageMade (hr : Rings m head R) (hclear : Clear head R va (va + pageSize)) (hva : va + pageSize ≤ 2 ^ 64) (pfn : ℕ) :
    PageMade head R m (initPage head m paged va pfn) paged va := by
  unfold pageSize at hva hclear
  have hbytes : Rings (pageBytes m paged va pfn) head R :=
    (hclear.mono (Nat.le_refl va) (show va + 60 ≤ va + 4096 by omega)).rings hr fun i hi => byte_pageBytes hi
  have hfresh : Rings.Fresh head R (pageLinks va) :=
    (hclear.mono (show va ≤ va + 16 by omega) (show va + 16 + 16 ≤ va + 4096 by omega)).fresh (by omega)
  have hread : ∀ a n, va + 32 ≤ a → a + n ≤ va + 4096 →
      (initPage head m paged va pfn).read a n = (pageBytes m paged va pfn).read a n := by
    intro a n ha hn
    rw [initPage]
    exact (hclear.mono (show va ≤ a by omega) hn).read_insertTail hbytes (by unfold pageLinks; omega)
  constructor
  · rw [initPage]
    exact hbytes.insertTail (.pages paged) hfresh
  · refine Eq.trans ?_ (blockSize_pageBytes : blockSize (pageBytes m paged va pfn) _ = _)
    rw [blockSize, blockSize, hread _ _ (by unfold pageHeaderSize; omega) (by unfold pageHeaderSize; omega)]
  · refine Eq.trans ?_ (blockPoolType_pageBytes : blockPoolType (pageBytes m paged va pfn) _ = _)
    rw [blockPoolType, blockPoolType, hread _ _ (by unfold pageHeaderSize; omega) (by unfold pageHeaderSize; omega)]
  · intro i hi hcells
    unfold pageSize at hi
    rw [initPage, hbytes.byte_insertTail (.pages paged) (by unfold pageLinks; omega) fun c hc => ?_]
    · exact byte_pageBytes (by omega)
    · have := hcells _ c hc
      omega

def splitBytes (m : Ram) (paged : Bool) (block n : ℕ) : Ram :=
  let remainingSize := blockSize m block - n
  let newFree := block + n * poolBlockSize
  let m := setBlockSize m newFree remainingSize
  let m := setPreviousSize m newFree n
  let m := setPoolType m newFree (typeOf paged)
  let m := setSignature m newFree poolFreeSignature
  setBlockSize m block n

theorem splitBlock_eq : splitBlock head m paged block n =
    (splitBytes m paged block n).insertHead (head (.free paged (listIndex (blockSize m block - n)))) (listEntry (block + n * poolBlockSize)) := rfl

theorem byte_splitBytes {i : ℕ} (hblock : i < block + 2 ∨ block + 3 ≤ i)
    (hrest : i < block + n * poolBlockSize ∨ block + n * poolBlockSize + 12 ≤ i) : (splitBytes m paged block n).byte i = m.byte i := by
  simp only [splitBytes, setBlockSize, setPreviousSize, setPoolType, setSignature]
  iterate 5 rw [byte_write_other (by omega)]

structure BlockSplit (head : ListId → ℕ) (R : ListId → List ℕ) (m m' : Ram) (paged : Bool) (block n rest : ℕ) : Prop where
  rings : Rings m' head (withBlock R paged (block + n * poolBlockSize) rest)
  size : blockSize m' (block + n * poolBlockSize) = rest
  free : signature m' (block + n * poolBlockSize) = poolFreeSignature
  frame : ∀ i, i < block + 2 ∨ block + 3 ≤ i → i < block + n * poolBlockSize ∨ block + n * poolBlockSize + 32 ≤ i →
    Clear head R i (i + 1) → m'.byte i = m.byte i

theorem blockSplit (hr : Rings m head R) (hclear : Clear head R block (block + total * poolBlockSize)) (hsize : blockSize m block = total)
    (hpos : 0 < n) (hn : n + 2 ≤ total) (htotal : total < 256) (hend : block + total * poolBlockSize ≤ 2 ^ 64) :
    BlockSplit head R m (splitBlock head m paged block n) paged block n (total - n) := by
  unfold poolBlockSize at hclear hend
  have hbytes : Rings (splitBytes m paged block n) head R := by
    refine hclear.rings hr fun i hi => byte_splitBytes ?_ ?_
    · omega
    · unfold poolBlockSize
      omega
  have hfresh : Rings.Fresh head R (listEntry (block + n * poolBlockSize)) := by
    unfold listEntry poolBlockSize
    exact (hclear.mono (show block ≤ block + n * 16 + 16 by omega) (show block + n * 16 + 16 + 16 ≤ block + total * 16 by omega)).fresh
      (by omega)
  have hread : ∀ a k, block + n * 16 ≤ a → a + k ≤ block + n * 16 + 16 →
      (splitBlock head m paged block n).read a k = (splitBytes m paged block n).read a k := by
    intro a k ha hk
    rw [splitBlock_eq]
    exact (hclear.mono (show block ≤ a by omega) (show a + k ≤ block + total * 16 by omega)).read_insertHead hbytes
      (by unfold listEntry poolBlockSize; omega)
  constructor
  · rw [splitBlock_eq, hsize]
    exact hbytes.insertHead _ hfresh
  · unfold poolBlockSize
    rw [blockSize, hread _ _ (by omega) (by omega)]
    simp only [splitBytes, hsize, setBlockSize, setPreviousSize, setPoolType, setSignature, poolBlockSize]
    iterate 4 rw [read_write_other (by omega)]
    exact read_write_field (by omega)
  · unfold poolBlockSize
    rw [signature, Ram.u32, hread _ _ (by omega) (by omega)]
    simp only [splitBytes, hsize, setBlockSize, setPreviousSize, setPoolType, setSignature, poolBlockSize]
    rw [read_write_other (by omega)]
    exact read_write_field (by decide)
  · intro i hblock hrest hcells
    rw [splitBlock_eq, hbytes.byte_insertHead _ (by unfold listEntry; omega) fun c hc => ?_]
    · exact byte_splitBytes hblock (by omega)
    · have := hcells _ c hc
      omega

/-- The lists after a new page gave `n` units. -/
def listsWith (R : ListId → List ℕ) (paged : Bool) (va n : ℕ) : ListId → List ℕ :=
  if n + minBlocks < availableBlocks
  then withBlock (withPage R paged va) paged (va + pageHeaderSize + n * poolBlockSize) (availableBlocks - n) else withPage R paged va

theorem withPage_pages (b : Bool) : withPage R paged va (.pages b) = if b = paged then R (.pages b) ++ [pageLinks va] else R (.pages b) := by
  rcases eq_or_ne b paged with rfl | hne
  · rw [withPage, update_self, if_pos rfl]
  · rw [withPage, update_of_ne (by simp [hne]), if_neg hne]

theorem withPage_free (b : Bool) (i : Fin numFreeLists) : withPage R paged va (.free b i) = R (.free b i) :=
  update_of_ne (by simp) _ _

theorem listsWith_pages (b : Bool) :
    listsWith R paged va n (.pages b) = if b = paged then R (.pages b) ++ [pageLinks va] else R (.pages b) := by
  rw [← withPage_pages, listsWith]
  by_cases hn : n + minBlocks < availableBlocks
  · rw [if_pos hn, withBlock, update_of_ne (by simp)]
  · rw [if_neg hn]

theorem mem_withBlock_free {b : Bool} {i : Fin numFreeLists} {size x : ℕ} :
    x ∈ withBlock R paged block size (.free b i) ↔ (b = paged ∧ listIndex size = i ∧ x = listEntry block) ∨ x ∈ R (.free b i) := by
  by_cases hlist : ListId.free b i = .free paged (listIndex size)
  · obtain ⟨rfl, rfl⟩ : b = paged ∧ i = listIndex size := by
      simpa using hlist
    rw [withBlock, update_self, mem_cons]
    simp
  · rw [withBlock, update_of_ne hlist]
    refine ⟨Or.inr, fun hx => hx.resolve_left ?_⟩
    rintro ⟨rfl, rfl, -⟩
    exact hlist rfl

theorem mem_listsWith_free {b : Bool} {i : Fin numFreeLists} {x : ℕ} :
    x ∈ listsWith R paged va n (.free b i) ↔
      (b = paged ∧ n + minBlocks < availableBlocks ∧ listIndex (availableBlocks - n) = i ∧
        x = listEntry (va + pageHeaderSize + n * poolBlockSize)) ∨ x ∈ R (.free b i) := by
  unfold listsWith
  split_ifs with hn
  · rw [mem_withBlock_free, withPage_free]
    simp [hn]
  · rw [withPage_free]
    simp [hn]

structure FirstUsed (head : ListId → ℕ) (R : ListId → List ℕ) (m m' : Ram) (paged : Bool) (va n : ℕ) : Prop where
  rings : Rings m' head (listsWith R paged va n)
  size : blockSize m' (va + pageHeaderSize) = n
  type : blockPoolType m' (va + pageHeaderSize) = typeOf paged
  restSize : n + minBlocks < availableBlocks → blockSize m' (va + pageHeaderSize + n * poolBlockSize) = availableBlocks - n
  restFree : n + minBlocks < availableBlocks → signature m' (va + pageHeaderSize + n * poolBlockSize) = poolFreeSignature
  frame : ∀ i, i < va ∨ va + pageSize ≤ i → Clear head R i (i + 1) → m'.byte i = m.byte i

def claimFirst (m : Ram) (va n : ℕ) (tag : BitVec 32) : Ram :=
  let firstBlock := va + pageHeaderSize
  let m := setPoolTag m firstBlock tag.toNat
  let m := setBlockSize m firstBlock n
  setFreeBlocks m va (freeBlocks m va - n)

theorem byte_claimFirst {i : ℕ} (hpage : i < va + 6 ∨ va + 8 ≤ i) (hsize : i < va + 50 ∨ va + 51 ≤ i) (htag : i < va + 52 ∨ va + 56 ≤ i) :
    (claimFirst m va n tag).byte i = m.byte i := by
  simp only [claimFirst, setPoolTag, setBlockSize, setFreeBlocks, pageHeaderSize]
  iterate 3 rw [byte_write_other (by omega)]

theorem blockSize_claimFirst (hn : n < 256) : blockSize (claimFirst m va n tag) (va + pageHeaderSize) = n := by
  simp only [claimFirst, setPoolTag, setBlockSize, setFreeBlocks, pageHeaderSize, blockSize]
  rw [read_write_other (by omega)]
  exact read_write_field hn

theorem read_claimFirst {a k : ℕ} (ha : va + 56 ≤ a ∨ (a = va + 51 ∧ k = 1)) : (claimFirst m va n tag).read a k = m.read a k :=
  Ram.read_congr fun i hi => byte_claimFirst (by omega) (by omega) (by omega)

theorem Rings.claimFirst (hr : Rings m head R) (hpage : Clear head R va (va + 16)) (hblock : Clear head R (va + 48) (va + 64)) :
    Rings (claimFirst m va n tag) head R := by
  refine hr.congr fun l c hc k hk => byte_claimFirst ?_ ?_ ?_
  · have := hpage l c hc
    omega
  · have := hblock l c hc
    omega
  · have := hblock l c hc
    omega

theorem useFirstBlock_eq : useFirstBlock head m paged va n tag =
    claimFirst (if n + minBlocks < availableBlocks then splitBlock head m paged (va + pageHeaderSize) n else m) va n tag := rfl

theorem firstUsed (hr : Rings m head R) (hclear : Clear head R va (va + pageSize)) (hva : va + pageSize ≤ 2 ^ 64) (hpos : 0 < n)
    (hn : n ≤ availableBlocks) (pfn : ℕ) (tag : BitVec 32) :
    FirstUsed head R m (useFirstBlock head (initPage head m paged va pfn) paged va n tag) paged va n := by
  have hmade : PageMade head R m (initPage head m paged va pfn) paged va := pageMade hr hclear hva pfn
  have hblocks : availableBlocks = 253 := rfl
  generalize initPage head m paged va pfn = made at hmade
  obtain ⟨hrings, hsize, htype, hframe⟩ := hmade
  rw [useFirstBlock_eq]
  unfold pageSize at hclear hva
  have hcells : ∀ {a b}, va ≤ a → b ≤ va + 4096 → va + 32 ≤ a ∨ b ≤ va + 16 → Clear head (withPage R paged va) a b :=
    fun ha hb hx => clear_withPage (hclear.mono ha hb) hx
  by_cases hrest : n + minBlocks < availableBlocks
  · rw [if_pos hrest]
    have htwo : n + 2 < availableBlocks := hrest
    have hsplit : BlockSplit head (withPage R paged va) made (splitBlock head made paged (va + pageHeaderSize) n) paged
        (va + pageHeaderSize) n (availableBlocks - n) := by
      refine blockSplit hrings (hcells ?_ ?_ ?_) hsize hpos (by omega) (by decide) ?_
      · omega
      · unfold pageHeaderSize poolBlockSize
        omega
      · unfold pageHeaderSize
        omega
      · unfold pageHeaderSize poolBlockSize
        omega
    generalize splitBlock head made paged (va + pageHeaderSize) n = cut at hsplit
    obtain ⟨hcut, hsize', hfree, hkept⟩ := hsplit
    unfold pageHeaderSize poolBlockSize at hkept hsize' hfree
    constructor
    · rw [listsWith, if_pos hrest]
      have hbehind : va + 64 ≤ va + pageHeaderSize + n * poolBlockSize := by
        unfold pageHeaderSize poolBlockSize
        omega
      refine Rings.claimFirst hcut (clear_withBlock (hcells ?_ ?_ ?_) ?_) (clear_withBlock (hcells ?_ ?_ ?_) ?_)
      all_goals omega
    · exact blockSize_claimFirst (by omega)
    · have htype' : cut.read (va + 48 + 3) 1 = made.read (va + 48 + 3) 1 := by
        refine Ram.read_congr fun i hi => hkept _ (by omega) (by omega) (hcells ?_ ?_ ?_)
        all_goals omega
      unfold blockPoolType pageHeaderSize at htype ⊢
      rw [read_claimFirst (Or.inr ⟨rfl, rfl⟩), htype', htype]
    · intro _
      unfold blockSize pageHeaderSize poolBlockSize at *
      rw [read_claimFirst (Or.inl (by omega)), hsize']
    · intro _
      unfold signature Ram.u32 pageHeaderSize poolBlockSize at *
      rw [read_claimFirst (Or.inl (by omega)), hfree]
    · intro i hi hclear'
      unfold pageSize at hi
      rw [byte_claimFirst (by omega) (by omega) (by omega), hkept i (by omega) (by omega) (clear_withPage hclear' (by omega)), hframe i hi hclear']
  · rw [if_neg hrest]
    constructor
    · rw [listsWith, if_neg hrest]
      refine Rings.claimFirst hrings (hcells ?_ ?_ ?_) (hcells ?_ ?_ ?_)
      all_goals omega
    · exact blockSize_claimFirst (by omega)
    · unfold blockPoolType pageHeaderSize at htype ⊢
      rw [read_claimFirst (Or.inr ⟨rfl, rfl⟩), htype]
    · exact fun hn' => absurd hn' hrest
    · exact fun hn' => absurd hn' hrest
    · intro i hi hclear'
      unfold pageSize at hi
      rw [byte_claimFirst (by omega) (by omega) (by omega), hframe i hi hclear']

theorem rings_ntPoolInit {head : ListId → ℕ} {σ : NtPool} (hapart : ∀ i j, i = j ∨ head i + 16 ≤ head j ∨ head j + 16 ≤ head i)
    (hlt : ∀ i, head i < 2 ^ 64) : Rings (σ.ntPoolInit head).mem head fun _ => [] := by
  refine Rings.empty hapart hlt fun l => ?_
  have hmem : ∀ paged, l ∈ heads paged ∨ l ∈ heads !paged := by
    intro paged
    cases l with
    | free b i =>
      have hi : ListId.free b i ∈ heads b := by simp [heads]
      rcases Bool.eq_or_eq_not b paged with rfl | rfl
      · exact Or.inl hi
      · exact Or.inr hi
    | pages b =>
      have hb : ListId.pages b ∈ heads b := by simp [heads]
      rcases Bool.eq_or_eq_not b paged with rfl | rfl
      · exact Or.inl hb
      · exact Or.inr hb
  refine Rings.ring_initHeads hapart hlt _ ((hmem true).imp_right fun hfalse => ?_)
  exact Rings.ring_initHeads hapart hlt _ (Or.inl hfalse)

/-- Neither neighbour has the signature of a free block. Behind the last block of a page the signature is read in the
next page, as the code does not look for the end of the page; that page is taken to be mapped. -/
def Alone (m : Ram) (block : ℕ) : Prop :=
  (0 < previousSize m block → signature m (block - previousSize m block * poolBlockSize) ≠ poolFreeSignature) ∧
    signature m (block + blockSize m block * poolBlockSize) ≠ poolFreeSignature

instance (m : Ram) (block : ℕ) : Decidable (Alone m block) := inferInstanceAs (Decidable (_ ∧ _))

theorem coalesceBlocks_alone (h : Alone m block) : coalesceBlocks m block = (blockSize m block, m) := by
  have hprevious : coalescePrevious m block = (blockSize m block, m) := by
    unfold coalescePrevious
    simp only
    split_ifs with hprev hsign
    · exact absurd hsign (h.1 hprev)
    · rfl
    · rfl
  unfold coalesceBlocks
  rw [hprevious]
  exact if_neg h.2

end NtPool

end XenOS.Ex
