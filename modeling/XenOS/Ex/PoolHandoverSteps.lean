import XenOS.Ex.PoolHandover
import XenOS.Ex.NtPoolConservation

/-! What the requests do to the pages and to the blocks that are out. -/

namespace XenOS.Ex

open General Mm NtPool NtPoolClients Function PoolSystem

namespace PoolHolders

namespace Sound
variable {head : ListId → ℕ} {base count : ℕ} {others : List Extent} {Q : List (Bool × ℕ)} {st : ℕ → PageState} {R : ListId → List ℕ}
  {s : PoolHolders} {paged : Bool} {j k r n : ℕ}

/-! ### Memory -/

variable {m : Ram} {block : ℕ}

theorem blockSize_congr {m' : Ram} (hsame : ∀ i, block ≤ i → i < block + 4 → m'.byte i = m.byte i) :
    blockSize m' block = blockSize m block ∧ blockPoolType m' block = blockPoolType m block := by
  have hsize : m'.read (block + 2) 1 = m.read (block + 2) 1 := Ram.read_congr fun i hi => hsame _ (by omega) (by omega)
  have htype : m'.read (block + 3) 1 = m.read (block + 3) 1 := Ram.read_congr fun i hi => hsame _ (by omega) (by omega)
  unfold blockSize blockPoolType
  rw [hsize, htype]
  exact ⟨rfl, rfl⟩

theorem signature_congr {m' : Ram} (hsame : ∀ i, block + 8 ≤ i → i < block + 12 → m'.byte i = m.byte i) :
    signature m' block = signature m block := by
  have hsign : m'.read (block + 8) 4 = m.read (block + 8) 4 := Ram.read_congr fun i hi => hsame _ (by omega) (by omega)
  unfold signature Ram.u32
  rw [hsign]

theorem withMem (h : Sound head base count others Q st R s)
    (hrings : s.system.enabled = true → Rings m head R)
    (hused : ∀ b, ∀ k ∈ pagesOf Q b, ∀ n, st k = .used n → ∀ i, unitAt base k 0 ≤ i → i < unitAt base k 0 + 4 → m.byte i = s.mem.byte i)
    (hfree : ∀ b, ∀ k ∈ pagesOf Q b, ∀ r n, (st k).freePart = some (r, n) → ∀ i, unitAt base k r ≤ i → i < unitAt base k r + 12 → m.byte i = s.mem.byte i)
    :
    Sound head base count others Q st R ⟨{ s.system with pool := { s.system.pool with mem := m } }, s.live⟩ :=
  { h with
    rings := hrings
    used := fun b k hk n hst => by
      obtain ⟨hsize, htype⟩ := blockSize_congr (hused b k hk n hst)
      obtain ⟨hsize', htype'⟩ := h.used b k hk n hst
      exact ⟨hsize.trans hsize', htype.trans htype'⟩
    free := fun b k hk r n hpart => by
      have hsame := hfree b k hk r n hpart
      obtain ⟨hsize', hsign'⟩ := h.free b k hk r n hpart
      exact ⟨(blockSize_congr fun i hlow hhigh => hsame i hlow (by omega)).1.trans hsize',
        (signature_congr fun i hlow hhigh => hsame i (by omega) hhigh).trans hsign'⟩ }

variable {u : HeldBlock}

theorem write (h : Sound head base count others Q st R s) (hu : u ∈ s.live) {a b : ℕ} (hlow : u.address ≤ a)
    (hhigh : b ≤ u.address + u.size) (hsame : ∀ i, i < a ∨ b ≤ i → m.byte i = s.mem.byte i) :
    Sound head base count others Q st R ⟨{ s.system with pool := { s.system.pool with mem := m } }, s.live⟩ := by
  cases hearly : u.early with
  | true =>
    obtain ⟨hstart, hend⟩ := h.early u hu hearly
    obtain ⟨-, hnext, -⟩ := h.heap
    have hapart := h.heapApart
    have hclear : Clear head R a b := h.clear_heap (by omega) (by omega)
    refine h.withMem (fun henabled => hclear.rings (h.rings henabled) hsame) (fun b' k hk n hst i hi hi' => hsame i ?_)
      fun b' k hk r n hpart i hi hi' => hsame i ?_
    · have hcount := h.lt_count hk
      unfold unitAt pageAt pageSize pageHeaderSize poolBlockSize at *
      omega
    · have hcount := h.lt_count hk
      have hbounds := h.free_bounds hk hpart
      unfold unitAt pageAt pageSize pageHeaderSize poolBlockSize at *
      omega
  | false =>
    obtain ⟨p, k, hk, n, hst, haddress, hsize⟩ := h.late u hu hearly
    have hfits := h.fits p k hk
    rw [hst] at hfits
    have hn : n ≤ 253 := hfits.2
    have hpart : ∀ r m, (st k).freePart = some (r, m) → r = n := by
      intro r m hpart
      rw [hst, PageState.freePart] at hpart
      split_ifs at hpart
      cases hpart
      rfl
    have hclear : Clear head R a b := by
      refine h.clear_page hk ?_ ?_ fun r m hr => Or.inl ?_
      · unfold unitAt pageHeaderSize poolHeaderSize at haddress
        omega
      · unfold unitAt pageHeaderSize poolHeaderSize poolBlockSize pageSize at *
        omega
      · rw [hpart r m hr]
        unfold unitAt pageHeaderSize poolHeaderSize poolBlockSize at *
        omega
    refine h.withMem (fun henabled => hclear.rings (h.rings henabled) hsame) (fun b' j hj n' hst' i hi hi' => hsame i ?_)
      fun b' j hj r m hr i hi hi' => hsame i ?_
    · rcases eq_or_ne j k with rfl | hne
      · unfold unitAt pageHeaderSize poolHeaderSize poolBlockSize at *
        omega
      · unfold unitAt pageAt pageSize pageHeaderSize poolHeaderSize poolBlockSize at *
        omega
    · have hbounds := h.free_bounds hj hr
      rcases eq_or_ne j k with rfl | hne
      · rw [hpart r m hr] at hi hi'
        unfold unitAt pageHeaderSize poolHeaderSize poolBlockSize at *
        omega
      · unfold unitAt pageAt pageSize pageHeaderSize poolHeaderSize poolBlockSize at *
        omega

/-! ### Initialisation -/

theorem init (h : Sound head base count others Q st R s) (hlegal : s.system.enabled = false) :
    Sound head base count others [] st (fun _ => []) ⟨s.system.ntPoolInit head, s.live⟩ := by
  obtain rfl := h.noPages hlegal
  exact
    { h with
      rings := fun _ => rings_ntPoolInit h.apart h.lt
      noPages := fun _ => rfl
      pageList := fun _ => rfl
      entries := fun _ _ _ => by simp [pagesOf]
      used := fun _ k hk => by cases hk
      free := fun _ k hk => by cases hk }

/-! ### Allocations of the bump allocator -/

theorem alignedUp_spec {current : ℕ} (poolType : PoolType) (hlt : current + (poolType.alignment - 1) < 2 ^ 64) :
    current ≤ alignedUp current poolType.alignment ∧ alignedUp current poolType.alignment % 8 = 0 := by
  unfold alignedUp PoolType.alignment at *
  split_ifs at *
  · rw [Nat.mod_eq_of_lt hlt]
    omega
  · rw [Nat.mod_eq_of_lt hlt]
    omega

variable {poolType : PoolType} {i : ℕ}

theorem byte_bumpHeader {totalSize : ℕ} {tag : BitVec 32} (hi : i < block ∨ block + 8 ≤ i) :
    (bumpHeader m block totalSize poolType tag).byte i = m.byte i := by
  simp only [bumpHeader, setPoolType, setPoolTag, setBlockSize, setPreviousSize]
  iterate 5 rw [byte_write_other (by omega)]

structure Allocated (head : ListId → ℕ) (s t : PoolHolders) (ptr size : ℕ) : Prop where
  placed : ptr ≠ 0 → Placed head s t ptr size
  none : ptr = 0 → t.live = s.live
  some : ptr ≠ 0 → t.live = ⟨ptr, size, !s.system.enabled⟩ :: s.live
  enabled : t.system.enabled = s.system.enabled
  fresh : ptr ≠ 0 → ∀ u ∈ s.live, u.address ≠ ptr
  keeps : ∀ u ∈ s.live, ∀ i, u.address ≤ i → i < u.address + u.size → t.mem.byte i = s.mem.byte i

theorem allocated_null (h : Sound head base count others Q st R s) (size : ℕ) :
    Allocated head s s 0 size ∧ ∃ Q st R, Sound head base count others Q st R s :=
  ⟨⟨fun hne => absurd rfl hne, fun _ => rfl, fun hne => absurd rfl hne, rfl, fun hne => absurd rfl hne, fun _ _ _ _ _ => rfl⟩, Q, st, R, h⟩

variable {size : BitVec 64}

theorem bumpAllocate (h : Sound head base count others Q st R s) (tag : BitVec 32)
    (hspared : s.SparedAllocation head poolType size) (hdisabled : s.system.enabled = false)
    (hne : size ≠ 0) :
    Allocated head s (s.exAllocate head poolType size tag).2 (s.exAllocate head poolType size tag).1 size.toNat ∧
      (∃ Q st R, Sound head base count others Q st R (s.exAllocate head poolType size tag).2) ∧
      ((s.exAllocate head poolType size tag).1 ≠ 0 → (s.exAllocate head poolType size tag).1 % 8 = 0 ∧
        (s.exAllocate head poolType size tag).1 = alignedUp s.system.bump.next poolType.alignment + poolHeaderSize) := by
  obtain ⟨hup, htotal⟩ := (hspared hne).1 hdisabled
  obtain ⟨hle, haligned⟩ := alignedUp_spec poolType hup
  obtain ⟨hstart, hnext, hend⟩ := h.heap
  have hsize : (size.toNat + poolHeaderSize) % 2 ^ 64 = size.toNat + poolHeaderSize := Nat.mod_eq_of_lt (by omega)
  have hsum : (alignedUp s.system.bump.next poolType.alignment + (size.toNat + poolHeaderSize)) % 2 ^ 64 =
      alignedUp s.system.bump.next poolType.alignment + (size.toNat + poolHeaderSize) := Nat.mod_eq_of_lt htotal
  by_cases hfull : s.system.bump.heapEnd < alignedUp s.system.bump.next poolType.alignment + (size.toNat + poolHeaderSize)
  · have heq : s.exAllocate head poolType size tag = (0, s) := by
      simp only [exAllocate, exAllocatePoolWithTag, if_neg hne, hdisabled, BumpAllocator.allocate, hsize, hsum, if_pos hfull,
        taken, Bool.false_eq_true, if_false, if_true]
    rw [heq]
    obtain ⟨hallocated, hsound⟩ := h.allocated_null size.toNat
    exact ⟨hallocated, hsound, fun hne => absurd rfl hne⟩
  · generalize halign : alignedUp s.system.bump.next poolType.alignment = block at *
    have hptr : block + poolHeaderSize ≠ 0 := by
      unfold poolHeaderSize
      omega
    obtain ⟨t, heq, hmem, hbump, henabled, hptes, hlive⟩ : ∃ t, s.exAllocate head poolType size tag = (block + poolHeaderSize, t) ∧
        t.mem = bumpHeader s.mem block (size.toNat + poolHeaderSize) poolType tag ∧
        t.system.bump = { s.system.bump with next := block + (size.toNat + poolHeaderSize), allocations := fetchAdd s.system.bump.allocations 1 } ∧
        t.system.enabled = false ∧ t.system.pool.ptes = s.system.pool.ptes ∧ t.live = ⟨block + poolHeaderSize, size.toNat, true⟩ :: s.live := by
      simp only [exAllocate, exAllocatePoolWithTag, if_neg hne, hdisabled, BumpAllocator.allocate, hsize, halign, hsum, if_neg hfull,
        taken, Bool.false_eq_true, if_false, if_neg hptr]
      exact ⟨_, rfl, rfl, rfl, rfl, rfl, rfl⟩
    have hpages := h.noPages hdisabled
    have hearly : ∀ u ∈ s.live, u.early = true := by
      intro u hu
      by_contra hlate
      obtain ⟨p, k, hk, -⟩ := h.late u hu (by simpa using hlate)
      rw [hpages] at hk
      cases hk
    rw [heq]
    refine ⟨⟨fun _ => ⟨?_, fun u hu => Or.inl ?_, fun i hi hi' hav => ?_, fun _ => ?_⟩, fun hzero => absurd hzero hptr,
      fun _ => by rw [hlive, hdisabled]; rfl, by rw [henabled, hdisabled], fun _ u hu => ?_, fun u hu i hi hi' => ?_⟩, ⟨Q, st, R, ?_⟩, fun _ => ⟨?_, rfl⟩⟩
    · unfold poolHeaderSize at *
      omega
    · have := (h.early u hu (hearly u hu)).2
      unfold poolHeaderSize
      omega
    · exact absurd (hav.1.symm.trans henabled) (by decide)
    · rw [hbump]
      unfold poolHeaderSize at *
      simp only
      omega
    · have := (h.early u hu (hearly u hu)).2
      unfold poolHeaderSize
      omega
    · have := (h.early u hu (hearly u hu)).2
      rw [hmem]
      exact byte_bumpHeader (by omega)
    · exact
        { apart := h.apart
          lt := h.lt
          outside := h.outside
          outsideHeap := by
            rw [hbump]
            exact h.outsideHeap
          heap := by
            rw [hbump]
            simp only
            omega
          heapApart := by
            rw [hbump]
            exact h.heapApart
          ready := by
            rw [hptes]
            exact h.ready
          baseVa := by
            rw [hptes]
            exact h.baseVa
          pteCount := by
            rw [hptes]
            exact h.pteCount
          noPages := fun _ => hpages
          rings := fun hon => absurd (hon.symm.trans henabled) (by decide)
          pageList := h.pageList
          entries := h.entries
          fits := h.fits
          used := fun b k hk => by
            rw [hpages] at hk
            cases hk
          free := fun b k hk => by
            rw [hpages] at hk
            cases hk
          early := fun u hu _ => by
            rw [hbump]
            rw [hlive] at hu
            rcases List.mem_cons.1 hu with rfl | hu
            · simp only
              omega
            · have := h.early u hu (hearly u hu)
              simp only
              omega
          late := fun u hu hlate => by
            rw [hlive] at hu
            rcases List.mem_cons.1 hu with rfl | hu
            · cases hlate
            · exact absurd (hlate.symm.trans (hearly u hu)) (by decide) }
    · unfold poolHeaderSize
      omega

/-! ### Allocations of the pool -/

section
variable (h : Sound head base count others Q st R s)
include h

theorem withPage {ptes : SysPtes} (hpage : Laid.NewEntry base count others Q ptes k)
    (page : PageState) (hpagefits : page.Fits) {R' : ListId → List ℕ} {t : PoolHolders}
    (hrings : Rings t.mem head R') (hbump : t.system.bump = s.system.bump) (hon : t.system.enabled = true) (hptes : t.system.pool.ptes = ptes)
    (hpages : ∀ b, R' (.pages b) = if b = paged then R (.pages b) ++ [pageLinks (pageAt base k)] else R (.pages b))
    (hlists : ∀ b i x, x ∈ R' (.free b i) ↔
      (b = paged ∧ ∃ r n, page.freePart = some (r, n) ∧ listIndex n = i ∧ x = listEntry (unitAt base k r)) ∨ x ∈ R (.free b i))
    (hused : ∀ n, page = .used n → blockSize t.mem (unitAt base k 0) = n ∧ blockPoolType t.mem (unitAt base k 0) = typeOf paged)
    (hfree : ∀ r n, page.freePart = some (r, n) → blockSize t.mem (unitAt base k r) = n ∧ signature t.mem (unitAt base k r) = poolFreeSignature)
    (hframe : ∀ i, i < pageAt base k ∨ pageAt base k + pageSize ≤ i → Clear head R i (i + 1) → t.mem.byte i = s.mem.byte i)
    (hlive : t.live = s.live ∨ ∃ size n, page = .used n ∧ size + poolHeaderSize ≤ n * poolBlockSize ∧
      t.live = ⟨unitAt base k 0 + poolHeaderSize, size, false⟩ :: s.live) :
    Sound head base count others ((paged, k) :: Q) (update st k page) R' t := by
  have hother : ∀ {b j}, j ∈ pagesOf Q b → update st k page j = st j := by
    intro b j hj
    refine update_of_ne ?_ _ _
    rintro rfl
    exact hpage.new b hj
  have hself : update st k page k = page := update_self ..
  have hcases : ∀ {b j}, j ∈ pagesOf ((paged, k) :: Q) b → (b = paged ∧ j = k) ∨ j ∈ pagesOf Q b := by
    intro b j hj
    rcases eq_or_ne b paged with rfl | hne
    · rw [pagesOf_cons_same] at hj
      exact (List.mem_cons.1 hj).imp_left fun hjk => ⟨rfl, hjk⟩
    · rw [pagesOf_cons_other hne] at hj
      exact Or.inr hj
  have hold : ∀ {b j}, j ∈ pagesOf Q b → j ∈ pagesOf ((paged, k) :: Q) b :=
    fun hj => mem_pagesOf.2 (List.mem_cons_of_mem _ (mem_pagesOf.1 hj))
  have hk : k ∈ pagesOf ((paged, k) :: Q) paged := mem_pagesOf.2 List.mem_cons_self
  -- the headers of other pages stay
  have hkept : ∀ {b j r}, j ∈ pagesOf Q b → r ≤ 253 → Clear head R (unitAt base j r) (unitAt base j r + 12) →
      ∀ i, unitAt base j r ≤ i → i < unitAt base j r + 12 → r + 1 ≤ 253 → t.mem.byte i = s.mem.byte i := by
    intro b j r hj hr hclear i hi hi' hr'
    have hne : j ≠ k := fun hjk => hpage.new b (hjk ▸ hj)
    refine hframe i ?_ (hclear.mono (by omega) (by omega))
    unfold unitAt pageAt pageSize pageHeaderSize poolBlockSize at *
    omega
  exact
    { apart := h.apart
      lt := h.lt
      outside := h.outside
      outsideHeap := by
        rw [hbump]
        exact h.outsideHeap
      heap := by
        rw [hbump]
        exact h.heap
      heapApart := by
        rw [hbump]
        exact h.heapApart
      ready := by
        rw [hptes]
        exact hpage.ready
      baseVa := by
        rw [hptes]
        exact hpage.baseVa
      pteCount := by
        rw [hptes]
        exact hpage.pteCount
      noPages := fun hoff => absurd (hoff.symm.trans hon) (by decide)
      rings := fun _ => hrings
      pageList := fun b => by
        rw [hpages, h.pageList]
        rcases eq_or_ne b paged with rfl | hne
        · rw [if_pos rfl, pagesOf_cons_same, List.map_cons, List.reverse_cons]
        · rw [if_neg hne, pagesOf_cons_other hne]
      entries := fun b i x => by
        rw [hlists, h.entries]
        constructor
        · rintro (⟨rfl, r, n, hpart, hrest⟩ | ⟨j, hj, r, n, hpart, hrest⟩)
          · exact ⟨k, hk, r, n, by rw [hself]; exact hpart, hrest⟩
          · exact ⟨j, hold hj, r, n, by rw [hother hj]; exact hpart, hrest⟩
        · rintro ⟨j, hj, r, n, hpart, hrest⟩
          rcases hcases hj with ⟨rfl, rfl⟩ | hj
          · rw [hself] at hpart
            exact Or.inl ⟨rfl, r, n, hpart, hrest⟩
          · rw [hother hj] at hpart
            exact Or.inr ⟨j, hj, r, n, hpart, hrest⟩
      fits := fun b j hj => by
        rcases hcases hj with ⟨rfl, rfl⟩ | hj
        · rw [hself]
          exact hpagefits
        · rw [hother hj]
          exact h.fits b j hj
      used := fun b j hj n hst => by
        rcases hcases hj with ⟨rfl, rfl⟩ | hj
        · rw [hself] at hst
          exact hused n hst
        · rw [hother hj] at hst
          have hfits := h.fits b j hj
          rw [hst] at hfits
          have hfirst : ∀ i, unitAt base j 0 ≤ i → i < unitAt base j 0 + 4 → t.mem.byte i = s.mem.byte i := by
            intro i hi hi'
            have hne : j ≠ k := fun hjk => hpage.new b (hjk ▸ hj)
            refine hframe i ?_ (h.clear_page hj ?_ ?_ fun r m hpart => Or.inl ?_)
            · unfold unitAt pageAt pageSize pageHeaderSize poolBlockSize at *
              omega
            · unfold unitAt pageHeaderSize poolBlockSize at *
              omega
            · unfold unitAt pageHeaderSize poolBlockSize pageSize at *
              omega
            · unfold unitAt pageHeaderSize poolBlockSize at *
              omega
          obtain ⟨hsize, htype⟩ := blockSize_congr hfirst
          obtain ⟨hsize', htype'⟩ := h.used b j hj n hst
          exact ⟨hsize.trans hsize', htype.trans htype'⟩
      free := fun b j hj r n hpart => by
        rcases hcases hj with ⟨rfl, rfl⟩ | hj
        · rw [hself] at hpart
          exact hfree r n hpart
        · rw [hother hj] at hpart
          have hbounds := h.free_bounds hj hpart
          have hclear : Clear head R (unitAt base j r) (unitAt base j r + 12) := by
            refine h.clear_page hj ?_ ?_ fun r' m hpart' => Or.inl ?_
            · unfold unitAt pageHeaderSize
              omega
            · unfold unitAt pageHeaderSize poolBlockSize pageSize
              omega
            · obtain ⟨rfl, rfl⟩ := Prod.mk.inj (Option.some.inj (hpart.symm.trans hpart'))
              omega
          have hsame := fun i hi hi' => hkept hj (by omega) hclear i hi hi' (by omega)
          obtain ⟨hsize', hsign'⟩ := h.free b j hj r n hpart
          exact ⟨(blockSize_congr fun i hlow hhigh => hsame i hlow (by omega)).1.trans hsize',
            (signature_congr fun i hlow hhigh => hsame i (by omega) hhigh).trans hsign'⟩
      early := fun u hu hearly => by
        rw [hbump]
        rcases hlive with hlive | ⟨size, n, -, -, hlive⟩
        · rw [hlive] at hu
          exact h.early u hu hearly
        · rw [hlive] at hu
          rcases List.mem_cons.1 hu with rfl | hu
          · cases hearly
          · exact h.early u hu hearly
      late := fun u hu hlate => by
        have hlater : u ∈ s.live → ∃ p, ∃ j ∈ pagesOf ((paged, k) :: Q) p, ∃ n, update st k page j = .used n ∧
            u.address = unitAt base j 0 + poolHeaderSize ∧ u.size + poolHeaderSize ≤ n * poolBlockSize := by
          intro hu
          obtain ⟨p, j, hj, n, hst, hrest⟩ := h.late u hu hlate
          exact ⟨p, j, hold hj, n, by rw [hother hj]; exact hst, hrest⟩
        rcases hlive with hlive | ⟨size, n, hn, hsize, hlive⟩
        · rw [hlive] at hu
          exact hlater hu
        · rw [hlive] at hu
          rcases List.mem_cons.1 hu with rfl | hu
          · exact ⟨paged, k, hk, n, by rw [hself]; exact hn, rfl, hsize⟩
          · exact hlater hu }

theorem live_cases (hu : u ∈ s.live) :
    (s.system.bump.heapStart ≤ u.address ∧ u.address + u.size ≤ s.system.bump.heapEnd) ∨
      ∃ p, ∃ j ∈ pagesOf Q p, ∃ n ≤ 253, st j = .used n ∧ u.address = unitAt base j 0 + 8 ∧ u.address + u.size ≤ unitAt base j n := by
  cases hearly : u.early with
  | true =>
    have hin := h.early u hu hearly
    have hheap := h.heap
    exact Or.inl ⟨by omega, by omega⟩
  | false =>
    obtain ⟨p, j, hj, n, hst, haddress, hsize⟩ := h.late u hu hearly
    have hfits := h.fits p j hj
    rw [hst] at hfits
    refine Or.inr ⟨p, j, hj, n, hfits.2, hst, haddress, ?_⟩
    unfold unitAt poolHeaderSize poolBlockSize at *
    omega

theorem clear_live (hu : u ∈ s.live) (hlow : u.address ≤ i)
    (hhigh : i < u.address + u.size) : Clear head R i (i + 1) := by
  rcases h.live_cases hu with ⟨hstart, hend⟩ | ⟨p, j, hj, n, hn, hst, haddress, hsize⟩
  · exact h.clear_heap (by omega) (by omega)
  · refine h.clear_page hj ?_ ?_ fun r m hpart => Or.inl ?_
    · unfold unitAt pageHeaderSize at *
      omega
    · unfold unitAt pageHeaderSize poolBlockSize pageSize at *
      omega
    · rw [hst, PageState.freePart] at hpart
      split_ifs at hpart
      cases hpart
      unfold unitAt at *
      omega

theorem live_apart {ptes : SysPtes} (hpage : Laid.NewEntry base count others Q ptes k)
    (hu : u ∈ s.live) : u.address + u.size ≤ pageAt base k ∨ pageAt base k + pageSize ≤ u.address := by
  have hlt := hpage.lt
  have hapart := h.heapApart
  rcases h.live_cases hu with ⟨hstart, hend⟩ | ⟨p, j, hj, n, hn, hst, haddress, hsize⟩
  · unfold pageAt pageSize at *
    omega
  · have hne : j ≠ k := fun hjk => hpage.new p (hjk ▸ hj)
    unfold unitAt pageAt pageSize pageHeaderSize poolBlockSize at *
    omega

theorem null_pool {pool : NtPool} (hmem : pool.mem = s.system.pool.mem)
    (hptes : pool.ptes = s.system.pool.ptes) (size : ℕ) :
    Allocated head s ⟨{ s.system with pool }, s.live⟩ 0 size ∧ ∃ Q st R, Sound head base count others Q st R ⟨{ s.system with pool }, s.live⟩ := by
  refine ⟨⟨fun hne => absurd rfl hne, fun _ => rfl, fun hne => absurd rfl hne, rfl, fun hne => absurd rfl hne, fun _ _ i _ _ => ?_⟩, Q, st, R, ?_⟩
  · exact congrFun (congrArg Ram.byte hmem) i
  · exact
      { h with
        rings := fun hon => by
          have := h.rings hon
          rwa [PoolHolders.mem, ← hmem] at this
        ready := hptes ▸ h.ready
        baseVa := hptes ▸ h.baseVa
        pteCount := hptes ▸ h.pteCount
        used := fun b k hk n hst => by
          have := h.used b k hk n hst
          rwa [PoolHolders.mem, ← hmem] at this
        free := fun b k hk r n hpart => by
          have := h.free b k hk r n hpart
          rwa [PoolHolders.mem, ← hmem] at this }

end

/-- What is known of the result of an allocation. -/
def Taken (head : ListId → ℕ) (base count : ℕ) (others : List Extent) (s : PoolHolders) (size : ℕ) (out : ℕ × PoolHolders) : Prop :=
  (Allocated head s out.2 out.1 size ∧ ∃ Q st R, Sound head base count others Q st R out.2) ∧ (out.1 ≠ 0 → out.1 % 8 = 0)

section
variable (h : Sound head base count others Q st R s)
include h

theorem firstGiven {ptes : SysPtes} (hpage : Laid.NewEntry base count others Q ptes k)
    (henabled : s.system.enabled = true) (hpos : 0 < n) (hn : n ≤ availableBlocks) {size : ℕ}
    (hsize : size + poolHeaderSize ≤ n * poolBlockSize) (paged : Bool) (pfn : ℕ) (tag : BitVec 32) {pool : NtPool}
    (hmem : pool.mem = useFirstBlock head (initPage head s.mem paged (pageAt base k) pfn) paged (pageAt base k) n tag) (hptes : pool.ptes = ptes) :
    Taken head base count others s size (unitAt base k 0 + poolHeaderSize,
      ⟨{ s.system with pool }, ⟨unitAt base k 0 + poolHeaderSize, size, !s.system.enabled⟩ :: s.live⟩) := by
  have havailable : availableBlocks = 253 := rfl
  have hlt := hpage.lt
  have hend : pageAt base k + pageSize ≤ 2 ^ 64 := by
    have := h.end_lt
    unfold pageAt pageSize at *
    omega
  have hused : FirstUsed head R s.mem pool.mem paged (pageAt base k) n := by
    rw [hmem]
    exact firstUsed (h.rings henabled) (h.clear_new hpage.new hpage.lt) hend hpos hn pfn tag
  have hpart : ∀ r m, (PageState.used n).freePart = some (r, m) ↔ n + minBlocks < availableBlocks ∧ r = n ∧ m = availableBlocks - n := by
    intro r m
    simp only [PageState.freePart]
    split_ifs with hrest
    · simp [hrest, eq_comm]
    · simp [hrest]
  have hunit : unitAt base k 0 = pageAt base k + pageHeaderSize := by simp [unitAt]
  have hsound : Sound head base count others ((paged, k) :: Q) (update st k (.used n)) (listsWith R paged (pageAt base k) n)
      ⟨{ s.system with pool }, ⟨unitAt base k 0 + poolHeaderSize, size, !s.system.enabled⟩ :: s.live⟩ := by
    refine h.withPage hpage (.used n) ⟨hpos, hn⟩ hused.rings rfl henabled hptes listsWith_pages (fun b i x => ?_) (fun m hm => ?_)
      (fun r m hr => ?_) hused.frame (Or.inr ⟨size, n, rfl, hsize, by rw [henabled]; rfl⟩)
    · rw [mem_listsWith_free]
      simp only [hpart]
      constructor
      · rintro (⟨rfl, hrest, hi, rfl⟩ | hx)
        · exact Or.inl ⟨rfl, n, availableBlocks - n, ⟨hrest, rfl, rfl⟩, hi, rfl⟩
        · exact Or.inr hx
      · rintro (⟨rfl, r, m, ⟨hrest, rfl, rfl⟩, hi, rfl⟩ | hx)
        · exact Or.inl ⟨rfl, hrest, hi, rfl⟩
        · exact Or.inr hx
    · cases hm
      rw [hunit]
      exact ⟨hused.size, hused.type⟩
    · obtain ⟨hrest, rfl, rfl⟩ := (hpart r m).1 hr
      exact ⟨hused.restSize hrest, hused.restFree hrest⟩
  obtain ⟨cs, hready⟩ := h.ready
  have haligned := hready.aligned
  rw [h.baseVa] at haligned
  have hne : unitAt base k 0 + poolHeaderSize ≠ 0 := by
    unfold poolHeaderSize
    omega
  refine ⟨⟨⟨fun _ => ⟨?_, fun u hu => ?_, fun i hi hi' hav => ?_, fun hoff => absurd (hoff.symm.trans henabled) (by decide)⟩,
    fun hzero => absurd hzero hne, fun _ => rfl, rfl, fun _ u hu => ?_, fun u hu i hi hi' => ?_⟩, _, _, _, hsound⟩, fun _ => ?_⟩
  · unfold unitAt pageSize pageHeaderSize poolHeaderSize poolBlockSize at *
    omega
  · have := h.live_apart hpage hu
    unfold unitAt pageSize pageHeaderSize poolHeaderSize poolBlockSize at *
    omega
  · obtain ⟨b, j, hj, r, m, hr, hlow, hhigh⟩ := hsound.available hav
    have hbounds := hsound.free_bounds hj hr
    rcases eq_or_ne j k with rfl | hne
    · rw [update_self] at hr
      obtain ⟨-, rfl, -⟩ := (hpart r m).1 hr
      unfold unitAt pageHeaderSize poolHeaderSize poolBlockSize at *
      omega
    · unfold unitAt pageAt pageHeaderSize poolHeaderSize poolBlockSize pageSize at *
      omega
  · have := h.live_apart hpage hu
    unfold unitAt pageSize pageHeaderSize poolHeaderSize at *
    omega
  · exact hused.frame i (by have := h.live_apart hpage hu; omega) (h.clear_live hu hi hi')
  · unfold unitAt pageAt pageSize pageHeaderSize poolHeaderSize at *
    simp only
    omega

theorem pageLost {ptes : SysPtes} (hpage : Laid.NewEntry base count others Q ptes k)
    (henabled : s.system.enabled = true) (size : ℕ) (paged : Bool) (pfn : ℕ) {pool : NtPool}
    (hmem : pool.mem = initPage head s.mem paged (pageAt base k) pfn) (hptes : pool.ptes = ptes) :
    Taken head base count others s size (0, ⟨{ s.system with pool }, s.live⟩) := by
  have hlt := hpage.lt
  have hend : pageAt base k + pageSize ≤ 2 ^ 64 := by
    have := h.end_lt
    unfold pageAt pageSize at *
    omega
  have hmade : PageMade head R s.mem pool.mem paged (pageAt base k) := by
    rw [hmem]
    exact pageMade (h.rings henabled) (h.clear_new hpage.new hpage.lt) hend pfn
  have hsound : Sound head base count others ((paged, k) :: Q) (update st k .lost) (NtPool.withPage R paged (pageAt base k))
      ⟨{ s.system with pool }, s.live⟩ := by
    refine h.withPage hpage .lost trivial hmade.rings rfl henabled hptes withPage_pages (fun b i x => ?_) (fun n hn => nomatch hn)
      (fun r n hr => nomatch hr) hmade.frame (Or.inl rfl)
    rw [withPage_free]
    simp [PageState.freePart]
  refine ⟨⟨⟨fun hne => absurd rfl hne, fun _ => rfl, fun hne => absurd rfl hne, rfl, fun hne => absurd rfl hne, fun u hu i hi hi' => ?_⟩, _, _, _, hsound⟩,
    fun hne => absurd rfl hne⟩
  exact hmade.frame i (by have := h.live_apart hpage hu; omega) (h.clear_live hu hi hi')

theorem poolAllocate {tag : BitVec 32} (hspared : s.SparedAllocation head poolType size)
    (henabled : s.system.enabled = true) (hne : size ≠ 0) :
    Taken head base count others s size.toNat (s.exAllocate head poolType size tag) := by
  have hcall : s.exAllocate head poolType size tag = s.taken size
      ((s.system.pool.ntPoolAllocate head poolType size tag).map fun out => (out.1, { s.system with pool := out.2 })) := by
    simp only [exAllocate, exAllocatePoolWithTag, if_neg hne, henabled, if_true]
  have hnull : ∀ pool : NtPool, s.system.pool.ntPoolAllocate head poolType size tag = some (0, pool) → pool.mem = s.system.pool.mem →
      pool.ptes = s.system.pool.ptes → Taken head base count others s size.toNat (s.exAllocate head poolType size tag) := by
    intro pool hret hmem hptes
    rw [hcall, hret]
    exact ⟨h.null_pool hmem hptes size.toNat, fun hne => absurd rfl hne⟩
  cases hinitialized : s.system.pool.initialized poolType.isPaged with
  | false =>
    refine hnull s.system.pool ?_ rfl rfl
    rw [ntPoolAllocate, if_neg hne]
    simp [hinitialized]
  | true =>
    obtain ⟨hlt, hempty⟩ := (hspared hne).2 henabled hinitialized
    obtain ⟨hpos, hsize⟩ := Laid.blocksNeededFor_spec hlt
    have hfind : findList head s.system.pool.mem poolType.isPaged (blocksNeededFor size) = none :=
      Laid.findList_none (s := ⟨s.system.pool, []⟩) hempty
    have heq : s.system.pool.ntPoolAllocate head poolType size tag = _ := Laid.ntPoolAllocate_eq hne hinitialized hfind
    cases hpfn : miAllocatePfn s.system.pool.pfns with
    | none =>
      refine hnull s.system.pool ?_ rfl rfl
      rw [heq, allocateNewPoolPage, hpfn]
      rfl
    | some out =>
      obtain ⟨pfn, pfns⟩ := out
      obtain ⟨cs, hready⟩ := h.ready
      rcases Laid.newEntry_cases hready h.baseVa h.pteCount pfn with hnone | ⟨k, ptes, hreserve, -, hpage⟩
      · refine hnull { s.system.pool with pfns := miFreePfn pfns pfn } ?_ rfl rfl
        rw [heq, allocateNewPoolPage, hpfn]
        simp only [hnone]
        rfl
      · have hend : pageAt base k + pageSize ≤ 2 ^ 64 := by
          have := h.end_lt
          have := hpage.lt
          unfold pageAt pageSize at *
          omega
        generalize blocksNeededFor size = n at *
        by_cases hn : n ≤ availableBlocks
        · rw [Laid.allocateNewPoolPage_eq hpfn hreserve hpage.positive hn, Option.bind_some] at heq
          have hunit : pageAt base k + pageHeaderSize + poolHeaderSize = unitAt base k 0 + poolHeaderSize := by simp [unitAt]
          have hptr : unitAt base k 0 + poolHeaderSize ≠ 0 := by
            unfold poolHeaderSize
            omega
          simp only [hunit, if_neg hptr] at heq
          rw [hcall, heq]
          simp only [Option.map_some, taken, if_neg hptr]
          refine h.firstGiven hpage henabled hpos hn hsize poolType.isPaged pfn tag ?_ ?_
          · rfl
          · rfl
        · rw [allocateNewPoolPage, hpfn] at heq
          simp only [hreserve, Option.bind_eq_bind, Option.bind_some, if_neg hpage.positive, if_neg hn, Option.pure_def, if_true] at heq
          rw [hcall, heq]
          refine h.pageLost hpage henabled size.toNat poolType.isPaged pfn ?_ ?_
          · rfl
          · rfl

theorem allocate (tag : BitVec 32) (hspared : s.SparedAllocation head poolType size) :
    Taken head base count others s size.toNat (s.exAllocate head poolType size tag) ∧
      ((s.exAllocate head poolType size tag).1 ≠ 0 → s.system.enabled = false →
        (s.exAllocate head poolType size tag).1 = alignedUp s.system.bump.next poolType.alignment + poolHeaderSize) := by
  by_cases hne : size = 0
  · have hnull : s.exAllocate head poolType size tag = (0, s) := by
      simp only [exAllocate, exAllocatePoolWithTag, if_pos hne, taken, if_true]
    rw [hnull]
    exact ⟨⟨h.allocated_null size.toNat, fun hne => absurd rfl hne⟩, fun hne => absurd rfl hne⟩
  · cases henabled : s.system.enabled with
    | true => exact ⟨h.poolAllocate hspared henabled hne, fun _ hoff => by cases hoff⟩
    | false =>
      obtain ⟨hallocated, hsound, hptr⟩ := h.bumpAllocate tag hspared henabled hne
      exact ⟨⟨⟨hallocated, hsound⟩, fun hne => (hptr hne).1⟩, fun hne _ => (hptr hne).2⟩

theorem not_available (hu : u ∈ s.live) (hlow : u.address ≤ i)
    (hhigh : i < u.address + u.size) : ¬ Available head s i := by
  intro hav
  obtain ⟨b, k, hk, r, m, hr, hfirst, hlast⟩ := h.available hav
  have hbounds := h.free_bounds hk hr
  have hcount := h.lt_count hk
  have hapart := h.heapApart
  rcases h.live_cases hu with ⟨hstart, hend⟩ | ⟨p, j, hj, n, hn, hst, haddress, hsize⟩
  · unfold unitAt pageAt pageSize pageHeaderSize poolBlockSize at *
    omega
  · rcases eq_or_ne j k with rfl | hne
    · rw [hst, PageState.freePart] at hr
      split_ifs at hr
      cases hr
      unfold unitAt at *
      omega
    · unfold unitAt pageAt pageSize pageHeaderSize poolBlockSize at *
      omega

end

end Sound

end PoolHolders

end XenOS.Ex
