import XenOS.Ex.PoolHandoverSteps

/-! Frees and reallocations, and runs of requests. -/

namespace XenOS.Ex

open General Mm NtPool NtPoolClients PoolHolders PoolSystem List
open Function (update update_self update_of_ne)

namespace NtPool
variable {head : ListId → ℕ} {R : ListId → List ℕ} {m : Ram} {block : ℕ}

theorem coalesceBlocks_front (h : 0 < previousSize m block → signature m (block - previousSize m block * poolBlockSize) ≠ poolFreeSignature) :
    coalesceBlocks m block =
      if signature m (block + blockSize m block * poolBlockSize) = poolFreeSignature
      then (blockSize m block + blockSize m (block + blockSize m block * poolBlockSize),
        setBlockSize (m.removeEntry (listEntry (block + blockSize m block * poolBlockSize))) block
          (blockSize m block + blockSize m (block + blockSize m block * poolBlockSize)))
      else (blockSize m block, m) := by
  have hprevious : coalescePrevious m block = (blockSize m block, m) := by
    unfold coalescePrevious
    simp only
    split_ifs with hprev hsign
    · exact absurd hsign (h hprev)
    · rfl
    · rfl
  unfold coalesceBlocks
  rw [hprevious]

structure BlockFreed (head : ListId → ℕ) (R : ListId → List ℕ) (m m' : Ram) (block : ℕ) : Prop where
  rings : Rings m' head R
  size : blockSize m' block = blockSize m block
  free : signature m' block = signature m block
  frame : ∀ i, i < block + 16 ∨ block + 32 ≤ i → Clear head R i (i + 1) → m'.byte i = m.byte i

theorem blockFreed (hr : Rings m head R) (hclear : Clear head R block (block + 32)) (hlt : block + 32 ≤ 2 ^ 64) (paged : Bool) (size : ℕ) :
    BlockFreed head (withBlock R paged block size) m (m.insertHead (head (.free paged (listIndex size))) (listEntry block)) block := by
  have hfresh : Rings.Fresh head R (listEntry block) := by
    unfold listEntry
    exact (hclear.mono (show block ≤ block + 16 by omega) (show block + 16 + 16 ≤ block + 32 by omega)).fresh (by omega)
  have hframe : ∀ i, i < block + 16 ∨ block + 32 ≤ i → Clear head R i (i + 1) →
      (m.insertHead (head (.free paged (listIndex size))) (listEntry block)).byte i = m.byte i := by
    intro i hi hcells
    refine hr.byte_insertHead _ (by unfold listEntry; omega) fun c hc => ?_
    have := hcells _ c hc
    omega
  have hheader : ∀ i, block ≤ i → i < block + 16 →
      (m.insertHead (head (.free paged (listIndex size))) (listEntry block)).byte i = m.byte i :=
    fun i hlow hhigh => hframe i (by omega) (hclear.mono (by omega) (by omega))
  refine ⟨hr.insertHead _ hfresh, ?_, ?_, fun i hi hcells => hframe i hi fun l c hc => hcells l c ?_⟩
  · exact (Sound.blockSize_congr fun i hlow hhigh => hheader i hlow (by omega)).1
  · exact Sound.signature_congr fun i hlow hhigh => hheader i (by omega) (by omega)
  · rcases mem_cons.1 hc with rfl | hc
    · exact mem_cons_self
    · refine mem_cons_of_mem _ ?_
      unfold withBlock
      rcases eq_or_ne l (.free paged (listIndex size)) with rfl | hne
      · rw [update_self]
        exact mem_cons_of_mem _ hc
      · rwa [update_of_ne hne]

end NtPool

namespace PoolHolders

namespace Sound
variable {head : ListId → ℕ} {base count : ℕ} {others : List Extent} {Q : List (Bool × ℕ)} {st : ℕ → PageState} {R : ListId → List ℕ}
  {s : PoolHolders} {paged : Bool} {j k r n : ℕ}

theorem withFreed (h : Sound head base count others Q st R s) (hk : k ∈ pagesOf Q paged) (hst : st k = .used n) {size : ℕ}
    (hsize : minBlocks ≤ size ∧ size ≤ availableBlocks) {R' : ListId → List ℕ} {t : PoolHolders} (hrings : Rings t.mem head R')
    (hbump : t.system.bump = s.system.bump) (hon : t.system.enabled = true) (hptes : t.system.pool.ptes = s.system.pool.ptes)
    (hpages : ∀ b, R' (.pages b) = R (.pages b))
    (hlists : ∀ b i x, x ∈ R' (.free b i) ↔ (b = paged ∧ listIndex size = i ∧ x = listEntry (unitAt base k 0)) ∨
      (x ∈ R (.free b i) ∧ ∀ r m, (st k).freePart = some (r, m) → x ≠ listEntry (unitAt base k r)))
    (hblock : blockSize t.mem (unitAt base k 0) = size) (hsign : signature t.mem (unitAt base k 0) = poolFreeSignature)
    (hframe : ∀ i, i < unitAt base k 0 ∨ unitAt base k 0 + 32 ≤ i → Clear head R i (i + 1) → t.mem.byte i = s.mem.byte i)
    (hlive : t.live = s.live.filter fun b => b.address ≠ unitAt base k 0 + poolHeaderSize) :
    Sound head base count others Q (update st k (.freed size)) R' t := by
  have hself : update st k (.freed size) k = .freed size := update_self ..
  have hother : ∀ {j}, j ≠ k → update st k (.freed size) j = st j := fun hne => update_of_ne hne _ _
  -- the headers of other pages stay
  have hkept : ∀ {b j r}, j ∈ pagesOf Q b → j ≠ k → r + 1 ≤ 253 → Clear head R (unitAt base j r) (unitAt base j r + 12) →
      ∀ i, unitAt base j r ≤ i → i < unitAt base j r + 12 → t.mem.byte i = s.mem.byte i := by
    intro b j r hj hne hr hclear i hi hi'
    refine hframe i ?_ (hclear.mono (by omega) (by omega))
    unfold unitAt pageAt pageSize pageHeaderSize poolBlockSize at *
    omega
  have hmem : ∀ u, u ∈ t.live ↔ u ∈ s.live ∧ u.address ≠ unitAt base k 0 + poolHeaderSize := by
    intro u
    rw [hlive]
    simp
  exact
    { apart := h.apart
      lt := h.lt
      outside := h.outside
      outsideHeap := hbump ▸ h.outsideHeap
      heap := hbump ▸ h.heap
      heapApart := hbump ▸ h.heapApart
      ready := hptes ▸ h.ready
      baseVa := hptes ▸ h.baseVa
      pteCount := hptes ▸ h.pteCount
      noPages := fun hoff => absurd (hoff.symm.trans hon) (by decide)
      rings := fun _ => hrings
      pageList := fun b => by rw [hpages, h.pageList]
      entries := fun b i x => by
        rw [hlists, h.entries]
        constructor
        · rintro (⟨rfl, hi, rfl⟩ | ⟨⟨j, hj, r, m, hpart, hi, rfl⟩, hfree⟩)
          · exact ⟨k, hk, 0, size, by rw [hself]; rfl, hi, rfl⟩
          · have hne : j ≠ k := by
              rintro rfl
              exact hfree r m hpart rfl
            exact ⟨j, hj, r, m, by rw [hother hne]; exact hpart, hi, rfl⟩
        · rintro ⟨j, hj, r, m, hpart, hi, rfl⟩
          rcases eq_or_ne j k with rfl | hne
          · rw [hself] at hpart
            cases hpart
            exact Or.inl ⟨h.pool_eq hj hk, hi, rfl⟩
          · rw [hother hne] at hpart
            refine Or.inr ⟨⟨j, hj, r, m, hpart, hi, rfl⟩, fun r' m' hpart' hsame => ?_⟩
            have hbounds := h.free_bounds hj hpart
            have hbounds' := h.free_bounds hk hpart'
            unfold listEntry unitAt pageAt pageSize pageHeaderSize poolBlockSize at *
            omega
      fits := fun b j hj => by
        rcases eq_or_ne j k with rfl | hne
        · rw [hself]
          exact hsize
        · rw [hother hne]
          exact h.fits b j hj
      used := fun b j hj m hm => by
        rcases eq_or_ne j k with rfl | hne
        · rw [hself] at hm
          cases hm
        · rw [hother hne] at hm
          have hfits := h.fits b j hj
          rw [hm] at hfits
          have hclear : Clear head R (unitAt base j 0) (unitAt base j 0 + 12) := by
            refine h.clear_page hj ?_ ?_ fun r m' hpart => Or.inl ?_
            · unfold unitAt pageHeaderSize poolBlockSize
              omega
            · unfold unitAt pageHeaderSize poolBlockSize pageSize
              omega
            · unfold unitAt
              omega
          have hsame := hkept hj hne (by omega) hclear
          obtain ⟨hsize', htype'⟩ := blockSize_congr fun i hlow hhigh => hsame i hlow (by omega)
          obtain ⟨hold, hold'⟩ := h.used b j hj m hm
          exact ⟨hsize'.trans hold, htype'.trans hold'⟩
      free := fun b j hj r m hpart => by
        rcases eq_or_ne j k with rfl | hne
        · rw [hself] at hpart
          cases hpart
          exact ⟨hblock, hsign⟩
        · rw [hother hne] at hpart
          have hbounds := h.free_bounds hj hpart
          have hclear : Clear head R (unitAt base j r) (unitAt base j r + 12) := by
            refine h.clear_page hj ?_ ?_ fun r' m' hpart' => Or.inl ?_
            · unfold unitAt pageHeaderSize
              omega
            · unfold unitAt pageHeaderSize poolBlockSize pageSize
              omega
            · obtain ⟨rfl, rfl⟩ := Prod.mk.inj (Option.some.inj (hpart.symm.trans hpart'))
              omega
          have hsame := hkept hj hne (by omega) hclear
          obtain ⟨hsize', hsign'⟩ := h.free b j hj r m hpart
          exact ⟨(blockSize_congr fun i hlow hhigh => hsame i hlow (by omega)).1.trans hsize',
            (signature_congr fun i hlow hhigh => hsame i (by omega) hhigh).trans hsign'⟩
      early := fun u hu hearly => by
        rw [hbump]
        exact h.early u ((hmem u).1 hu).1 hearly
      late := fun u hu hlate => by
        obtain ⟨hu, hne⟩ := (hmem u).1 hu
        obtain ⟨p, j, hj, m, hm, haddress, hrest⟩ := h.late u hu hlate
        have hjk : j ≠ k := by
          rintro rfl
          exact hne haddress
        exact ⟨p, j, hj, m, by rw [hother hjk]; exact hm, haddress, hrest⟩ }

theorem fewer (h : Sound head base count others Q st R s) {system : PoolSystem} (hpool : system.pool = s.system.pool)
    (hbump : system.bump = s.system.bump) (henabled : system.enabled = s.system.enabled) {live : List HeldBlock}
    (hlive : ∀ u ∈ live, u ∈ s.live) : Sound head base count others Q st R ⟨system, live⟩ := by
  obtain ⟨pool, enabled, bump, totalBytes, runCount⟩ := system
  simp only at hpool hbump henabled
  subst hpool hbump henabled
  exact { h with early := fun u hu => h.early u (hlive u hu), late := fun u hu => h.late u (hlive u hu) }

structure Merged (head : ListId → ℕ) (R R' : ListId → List ℕ) (m m' : Ram) (block size : ℕ) (rest : Option ℕ) : Prop where
  rings : Rings m' head R'
  clear : ∀ {a b}, Clear head R a b → Clear head R' a b
  size : blockSize m' block = size
  free : signature m' block = poolFreeSignature
  frame : ∀ i, i < block ∨ block + 12 ≤ i → Clear head R i (i + 1) → m'.byte i = m.byte i
  pages : ∀ b, R' (.pages b) = R (.pages b)
  lists : ∀ b i x, x ∈ R' (.free b i) ↔ x ∈ R (.free b i) ∧ ∀ e ∈ rest, x ≠ listEntry e

theorem signed (h : Sound head base count others Q st R s) (henabled : s.system.enabled = true) (hk : k ∈ pagesOf Q paged)
    (hst : st k = .used n) :
    Clear head R (unitAt base k 0) (unitAt base k 0 + 32) ∧
      Merged head R R s.mem (setSignature s.mem (unitAt base k 0) poolFreeSignature) (unitAt base k 0) n none := by
  have hfits := h.fits paged k hk
  rw [hst] at hfits
  have hpos : 0 < n := hfits.1
  have hclear : Clear head R (unitAt base k 0) (unitAt base k 0 + 32) := by
    refine h.clear_page hk ?_ ?_ fun r m hpart => Or.inl ?_
    · unfold unitAt pageHeaderSize
      omega
    · unfold unitAt pageHeaderSize poolBlockSize pageSize
      omega
    · rw [hst, PageState.freePart] at hpart
      split_ifs at hpart
      cases hpart
      unfold unitAt poolBlockSize
      omega
  have hbytes : ∀ i, i < unitAt base k 0 + 8 ∨ unitAt base k 0 + 12 ≤ i →
      (setSignature s.mem (unitAt base k 0) poolFreeSignature).byte i = s.mem.byte i := fun i hi => byte_write_other (by omega)
  refine ⟨hclear, ⟨hclear.rings (h.rings henabled) fun i hi => hbytes i (by omega), fun hab => hab, ?_, ?_, fun i hi _ => hbytes i (by omega),
    fun _ => rfl, fun _ _ _ => by simp⟩⟩
  · exact (blockSize_congr fun i hlow hhigh => hbytes i (by omega)).1.trans (h.used paged k hk n hst).1
  · exact read_write_field (by decide)

/-- What the coalescing makes of the block of a page in front of which no free block stands: it takes in the rest. -/
theorem merged (h : Sound head base count others Q st R s) (henabled : s.system.enabled = true) (hk : k ∈ pagesOf Q paged)
    (hst : st k = .used n)
    (hfront : 0 < previousSize s.mem (unitAt base k 0) →
      signature s.mem (unitAt base k 0 - previousSize s.mem (unitAt base k 0) * poolBlockSize) ≠ poolFreeSignature)
    (hbehind : signature s.mem (unitAt base k n) = poolFreeSignature → Listed head s.mem (unitAt base k n)) :
    ∃ size m R', coalesceBlocks (setSignature s.mem (unitAt base k 0) poolFreeSignature) (unitAt base k 0) = (size, m) ∧
      (minBlocks ≤ size ∧ size ≤ availableBlocks) ∧
      Merged head R R' s.mem m (unitAt base k 0) size ((st k).freePart.map fun part => unitAt base k part.1) := by
  have havailable : availableBlocks = 253 := rfl
  obtain ⟨hclear, hsigned⟩ := h.signed henabled hk hst
  have hfits := h.fits paged k hk
  rw [hst] at hfits
  have hpos : 0 < n := hfits.1
  have hn : n ≤ 253 := hfits.2
  have hnext : unitAt base k 0 + n * poolBlockSize = unitAt base k n := by simp [unitAt]
  have hblock : 48 ≤ unitAt base k 0 := by
    unfold unitAt pageHeaderSize
    omega
  have hbytes : ∀ i, i < unitAt base k 0 + 8 ∨ unitAt base k 0 + 12 ≤ i →
      (setSignature s.mem (unitAt base k 0) poolFreeSignature).byte i = s.mem.byte i := fun i hi => byte_write_other (by omega)
  generalize setSignature s.mem (unitAt base k 0) poolFreeSignature = m₁ at *
  have hprev : previousSize m₁ (unitAt base k 0) = previousSize s.mem (unitAt base k 0) := by
    unfold previousSize
    rw [Ram.read_congr fun i hi => hbytes _ (by omega)]
  have hcoalesce : coalesceBlocks m₁ (unitAt base k 0) = _ := coalesceBlocks_front fun hp => by
    rw [hprev] at hp ⊢
    rw [signature_congr fun i hlow hhigh => hbytes i ?_]
    · exact hfront hp
    · unfold poolBlockSize at *
      omega
  rw [hsigned.size, hnext] at hcoalesce
  have hsignature : signature m₁ (unitAt base k n) = signature s.mem (unitAt base k n) := by
    refine signature_congr fun i hlow hhigh => hbytes i ?_
    rw [← hnext] at hlow
    unfold poolBlockSize at hlow
    omega
  by_cases hfree : signature m₁ (unitAt base k n) = poolFreeSignature
  · rw [if_pos hfree] at hcoalesce
    -- the block behind it is the rest of the page
    obtain ⟨b, j, hj, r, m, hpart, hunit⟩ := (h.listed_iff henabled).1 (hbehind (hsignature ▸ hfree))
    have hbounds := h.free_bounds hj hpart
    obtain rfl : k = j := by
      unfold unitAt pageAt pageSize pageHeaderSize poolBlockSize at hunit
      omega
    have hrest := hpart
    rw [hst, PageState.freePart] at hrest
    split_ifs at hrest with htwo
    cases hrest
    unfold minBlocks at htwo
    have hmem : listEntry (unitAt base k n) ∈ R (.free paged (listIndex (availableBlocks - n))) :=
      (h.entries _ _ _).2 ⟨k, hk, n, _, hpart, rfl, rfl⟩
    have hsize : blockSize m₁ (unitAt base k n) = availableBlocks - n := by
      refine (blockSize_congr fun i hlow hhigh => hbytes i ?_).1.trans (h.free paged k hk n _ hpart).1
      rw [← hnext] at hlow
      unfold poolBlockSize at hlow
      omega
    rw [hsize] at hcoalesce
    have hremoved := hsigned.rings.removeEntry hmem
    have hkept : ∀ i, Clear head R i (i + 1) → (m₁.removeEntry (listEntry (unitAt base k n))).byte i = m₁.byte i := by
      intro i hcells
      refine hsigned.rings.byte_removeEntry hmem fun c hc => ?_
      have := hcells _ c hc
      omega
    have hsub : ∀ {a b}, Clear head R a b → Clear head (update R (.free paged (listIndex (availableBlocks - n)))
        ((R (.free paged (listIndex (availableBlocks - n)))).erase (listEntry (unitAt base k n)))) a b :=
      fun {a b} hab => hab.update (x := b) (Or.inr (Nat.le_refl b)) fun c hc => Or.inr (mem_of_mem_erase hc)
    have hcell : ∀ i, unitAt base k 0 ≤ i → i < unitAt base k 0 + 32 → Clear head R i (i + 1) :=
      fun i hlow hhigh => hclear.mono hlow (by omega)
    refine ⟨_, _, _, hcoalesce, by unfold minBlocks; omega, ⟨?_, hsub, ?_, ?_, fun i hi hcells => ?_, fun b => ?_, fun b i x => ?_⟩⟩
    · exact (hsub hclear).rings hremoved fun i hi => byte_write_other (by omega)
    · exact read_write_field (by omega)
    · refine (signature_congr fun i hlow hhigh => ?_).trans hsigned.free
      rw [setBlockSize, byte_write_other (by omega), hkept i (hcell i (by omega) (by omega))]
    · rw [setBlockSize, byte_write_other (by omega), hkept i hcells]
      exact hsigned.frame i hi hcells
    · exact update_of_ne (by simp) _ _
    · have hrest : (st k).freePart = some (n, availableBlocks - n) := hpart
      simp only [hrest, Option.map_some, Option.mem_some_iff, forall_eq']
      by_cases hlist : ListId.free b i = .free paged (listIndex (availableBlocks - n))
      · rw [hlist, update_self, Nodup.mem_erase_iff (nodup_cons.1 (hsigned.rings.ring _).nodup).2]
        exact and_comm
      · rw [update_of_ne hlist]
        refine ⟨fun hx => ⟨hx, ?_⟩, And.left⟩
        exact hsigned.rings.ne_of_mem hlist (mem_cons_of_mem _ hx) (mem_cons_of_mem _ hmem)
  · rw [if_neg hfree] at hcoalesce
    have hnone : (st k).freePart = none := by
      cases hpart : (st k).freePart with
      | none => rfl
      | some part =>
        obtain ⟨r, m⟩ := part
        have hrest := hpart
        rw [hst, PageState.freePart] at hrest
        split_ifs at hrest
        cases hrest
        exact absurd (hsignature.trans (h.free paged k hk n _ hpart).2) hfree
    have htwo : ¬ n + minBlocks < availableBlocks := by
      intro htwo
      rw [hst, PageState.freePart, if_pos htwo] at hnone
      cases hnone
    rw [hnone]
    exact ⟨_, _, _, hcoalesce, by unfold minBlocks at *; omega, hsigned⟩

/-- What a free does. -/
structure Released (head : ListId → ℕ) (s t : PoolHolders) (ptr : ℕ) : Prop where
  enabled : t.system.enabled = s.system.enabled
  bump : t.system.bump = s.system.bump
  stays : ∀ u ∈ s.live, u.address ≠ ptr → u ∈ t.live
  keeps : ∀ u ∈ s.live, u.address ≠ ptr → ∀ i, u.address ≤ i → i < u.address + u.size → t.mem.byte i = s.mem.byte i
  early : ∀ u ∈ s.live, u.early = true → u.address = ptr → ∀ i, Available head t i → Available head s i

theorem Released.freesOnly {t : PoolHolders} {ptr : ℕ} (h : Released head s t ptr) : FreesOnly head s t ptr :=
  fun b hb hearly haddress i hav => Or.inl (h.early b hb hearly haddress i hav)

theorem released_same (h : Sound head base count others Q st R s) {system : PoolSystem} (hpool : system.pool = s.system.pool)
    (hbump : system.bump = s.system.bump) (henabled : system.enabled = s.system.enabled) (ptr : ℕ) {live : List HeldBlock}
    (hlive : live = s.live ∨ live = s.live.filter fun b => b.address ≠ ptr) :
    Released head s ⟨system, live⟩ ptr ∧ ∃ Q st R, Sound head base count others Q st R ⟨system, live⟩ := by
  refine ⟨⟨henabled, hbump, fun u hu hne => ?_, fun u hu hne i hlow hhigh => ?_, fun u hu hearly haddress i hav => ?_⟩, Q, st, R,
    h.fewer hpool hbump henabled fun u hu => ?_⟩
  · rcases hlive with rfl | rfl
    · exact hu
    · exact mem_filter.2 ⟨hu, by simpa using hne⟩
  · exact congrFun (congrArg Ram.byte (congrArg NtPool.mem hpool)) i
  · obtain ⟨hon, block, hlisted, hrange⟩ := hav
    have hmem : mem ⟨system, live⟩ = s.mem := congrArg NtPool.mem hpool
    rw [hmem] at hlisted hrange
    exact ⟨henabled.symm.trans hon, block, hlisted, hrange⟩
  · rcases hlive with rfl | rfl
    · exact hu
    · exact (mem_filter.1 hu).1

theorem decide_typeOf (paged : Bool) : decide (typeOf paged = typeOf true) = paged := by
  cases paged <;> decide

theorem poolFree (h : Sound head base count others Q st R s) {tag : BitVec 32} (henabled : s.system.enabled = true)
    (hk : k ∈ pagesOf Q paged) (hst : st k = .used n) (hrefuses : ¬ refuses s.mem (unitAt base k 0) tag)
    (hfront : 0 < previousSize s.mem (unitAt base k 0) →
      signature s.mem (unitAt base k 0 - previousSize s.mem (unitAt base k 0) * poolBlockSize) ≠ poolFreeSignature)
    (hbehind : signature s.mem (unitAt base k n) = poolFreeSignature → Listed head s.mem (unitAt base k n))
    (hlate : ∀ u ∈ s.live, u.address = unitAt base k 0 + poolHeaderSize → u.early = false) :
    Released head s (s.exFree head (unitAt base k 0 + poolHeaderSize) tag) (unitAt base k 0 + poolHeaderSize) ∧
      ∃ Q st R, Sound head base count others Q st R (s.exFree head (unitAt base k 0 + poolHeaderSize) tag) := by
  obtain ⟨size, m, R', hcoalesce, hsize, hmerged⟩ := h.merged henabled hk hst hfront hbehind
  obtain ⟨hclear, -⟩ := h.signed henabled hk hst
  obtain ⟨hold, htype⟩ := h.used paged k hk n hst
  have hlt : unitAt base k 0 + 32 ≤ 2 ^ 64 := by
    have := h.end_lt
    have := h.lt_count hk
    unfold unitAt pageAt pageSize pageHeaderSize poolBlockSize at *
    omega
  have hptr : unitAt base k 0 + poolHeaderSize ≠ 0 := by
    unfold poolHeaderSize
    omega
  have hheader : unitAt base k 0 + poolHeaderSize - poolHeaderSize = unitAt base k 0 := Nat.add_sub_cancel _ _
  obtain ⟨t, ht, hmem, hbump, hon, hptes, hlive⟩ : ∃ t, s.exFree head (unitAt base k 0 + poolHeaderSize) tag = t ∧
      t.mem = m.insertHead (head (.free paged (listIndex size))) (listEntry (unitAt base k 0)) ∧ t.system.bump = s.system.bump ∧
      t.system.enabled = s.system.enabled ∧ t.system.pool.ptes = s.system.pool.ptes ∧
      t.live = s.live.filter fun b => b.address ≠ unitAt base k 0 + poolHeaderSize := by
    refine ⟨_, rfl, ?_⟩
    unfold mem at hrefuses hcoalesce htype
    simp only [exFree, mem, hheader, if_neg hrefuses, exFreePoolWithTag, if_neg hptr, henabled, if_true, ntPoolFree,
      hcoalesce, htype, decide_typeOf, modifyCounters, and_self]
  rw [ht]
  have hfreed : BlockFreed head (withBlock R' paged (unitAt base k 0) size) m t.mem (unitAt base k 0) := by
    rw [hmem]
    exact blockFreed hmerged.rings (hmerged.clear hclear) hlt paged size
  have hframe : ∀ i, i < unitAt base k 0 ∨ unitAt base k 0 + 32 ≤ i → Clear head R i (i + 1) → t.mem.byte i = s.mem.byte i := by
    intro i hi hcells
    have hcells' : Clear head (withBlock R' paged (unitAt base k 0) size) i (i + 1) := clear_withBlock (hmerged.clear hcells) (by omega)
    rw [hfreed.frame i (by omega) hcells', hmerged.frame i (by omega) hcells]
  refine ⟨⟨hon, hbump, fun u hu hne => ?_, fun u hu hne i hlow hhigh => hframe i ?_ (h.clear_live hu hlow hhigh),
    fun u hu hearly haddress => absurd (hearly.symm.trans (hlate u hu haddress)) (by decide)⟩, _, _, _,
    h.withFreed hk hst hsize hfreed.rings hbump (hon.trans henabled) hptes (fun b => ?_) (fun b i x => ?_)
      (hfreed.size.trans hmerged.size) (hfreed.free.trans hmerged.free) hframe hlive⟩
  · rw [hlive]
    exact mem_filter.2 ⟨hu, by simpa using hne⟩
  · have hapart := h.heapApart
    have hcount := h.lt_count hk
    rcases h.live_cases hu with ⟨hstart, hend⟩ | ⟨p, j, hj, m, hm, hst', haddress, hfits⟩
    · unfold unitAt pageAt pageSize pageHeaderSize poolBlockSize at *
      omega
    · have hne' : j ≠ k := by
        rintro rfl
        exact hne haddress
      unfold unitAt pageAt pageSize pageHeaderSize poolBlockSize at *
      omega
  · exact (update_of_ne (by simp) _ _).trans (hmerged.pages b)
  · rw [mem_withBlock_free, hmerged.lists]
    simp only [Option.mem_def, Option.map_eq_some_iff, Prod.exists, forall_exists_index, and_imp]
    refine or_congr_right (and_congr_right fun _ => ⟨fun hne r m hpart => hne _ r m hpart rfl, ?_⟩)
    rintro hne _ r m hpart rfl
    exact hne r m hpart

theorem release (h : Sound head base count others Q st R s) {ptr : ℕ} (tag : BitVec 32)
    (hlegal : ptr = 0 ∨ ∃ b ∈ s.live, b.address = ptr) (hspared : s.SparedFree head ptr tag) :
    Released head s (s.exFree head ptr tag) ptr ∧ ∃ Q st R, Sound head base count others Q st R (s.exFree head ptr tag) := by
  have hlive : ∀ system : PoolSystem, system.pool = s.system.pool → system.bump = s.system.bump → system.enabled = s.system.enabled →
      s.system.exFreePoolWithTag head ptr tag = system →
      Released head s (s.exFree head ptr tag) ptr ∧ ∃ Q st R, Sound head base count others Q st R (s.exFree head ptr tag) := by
    rintro _ hpool hbump henabled rfl
    refine h.released_same hpool hbump henabled ptr ?_
    split_ifs
    · exact Or.inl rfl
    · exact Or.inr rfl
  by_cases hptr : ptr = 0
  · exact hlive s.system rfl rfl rfl (if_pos hptr)
  cases henabled : s.system.enabled with
  | false =>
    by_cases hrefuses : refuses s.system.pool.mem (ptr - poolHeaderSize) tag
    · refine hlive s.system rfl rfl rfl ?_
      simp only [exFreePoolWithTag, if_neg hptr, henabled, Bool.false_eq_true, if_false, if_pos hrefuses]
    · refine hlive _ ?_ ?_ ?_ rfl
      all_goals simp only [exFreePoolWithTag, if_neg hptr, henabled, Bool.false_eq_true, if_false, if_neg hrefuses]
  | true =>
    by_cases hrefuses : refuses s.mem (ptr - poolHeaderSize) tag
    · have hfree : s.system.exFreePoolWithTag head ptr tag = { s.system with pool := s.system.pool.ntPoolFree head ptr tag } := by
        simp only [exFreePoolWithTag, if_neg hptr, henabled, if_true]
      have hpool : s.system.pool.ntPoolFree head ptr tag = s.system.pool := by
        rw [ntPoolFree, if_neg hptr]
        exact if_pos hrefuses
      exact hlive { s.system with pool := s.system.pool.ntPoolFree head ptr tag } hpool rfl rfl hfree
    · obtain ⟨hlate, hfront, hbehind⟩ := hspared hptr henabled hrefuses
      obtain ⟨u, hu, rfl⟩ := hlegal.resolve_left hptr
      obtain ⟨p, k, hk, n, hst, haddress, -⟩ := h.late u hu (hlate u hu rfl)
      have hheader : u.address - poolHeaderSize = unitAt base k 0 := by
        rw [haddress]
        exact Nat.add_sub_cancel _ _
      have hnext : unitAt base k 0 + n * poolBlockSize = unitAt base k n := by simp [unitAt]
      rw [hheader, (h.used p k hk n hst).1, hnext] at hbehind
      rw [hheader] at hrefuses hfront
      rw [haddress] at hlate ⊢
      exact h.poolFree henabled hk hst hrefuses hfront hbehind hlate

theorem dvd_of_spared {align ptr : ℕ} (halign : s.SparedAlignment align)
    (height : ptr ≠ 0 → ptr % 8 = 0)
    (hbump : ptr ≠ 0 → s.system.enabled = false → ptr = alignedUp s.system.bump.next PoolType.nonPagedPool.alignment + poolHeaderSize)
    (hne : ptr ≠ 0) : align ∣ ptr := by
  rcases halign with hdvd | ⟨hoff, hdvd⟩
  · exact hdvd.trans (Nat.dvd_of_mod_eq_zero (height hne))
  · rwa [hbump hne hoff]

section
variable (h : Sound head base count others Q st R s)
include h

theorem copied {u : HeldBlock} (hu : u ∈ s.live) (source : ℕ) {n : ℕ} (hn : n ≤ u.size) :
    Sound head base count others Q st R (s.copied source u.address n) :=
  h.write hu (Nat.le_refl _) (Nat.add_le_add_left hn _) fun i hi => Ram.byte_write_of_lt (by rw [Ram.length_read]; exact hi)

theorem reallocate {ptr align : ℕ} {size newSize : BitVec 64}
    (hlegal : ∃ b ∈ s.live, b.address = ptr ∧ b.size = size.toNat) (hspared : s.Spared head (.realloc ptr size newSize align)) :
    Keeps head s (.realloc ptr size newSize align) ∧
      ∃ Q st R, Sound head base count others Q st R (s.step head (.realloc ptr size newSize align)) := by
  obtain ⟨hallocation, halign, hfree⟩ := hspared
  obtain ⟨⟨⟨hallocated, Q₁, st₁, R₁, hsound⟩, height⟩, hbump⟩ := h.allocate rustTag hallocation
  have hdvd := dvd_of_spared halign height hbump
  obtain ⟨b, hb, haddress, hsize⟩ := hlegal
  simp only [Keeps, step, request, PoolHolders.reallocate]
  generalize s.exAllocate head .nonPagedPool newSize rustTag = out at *
  obtain ⟨newPtr, t⟩ := out
  by_cases hne : newPtr = 0
  · simp only [if_pos hne]
    refine ⟨⟨fun hne => absurd rfl hne, fun _ => ⟨hallocated.none hne, fun i hi => ?_⟩⟩, Q₁, st₁, R₁, hsound⟩
    exact hallocated.keeps b hb _ (by omega) (by omega)
  · simp only [if_neg hne]
    obtain ⟨hfits, hlive, -, hinside⟩ := hallocated.placed hne
    have hnew := hallocated.some hne
    have hmem : (⟨newPtr, newSize.toNat, !s.system.enabled⟩ : HeldBlock) ∈ t.live := by
      rw [hnew]
      exact mem_cons_self
    have hold : b ∈ t.live := by
      rw [hnew]
      exact mem_cons_of_mem _ hb
    have hother : newPtr ≠ ptr := fun hsame => hallocated.fresh hne b hb (haddress.trans hsame.symm)
    have hcopied := hsound.copied hmem ptr (Nat.min_le_right size.toNat newSize.toNat)
    obtain ⟨hreleased, Q₃, st₃, R₃, hsound'⟩ := hcopied.release 0 (Or.inr ⟨b, hold, haddress⟩) (hfree hne)
    have hstays := hreleased.stays _ hmem hother
    refine ⟨⟨fun hne => ⟨hdvd hne, ⟨hfits, hlive, fun i => hsound'.not_available hstays, fun hoff => ?_⟩, fun i hi => ?_,
      hreleased.freesOnly⟩, fun hzero => absurd hzero hne⟩, Q₃, st₃, R₃, hsound'⟩
    · rw [hreleased.bump]
      exact hinside hoff
    · -- the byte is copied before the old block is freed
      rw [hreleased.keeps _ hmem hother (newPtr + i) (Nat.le_add_right _ _) (by simp only; omega)]
      have hcopy : (t.copied ptr newPtr (min size.toNat newSize.toNat)).mem.byte (newPtr + i) = t.mem.byte (ptr + i) := by
        refine (Ram.byte_write_self (by rw [Ram.length_read]; exact hi)).trans ?_
        rw [getD_eq_getElem?_getD, Ram.getElem?_read hi]
        rfl
      rw [hcopy]
      exact hallocated.keeps b hb _ (by omega) (by omega)

theorem step {r : PoolRequest} (hlegal : s.Legal r) (hspared : s.Spared head r) :
    Keeps head s r ∧ ∃ Q st R, Sound head base count others Q st R (s.step head r) := by
  cases r with
  | init => exact ⟨trivial, [], st, _, h.init hlegal⟩
  | allocate poolType size tag =>
    obtain ⟨⟨⟨hallocated, hsound⟩, -⟩, -⟩ := h.allocate tag hspared
    exact ⟨hallocated.placed, hsound⟩
  | free ptr tag =>
    obtain ⟨hreleased, hsound⟩ := h.release tag hlegal hspared
    exact ⟨hreleased.freesOnly, hsound⟩
  | alloc size align =>
    obtain ⟨hallocation, halign⟩ := hspared
    obtain ⟨⟨⟨hallocated, hsound⟩, height⟩, hbump⟩ := h.allocate rustTag hallocation
    exact ⟨fun hne => ⟨dvd_of_spared halign height hbump hne, hallocated.placed hne⟩, hsound⟩
  | dealloc ptr =>
    obtain ⟨hreleased, hsound⟩ := h.release 0 (Or.inr hlegal) hspared
    exact ⟨hreleased.freesOnly, hsound⟩
  | realloc ptr size newSize align => exact h.reallocate hlegal hspared
  | store address bytes =>
    obtain ⟨u, hu, hlow, hhigh⟩ := hlegal
    exact ⟨trivial, Q, st, R, h.write hu hlow hhigh fun i hi => Ram.byte_write_of_lt hi⟩

end

end Sound

/-! ### Runs -/

/-- The bump allocator has its heap, the pool is not initialised and no block is out; heads, heap
and pages do not meet. -/
structure Start (head : ListId → ℕ) (s : PoolHolders) (others : List Extent) : Prop where
  apart : ∀ i j, i = j ∨ head i + 16 ≤ head j ∨ head j + 16 ≤ head i
  lt : ∀ i, head i < 2 ^ 64
  outside : ∀ l, head l + 16 ≤ s.system.pool.ptes.baseVa ∨
    s.system.pool.ptes.baseVa + s.system.pool.ptes.pteCount * pageSize ≤ head l
  outsideHeap : ∀ l, head l + 16 ≤ s.system.bump.heapStart ∨ s.system.bump.heapEnd ≤ head l
  heap : s.system.bump.heapStart ≤ s.system.bump.next ∧ s.system.bump.next ≤ s.system.bump.heapEnd ∧ s.system.bump.heapEnd < 2 ^ 64
  heapApart : s.system.bump.heapEnd ≤ s.system.pool.ptes.baseVa ∨
    s.system.pool.ptes.baseVa + s.system.pool.ptes.pteCount * pageSize ≤ s.system.bump.heapStart
  ready : ∃ cs, Ready s.system.pool.ptes cs others
  disabled : s.system.enabled = false
  live : s.live = []

variable {head : ListId → ℕ} {s : PoolHolders} {others : List Extent} {rs : List PoolRequest}

theorem Start.sound (h : Start head s others) :
    Sound head s.system.pool.ptes.baseVa s.system.pool.ptes.pteCount others [] (fun _ => .lost) (fun _ => []) s where
  apart := h.apart
  lt := h.lt
  outside := h.outside
  outsideHeap := h.outsideHeap
  heap := h.heap
  heapApart := h.heapApart
  ready := h.ready
  baseVa := rfl
  pteCount := rfl
  noPages _ := rfl
  rings hon := absurd (hon.symm.trans h.disabled) (by decide)
  pageList _ := rfl
  entries _ _ _ := by simp [pagesOf]
  fits _ k hk := by cases hk
  used _ k hk := by cases hk
  free _ k hk := by cases hk
  early u hu := by
    rw [h.live] at hu
    cases hu
  late u hu := by
    rw [h.live] at hu
    cases hu

/-- In every run under the condition, with the hand-over anywhere in it, every request keeps what it promises. -/
theorem keeps_of_spared (h₀ : Start head s others)
    (hrs : EveryStep (step head) (fun s r => s.Legal r ∧ s.Spared head r) s rs) :
    EveryStep (step head) (Keeps head) s rs := by
  have hkeep : ∀ t r,
      (∃ Q st R, Sound head s.system.pool.ptes.baseVa s.system.pool.ptes.pteCount others Q st R t) → t.Legal r ∧ t.Spared head r →
      ∃ Q st R, Sound head s.system.pool.ptes.baseVa s.system.pool.ptes.pteCount others Q st R (t.step head r) :=
    fun _ _ ⟨_, _, _, hsound⟩ hr => (hsound.step hr.1 hr.2).2
  refine everyStep_of_invariant hkeep (fun t r hsound hr => ?_) ⟨_, _, _, h₀.sound⟩ hrs
  obtain ⟨Q, st, R, hsound⟩ := hsound
  exact (hsound.step hr.1 hr.2).1

def earlyHolders : PoolHolders where
  system :=
    { pool := twoPagePool
      enabled := false
      bump := ⟨0x100000, 0x101000, 0x100000, 0⟩
      totalBytes := fun _ => 0
      runCount := fun _ => 0 }
  live := []

theorem start_earlyHolders : Start lowHead earlyHolders [] := by
  have hpool := start_twoPagePool
  have hstart : earlyHolders.system.pool.ptes.baseVa = mmSystemPteStart := PoolClients.start_twoPages.baseVa
  refine ⟨hpool.apart, hpool.lt, hpool.outside, fun l => Or.inl ?_, by decide, Or.inl ?_, hpool.ready, rfl, rfl⟩
  · have hlow : lowHead l + 16 ≤ 0x100000 := by
      have := (lowHead_bounds l).2
      omega
    exact hlow
  · rw [hstart]
    decide

/-- Blocks of the bump allocator, one of them moved, and after the hand-over a block of the pool that is freed. -/
theorem keeps_acrossHandover :
    EveryStep (step lowHead) (Keeps lowHead) earlyHolders
      [.alloc 24 8, .store 0x100008 [1, 2], .realloc 0x100008 24 40 8, .init, .alloc 4040 8, .dealloc 0xFFFFF80000007038] := by
  refine keeps_of_spared start_earlyHolders ⟨⟨trivial, ?_, Or.inl (by decide)⟩, ⟨?_, trivial⟩, ⟨?_, ?_, Or.inl (by decide), ?_⟩, ⟨?_, trivial⟩,
    ⟨trivial, ?_, Or.inl (by decide)⟩, ⟨?_, ?_⟩, trivial⟩
  · exact fun _ => ⟨fun _ => by decide +kernel, fun hon => absurd hon (by decide)⟩
  · exact ⟨⟨0x100008, 24, true⟩, by decide +kernel, by decide, by decide⟩
  · exact ⟨⟨0x100008, 24, true⟩, by decide +kernel, rfl, rfl⟩
  · exact fun _ => ⟨fun _ => by decide +kernel, fun hon => absurd hon (by decide +kernel)⟩
  · exact fun _ _ hon => absurd hon (by decide +kernel)
  · change enabled _ = false
    decide +kernel
  · exact fun _ => ⟨fun hoff => absurd hoff (by decide +kernel), fun _ _ => ⟨by decide, by decide +kernel⟩⟩
  · exact ⟨⟨0xFFFFF80000007038, 4040, false⟩, by decide +kernel, rfl⟩
  · exact fun _ _ _ => ⟨by decide +kernel, by decide +kernel, fun hfree => absurd hfree (by decide +kernel)⟩

/-- A block of one byte of the bump allocator that is freed after the hand-over: the unit that it began in is free. -/
theorem early_freed :
    ¬ FreesOnly lowHead ((earlyHolders.step lowHead (.alloc 1 1)).step lowHead .init)
      (((earlyHolders.step lowHead (.alloc 1 1)).step lowHead .init).step lowHead (.dealloc 0x100008)) 0x100008 := by
  intro honly
  obtain ⟨-, Q, st, R, hsound⟩ := start_earlyHolders.sound.step (r := .alloc 1 1) trivial
    ⟨fun _ => ⟨fun _ => by decide +kernel, fun hon => absurd hon (by decide)⟩, Or.inl (by decide)⟩
  have hempty := hsound.init (by decide +kernel)
  have hfree : Available lowHead (((earlyHolders.step lowHead (.alloc 1 1)).step lowHead .init).step lowHead (.dealloc 0x100008)) 0x100009 := by
    refine ⟨by decide +kernel, 0x100000, ⟨false, ⟨0, by decide⟩, [0x100010], ⟨⟨?_, ?_, ?_, ?_⟩, by decide⟩, mem_cons_self⟩, by decide, ?_⟩
    all_goals decide +kernel
  rcases honly ⟨0x100008, 1, true⟩ (by decide +kernel) rfl rfl _ hfree with hav | ⟨-, hhigh⟩
  · obtain ⟨b, k, hk, -⟩ := hempty.available hav
    cases hk
  · exact absurd hhigh (by decide)

/-- Sixteen bytes to be aligned to sixteen begin eight behind such an address, and a byte of the
bump allocator is freed with what follows. -/
theorem alloc_misaligned :
    Start lowHead earlyHolders [] ∧ EveryStep (step lowHead) Legal earlyHolders [.alloc 16 16] ∧
      (earlyHolders.request lowHead (.alloc 16 16)).1 = 0x100008 ∧
      ¬ EveryStep (step lowHead) (Keeps lowHead) earlyHolders [.alloc 16 16] ∧
      EveryStep (step lowHead) Legal earlyHolders [.alloc 1 1, .init, .dealloc 0x100008] ∧
      ¬ EveryStep (step lowHead) (Keeps lowHead) earlyHolders [.alloc 1 1, .init, .dealloc 0x100008] := by
  have hptr : (earlyHolders.request lowHead (.alloc 16 16)).1 = 0x100008 := by decide +kernel
  refine ⟨start_earlyHolders, ⟨trivial, trivial⟩, hptr, fun hall => ?_, ⟨trivial, ?_, ?_, trivial⟩, fun hall => early_freed hall.2.2.1⟩
  · have hdvd : 16 ∣ (earlyHolders.request lowHead (.alloc 16 16)).1 := (hall.1 (by rw [hptr]; decide)).1
    rw [hptr] at hdvd
    exact absurd hdvd (by decide)
  · change enabled _ = false
    decide +kernel
  · exact ⟨⟨0x100008, 1, true⟩, by decide +kernel, rfl⟩

end PoolHolders

end XenOS.Ex
