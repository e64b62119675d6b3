import XenOS.Mm.Commit

/-! The commit counters count the committed pages as long as no call meets an uncommitted page in a
region whose commit flag is set: the flag stands for all of its pages. -/

namespace XenOS.Mm

open XenOS.General Finset MmvadShort

/-! ### What a call is about -/

namespace CommitSpace

def regionAt (s : CommitSpace) (startVpn endVpn : ℕ) : Option (MmvadShort × Finset ℕ) :=
  match s.miFindVad startVpn with
  | none => none
  | some vad =>
    if startVpn < vad.startingVpn ∨ vad.endingVpn < endVpn then none else some (vad, Icc startVpn endVpn)

def region (s : CommitSpace) : VmCall → Option (MmvadShort × Finset ℕ)
  | .allocate requestedBase requestedSize zeroBits doReserve doCommit protect env =>
    if requestedSize = 0 ∨ doReserve = true ∨ doCommit = false ∨ ¬ isValidProtection protect then none
    else
      match allocationRange requestedBase requestedSize zeroBits env with
      | some (.inr (startVa, size)) =>
        if startVa < mmLowestUserAddress ∨ mmHighestUserAddress < startVa + size - 1 then none
        else s.regionAt (startVa / pageSize) ((startVa + size - 1) / pageSize)
      | _ => none
  | .free requestedBase requestedSize doDecommit doRelease =>
    if doDecommit = doRelease then none
    else if doRelease = true then
      if requestedSize ≠ 0 then none
      else
        match s.miFindVad (requestedBase / pageSize) with
        | none => none
        | some vad => if requestedBase = vad.startAddress then some (vad, vad.pages) else none
    else if requestedSize = 0 ∨ 2 ^ 64 ≤ requestedBase + requestedSize + (pageSize - 1) then none
    else s.regionAt (pageAlign requestedBase / pageSize) ((pageAlignUp (requestedBase + requestedSize) - 1) / pageSize)

def OverLimit (s : CommitSpace) (env : VmEnv) (pageCount : ℕ) : Prop :=
  env.limit ≠ 0 ∧ (env.limit : ℤ) < env.others + s.totalCommitted + pageCount

instance (s : CommitSpace) (env : VmEnv) (pageCount : ℕ) : Decidable (s.OverLimit env pageCount) :=
  inferInstanceAs (Decidable (_ ∧ _))

/-- The pages of a range that an allocation charges. -/
def chargedAt (s : CommitSpace) (startVpn endVpn pageCount : ℕ) (doReserve : Bool) (env : VmEnv) : Finset ℕ :=
  if s.OverLimit env pageCount then ∅
  else if doReserve then
    if s.miCheckVadConflict startVpn endVpn ∨ ¬ env.vadAllocated then ∅ else Icc startVpn endVpn
  else
    match s.regionAt startVpn endVpn with
    | none => ∅
    | some (vad, pages) => if vad.commit then ∅ else pages

def chargedPages (s : CommitSpace) : VmCall → Finset ℕ
  | .allocate requestedBase requestedSize zeroBits doReserve doCommit protect env =>
    if requestedSize = 0 ∨ ¬ isValidProtection protect ∨ ¬ s.vadRoot ∧ ¬ env.rootAllocated then ∅
    else
      match allocationRange requestedBase requestedSize zeroBits env with
      | some (.inr (startVa, size)) =>
        if startVa < mmLowestUserAddress ∨ mmHighestUserAddress < startVa + size - 1 then ∅
        else if doCommit then
          s.chargedAt (startVa / pageSize) ((startVa + size - 1) / pageSize) (size / pageSize) doReserve env
        else ∅
      | _ => ∅
  | .free _ _ _ _ => ∅

end CommitSpace

def VmCall.hierarchy : VmCall → ℕ → Bool
  | .allocate _ _ _ _ _ _ env => env.hierarchy
  | .free _ _ _ _ => fun _ => true

namespace CommitSpace

/-- In a region whose flag is set, the pages that the call reaches are committed, and the pages that it
charges have page tables. -/
structure Uniform (s : CommitSpace) (c : VmCall) : Prop where
  flagged : ∀ vad pages, s.region c = some (vad, pages) → vad.commit = true → {p ∈ pages | c.hierarchy p} ⊆ s.committed
  backed : ∀ p ∈ s.chargedPages c, c.hierarchy p = true

/-- Both counters are the number of committed pages, and zero once no region is left. -/
structure Charged (s : CommitSpace) : Prop where
  process : s.commitCharge = s.committed.card
  total : s.totalCommitted = s.committed.card
  returned : s.vads = [] → s.commitCharge = 0 ∧ s.totalCommitted = 0

structure Sound (s : CommitSpace) : Prop where
  rooted : s.vads ≠ [] → s.vadRoot = true
  disjoint : s.vads.Pairwise fun u v => Disjoint u.pages v.pages
  nonempty : ∀ v ∈ s.vads, v.startingVpn ≤ v.endingVpn
  inside : ∀ p ∈ s.committed, ∃ v ∈ s.vads, p ∈ v.pages
  clean : ∀ v ∈ s.vads, v.commit = false → Disjoint v.pages s.committed

/-- Add to both counters. -/
def charge (s : CommitSpace) (n : ℤ) : CommitSpace :=
  { s with totalCommitted := s.totalCommitted + n, commitCharge := s.commitCharge + n }

inductive Effect (made : ℕ → Bool) (s : CommitSpace) : CommitSpace → Option (MmvadShort × Finset ℕ) → Finset ℕ → Prop
  | idle (region) (hregion : ∀ vad pages, region = some (vad, pages) → vad.commit = false) : Effect made s s region ∅
  | reserve (vad : MmvadShort) (hroot : s.vadRoot = true) (hrange : vad.startingVpn ≤ vad.endingVpn) (hapart : ∀ v ∈ s.vads, Disjoint vad.pages v.pages)
      (hcommit : vad.commit = false) : Effect made s { s with vads := vad :: s.vads } none ∅
  | reserveCommit (vad : MmvadShort) (hroot : s.vadRoot = true) (hrange : vad.startingVpn ≤ vad.endingVpn)
      (hapart : ∀ v ∈ s.vads, Disjoint vad.pages v.pages) (hcommit : vad.commit = true) :
      Effect made s { s.charge vad.pages.card with
        vads := vad :: s.vads, committed := s.committed ∪ {p ∈ vad.pages | made p} } none vad.pages
  | recommit (vad : MmvadShort) (pages : Finset ℕ) (hvad : vad ∈ s.vads) (hpages : pages ⊆ vad.pages) (hcommit : vad.commit = true) :
      Effect made s { s with committed := s.committed ∪ {p ∈ pages | made p} } (some (vad, pages)) ∅
  | commit (vad : MmvadShort) (pages : Finset ℕ) (hvad : vad ∈ s.vads) (hpages : pages ⊆ vad.pages) (hcommit : vad.commit = false) :
      Effect made s { (s.charge pages.card).setCommit vad true with
        committed := s.committed ∪ {p ∈ pages | made p} } (some (vad, pages)) pages
  | decommit (vad : MmvadShort) (pages : Finset ℕ) (hmade : ∀ p, made p = true) (hvad : vad ∈ s.vads) (hpages : pages ⊆ vad.pages)
      (hcommit : vad.commit = true) :
      Effect made s { s.charge (-pages.card) with committed := s.committed \ pages } (some (vad, pages)) ∅
  | decommitAll (vad : MmvadShort) (hmade : ∀ p, made p = true) (hvad : vad ∈ s.vads) (hcommit : vad.commit = true) :
      Effect made s { (s.charge (-vad.pages.card)).setCommit vad false with committed := s.committed \ vad.pages }
        (some (vad, vad.pages)) ∅
  | release (vad : MmvadShort) (hmade : ∀ p, made p = true) (hvad : vad ∈ s.vads) :
      Effect made s { s.charge (if vad.commit = true then -vad.pages.card else 0) with
        vads := s.vads.erase vad, committed := s.committed \ vad.pages } (some (vad, vad.pages)) ∅

variable {made : ℕ → Bool} {s s' : CommitSpace} {vad : MmvadShort} {startVpn endVpn vpn : ℕ}

/-! ### Ranges -/

theorem mem_of_miFindVad (h : s.miFindVad vpn = some vad) : vad ∈ s.vads ∧ vad.startingVpn ≤ vpn ∧ vpn ≤ vad.endingVpn := by
  refine ⟨List.mem_of_find?_eq_some h, ?_⟩
  simpa using List.find?_some h

theorem apart_of_not_overlaps (h : s.overlaps startVpn endVpn = false) :
    ∀ v ∈ s.vads, Disjoint (Icc startVpn endVpn) v.pages := by
  intro v hv
  have hnot : ¬ (v.startingVpn ≤ endVpn ∧ startVpn ≤ v.endingVpn) := by
    simpa using List.any_eq_false.1 h v hv
  rw [disjoint_left]
  intro p hp hpv
  rw [pages, mem_Icc] at hpv
  rw [mem_Icc] at hp
  omega

theorem pages_of_range {startVa size : ℕ} (hstart : pageSize ∣ startVa) (hsize : pageSize ∣ size) (hpos : 0 < size) :
    startVa / pageSize ≤ (startVa + size - 1) / pageSize ∧
      startVa / pageSize + size / pageSize = (startVa + size - 1) / pageSize + 1 := by
  unfold pageSize at *
  omega

variable {requestedBase : ℕ}

theorem allocationRange_aligned {requestedSize zeroBits startVa size : ℕ} {env : VmEnv}
    (hrequested : requestedSize ≠ 0)
    (h : allocationRange requestedBase requestedSize zeroBits env = some (.inr (startVa, size))) :
    pageSize ∣ startVa ∧ pageSize ∣ size ∧ 0 < size := by
  unfold allocationRange at h
  split at h
  · split at h
    · cases h
    · unfold foundRange at h
      split at h
      · cases h
      · split at h
        · cases h
        · cases h
        · split at h
          · cases h
          · cases h
            unfold alignedSize pageSize allocationGranularity
            omega
  · unfold givenRange at h
    dsimp only at h
    split at h
    · cases h
    · split at h
      · cases h
      · cases h
        unfold pageAlignUp pageSize allocationGranularity
        omega

theorem ico_eq_icc {n : ℕ} (h : startVpn + n = endVpn + 1) :
    Ico startVpn (startVpn + n) = Icc startVpn endVpn ∧ (Icc startVpn endVpn).card = n := by
  constructor
  · ext p
    rw [mem_Ico, mem_Icc]
    omega
  · rw [Nat.card_Icc]
    omega

/-! ### Effects of the calls -/

theorem idle_none : Effect made s s none ∅ := .idle none fun _ _ h => by cases h

theorem miChargeCommit_eq (env : VmEnv) (n : ℕ) :
    s.miChargeCommit env n = if s.OverLimit env n then none else some (s.charge n) := by
  unfold miChargeCommit
  dsimp only
  split_ifs with hlimit hover hover hover hover
  · exact absurd hlimit hover.1
  · rfl
  · rfl
  · exact absurd ⟨hlimit, ‹_›⟩ hover
  · exact absurd hover.2 ‹_›
  · rfl

theorem miReturnCommit_eq (n : ℕ) : s.miReturnCommit n = s.charge (-n) := by
  unfold miReturnCommit charge
  simp only [sub_eq_add_neg]

theorem reserve_effect {pageCount : ℕ} (hroot : s.vadRoot = true) (hle : startVpn ≤ endVpn) (hcount : startVpn + pageCount = endVpn + 1)
    (doCommit : Bool) (env : VmEnv) :
    Effect env.hierarchy s (s.reserve startVpn endVpn pageCount doCommit env).1 none
      (if doCommit then s.chargedAt startVpn endVpn pageCount true env else ∅) := by
  have hrefused (h : s.miCheckVadConflict startVpn endVpn = true ∨ ¬ env.vadAllocated = true) :
      (if doCommit then s.chargedAt startVpn endVpn pageCount true env else ∅) = ∅ := by
    simp only [chargedAt, if_pos h, ite_true, ite_self]
  unfold reserve
  split
  · rw [hrefused (.inl (by simp [miCheckVadConflict, *]))]
    exact idle_none
  · split
    · rw [hrefused (.inl ‹_›)]
      exact idle_none
    · rename_i hconflict
      have hfree : s.overlaps startVpn endVpn = false := by
        unfold miCheckVadConflict at hconflict
        by_contra hoverlap
        exact hconflict (by simp [Bool.not_eq_false _ ▸ hoverlap])
      have hapart := apart_of_not_overlaps hfree
      split
      · rw [hrefused (.inr ‹_›)]
        exact idle_none
      · rename_i hallocated
        split
        · obtain ⟨hpages, hcard⟩ := ico_eq_icc hcount
          have hcharges : s.chargedAt startVpn endVpn pageCount true env =
              if s.OverLimit env pageCount then ∅ else Icc startVpn endVpn := by
            simp [chargedAt, hconflict, not_not.1 hallocated]
          rw [hcharges, miChargeCommit_eq]
          split_ifs
          · exact idle_none
          · have hinsert : (s.charge pageCount).miInsertVad ⟨startVpn, endVpn, true⟩ =
                some { s.charge pageCount with vads := ⟨startVpn, endVpn, true⟩ :: s.vads } := by
              unfold miInsertVad
              exact if_neg (Bool.eq_false_iff.1 hfree)
            dsimp only
            rw [hinsert]
            have h : Effect env.hierarchy _ _ _ _ := Effect.reserveCommit (s := s) ⟨startVpn, endVpn, true⟩ hroot hle hapart rfl
            unfold pages at h
            dsimp only at h
            rw [hcard, ← hpages] at h
            rw [← hpages]
            exact h
        · have hinsert : s.miInsertVad ⟨startVpn, endVpn, false⟩ =
              some { s with vads := ⟨startVpn, endVpn, false⟩ :: s.vads } := by
            unfold miInsertVad
            exact if_neg (Bool.eq_false_iff.1 hfree)
          rw [hinsert]
          exact .reserve ⟨startVpn, endVpn, false⟩ hroot hle hapart rfl

theorem subset_pages (hfind : s.miFindVad startVpn = some vad)
    (hinside : ¬ (startVpn < vad.startingVpn ∨ vad.endingVpn < endVpn)) :
    vad ∈ s.vads ∧ Icc startVpn endVpn ⊆ vad.pages ∧ s.regionAt startVpn endVpn = some (vad, Icc startVpn endVpn) := by
  refine ⟨(mem_of_miFindVad hfind).1, ?_, ?_⟩
  · unfold pages
    exact Icc_subset_Icc (by omega) (by omega)
  · unfold regionAt
    rw [hfind]
    exact if_neg hinside

theorem regionAt_of_outside (hfind : s.miFindVad startVpn = some vad)
    (houtside : startVpn < vad.startingVpn ∨ vad.endingVpn < endVpn) : s.regionAt startVpn endVpn = none := by
  unfold regionAt
  rw [hfind]
  exact if_pos houtside

theorem commitRange_effect {pageCount : ℕ} (hcount : startVpn + pageCount = endVpn + 1) (env : VmEnv) :
    Effect env.hierarchy s (s.commitRange startVpn endVpn pageCount env).1 (s.regionAt startVpn endVpn)
      (s.chargedAt startVpn endVpn pageCount false env) := by
  have hnothing (h : s.regionAt startVpn endVpn = none) : s.chargedAt startVpn endVpn pageCount false env = ∅ := by
    simp [chargedAt, h]
  unfold commitRange
  cases hfind : s.miFindVad startVpn with
  | none =>
    have hnone : s.regionAt startVpn endVpn = none := by
      unfold regionAt
      rw [hfind]
    rw [hnothing hnone, hnone]
    exact idle_none
  | some vad =>
    dsimp only
    split
    · rename_i houtside
      have hnone := regionAt_of_outside hfind houtside
      rw [hnothing hnone, hnone]
      exact idle_none
    · rename_i hinside
      obtain ⟨hvad, hpages, hregion⟩ := subset_pages hfind hinside
      obtain ⟨hrange, hcard⟩ := ico_eq_icc hcount
      rw [chargedAt, hregion]
      dsimp only
      rw [if_neg Bool.false_ne_true]
      split
      · rename_i hcommit
        have h : Effect env.hierarchy _ _ _ _ := Effect.recommit vad _ hvad hpages hcommit
        rw [ite_self]
        rw [← hrange] at h ⊢
        exact h
      · rename_i hcommit
        have hflag : vad.commit = false := Bool.eq_false_iff.2 hcommit
        rw [miChargeCommit_eq]
        split_ifs
        · exact .idle _ fun u pages hsame => by cases hsame; exact hflag
        · have h : Effect env.hierarchy _ _ _ _ := Effect.commit vad _ hvad hpages hflag
          rw [hcard] at h
          rw [← hrange] at h ⊢
          exact h

theorem release_effect :
    Effect (fun _ => true) s (s.miFreeVirtualMemoryRelease requestedBase).1
      (match s.miFindVad (requestedBase / pageSize) with
        | none => none
        | some vad => if requestedBase = vad.startAddress then some (vad, vad.pages) else none) ∅ := by
  unfold miFreeVirtualMemoryRelease
  cases hfind : s.miFindVad (requestedBase / pageSize) with
  | none => exact idle_none
  | some vad =>
    dsimp only
    by_cases hstart : requestedBase = vad.startAddress
    · rw [if_neg (not_not.2 hstart), if_pos hstart]
      obtain ⟨hvad, hlow, hhigh⟩ := mem_of_miFindVad hfind
      have hcount : vad.startingVpn + vad.size / pageSize = vad.endingVpn + 1 := by
        unfold size
        rw [Nat.mul_div_cancel _ (by decide : 0 < pageSize)]
        omega
      obtain ⟨hrange, hcard⟩ := ico_eq_icc hcount
      have h := Effect.release vad (fun _ => rfl) hvad
      cases hcommit : vad.commit with
      | false =>
        rw [hcommit] at h
        simpa [charge, miRemoveVad] using h
      | true =>
        rw [hcommit, if_pos rfl] at h
        rw [if_pos rfl, miReturnCommit_eq]
        have hsame : ((s.miDecommitPages vad.startingVpn (vad.size / pageSize)).charge
            (-(vad.size / pageSize : ℕ))).miRemoveVad vad =
            { s.charge (-vad.pages.card) with vads := s.vads.erase vad, committed := s.committed \ vad.pages } := by
          unfold miRemoveVad miDecommitPages charge pages
          rw [hrange, hcard]
          simp
        rw [hsame]
        exact h
    · rw [if_pos hstart, if_neg hstart]
      exact idle_none

theorem decommit_effect {requestedSize : ℕ} (hrequested : requestedSize ≠ 0)
    (hfits : ¬ 2 ^ 64 ≤ requestedBase + requestedSize + (pageSize - 1)) :
    Effect (fun _ => true) s (s.miFreeVirtualMemoryDecommit requestedBase requestedSize).1
      (s.regionAt (pageAlign requestedBase / pageSize) ((pageAlignUp (requestedBase + requestedSize) - 1) / pageSize)) ∅ := by
  unfold miFreeVirtualMemoryDecommit
  rw [if_neg hrequested, if_neg hfits]
  dsimp only
  have hcount : pageAlign requestedBase / pageSize +
      (pageAlignUp (requestedBase + requestedSize) - pageAlign requestedBase) / pageSize =
      (pageAlignUp (requestedBase + requestedSize) - 1) / pageSize + 1 := by
    unfold pageAlign pageAlignUp pageSize
    omega
  cases hfind : s.miFindVad (pageAlign requestedBase / pageSize) with
  | none =>
    unfold regionAt
    rw [hfind]
    exact idle_none
  | some vad =>
    dsimp only
    split
    · rename_i houtside
      rw [regionAt_of_outside hfind houtside]
      exact idle_none
    · rename_i hinside
      obtain ⟨hvad, hpages, hregion⟩ := subset_pages hfind hinside
      obtain ⟨hrange, hcard⟩ := ico_eq_icc hcount
      rw [hregion]
      split
      · rename_i hflag
        exact .idle _ fun u pages hsame => by cases hsame; exact Bool.eq_false_iff.2 hflag
      · rename_i hflag
        have hcommit : vad.commit = true := not_not.1 hflag
        rw [miReturnCommit_eq]
        split
        · rename_i hall
          have hwhole : Icc (pageAlign requestedBase / pageSize)
              ((pageAlignUp (requestedBase + requestedSize) - 1) / pageSize) = vad.pages := by
            unfold pages
            rw [hall.1, hall.2]
          have h := Effect.decommitAll vad (fun _ => rfl) hvad hcommit
          rw [← hwhole, hcard] at h
          rw [← hrange] at h ⊢
          exact h
        · have h := Effect.decommit vad _ (fun _ => rfl) hvad hpages hcommit
          rw [hcard] at h
          rw [← hrange] at h ⊢
          exact h

theorem regionAt_nil (h : s.vads = []) : s.regionAt startVpn endVpn = none := by
  unfold regionAt miFindVad
  rw [h]
  rfl

theorem region_nil (h : s.vads = []) (c : VmCall) : s.region c = none := by
  unfold region
  cases c with
  | allocate requestedBase requestedSize zeroBits doReserve doCommit protect env =>
    dsimp only
    split
    · rfl
    · split
      · split
        · rfl
        · exact regionAt_nil h
      · rfl
  | free requestedBase requestedSize doDecommit doRelease =>
    have hfind : s.miFindVad (requestedBase / pageSize) = none := by
      unfold miFindVad
      rw [h]
      rfl
    dsimp only
    rw [hfind, regionAt_nil h]
    simp

theorem call_effect (s : CommitSpace) (hrooted : s.vads ≠ [] → s.vadRoot = true) (c : VmCall) :
    ∃ root : Bool, (s.vadRoot = true → root = true) ∧
      Effect c.hierarchy { s with vadRoot := root } (s.step c) (s.region c) (s.chargedPages c) := by
  have hidle {region : Option (MmvadShort × Finset ℕ)} {charged : Finset ℕ} (hregion : region = none) (hcharged : charged = ∅) :
      ∃ root : Bool, (s.vadRoot = true → root = true) ∧ Effect c.hierarchy { s with vadRoot := root } s region charged := by
    rw [hregion, hcharged]
    exact ⟨s.vadRoot, id, idle_none⟩
  have hrootless (hroot : ¬ s.vadRoot = true) : s.region c = none := by
    refine region_nil (not_not.1 fun hvads => hroot (hrooted hvads)) c
  cases c with
  | allocate requestedBase requestedSize zeroBits doReserve doCommit protect env =>
    unfold step call ntAllocateVirtualMemory
    dsimp only
    by_cases hsize : requestedSize = 0
    · rw [if_pos hsize]
      exact hidle (if_pos (.inl hsize)) (if_pos (.inl hsize))
    rw [if_neg hsize]
    by_cases hkinds : ¬ doReserve = true ∧ ¬ doCommit = true
    · rw [if_pos hkinds]
      refine hidle (if_pos (.inr (.inr (.inl (Bool.eq_false_iff.2 hkinds.2))))) ?_
      simp only [chargedPages, if_neg hkinds.2, ite_self]
      split
      · rfl
      · split <;> rfl
    rw [if_neg hkinds]
    by_cases hprotect : ¬ isValidProtection protect
    · rw [if_pos hprotect]
      exact hidle (if_pos (.inr (.inr (.inr hprotect)))) (if_pos (.inr (.inl hprotect)))
    rw [if_neg hprotect]
    by_cases hroot : ¬ s.vadRoot = true ∧ ¬ env.rootAllocated = true
    · rw [if_pos hroot]
      exact hidle (hrootless hroot.1) (if_pos (.inr (.inr hroot)))
    rw [if_neg hroot]
    refine ⟨true, fun _ => rfl, ?_⟩
    unfold miAllocateVirtualMemoryInternal region chargedPages
    have hgoes : ¬ (requestedSize = 0 ∨ ¬ isValidProtection protect ∨ ¬ s.vadRoot ∧ ¬ env.rootAllocated) := by
      simp only [hsize, hprotect, hroot, or_self, not_false_eq_true]
    dsimp only
    rw [if_neg hgoes]
    cases hrange : allocationRange requestedBase requestedSize zeroBits env with
    | none =>
      simp only [ite_self]
      exact idle_none
    | some answer =>
      obtain status | ⟨startVa, size⟩ := answer
      · simp only [ite_self]
        exact idle_none
      dsimp only
      by_cases hinvalid : startVa < mmLowestUserAddress ∨ mmHighestUserAddress < startVa + size - 1
      · simp only [if_pos hinvalid, ite_self]
        exact idle_none
      simp only [if_neg hinvalid]
      obtain ⟨hstart, haligned, hpos⟩ := allocationRange_aligned hsize hrange
      obtain ⟨hle, hcount⟩ := pages_of_range hstart haligned hpos
      cases doReserve with
      | true =>
        rw [if_pos rfl, if_pos (.inr (.inl rfl))]
        exact reserve_effect (s := { s with vadRoot := true }) rfl hle hcount doCommit env
      | false =>
        have hcommit : doCommit = true := not_not.1 fun hno => hkinds ⟨by simp, hno⟩
        rw [if_neg Bool.false_ne_true, if_pos hcommit, if_pos hcommit, if_neg (by simp [hsize, hcommit, hprotect])]
        exact commitRange_effect (s := { s with vadRoot := true }) hcount env
  | free requestedBase requestedSize doDecommit doRelease =>
    unfold step call ntFreeVirtualMemory
    dsimp only
    by_cases hsame : doDecommit = doRelease
    · have hrefused : (doDecommit = true ∧ doRelease = true) ∨ (¬ doDecommit = true ∧ ¬ doRelease = true) := by
        rw [hsame]
        cases doRelease <;> simp
      rcases hrefused with hboth | hneither
      · rw [if_pos hboth]
        exact hidle (if_pos hsame) rfl
      · rw [if_neg (fun h => hneither.1 h.1), if_pos hneither]
        exact hidle (if_pos hsame) rfl
    have hnotBoth : ¬ (doDecommit = true ∧ doRelease = true) := fun h => hsame (h.1.trans h.2.symm)
    have hnotNone : ¬ (¬ doDecommit = true ∧ ¬ doRelease = true) := fun h =>
      hsame ((Bool.eq_false_iff.2 h.1).trans (Bool.eq_false_iff.2 h.2).symm)
    rw [if_neg hnotBoth, if_neg hnotNone]
    by_cases hsized : doRelease = true ∧ requestedSize ≠ 0
    · rw [if_pos hsized]
      refine hidle ?_ rfl
      unfold region
      dsimp only
      rw [if_neg hsame, if_pos hsized.1, if_pos hsized.2]
    rw [if_neg hsized]
    by_cases hroot : ¬ s.vadRoot = true
    · rw [if_pos hroot]
      exact hidle (hrootless hroot) rfl
    rw [if_neg hroot]
    refine ⟨s.vadRoot, id, ?_⟩
    unfold region
    dsimp only
    rw [if_neg hsame]
    by_cases hrelease : doRelease = true
    · rw [if_pos hrelease, if_pos hrelease, if_neg (fun hzero => hsized ⟨hrelease, hzero⟩)]
      exact release_effect
    · rw [if_neg hrelease, if_neg hrelease]
      by_cases hrefused : requestedSize = 0 ∨ 2 ^ 64 ≤ requestedBase + requestedSize + (pageSize - 1)
      · rw [if_pos hrefused]
        unfold miFreeVirtualMemoryDecommit
        by_cases hzero : requestedSize = 0
        · rw [if_pos hzero]
          exact idle_none
        · rw [if_neg hzero, if_pos (hrefused.resolve_left hzero)]
          exact idle_none
      · rw [if_neg hrefused]
        exact decommit_effect (fun hzero => hrefused (.inl hzero)) fun hover => hrefused (.inr hover)

/-! ### What every call preserves -/

theorem Sound.disjoint_of_ne (hs : s.Sound) {u v : MmvadShort} (hu : u ∈ s.vads) (hv : v ∈ s.vads) (hne : u ≠ v) :
    Disjoint u.pages v.pages := by
  have : Std.Symm fun u v : MmvadShort => Disjoint u.pages v.pages := ⟨fun _ _ h => h.symm⟩
  exact hs.disjoint.forall hu hv hne

variable {flag : Bool}

theorem mem_setCommit {w : MmvadShort} (h : w ∈ (s.setCommit vad flag).vads) :
    ∃ v ∈ s.vads, w.pages = v.pages ∧ w.startingVpn = v.startingVpn ∧ w.endingVpn = v.endingVpn ∧
      ((v = vad ∧ w.commit = flag) ∨ (v ≠ vad ∧ w = v)) := by
  obtain ⟨v, hv, rfl⟩ := List.mem_map.1 h
  refine ⟨v, hv, ?_⟩
  split
  · rename_i hsame
    exact ⟨rfl, rfl, rfl, .inl ⟨hsame, rfl⟩⟩
  · rename_i hother
    exact ⟨rfl, rfl, rfl, .inr ⟨hother, rfl⟩⟩

theorem mem_setCommit_of_mem {v : MmvadShort} (hv : v ∈ s.vads) :
    ∃ w ∈ (s.setCommit vad flag).vads, w.pages = v.pages := by
  refine ⟨_, List.mem_map.2 ⟨v, hv, rfl⟩, ?_⟩
  split <;> rfl

theorem setCommit_disjoint (h : s.vads.Pairwise fun u v => Disjoint u.pages v.pages) :
    (s.setCommit vad flag).vads.Pairwise fun u v => Disjoint u.pages v.pages := by
  refine List.pairwise_map.2 (h.imp fun {u v} huv => ?_)
  have hu : (if u = vad then { u with commit := flag } else u).pages = u.pages := by split <;> rfl
  have hv : (if v = vad then { v with commit := flag } else v).pages = v.pages := by split <;> rfl
  rw [hu, hv]
  exact huv

theorem Sound.fresh (hs : s.Sound) (hapart : ∀ v ∈ s.vads, Disjoint vad.pages v.pages) :
    Disjoint vad.pages s.committed := by
  rw [disjoint_left]
  intro p hp hcommitted
  obtain ⟨v, hv, hpv⟩ := hs.inside p hcommitted
  exact disjoint_left.1 (hapart v hv) hp hpv

variable {pages : Finset ℕ}

theorem Sound.insert (hs : s.Sound) (hroot : s.vadRoot = true)
    (hrange : vad.startingVpn ≤ vad.endingVpn) (hapart : ∀ v ∈ s.vads, Disjoint vad.pages v.pages)
    {charged : CommitSpace} (hvads : charged.vads = vad :: s.vads) (hkept : charged.vadRoot = s.vadRoot)
    (hpages : pages ⊆ vad.pages) (hflag : vad.commit = false → pages = ∅)
    (hcommitted : charged.committed = s.committed ∪ pages) : charged.Sound := by
  refine ⟨fun _ => hkept.trans hroot, ?_, ?_, ?_, ?_⟩
  · rw [hvads]
    exact List.pairwise_cons.2 ⟨hapart, hs.disjoint⟩
  · rw [hvads]
    exact List.forall_mem_cons.2 ⟨hrange, hs.nonempty⟩
  · rw [hcommitted, hvads]
    intro p hp
    rcases mem_union.1 hp with hold | hnew
    · obtain ⟨v, hv, hpv⟩ := hs.inside p hold
      exact ⟨v, List.mem_cons_of_mem _ hv, hpv⟩
    · exact ⟨vad, List.mem_cons_self, hpages hnew⟩
  · rw [hcommitted, hvads]
    refine List.forall_mem_cons.2 ⟨fun hfalse => ?_, fun v hv hfalse => ?_⟩
    · rw [hflag hfalse, union_empty]
      exact hs.fresh hapart
    · rw [disjoint_union_right]
      exact ⟨hs.clean v hv hfalse, (hapart v hv).symm.mono_right hpages⟩

theorem Effect.sound {region : Option (MmvadShort × Finset ℕ)} {charged : Finset ℕ} (h : Effect made s s' region charged)
    (hs : s.Sound) : s'.Sound := by
  cases h with
  | idle => exact hs
  | reserve vad hroot hrange hapart hcommit =>
    exact hs.insert hroot hrange hapart rfl rfl (empty_subset _) (fun _ => rfl) (union_empty _).symm
  | reserveCommit vad hroot hrange hapart hcommit =>
    exact hs.insert hroot hrange hapart rfl rfl (filter_subset _ _)
      (fun hfalse => by rw [hcommit] at hfalse; cases hfalse) rfl
  | recommit vad pages hvad hpages hcommit =>
    refine ⟨hs.rooted, hs.disjoint, hs.nonempty, fun p hp => ?_, fun v hv hfalse => ?_⟩
    · rcases mem_union.1 hp with hold | hnew
      · exact hs.inside p hold
      · exact ⟨vad, hvad, hpages (mem_filter.1 hnew).1⟩
    · have hne : v ≠ vad := by
        rintro rfl
        rw [hcommit] at hfalse
        cases hfalse
      exact disjoint_union_right.2
        ⟨hs.clean v hv hfalse, (hs.disjoint_of_ne hv hvad hne).mono_right ((filter_subset _ _).trans hpages)⟩
  | commit vad pages hvad hpages hcommit =>
    refine ⟨fun _ => hs.rooted (List.ne_nil_of_mem hvad), setCommit_disjoint hs.disjoint, fun w hw => ?_, fun p hp => ?_,
      fun w hw hfalse => ?_⟩
    · obtain ⟨v, hv, -, hstart, hend, -⟩ := mem_setCommit hw
      rw [hstart, hend]
      exact hs.nonempty v hv
    · obtain ⟨v, hv, hpv⟩ : ∃ v ∈ s.vads, p ∈ v.pages := by
        rcases mem_union.1 hp with hold | hnew
        · exact hs.inside p hold
        · exact ⟨vad, hvad, hpages (mem_filter.1 hnew).1⟩
      obtain ⟨w, hw, hsame⟩ := mem_setCommit_of_mem hv
      exact ⟨w, hw, hsame ▸ hpv⟩
    · obtain ⟨v, hv, hpages', -, -, ⟨-, htrue⟩ | ⟨hne, rfl⟩⟩ := mem_setCommit hw
      · rw [htrue] at hfalse
        cases hfalse
      · exact disjoint_union_right.2
          ⟨hs.clean _ hv hfalse, (hs.disjoint_of_ne hv hvad hne).mono_right ((filter_subset _ _).trans hpages)⟩
  | decommit vad pages hmade hvad hpages hcommit =>
    refine ⟨hs.rooted, hs.disjoint, hs.nonempty, fun p hp => hs.inside p (mem_sdiff.1 hp).1, fun v hv hfalse => ?_⟩
    exact (hs.clean v hv hfalse).mono_right sdiff_subset
  | decommitAll vad hmade hvad hcommit =>
    refine ⟨fun _ => hs.rooted (List.ne_nil_of_mem hvad), setCommit_disjoint hs.disjoint, fun w hw => ?_, fun p hp => ?_,
      fun w hw hfalse => ?_⟩
    · obtain ⟨v, hv, -, hstart, hend, -⟩ := mem_setCommit hw
      rw [hstart, hend]
      exact hs.nonempty v hv
    · obtain ⟨v, hv, hpv⟩ := hs.inside p (mem_sdiff.1 hp).1
      obtain ⟨w, hw, hsame⟩ := mem_setCommit_of_mem hv
      exact ⟨w, hw, hsame ▸ hpv⟩
    · obtain ⟨v, hv, hpages', -, -, ⟨rfl, -⟩ | ⟨hne, rfl⟩⟩ := mem_setCommit hw
      · rw [hpages']
        exact disjoint_sdiff
      · exact (hs.clean _ hv hfalse).mono_right sdiff_subset
  | release vad hmade hvad =>
    refine ⟨fun _ => hs.rooted (List.ne_nil_of_mem hvad), hs.disjoint.sublist List.erase_sublist,
      fun v hv => hs.nonempty v (List.mem_of_mem_erase hv), fun p hp => ?_, fun v hv hfalse => ?_⟩
    · obtain ⟨hcommitted, hout⟩ := mem_sdiff.1 hp
      obtain ⟨v, hv, hpv⟩ := hs.inside p hcommitted
      have hne : v ≠ vad := by
        rintro rfl
        exact hout hpv
      exact ⟨v, (List.mem_erase_of_ne hne).2 hv, hpv⟩
    · exact (hs.clean v (List.mem_of_mem_erase hv) hfalse).mono_right sdiff_subset

/-! ### The counters -/

theorem Sound.charged_iff (hs : s.Sound) {n : ℤ} (hprocess : s.commitCharge = n) (htotal : s.totalCommitted = n) :
    s.Charged ↔ (s.committed.card : ℤ) = n := by
  constructor
  · intro h
    rw [← h.process, hprocess]
  · intro h
    refine ⟨hprocess.trans h.symm, htotal.trans h.symm, fun hvads => ?_⟩
    have hnone : s.committed = ∅ := by
      refine eq_empty_of_forall_notMem fun p hp => ?_
      obtain ⟨v, hv, -⟩ := hs.inside p hp
      rw [hvads] at hv
      cases hv
    rw [hprocess, htotal, ← h, hnone]
    exact ⟨rfl, rfl⟩

variable {committed : Finset ℕ}

theorem card_union_iff :
    ((committed ∪ pages).card : ℤ) = committed.card ↔ pages ⊆ committed := by
  rw [Int.natCast_inj, ← union_eq_left]
  constructor
  · intro h
    exact (eq_of_subset_of_card_le subset_union_left h.le).symm
  · intro h
    rw [h]

theorem card_sdiff_iff :
    ((committed \ pages).card : ℤ) = committed.card + -pages.card ↔ pages ⊆ committed := by
  have hcard := card_sdiff_add_card_inter committed pages
  rw [← inter_eq_right]
  constructor
  · intro h
    exact eq_of_subset_of_card_le inter_subset_right (by omega)
  · intro h
    rw [h] at hcard
    omega

theorem card_union_made (h : Disjoint pages committed) :
    ((committed ∪ {p ∈ pages | made p}).card : ℤ) = committed.card + pages.card ↔ ∀ p ∈ pages, made p = true := by
  rw [card_union_of_disjoint (h.symm.mono_right (filter_subset _ _)), Int.natCast_add, ← card_filter_eq_iff]
  omega

/-- A call keeps the counters right exactly if it finds all the pages that it reaches committed where the flag of
the region is set, and page tables for all that it charges. -/
theorem Effect.charged_iff {region : Option (MmvadShort × Finset ℕ)} {charged : Finset ℕ} (h : Effect made s s' region charged)
    (hs : s.Sound) (hc : s.Charged) :
    s'.Charged ↔ (∀ vad pages, region = some (vad, pages) → vad.commit = true → {p ∈ pages | made p} ⊆ s.committed) ∧
      ∀ p ∈ charged, made p = true := by
  have hs' := h.sound hs
  have hflagged {vad : MmvadShort} {pages : Finset ℕ} (hcommit : vad.commit = true) :
      (∀ u q, some (vad, pages) = some (u, q) → u.commit = true → {p ∈ q | made p} ⊆ s.committed) ↔
        {p ∈ pages | made p} ⊆ s.committed := by
    refine ⟨fun hall => hall vad pages rfl hcommit, ?_⟩
    rintro hsubset u q ⟨⟩ -
    exact hsubset
  have hall (hmade : ∀ p, made p = true) (pages : Finset ℕ) : {p ∈ pages | made p} = pages :=
    filter_true_of_mem fun p _ => hmade p
  have hunflagged {vad : MmvadShort} {pages : Finset ℕ} (hcommit : vad.commit = false) :
      ∀ u q, some (vad, pages) = some (u, q) → u.commit = true → {p ∈ q | made p} ⊆ s.committed := by
    rintro u q ⟨⟩ htrue
    rw [hcommit] at htrue
    cases htrue
  have hnone : ∀ u q, (none : Option (MmvadShort × Finset ℕ)) = some (u, q) → u.commit = true → {p ∈ q | made p} ⊆ s.committed := by
    rintro u q ⟨⟩
  have huncharged : ∀ p ∈ (∅ : Finset ℕ), made p = true := by simp
  cases h with
  | idle _ hregion =>
    refine iff_of_true hc ⟨fun u q hsome htrue => ?_, huncharged⟩
    rw [hregion u q hsome] at htrue
    cases htrue
  | reserve vad hroot hrange hapart hcommit =>
    exact iff_of_true ((hs'.charged_iff hc.process hc.total).2 rfl) ⟨hnone, huncharged⟩
  | reserveCommit vad hroot hrange hapart hcommit =>
    rw [and_iff_right hnone, hs'.charged_iff (congrArg (· + (vad.pages.card : ℤ)) hc.process)
      (congrArg (· + (vad.pages.card : ℤ)) hc.total)]
    exact card_union_made (hs.fresh hapart)
  | recommit vad pages hvad hpages hcommit =>
    rw [and_iff_left huncharged, hflagged hcommit, hs'.charged_iff hc.process hc.total]
    exact card_union_iff
  | commit vad pages hvad hpages hcommit =>
    have hcounters := hs'.charged_iff (congrArg (· + (charged.card : ℤ)) hc.process) (congrArg (· + (charged.card : ℤ)) hc.total)
    rw [and_iff_right (hunflagged hcommit), hcounters]
    exact card_union_made ((hs.clean vad hvad hcommit).mono_left hpages)
  | decommit vad pages hmade hvad hpages hcommit =>
    have hcounters := hs'.charged_iff (congrArg (· + -(pages.card : ℤ)) hc.process) (congrArg (· + -(pages.card : ℤ)) hc.total)
    rw [and_iff_left huncharged, hflagged hcommit, hall hmade, hcounters]
    exact card_sdiff_iff
  | decommitAll vad hmade hvad hcommit =>
    rw [and_iff_left huncharged, hflagged hcommit, hall hmade, hs'.charged_iff
      (congrArg (· + -(vad.pages.card : ℤ)) hc.process) (congrArg (· + -(vad.pages.card : ℤ)) hc.total)]
    exact card_sdiff_iff
  | release vad hmade hvad =>
    rw [and_iff_left huncharged]
    by_cases hcommit : vad.commit = true
    · rw [hflagged hcommit, hall hmade, hs'.charged_iff (n := s.committed.card + -(vad.pages.card : ℤ))]
      · exact card_sdiff_iff
      · simp [charge, hcommit, hc.process]
      · simp [charge, hcommit, hc.total]
    · have hflag : vad.commit = false := Bool.eq_false_iff.2 hcommit
      have hsame : s.committed \ vad.pages = s.committed := sdiff_eq_self_of_disjoint (hs.clean vad hvad hflag).symm
      refine iff_of_true ((hs'.charged_iff (n := s.committed.card) ?_ ?_).2 (congrArg (fun q => (q.card : ℤ)) hsame))
        (hunflagged hflag)
      · simp [charge, hcommit, hc.process]
      · simp [charge, hcommit, hc.total]

/-! ### Runs -/

theorem withRoot {root : Bool} (hroot : s.vadRoot = true → root = true) (hs : s.Sound) :
    ({ s with vadRoot := root } : CommitSpace).Sound :=
  ⟨fun hvads => hroot (hs.rooted hvads), hs.disjoint, hs.nonempty, hs.inside, hs.clean⟩

theorem Sound.step (hs : s.Sound) (c : VmCall) : (s.step c).Sound := by
  obtain ⟨root, hroot, heffect⟩ := call_effect s hs.rooted c
  exact heffect.sound (withRoot hroot hs)

theorem charged_step_iff (hs : s.Sound) (hc : s.Charged) (c : VmCall) : (s.step c).Charged ↔ s.Uniform c := by
  obtain ⟨root, hroot, heffect⟩ := call_effect s hs.rooted c
  rw [heffect.charged_iff (withRoot hroot hs) ⟨hc.process, hc.total, hc.returned⟩]
  exact ⟨fun h => ⟨h.1, h.2⟩, fun h => ⟨h.flagged, h.backed⟩⟩

theorem sound_empty : empty.Sound :=
  ⟨fun h => absurd rfl h, List.Pairwise.nil, by simp [empty], by simp [empty], by simp [empty]⟩

/-- In every run the counters are the number of committed pages exactly as long as each call finds its region uniform
and page tables for what it charges. -/
theorem commit_charged_iff (calls : List VmCall) :
    EveryState step Charged empty calls ↔ EveryStep step Uniform empty calls := by
  refine everyState_iff_everyStep (I := fun s : CommitSpace => s.Sound ∧ s.Charged) (G := fun _ _ => True) ?_ (fun s h => h.2) ?_
    ⟨sound_empty, ⟨rfl, rfl, fun _ => ⟨rfl, rfl⟩⟩⟩ (everyStep_of_forall fun _ _ => trivial)
  · rintro s c ⟨hs, hc⟩ - huniform
    exact ⟨hs.step c, (charged_step_iff hs hc c).2 huniform⟩
  · rintro s c ⟨hs, hc⟩ - hnot hcharged
    exact hnot ((charged_step_iff hs hc c).1 hcharged)

def amplePool : VmEnv where
  limit := 0
  others := 0
  rootAllocated := true
  vadAllocated := true
  found := 1
  hierarchy _ := true

def commitTwice : List VmCall :=
  [.allocate 0x10000 0x10000 0 true false pageReadwrite amplePool, .allocate 0x10000 0x1000 0 false true pageReadwrite amplePool,
    .allocate 0x11000 0x1000 0 false true pageReadwrite amplePool]

/-- The second page is committed without a charge. -/
theorem second_commit_uncharged : ¬ EveryState step Charged empty commitTwice := by
  intro h
  have hcharged : (run step empty commitTwice).commitCharge = (run step empty commitTwice).committed.card :=
    h.2.2.2.process
  revert hcharged
  decide +kernel

end CommitSpace

end XenOS.Mm
