import XenOS.Mm.PfnOps

/-! Page faults, trimming and decommit, as far as they change page table entries and the page frame
database. -/

namespace XenOS.Mm

open General PfnState PteState
open Function (update update_self update_of_ne)

/-- Where an entry lives: the address space of a process and the entry's address in it. -/
abbrev Slot := ℕ × ℕ

/-- `(pte_value >> 5) & 0x1F`: the software protection of an entry that is not valid. -/
def softwareProtection (pte : Pte) : BitVec 32 := ((pte >>> 5) &&& 0x1F#64).setWidth 32

def miSoftwareProtectionToPte (protection : BitVec 32) : Pte :=
  let base := (protection &&& 7#32).toNat
  let flags : Pte :=
    if base = mmReadonly ∨ base = mmExecuteRead then 0
    else if base = mmReadwrite ∨ base = mmExecuteReadwrite then pteReadwrite
    else if base = mmWritecopy ∨ base = mmExecuteWritecopy then pteWritecopy
    else 0
  let flags := if protection &&& 4#32 = 0 then flags ||| pteNx else flags
  flags ||| pteUser

/-- The valid entry that maps `pfn`. -/
def validPte (pfn : ℕ) (protection : BitVec 32) : Pte :=
  pfnBits pfn ||| miSoftwareProtectionToPte protection ||| pteValid

def miMakeDemandZeroPte (protection : BitVec 32) : Pte :=
  demandZero ||| ((protection.setWidth 64 &&& 0x1F#64) <<< 5)

/-- `mi_handle_demand_zero_fault`: the back pointer of the page is not recorded. -/
def miHandleDemandZeroFault (σ : PfnState) (pteValue : Pte) : Option (Pte × PfnState) :=
  match miAllocatePfn σ with
  | none => none
  | some (pfn, σ) => some (validPte pfn (softwareProtection pteValue), σ)

/-- The database part of `mi_handle_transition_fault`. A page located on neither list
is taken to be active already. -/
def miTakeTransitionPage (σ : PfnState) (pfn : ℕ) : PfnState :=
  match σ.getPfnEntry pfn with
  | none => σ
  | some entry =>
    let σ :=
      if entry.pageLocation = .standbyPageList then miRemovePageFromList σ .standby pfn
      else if entry.pageLocation = .modifiedPageList then miRemovePageFromList σ .modified pfn
      else σ
    σ.modifyEntry pfn fun e => { e with pageLocation := .activeAndValid }.addReference

def miHandleTransitionFault (σ : PfnState) (pteValue : Pte) : Pte × PfnState :=
  (validPte (ptePfn pteValue) (softwareProtection pteValue), miTakeTransitionPage σ (ptePfn pteValue))

/-- `mi_handle_guard_page_fault`: the guard bit is cleared. -/
def miHandleGuardPageFault (pteValue : Pte) : Pte := pteValue &&& ~~~guard

/-- `mi_resolve_not_present_fault` on a committed address. Prototype entries belong to shared
sections and are left alone. -/
def miResolveNotPresentFault (σ : PfnState) (pteValue : Pte) : Pte × PfnState :=
  if pteValue = 0 then (pteValue, σ)
  else if pteValue &&& demandZero ≠ 0 then
    (miHandleDemandZeroFault σ pteValue).getD (pteValue, σ)
  else if pteValue &&& transition ≠ 0 then miHandleTransitionFault σ pteValue
  else if pteValue &&& guard ≠ 0 then (miHandleGuardPageFault pteValue, σ)
  else (pteValue, σ)

/-- The transition entry `mi_trim_working_set` stores: five bits of the hardware entry
stand in for the software protection. -/
def transitionPte (pteValue : Pte) : Pte :=
  pfnBits (ptePfn pteValue) ||| transition ||| (((pteValue >>> 1) &&& 0x1F#64) <<< 5)

def trimList (pteValue : Pte) : PageList := if pteValue &&& pteDirty ≠ 0 then .modified else .standby

/-- What `mi_trim_working_set` does to a valid entry and its page. -/
def miTrimPage (σ : PfnState) (pteValue : Pte) : Pte × PfnState :=
  let σ := miInsertPageInList σ (trimList pteValue) (ptePfn pteValue)
  (transitionPte pteValue,
    match trimList pteValue with
    | .modified => { σ with modifiedPageCount := fetchAdd σ.modifiedPageCount 1 }
    | _ => { σ with standbyPageCount := fetchAdd σ.standbyPageCount 1 })

/-- `mi_decommit_page`: a page that is not mapped is not looked for. -/
def miDecommitPage (σ : PfnState) (pteValue : Pte) : Pte × PfnState :=
  (0, if pteValue &&& pteValid ≠ 0 then miFreePfn σ (ptePfn pteValue) else σ)

/-! ### The entries the handlers store -/

theorem miSoftwareProtectionToPte_flags (protection : BitVec 32) :
    (miSoftwareProtectionToPte protection ||| pteValid) &&& frameless =
      miSoftwareProtectionToPte protection ||| pteValid := by
  unfold miSoftwareProtectionToPte
  dsimp only
  split_ifs <;> decide

theorem ptePfn_lt (pte : Pte) : ptePfn pte < 2 ^ 40 := by
  have hle : ((pte >>> 12) &&& frameNumber).toNat ≤ frameNumber.toNat := by
    rw [BitVec.toNat_and]
    exact Nat.and_le_right
  have hmax : frameNumber.toNat = 2 ^ 40 - 1 := by decide
  unfold ptePfn
  omega

theorem ptePfn_validPte {pfn : ℕ} (hp : pfn < 2 ^ 40) (protection : BitVec 32) :
    ptePfn (validPte pfn protection) = pfn := by
  rw [validPte, BitVec.or_assoc]
  exact ptePfn_pfnBits_or hp (miSoftwareProtectionToPte_flags protection)

theorem protectionField_eq (x : Pte) : (x &&& 0x1F#64) <<< 5 = x <<< 5 &&& 0x3E0#64 := by
  rw [BitVec.shiftLeft_and_distrib]
  rfl

theorem transitionFlags (x : Pte) :
    (transition ||| (x &&& 0x1F#64) <<< 5) &&& frameless = transition ||| (x &&& 0x1F#64) <<< 5 := by
  rw [protectionField_eq, BitVec.and_or_distrib_right, BitVec.and_assoc]
  rfl

theorem ptePfn_transitionPte (pte : Pte) : ptePfn (transitionPte pte) = ptePfn pte := by
  rw [transitionPte, BitVec.or_assoc]
  exact ptePfn_pfnBits_or (ptePfn_lt pte) (transitionFlags _)

theorem or_protectionField_and (flags x : Pte) {mask : Pte} (hm : mask &&& 0x1F#64 = mask) :
    (flags ||| (x &&& 0x1F#64) <<< 5) &&& mask = flags &&& mask := by
  rw [protectionField_eq, BitVec.and_or_distrib_right, BitVec.and_assoc, ← hm]
  have hzero : 0x3E0#64 &&& (mask &&& 0x1F#64) = 0 := by
    rw [BitVec.and_comm mask, ← BitVec.and_assoc, show 0x3E0#64 &&& 0x1F#64 = 0#64 by decide, BitVec.zero_and]
    rfl
  rw [hzero]
  simp

theorem transitionPte_and (pte : Pte) {mask : Pte} (hm : mask &&& 0x1F#64 = mask) :
    transitionPte pte &&& mask = transition &&& mask := by
  have hlow : mask &&& 0xFFF#64 = mask := by
    rw [← hm, BitVec.and_assoc]
    rfl
  rw [transitionPte, BitVec.or_assoc, pfnBits_or_and _ _ hlow, or_protectionField_and _ _ hm]

theorem miMakeDemandZeroPte_and (protection : BitVec 32) {mask : Pte} (hm : mask &&& 0x1F#64 = mask) :
    miMakeDemandZeroPte protection &&& mask = demandZero &&& mask :=
  or_protectionField_and _ _ hm

theorem validPte_and_valid (pfn : ℕ) (protection : BitVec 32) : validPte pfn protection &&& pteValid = pteValid := by
  rw [validPte, BitVec.or_assoc, pfnBits_or_and _ _ (by decide)]
  unfold miSoftwareProtectionToPte
  dsimp only
  split_ifs <;> decide

/-! ### The lists after a fault, a trim, a decommit -/

def PageList.IsTransition (L : PageList) : Prop := L = .standby ∨ L = .modified

def LocatedInTransition (σ : PfnState) (c : PageList → List ℕ) (p : ℕ) : Prop :=
  σ.isValidPfn p → ∀ L : PageList, L.IsTransition → (p ∈ c L ↔ σ.locationOf p = L.name)

structure Placed (σ : PfnState) (c : PageList → List ℕ) : Prop where
  lists : Lists σ c
  located : ∀ p, LocatedInTransition σ c p

/-- `p` is active and off the standby and modified lists; nothing else moved. -/
structure Activated (σ σ' : PfnState) (c c' : PageList → List ℕ) (p : ℕ) : Prop where
  lists : Lists σ' c'
  samePages : SamePages σ σ'
  mem_iff : ∀ M q, q ∈ c' M ↔ q ∈ c M ∧ ¬ (q = p ∧ M.IsTransition)
  location_of_ne : ∀ q, q ≠ p → σ'.locationOf q = σ.locationOf q
  location : σ.isValidPfn p → σ'.locationOf p = .activeAndValid

section Specs
variable {σ : PfnState} {c : PageList → List ℕ} {p : ℕ}

theorem Left.activated {σ' : PfnState} {L : PageList} (h : Lists σ c) (hL : L.IsTransition)
    (hl : Left σ σ' c L p (update σ.locationOf p .activeAndValid)) :
    Activated σ σ' c (update c L ((c L).erase p)) p where
  lists := hl.lists
  samePages := hl.samePages
  mem_iff M q := by
    rw [hl.mem_iff h]
    refine and_congr_right fun hq => ⟨fun hne he => hne he.1, ?_⟩
    rintro hnot rfl
    have hM : M = L := h.disjoint M L q hq hl.mem
    exact hnot ⟨rfl, hM ▸ hL⟩
  location_of_ne q hq := by rw [hl.location, update_of_ne hq]
  location _ := by rw [hl.location, update_self]

theorem activated_miTakeTransitionPage (h : Lists σ c) (hloc : LocatedInTransition σ c p) :
    ∃ c', Activated σ (miTakeTransitionPage σ p) c c' p := by
  have hrelocate : ∀ (L : PageList), L.IsTransition → p ∈ c L →
      Activated σ ((miRemovePageFromList σ L p).modifyEntry p fun e =>
        { e with pageLocation := .activeAndValid }.addReference) c (update c L ((c L).erase p)) p := by
    intro L hL hp
    refine Left.activated h hL ((left_miRemovePageFromList h hp).modifyEntry h ?_ ?_ ?_)
    all_goals exact fun _ => rfl
  unfold miTakeTransitionPage getPfnEntry
  by_cases hp : σ.isValidPfn p
  · rw [if_pos hp]
    dsimp only
    have hstandby := hloc hp .standby (Or.inl rfl)
    have hmodified := hloc hp .modified (Or.inr rfl)
    by_cases hs : (σ.entries p).pageLocation = .standbyPageList
    · rw [if_pos hs]
      exact ⟨_, hrelocate .standby (Or.inl rfl) (hstandby.2 hs)⟩
    · rw [if_neg hs]
      by_cases hm : (σ.entries p).pageLocation = .modifiedPageList
      · rw [if_pos hm]
        exact ⟨_, hrelocate .modified (Or.inr rfl) (hmodified.2 hm)⟩
      · rw [if_neg hm]
        -- on neither list: only the entry changes
        refine ⟨c, h.modifyEntry (fun _ => rfl) (fun _ => rfl), .modifyEntry _ _ _, fun M q => ?_, fun q hq => ?_,
          fun _ => ?_⟩
        · refine ⟨fun hq => ⟨hq, ?_⟩, fun hq => hq.1⟩
          rintro ⟨rfl, rfl | rfl⟩
          · exact hs (hstandby.1 hq)
          · exact hm (hmodified.1 hq)
        · exact congrArg Mmpfn.pageLocation (entries_modifyEntry_of_ne hq _)
        · rw [locationOf_modifyEntry hp, update_self]
          rfl
  · rw [if_neg hp]
    refine ⟨c, h, .refl σ, fun M q => ?_, fun _ _ => rfl, fun hv => absurd hv hp⟩
    refine ⟨fun hq => ⟨hq, ?_⟩, fun hq => hq.1⟩
    rintro ⟨rfl, -⟩
    exact hp (h.valid M q hq)

namespace Placed
variable {σ' : PfnState} {c' : PageList → List ℕ} {L : PageList}

section
variable (h : Placed σ c)
include h

theorem untouched (hu : Untouched σ σ') : Placed σ' c where
  lists := hu.lists h.lists
  located q hq M hM := by
    rw [hu.location]
    exact h.located q (hu.samePages.valid_iff.1 hq) M hM

theorem of_frame (hl : Lists σ' c') (hsame : SamePages σ σ')
    (hmem : ∀ q M, q ≠ p → (q ∈ c' M ↔ q ∈ c M)) (hloc : ∀ q, q ≠ p → σ'.locationOf q = σ.locationOf q)
    (hp : σ.isValidPfn p → ∀ M : PageList, M.IsTransition → (p ∈ c' M ↔ σ'.locationOf p = M.name)) :
    Placed σ' c' where
  lists := hl
  located q hq M hM := by
    by_cases hqp : q = p
    · subst hqp
      exact hp (hsame.valid_iff.1 hq) M hM
    · rw [hmem q M hqp, hloc q hqp]
      exact h.located q (hsame.valid_iff.1 hq) M hM

theorem entered (he : Entered σ σ' c L p) (hmem : ∀ M, p ∉ c M) :
    Placed σ' (update c L (p :: c L)) := by
  refine h.of_frame (p := p) he.lists he.samePages (fun q M hq => ?_) (fun q hq => ?_) fun _ M _ => ?_
  · simp [he.mem_iff, hq]
  · rw [he.location, update_of_ne hq]
  · rw [he.mem_iff, he.location, update_self]
    constructor
    · rintro (⟨rfl, -⟩ | hp)
      · rfl
      · exact absurd hp (hmem M)
    · exact fun hn => Or.inl ⟨(PageList.name_injective hn).symm, rfl⟩

theorem taken (hl : Left σ σ' c L p (update σ.locationOf p .activeAndValid)) :
    Placed σ' (update c L ((c L).erase p)) := by
  refine h.of_frame (p := p) hl.lists hl.samePages (fun q M hq => ?_) (fun q hq => ?_) fun _ M _ => ?_
  · simp [hl.mem_iff h.lists, hq]
  · rw [hl.location, update_of_ne hq]
  · rw [hl.mem_iff h.lists, hl.location, update_self]
    exact ⟨fun hp => absurd rfl hp.2, fun hn => absurd hn (PageList.active_ne_name _)⟩

theorem activated (ha : Activated σ σ' c c' p) : Placed σ' c' := by
  refine h.of_frame ha.lists ha.samePages (fun q M hq => ?_) ha.location_of_ne fun hp M hM => ?_
  · simp [ha.mem_iff, hq]
  · rw [ha.mem_iff, ha.location hp]
    exact ⟨fun hc => absurd ⟨rfl, hM⟩ hc.2, fun hn => absurd hn (PageList.active_ne_name _)⟩

theorem moved (hm : Moved σ σ' c c' L p) : Placed σ' c' := by
  refine h.of_frame (p := p) hm.lists hm.samePages (fun q M hq => ?_) (fun q hq => ?_) fun _ M _ => ?_
  · simp [hm.mem_iff, hq]
  · rw [hm.location, update_of_ne hq]
  · rw [hm.mem_iff, hm.location, update_self]
    constructor
    · rintro (⟨rfl, -⟩ | hp)
      · rfl
      · exact absurd rfl hp.2
    · exact fun hn => Or.inl ⟨(PageList.name_injective hn).symm, rfl⟩

end

theorem init (startPfn endPfn : ℕ) (hend : endPfn ≤ usizeMax) :
    Placed (PfnState.init startPfn endPfn) fun _ => [] where
  lists := ⟨fun _ => walk_nil.2 rfl, fun _ => walk_nil.2 rfl, fun _ => rfl, by simp, by simp, hend⟩
  located p _ L hL := by
    rcases hL with rfl | rfl <;> simp [PfnState.init, PfnState.locationOf, PageList.name]

end Placed

theorem trimList_isTransition (pte : Pte) : (trimList pte).IsTransition := by
  unfold trimList
  split
  · exact Or.inr rfl
  · exact Or.inl rfl

theorem entered_miTrimPage (h : Lists σ c) {pte : Pte} (hp : σ.isValidPfn (ptePfn pte))
    (hmem : ∀ L, ptePfn pte ∉ c L) : Entered σ (miTrimPage σ pte).2 c (trimList pte) (ptePfn pte) := by
  have hinsert := entered_miInsertPageInList (L := trimList pte) h hp hmem
  unfold miTrimPage
  dsimp only
  split
  · exact hinsert.counters _ _ _
  · exact hinsert.counters _ _ _

theorem untouched_miTrimPage {pte : Pte} (hp : ¬ σ.isValidPfn (ptePfn pte)) :
    Untouched σ (miTrimPage σ pte).2 := by
  obtain ⟨hentries, hheads, hsame⟩ := untouched_miInsertPageInList hp (trimList pte)
  unfold miTrimPage
  dsimp only
  split
  · exact ⟨hentries, hheads, ⟨hsame.startPfn, hsame.endPfn⟩⟩
  · exact ⟨hentries, hheads, ⟨hsame.startPfn, hsame.endPfn⟩⟩

end Specs

end XenOS.Mm
