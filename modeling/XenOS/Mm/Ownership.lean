import XenOS.Mm.Mpw
import XenOS.Mm.WorkingSet

/-! Who owns a physical page: one page list, one valid entry, or the caller that allocated it; a
transition entry is a claim on a standby or modified page. The records that imply this are compared
with one table of owners. -/

namespace XenOS.Mm

open General PfnState PteState
open Function (update update_self update_of_ne)

/-- A valid entry that names `pfn`. -/
def Maps (pte : Pte) (pfn : ℕ) : Prop := pte &&& pteValid ≠ 0 ∧ ptePfn pte = pfn

/-- An entry that a fault takes for a transition entry, and that names `pfn`. -/
def InTransition (pte : Pte) (pfn : ℕ) : Prop :=
  pte &&& pteValid = 0 ∧ pte &&& demandZero = 0 ∧ pte &&& transition ≠ 0 ∧ ptePfn pte = pfn

instance (pte : Pte) (pfn : ℕ) : Decidable (InTransition pte pfn) := inferInstanceAs (Decidable (_ ∧ _))

section Entries
variable {pte : Pte} {p q : ℕ}

/-- An entry that names no page. -/
def Nameless (pte : Pte) : Prop := ∀ p, ¬ Maps pte p ∧ ¬ InTransition pte p

theorem nameless_zero : Nameless 0 := fun p => ⟨fun h => h.1 (by simp), fun h => h.2.2.1 (by simp)⟩

theorem nameless_of_demandZero (hv : pte &&& pteValid = 0) (hd : pte &&& demandZero ≠ 0) :
    Nameless pte := fun _ => ⟨fun h => h.1 hv, fun h => hd h.2.1⟩

theorem nameless_miMakeDemandZeroPte (protection : BitVec 32) : Nameless (miMakeDemandZeroPte protection) := by
  apply nameless_of_demandZero
  · rw [miMakeDemandZeroPte_and _ (by decide)]
    decide
  · rw [miMakeDemandZeroPte_and _ (by decide)]
    decide

theorem maps_validPte (hp : p < 2 ^ 40) (protection : BitVec 32) : Maps (validPte p protection) q ↔ q = p := by
  rw [Maps, validPte_and_valid, ptePfn_validPte hp]
  exact ⟨fun h => h.2.symm, fun h => ⟨by decide, h.symm⟩⟩

theorem not_inTransition_validPte (protection : BitVec 32) : ¬ InTransition (validPte p protection) q := by
  rintro ⟨hv, -⟩
  rw [validPte_and_valid] at hv
  exact absurd hv (by decide)

theorem inTransition_transitionPte : InTransition (transitionPte pte) q ↔ q = ptePfn pte := by
  rw [InTransition, transitionPte_and _ (by decide), transitionPte_and _ (by decide), transitionPte_and _ (by decide),
    ptePfn_transitionPte]
  exact ⟨fun h => h.2.2.2.symm, fun h => ⟨by decide, by decide, by decide, h.symm⟩⟩

theorem not_maps_transitionPte : ¬ Maps (transitionPte pte) q := by
  rintro ⟨hv, -⟩
  rw [transitionPte_and _ (by decide)] at hv
  exact hv (by decide)

end Entries

/-! ### Back pointers

No paging operation on private pages records the address of the entry that maps a
page, so the database starts and stays without back pointers. -/

/-- No page records the address of its entry. -/
def NoBackPointers (σ : PfnState) : Prop := ∀ p, σ.pteAddressOf p = 0

namespace NoBackPointers
variable {σ σ' : PfnState} {p : ℕ} {L : PageList}

section
variable (h : NoBackPointers σ)
include h

theorem modifyEntry {f : Mmpfn → Mmpfn}
    (hf : ∀ e, e.pteAddress = 0 → (f e).pteAddress = 0) : NoBackPointers (σ.modifyEntry p f) := by
  intro q
  by_cases hq : q = p
  · subst hq
    by_cases hv : σ.isValidPfn q
    · have hfield := congrFun (field_modifyEntry Mmpfn.pteAddress hv f) q
      rw [update_self] at hfield
      exact hfield.trans (hf _ (h q))
    · rw [modifyEntry_of_not_valid hv]
      exact h q
  · exact (congrArg Mmpfn.pteAddress (entries_modifyEntry_of_ne hq f)).trans (h q)

theorem insert : NoBackPointers (miInsertPageInList σ L p) := by
  intro q
  rw [pteAddressOf_miInsertPageInList]
  exact h q

theorem remove : NoBackPointers (miRemovePageFromList σ L p) := by
  intro q
  rw [pteAddressOf_miRemovePageFromList]
  exact h q

theorem counters (availablePages modifiedPageCount standbyPageCount : ℕ) :
    NoBackPointers { σ with availablePages, modifiedPageCount, standbyPageCount } := h

theorem removeAny (hr : miRemoveAnyPage σ L = some (p, σ')) : NoBackPointers σ' := by
  unfold miRemoveAnyPage at hr
  simp only at hr
  split at hr
  · cases hr
  · simp only [Option.some.injEq, Prod.mk.injEq] at hr
    obtain ⟨-, rfl⟩ := hr
    exact h.remove

theorem activate : NoBackPointers (σ.activate p) := h.modifyEntry fun _ he => he

theorem allocatePfn (hr : miAllocatePfn σ = some (p, σ')) : NoBackPointers σ' := by
  unfold miAllocatePfn at hr
  split at hr
  · rename_i q τ hq
    cases hr
    exact (h.removeAny hq).activate
  · split at hr
    · rename_i q τ hq
      cases hr
      exact (h.removeAny hq).activate
    · cases hr

theorem allocatePfnEx {clear : Option ℕ} (hr : miAllocatePfnEx σ = some (p, σ', clear)) :
    NoBackPointers σ' := by
  rw [miAllocatePfnEx_eq] at hr
  split at hr
  · rename_i q τ hq
    cases hr
    exact h.allocatePfn hq
  · unfold miRepurposeStandbyPage at hr
    split at hr
    · cases hr
    · rename_i q τ hq
      simp only [Option.some.injEq, Prod.mk.injEq] at hr
      obtain ⟨-, rfl, -⟩ := hr
      exact ((h.removeAny hq).counters _ _ _).modifyEntry fun _ _ => rfl

theorem free : NoBackPointers (miFreePfn σ p) :=
  (h.modifyEntry fun _ _ => rfl).insert

theorem takeTransition : NoBackPointers (miTakeTransitionPage σ p) := by
  unfold miTakeTransitionPage
  split
  · exact h
  · dsimp only
    split
    · exact h.remove.modifyEntry fun _ he => he
    · split
      · exact h.remove.modifyEntry fun _ he => he
      · exact h.modifyEntry fun _ he => he

theorem trim (pte : Pte) : NoBackPointers (miTrimPage σ pte).2 := by
  unfold miTrimPage
  dsimp only
  split
  · exact h.insert.counters _ _ _
  · exact h.insert.counters _ _ _

theorem insertStandby : NoBackPointers (miInsertPageInStandbyList σ p) := by
  refine NoBackPointers.counters (NoBackPointers.insert (h.modifyEntry ?_)) _ _ _
  exact fun _ he => he

theorem insertModified : NoBackPointers (miInsertPageInModifiedList σ p) := by
  refine NoBackPointers.counters (NoBackPointers.insert (h.modifyEntry ?_)) _ _ _
  exact fun _ he => he

theorem complete (success : Bool) : NoBackPointers (miCompleteModifiedPageWrite σ p success) := by
  have hremoved : NoBackPointers (miRemovePageFromModifiedList σ p) := h.remove.counters _ _ _
  have hloose : NoBackPointers ((miRemovePageFromModifiedList σ p).modifyEntry p fun e =>
      (e.clearFlag PfnFlags.writeInProgress).clearFlag PfnFlags.modified) := hremoved.modifyEntry fun _ he => he
  cases success with
  | true => exact hloose.insertStandby
  | false => exact hloose.insertModified

end

end NoBackPointers

/-- The database, the page table entries of all processes, and the pages that callers
of the allocator hold. -/
structure Paging where
  db : PfnState
  ptes : Slot → Pte
  held : ℕ → Bool

/-- The operations. Process numbers say in whose address space an entry's address is read. -/
inductive PagingOp where
  | allocatePfn
  | allocatePfnEx (process : ℕ)
  | commit (slot : Slot) (protection : BitVec 32)
  | fault (slot : Slot)
  | trim (process : ℕ) (mmsupport : Mmsupport) (pagesToTrim : ℕ)
  | decommit (slot : Slot)
  | writeModified (maxPages : ℕ)

namespace Paging

def store (s : Paging) (slot : Slot) (r : Pte × PfnState) : Paging :=
  { s with db := r.2, ptes := update s.ptes slot r.1 }

def withProcess (s : Paging) (process : ℕ) (ptes : ℕ → Pte) (db : PfnState) : Paging :=
  { s with db, ptes := fun slot => if slot.1 = process then ptes slot.2 else s.ptes slot }

def step (s : Paging) : PagingOp → Paging
  | .allocatePfn =>
    match miAllocatePfn s.db with
    | some (pfn, db) => { s with db, held := update s.held pfn true }
    | none => s
  | .allocatePfnEx process =>
    match miAllocatePfnEx s.db with
    | some (pfn, db, clear) =>
      { db
        ptes :=
          match clear with
          | some address => update s.ptes (process, address) 0
          | none => s.ptes
        held := update s.held pfn true }
    | none => s
  | .commit slot protection => s.store slot (miMakeDemandZeroPte protection, s.db)
  | .fault slot =>
    if s.ptes slot &&& pteValid ≠ 0 then s else s.store slot (miResolveNotPresentFault s.db (s.ptes slot))
  | .trim process mmsupport pagesToTrim =>
    let r := miTrimWorkingSet mmsupport (fun address => s.ptes (process, address)) s.db pagesToTrim
    s.withProcess process r.2.2.1 r.2.2.2
  | .decommit slot => s.store slot (miDecommitPage s.db (s.ptes slot))
  | .writeModified maxPages => { s with db := (miWriteModifiedPagesBatch s.db maxPages).2 }

/-- A demand-zero entry is made where there is none. -/
def Allowed (s : Paging) : PagingOp → Prop
  | .commit slot _ => s.ptes slot = 0
  | _ => True

/-- The roles of a page, of which it has exactly one. -/
def OnOneList (s : Paging) (p : ℕ) : Prop := ∃ L, OnList s.db L p ∧ ∀ L', OnList s.db L' p → L' = L

def MappedOnce (s : Paging) (p : ℕ) : Prop := ∃ slot, Maps (s.ptes slot) p ∧ ∀ slot', Maps (s.ptes slot') p → slot' = slot

/-- Every physical page has one owner, and a transition entry is the only claim on a
page of the standby or modified list. -/
structure OneOwner (s : Paging) : Prop where
  role : ∀ p, s.db.isValidPfn p →
    (s.OnOneList p ∧ (∀ slot, ¬ Maps (s.ptes slot) p) ∧ s.held p = false) ∨
    ((∀ L, ¬ OnList s.db L p) ∧ s.MappedOnce p ∧ s.held p = false) ∨
    ((∀ L, ¬ OnList s.db L p) ∧ (∀ slot, ¬ Maps (s.ptes slot) p) ∧ s.held p = true)
  transition : ∀ slot p, InTransition (s.ptes slot) p →
    (OnList s.db .standby p ∨ OnList s.db .modified p) ∧
      ∀ slot', slot' ≠ slot → ¬ Maps (s.ptes slot') p ∧ ¬ InTransition (s.ptes slot') p

def StandbyUnclaimed (s : Paging) : PagingOp → Prop
  | .allocatePfnEx _ =>
    (s.db.heads .zeroed).flink = listHead → (s.db.heads .free).flink = listHead →
      ∀ slot, ¬ InTransition (s.ptes slot) (s.db.heads .standby).flink
  | _ => True

inductive Owner where
  | listed (list : PageList)
  | mapped (slot : Slot)
  | held
  deriving DecidableEq, Repr

/-- The records agree with a table of owners; `claimant` is the entry that may claim a
page of the standby or modified list back. -/
structure Owned (s : Paging) (c : PageList → List ℕ) (own : ℕ → Owner) (claimant : ℕ → Option Slot) : Prop where
  placed : Placed s.db c
  noBackPointers : NoBackPointers s.db
  bound : s.db.endPfn ≤ 2 ^ 40
  listed : ∀ p, s.db.isValidPfn p → ∀ L, p ∈ c L ↔ own p = .listed L
  mapped : ∀ p, s.db.isValidPfn p → ∀ slot, Maps (s.ptes slot) p ↔ own p = .mapped slot
  held : ∀ p, s.db.isValidPfn p → (s.held p = true ↔ own p = .held)
  framed : ∀ slot p, Maps (s.ptes slot) p → s.db.isValidPfn p
  claim : ∀ slot p, InTransition (s.ptes slot) p →
    s.db.isValidPfn p ∧ claimant p = some slot ∧ ∃ L : PageList, L.IsTransition ∧ own p = .listed L

/-- The records agree with some table of owners. -/
def Consistent (s : Paging) : Prop := ∃ c own claimant, s.Owned c own claimant

namespace Owned

variable {s s' : Paging} {c c' : PageList → List ℕ} {own : ℕ → Owner} {claimant : ℕ → Option Slot} {L : PageList}
  {p : ℕ} {slot : Slot} {o : Owner} {b : Option Slot}

section
variable (h : s.Owned c own claimant)
include h

theorem lt (hp : s.db.isValidPfn p) : p < 2 ^ 40 := Nat.lt_of_lt_of_le hp.2 h.bound

theorem oneOwner : s.OneOwner where
  role p hp := by
    have hlist : ∀ L, OnList s.db L p ↔ own p = .listed L := fun L => by
      rw [h.placed.lists.onList_iff, h.listed p hp]
    have hheld : s.held p = false ↔ own p ≠ .held := by
      rw [ne_eq, ← h.held p hp, Bool.not_eq_true]
    have hmap := h.mapped p hp
    unfold OnOneList MappedOnce
    simp only [hlist, hmap, hheld, h.held p hp]
    cases own p with
    | listed L => exact Or.inl ⟨⟨L, rfl, fun L' hL' => by cases hL'; rfl⟩, by simp, by simp⟩
    | mapped slot => exact Or.inr (Or.inl ⟨by simp, ⟨slot, rfl, fun slot' hs => by cases hs; rfl⟩, by simp⟩)
    | held => exact Or.inr (Or.inr ⟨by simp, by simp, rfl⟩)
  transition slot p hp := by
    obtain ⟨hvalid, hclaim, L, hL, hown⟩ := h.claim slot p hp
    refine ⟨?_, fun slot' hne => ⟨fun hm => ?_, fun ht => ?_⟩⟩
    · rw [h.placed.lists.onList_iff, h.placed.lists.onList_iff, h.listed p hvalid, h.listed p hvalid, hown]
      rcases hL with rfl | rfl
      · exact Or.inl rfl
      · exact Or.inr rfl
    · have := (h.mapped p hvalid slot').1 hm
      rw [hown] at this
      cases this
    · have hclaim' := (h.claim slot' p ht).2.1
      rw [hclaim] at hclaim'
      cases hclaim'
      exact hne rfl

theorem change (hp : s.db.isValidPfn p) (hsame : SamePages s.db s'.db)
    (hplaced : Placed s'.db c') (hback : NoBackPointers s'.db)
    (hlist : ∀ q L, q ≠ p → (q ∈ c' L ↔ q ∈ c L)) (hlistp : ∀ L, p ∈ c' L ↔ o = .listed L)
    (hmap : ∀ q slot, q ≠ p → (Maps (s'.ptes slot) q ↔ Maps (s.ptes slot) q))
    (hmapp : ∀ slot, Maps (s'.ptes slot) p ↔ o = .mapped slot)
    (hheld : ∀ q, q ≠ p → s'.held q = s.held q) (hheldp : s'.held p = true ↔ o = .held)
    (hclaim : ∀ q slot, q ≠ p → InTransition (s'.ptes slot) q → InTransition (s.ptes slot) q)
    (hclaimp : ∀ slot, InTransition (s'.ptes slot) p → b = some slot ∧ ∃ L : PageList, L.IsTransition ∧ o = .listed L) :
    s'.Owned c' (update own p o) (update claimant p b) where
  placed := hplaced
  noBackPointers := hback
  bound := by rw [hsame.endPfn]; exact h.bound
  listed q hq L := by
    by_cases hqp : q = p
    · subst hqp
      rw [update_self, hlistp]
    · rw [update_of_ne hqp, hlist q L hqp, h.listed q (hsame.valid_iff.1 hq)]
  mapped q hq slot := by
    by_cases hqp : q = p
    · subst hqp
      rw [update_self, hmapp]
    · rw [update_of_ne hqp, hmap q slot hqp, h.mapped q (hsame.valid_iff.1 hq)]
  held q hq := by
    by_cases hqp : q = p
    · subst hqp
      rw [update_self, hheldp]
    · rw [update_of_ne hqp, hheld q hqp, h.held q (hsame.valid_iff.1 hq)]
  framed slot q hm := by
    rw [hsame.valid_iff]
    by_cases hqp : q = p
    · subst hqp
      exact hp
    · exact h.framed slot q ((hmap q slot hqp).1 hm)
  claim slot q ht := by
    rw [hsame.valid_iff]
    by_cases hqp : q = p
    · subst hqp
      rw [update_self, update_self]
      exact ⟨hp, hclaimp slot ht⟩
    · rw [update_of_ne hqp, update_of_ne hqp]
      exact h.claim slot q (hclaim q slot hqp ht)

theorem not_maps_of_mem (hp : p ∈ c L) (slot : Slot) : ¬ Maps (s.ptes slot) p := by
  have hvalid := h.placed.lists.valid L p hp
  rw [h.mapped p hvalid, (h.listed p hvalid L).1 hp]
  simp

theorem notMem_of_maps (hm : Maps (s.ptes slot) p) : ∀ L, p ∉ c L :=
  fun _ hp => h.not_maps_of_mem hp slot hm

theorem mem_of_inTransition (ht : InTransition (s.ptes slot) p) :
    ∃ L : PageList, L.IsTransition ∧ p ∈ c L := by
  obtain ⟨hvalid, -, L, hL, hown⟩ := h.claim slot p ht
  exact ⟨L, hL, (h.listed p hvalid L).2 hown⟩

theorem forget {pte : Pte} (hv : s.ptes slot &&& pteValid = 0) (hn : Nameless pte) :
    (s.store slot (pte, s.db)).Owned c own claimant where
  placed := h.placed
  noBackPointers := h.noBackPointers
  bound := h.bound
  listed := h.listed
  held := h.held
  mapped p hp slot' := by
    rw [← h.mapped p hp slot']
    by_cases hs : slot' = slot
    · subst hs
      simp only [store, update_self]
      exact ⟨fun hm => absurd hm (hn p).1, fun hm => absurd hv hm.1⟩
    · simp only [store, update_of_ne hs]
  framed slot' p hm := by
    by_cases hs : slot' = slot
    · subst hs
      simp only [store, update_self] at hm
      exact absurd hm (hn p).1
    · simp only [store, update_of_ne hs] at hm
      exact h.framed slot' p hm
  claim slot' p ht := by
    by_cases hs : slot' = slot
    · subst hs
      simp only [store, update_self] at ht
      exact absurd ht (hn p).2
    · simp only [store, update_of_ne hs] at ht
      exact h.claim slot' p ht

variable {db : PfnState}

theorem hold (ht : Taken s.db db c L p) (hback : NoBackPointers db)
    (hunclaimed : ∀ slot, ¬ InTransition (s.ptes slot) p) :
    Consistent { s with db, held := update s.held p true } := by
  have hp := h.placed.lists.valid L p ht.left.mem
  refine ⟨_, _, _, h.change (p := p) (o := .held) (b := none) hp ht.left.samePages (h.placed.taken ht.left) hback
    ?_ ?_ (fun _ _ _ => Iff.rfl) ?_ ?_ ?_ (fun _ _ _ => id) fun slot hs => absurd hs (hunclaimed slot)⟩
  · intro q M hq
    rw [ht.left.mem_iff h.placed.lists]
    exact and_iff_left hq
  · intro M
    rw [ht.left.mem_iff h.placed.lists]
    simp
  · intro slot
    exact ⟨fun hm => absurd hm (h.not_maps_of_mem ht.left.mem slot), fun ho => by cases ho⟩
  · intro q hq
    exact update_of_ne hq _ _
  · simp

theorem unclaimed_of_mem (hL : ¬ L.IsTransition) (hp : p ∈ c L) (slot : Slot) :
    ¬ InTransition (s.ptes slot) p := by
  intro ht
  obtain ⟨M, hM, hpM⟩ := h.mem_of_inTransition ht
  exact hL (h.placed.lists.disjoint M L p hpM hp ▸ hM)

theorem store_valid {protection : BitVec 32} (hv : s.ptes slot &&& pteValid = 0)
    (hp : s.db.isValidPfn p) (hunmapped : ∀ slot, ¬ Maps (s.ptes slot) p) (hunheld : s.held p = false)
    (hsame : SamePages s.db db) (hplaced : Placed db c') (hback : NoBackPointers db)
    (hlist : ∀ q L, q ≠ p → (q ∈ c' L ↔ q ∈ c L)) (hoff : ∀ L, p ∉ c' L)
    (hclaim : ∀ slot', slot' ≠ slot → ¬ InTransition (s.ptes slot') p) :
    (s.store slot (validPte p protection, db)).Consistent := by
  have hlt := h.lt hp
  refine ⟨c', _, _, h.change (p := p) (o := .mapped slot) (b := none) hp hsame hplaced hback hlist ?_ ?_ ?_
    (fun _ _ => rfl) ?_ ?_ ?_⟩
  · exact fun L => ⟨fun hL => absurd hL (hoff L), fun ho => by cases ho⟩
  · intro q slot' hq
    by_cases hs : slot' = slot
    · subst hs
      simp only [store, update_self, maps_validPte hlt]
      exact ⟨fun he => absurd he hq, fun hm => absurd hv hm.1⟩
    · simp only [store, update_of_ne hs]
  · intro slot'
    by_cases hs : slot' = slot
    · subst hs
      simp [store, maps_validPte hlt]
    · simp only [store, update_of_ne hs]
      exact ⟨fun hm => absurd hm (hunmapped slot'), fun ho => by cases ho; exact absurd rfl hs⟩
  · simp only [store, hunheld]
    simp
  · intro q slot' hq ht
    by_cases hs : slot' = slot
    · subst hs
      simp only [store, update_self] at ht
      exact absurd ht (not_inTransition_validPte protection)
    · simpa only [store, update_of_ne hs] using ht
  · intro slot' ht
    by_cases hs : slot' = slot
    · subst hs
      simp only [store, update_self] at ht
      exact absurd ht (not_inTransition_validPte protection)
    · simp only [store, update_of_ne hs] at ht
      exact absurd ht (hclaim slot' hs)

theorem not_held_of_mem (hp : p ∈ c L) : s.held p = false := by
  have hvalid := h.placed.lists.valid L p hp
  have hheld := h.held p hvalid
  rw [(h.listed p hvalid L).1 hp] at hheld
  simpa using hheld

theorem store_listed {pte : Pte} (hm : Maps (s.ptes slot) p)
    (he : Entered s.db db c L p) (hback : NoBackPointers db) (hunmap : ∀ q, ¬ Maps pte q)
    (hclaim : ∀ q, InTransition pte q → q = p ∧ L.IsTransition) : (s.store slot (pte, db)).Consistent := by
  have hp := h.framed slot p hm
  have hown := (h.mapped p hp slot).1 hm
  have hoff := h.notMem_of_maps hm
  refine ⟨_, _, _, h.change (p := p) (o := .listed L) (b := some slot) hp he.samePages (h.placed.entered he hoff) hback
    ?_ ?_ ?_ ?_ (fun _ _ => rfl) ?_ ?_ ?_⟩
  · intro q M hq
    rw [he.mem_iff]
    simp [hq]
  · intro M
    rw [he.mem_iff]
    simp only [and_true, hoff M, or_false, Owner.listed.injEq, eq_comm]
  · intro q slot' hq
    by_cases hs : slot' = slot
    · subst hs
      simp only [store, update_self]
      exact ⟨fun hm' => absurd hm' (hunmap q), fun hm' => absurd (hm'.2.symm.trans hm.2) hq⟩
    · simp only [store, update_of_ne hs]
  · intro slot'
    by_cases hs : slot' = slot
    · subst hs
      simp only [store, update_self]
      exact ⟨fun hm' => absurd hm' (hunmap p), fun ho => by cases ho⟩
    · simp only [store, update_of_ne hs]
      rw [h.mapped p hp slot', hown]
      simp [Ne.symm hs]
  · have hheld := h.held p hp
    rw [hown] at hheld
    simp only [store]
    rw [hheld]
    simp
  · intro q slot' hq ht
    by_cases hs : slot' = slot
    · subst hs
      simp only [store, update_self] at ht
      exact absurd (hclaim q ht).1 hq
    · simpa only [store, update_of_ne hs] using ht
  · intro slot' ht
    by_cases hs : slot' = slot
    · subst hs
      simp only [store, update_self] at ht
      exact ⟨rfl, L, (hclaim p ht).2, rfl⟩
    · simp only [store, update_of_ne hs] at ht
      obtain ⟨-, -, M, -, hownM⟩ := h.claim slot' p ht
      rw [hown] at hownM
      cases hownM

theorem move {L' : PageList} (hp : p ∈ c L)
    (hm : Moved s.db db c c' L' p) (hback : NoBackPointers db) (hL' : L'.IsTransition) :
    Consistent { s with db } := by
  have hvalid := h.placed.lists.valid L p hp
  refine ⟨c', _, _, h.change (p := p) (o := .listed L') (b := claimant p) hvalid hm.samePages (h.placed.moved hm) hback
    ?_ ?_ (fun _ _ _ => Iff.rfl) ?_ (fun _ _ => rfl) ?_ (fun _ _ _ => id) ?_⟩
  · intro q M hq
    simp [hm.mem_iff, hq]
  · intro M
    simp only [hm.mem_iff, ne_eq, not_true, and_false, or_false, and_true, Owner.listed.injEq, eq_comm]
  · exact fun slot => ⟨fun hs => absurd hs (h.not_maps_of_mem hp slot), fun ho => by cases ho⟩
  · rw [h.not_held_of_mem hp]
    simp
  · exact fun slot ht => ⟨(h.claim slot p ht).2.1, L', hL', rfl⟩

end

section
variable (h : s.Owned c own claimant)
include h

theorem demandZeroFault (hv : s.ptes slot &&& pteValid = 0)
    (hd : s.ptes slot &&& demandZero ≠ 0) :
    (s.store slot ((miHandleDemandZeroFault s.db (s.ptes slot)).getD (s.ptes slot, s.db))).Consistent := by
  unfold miHandleDemandZeroFault
  split
  · exact ⟨c, own, claimant, h.forget hv (nameless_of_demandZero hv hd)⟩
  · rename_i p db hr
    obtain ⟨L, hL, ht⟩ := miAllocatePfn_some h.placed.lists hr
    have hp := ht.left.mem
    have hmem : ∀ q M, q ∈ update c L ((c L).erase p) M ↔ q ∈ c M ∧ q ≠ p := fun q M =>
      ht.left.mem_iff h.placed.lists
    have hnot : ¬ L.IsTransition := by rcases hL with rfl | rfl <;> simp [PageList.IsTransition]
    exact h.store_valid hv (h.placed.lists.valid L p hp) (h.not_maps_of_mem hp) (h.not_held_of_mem hp)
      ht.left.samePages (h.placed.taken ht.left) (h.noBackPointers.allocatePfn hr)
      (fun q M hq => (hmem q M).trans (and_iff_left hq)) (fun M hM => ((hmem p M).1 hM).2 rfl)
      fun slot' _ => h.unclaimed_of_mem hnot hp slot'

theorem transitionFault (ht : InTransition (s.ptes slot) p) :
    (s.store slot (miHandleTransitionFault s.db (s.ptes slot))).Consistent := by
  obtain ⟨hvalid, hclaimant, -⟩ := h.claim slot p ht
  obtain ⟨M, hM, hpM⟩ := h.mem_of_inTransition ht
  obtain ⟨hv, -, -, hpfn⟩ := ht
  obtain ⟨c', ha⟩ := activated_miTakeTransitionPage h.placed.lists (h.placed.located p)
  have hfault : miHandleTransitionFault s.db (s.ptes slot) =
      (validPte p (softwareProtection (s.ptes slot)), miTakeTransitionPage s.db p) := by
    rw [miHandleTransitionFault, hpfn]
  rw [hfault]
  refine h.store_valid hv hvalid (h.not_maps_of_mem hpM) (h.not_held_of_mem hpM) ha.samePages
    (h.placed.activated ha) h.noBackPointers.takeTransition (fun q L hq => ?_) (fun L hL => ?_) fun slot' hs ht' => ?_
  · simp [ha.mem_iff, hq]
  · -- the page was on one transition list only, and the fault took it off
    obtain ⟨hpL, hnot⟩ := (ha.mem_iff L p).1 hL
    exact hnot ⟨rfl, h.placed.lists.disjoint M L p hpM hpL ▸ hM⟩
  · have hclaimant' := (h.claim slot' p ht').2.1
    rw [hclaimant] at hclaimant'
    cases hclaimant'
    exact hs rfl

theorem fault (slot : Slot) : (s.step (.fault slot)).Consistent := by
  simp only [step]
  split
  · exact ⟨c, own, claimant, h⟩
  · rename_i hv
    have hv : s.ptes slot &&& pteValid = 0 := not_not.1 hv
    have hsame : s.store slot (s.ptes slot, s.db) = s := by simp [store]
    unfold miResolveNotPresentFault
    by_cases h0 : s.ptes slot = 0
    · rw [if_pos h0, hsame]
      exact ⟨c, own, claimant, h⟩
    rw [if_neg h0]
    by_cases hd : s.ptes slot &&& demandZero ≠ 0
    · rw [if_pos hd]
      exact h.demandZeroFault hv hd
    rw [if_neg hd]
    by_cases ht : s.ptes slot &&& transition ≠ 0
    · rw [if_pos ht]
      exact h.transitionFault ⟨hv, not_not.1 hd, ht, rfl⟩
    rw [if_neg ht]
    by_cases hg : s.ptes slot &&& guard ≠ 0
    · rw [if_pos hg]
      refine ⟨c, own, claimant, h.forget hv fun p => ⟨fun hm => hm.1 ?_, fun hm => hm.2.2.1 ?_⟩⟩
      · rw [miHandleGuardPageFault, BitVec.and_assoc, BitVec.and_comm (~~~guard), ← BitVec.and_assoc, hv]
        simp
      · rw [miHandleGuardPageFault, BitVec.and_assoc, BitVec.and_comm (~~~guard), ← BitVec.and_assoc,
          not_not.1 ht]
        simp
    · rw [if_neg hg, hsame]
      exact ⟨c, own, claimant, h⟩

theorem decommit (slot : Slot) : (s.step (.decommit slot)).Consistent := by
  simp only [step, miDecommitPage]
  by_cases hv : s.ptes slot &&& pteValid = 0
  · rw [if_neg (not_not.2 hv)]
    exact ⟨c, own, claimant, h.forget hv nameless_zero⟩
  · rw [if_pos hv]
    have hm : Maps (s.ptes slot) (ptePfn (s.ptes slot)) := ⟨hv, rfl⟩
    have he := entered_miFreePfn h.placed.lists (h.framed slot _ hm) (h.notMem_of_maps hm)
    exact h.store_listed hm he h.noBackPointers.free (fun q => (nameless_zero q).1)
      fun q hq => absurd hq (nameless_zero q).2

theorem trimPage (slot : Slot) (hv : s.ptes slot &&& pteValid ≠ 0) :
    (s.store slot (miTrimPage s.db (s.ptes slot))).Consistent := by
  have hm : Maps (s.ptes slot) (ptePfn (s.ptes slot)) := ⟨hv, rfl⟩
  have he := entered_miTrimPage h.placed.lists (h.framed slot _ hm) (h.notMem_of_maps hm)
  exact h.store_listed hm he (h.noBackPointers.trim _) (fun _ => not_maps_transitionPte)
    fun q hq => ⟨inTransition_transitionPte.1 hq, trimList_isTransition _⟩

theorem batch (maxPages : ℕ) : (s.step (.writeModified maxPages)).Consistent := by
  simp only [step]
  induction maxPages generalizing s c own claimant with
  | zero => exact ⟨c, own, claimant, h⟩
  | succ n ih =>
    simp only [miWriteModifiedPagesBatch]
    split
    · exact ⟨c, own, claimant, h⟩
    · rename_i p original pteAddress db hr
      generalize miWritePageToBackingStore original = success
      obtain ⟨c', hm⟩ := moved_write h.placed.lists hr success
      obtain ⟨hhead, rfl⟩ := miGetModifiedPageForWrite_some h.placed.lists hr
      have hback : NoBackPointers (s.db.modifyEntry p fun e => e.setFlag PfnFlags.writeInProgress) :=
        h.noBackPointers.modifyEntry fun _ he => he
      have hL' : (completionList success).IsTransition := by
        unfold completionList
        split
        · exact Or.inl rfl
        · exact Or.inr rfl
      obtain ⟨c'', own', claimant', h'⟩ := h.move (List.mem_of_mem_head? hhead) hm (hback.complete success) hL'
      exact ih h'

end

end Owned

theorem consistent_turn {s : Paging} {process maxTrim i : ℕ} {t : TrimLoop}
    (h : (s.withProcess process t.ptes t.db).Consistent) :
    (s.withProcess process (t.turn maxTrim i).ptes (t.turn maxTrim i).db).Consistent := by
  unfold TrimLoop.turn
  split
  · exact h
  dsimp only
  split
  · exact h
  split
  · exact h
  split
  · exact h
  · rename_i hv
    let slot : Slot := (process, mmGetPteAddress (t.wsl.wsle i).virtualAddress.toNat)
    have hslot : (s.withProcess process t.ptes t.db).ptes slot = t.ptes slot.2 := if_pos rfl
    obtain ⟨c, own, claimant, h⟩ := h
    have htrim := h.trimPage slot (by rw [hslot]; exact hv)
    -- storing in the slot is storing at the address in the process
    have hstore : (s.withProcess process t.ptes t.db).store slot
        (miTrimPage (s.withProcess process t.ptes t.db).db ((s.withProcess process t.ptes t.db).ptes slot)) =
        s.withProcess process (update t.ptes slot.2 (miTrimPage t.db (t.ptes slot.2)).1)
          (miTrimPage t.db (t.ptes slot.2)).2 := by
      rw [hslot]
      unfold store withProcess
      congr 1
      funext slot'
      by_cases hs : slot' = slot
      · subst hs
        simp [slot]
      · rw [update_of_ne hs]
        by_cases hp : slot'.1 = process
        · have hne : slot'.2 ≠ slot.2 := fun he => hs (Prod.ext hp he)
          simp [hp, hne]
        · simp [hp]
    rw [hstore] at htrim
    exact htrim

theorem consistent_trim {s : Paging} (h : s.Consistent) (process : ℕ) (mmsupport : Mmsupport) (pagesToTrim : ℕ) :
    (s.step (.trim process mmsupport pagesToTrim)).Consistent := by
  have hself : s.withProcess process (fun address => s.ptes (process, address)) s.db = s := by
    unfold withProcess
    congr 1
    funext slot
    split
    · rename_i hp
      rw [← hp]
    · rfl
  have hloop : ∀ (is : List ℕ) (t : TrimLoop) (n : ℕ), (s.withProcess process t.ptes t.db).Consistent →
      (s.withProcess process (is.foldl (TrimLoop.turn n) t).ptes (is.foldl (TrimLoop.turn n) t).db).Consistent := by
    intro is
    induction is with
    | nil => exact fun _ _ ht => ht
    | cons i is ih => exact fun t n ht => ih _ n (consistent_turn ht)
  simp only [step, miTrimWorkingSet]
  split
  · rw [hself]
    exact h
  · exact hloop _ _ _ (hself.symm ▸ h)

theorem step_consistent {s : Paging} {op : PagingOp} (h : s.Consistent) (hok : s.Allowed op)
    (hc : s.StandbyUnclaimed op) : (s.step op).Consistent := by
  cases op with
  | trim process mmsupport pagesToTrim => exact consistent_trim h process mmsupport pagesToTrim
  | fault slot =>
    obtain ⟨c, own, claimant, h⟩ := h
    exact h.fault slot
  | decommit slot =>
    obtain ⟨c, own, claimant, h⟩ := h
    exact h.decommit slot
  | writeModified maxPages =>
    obtain ⟨c, own, claimant, h⟩ := h
    exact h.batch maxPages
  | commit slot protection =>
    obtain ⟨c, own, claimant, h⟩ := h
    have hzero : s.ptes slot = 0 := hok
    exact ⟨c, own, claimant, h.forget (by simp [hzero]) (nameless_miMakeDemandZeroPte protection)⟩
  | allocatePfn =>
    obtain ⟨c, own, claimant, h⟩ := h
    simp only [step]
    split
    · rename_i p db hr
      obtain ⟨L, hL, ht⟩ := miAllocatePfn_some h.placed.lists hr
      have hnot : ¬ L.IsTransition := by rcases hL with rfl | rfl <;> simp [PageList.IsTransition]
      exact h.hold ht (h.noBackPointers.allocatePfn hr) (h.unclaimed_of_mem hnot ht.left.mem)
    · exact ⟨c, own, claimant, h⟩
  | allocatePfnEx process =>
    obtain ⟨c, own, claimant, h⟩ := h
    simp only [step]
    split
    · rename_i p db clear hr
      obtain ⟨L, hL, ht, hclear⟩ := miAllocatePfnEx_some h.placed.lists hr
      obtain rfl : clear = none := by simp [hclear, h.noBackPointers p]
      refine h.hold ht (h.noBackPointers.allocatePfnEx hr) fun slot hs => ?_
      rcases hL with rfl | rfl | ⟨rfl, hzeroed, hfree⟩
      · exact h.unclaimed_of_mem (by simp [PageList.IsTransition]) ht.left.mem slot hs
      · exact h.unclaimed_of_mem (by simp [PageList.IsTransition]) ht.left.mem slot hs
      · have hhead := h.placed.lists.flink_of_head? ht.head
        exact hc (h.placed.lists.eq_nil_iff.1 hzeroed) (h.placed.lists.eq_nil_iff.1 hfree) slot (hhead.symm ▸ hs)
    · exact ⟨c, own, claimant, h⟩

theorem oneOwner_of_consistent {s : Paging} (h : s.Consistent) : s.OneOwner := by
  obtain ⟨c, own, claimant, h⟩ := h
  exact h.oneOwner

theorem not_oneOwner_of_claimed {s : Paging} {op : PagingOp} (h : s.Consistent) (hc : ¬ s.StandbyUnclaimed op) :
    ¬ (s.step op).OneOwner := by
  cases op with
  | allocatePfnEx process =>
    obtain ⟨c, own, claimant, h⟩ := h
    simp only [StandbyUnclaimed, not_forall, not_not] at hc
    obtain ⟨hzeroed, hfree, slot, hslot⟩ := hc
    have hlists := h.placed.lists
    have hvalid := (h.claim slot _ hslot).1
    simp only [step]
    split
    · rename_i p db clear hr
      obtain ⟨L, hL, ht, hclear⟩ := miAllocatePfnEx_some hlists hr
      obtain rfl : clear = none := by simp [hclear, h.noBackPointers p]
      have hhead := hlists.flink_of_head? ht.head
      have hpn := hlists.ne_listHead (hlists.valid L p ht.left.mem)
      -- the first two lists are empty, so the page is the first of the standby list
      obtain rfl : L = .standby := by
        rcases hL with rfl | rfl | ⟨rfl, -, -⟩
        · exact absurd (hhead.symm.trans hzeroed) hpn
        · exact absurd (hhead.symm.trans hfree) hpn
        · rfl
      rw [hhead] at hslot
      have hoff : ∀ M, ¬ OnList db M p := fun M hM =>
        ((ht.left.mem_iff hlists).1 (ht.left.lists.onList_iff.1 hM)).2 rfl
      intro hone
      rcases (hone.transition slot p hslot).1 with hs | hm
      · exact hoff .standby hs
      · exact hoff .modified hm
    · rename_i hr
      exact absurd (miAllocatePfnEx_none hr) (hlists.ne_listHead hvalid)
  | _ => exact absurd trivial hc

/-- Every page has one owner in every state exactly if no allocation that falls back to the standby
list takes a page of a transition entry. -/
theorem oneOwner_iff {s : Paging} (h : s.Consistent) {ops : List PagingOp} (hok : EveryStep step Allowed s ops) :
    EveryState step OneOwner s ops ↔ EveryStep step StandbyUnclaimed s ops :=
  everyState_iff_everyStep (fun _ _ hi hg hc => step_consistent hi hg hc) (fun _ hi => oneOwner_of_consistent hi)
    (fun _ _ hi _ hc => not_oneOwner_of_claimed hi hc) h hok

def bootDb (startPfn endPfn : ℕ) (pages : List ℕ) : PfnState :=
  pages.foldr (fun p σ => miInsertPageInList σ .free p) (PfnState.init startPfn endPfn)

def boot (startPfn endPfn : ℕ) (pages : List ℕ) (ptes : Slot → Pte) : Paging where
  db := bootDb startPfn endPfn pages
  ptes := ptes
  held := fun p => p ∉ pages

section Boot
variable {startPfn endPfn : ℕ} {pages : List ℕ}

theorem samePages_bootDb : SamePages (PfnState.init startPfn endPfn) (bootDb startPfn endPfn pages) := by
  induction pages with
  | nil => exact .refl _
  | cons p pages ih => exact ih.trans (.insert _ _ _)

theorem noBackPointers_bootDb : NoBackPointers (bootDb startPfn endPfn pages) := by
  induction pages with
  | nil => exact fun _ => rfl
  | cons p pages ih => exact ih.insert

theorem placed_bootDb (hend : endPfn ≤ usizeMax) (hnodup : pages.Nodup)
    (hvalid : ∀ p ∈ pages, startPfn ≤ p ∧ p < endPfn) :
    ∃ c, Placed (bootDb startPfn endPfn pages) c ∧ ∀ p L, p ∈ c L ↔ L = .free ∧ p ∈ pages := by
  induction pages with
  | nil => exact ⟨_, Placed.init startPfn endPfn hend, by simp⟩
  | cons p pages ih =>
    obtain ⟨hp, hnodup⟩ := List.nodup_cons.1 hnodup
    obtain ⟨c, hplaced, hmem⟩ := ih hnodup fun q hq => hvalid q (List.mem_cons_of_mem _ hq)
    have hoff : ∀ L, p ∉ c L := fun L hL => hp ((hmem p L).1 hL).2
    have he := entered_miInsertPageInList (L := .free) hplaced.lists
      (samePages_bootDb.valid_iff.2 (hvalid p (by simp))) hoff
    refine ⟨_, hplaced.entered he hoff, fun q L => ?_⟩
    rw [he.mem_iff, hmem, List.mem_cons]
    tauto

theorem boot_consistent (hend : endPfn ≤ 2 ^ 40) (hnodup : pages.Nodup)
    (hvalid : ∀ p ∈ pages, startPfn ≤ p ∧ p < endPfn) {ptes : Slot → Pte} (hptes : ∀ slot, Nameless (ptes slot)) :
    (boot startPfn endPfn pages ptes).Consistent := by
  obtain ⟨c, hplaced, hmem⟩ := placed_bootDb (by unfold usizeMax; omega) hnodup hvalid
  refine ⟨c, fun p => if p ∈ pages then .listed .free else .held, fun _ => none, hplaced, noBackPointers_bootDb, ?_,
    fun p _ L => ?_, fun p _ slot => ?_, fun p _ => ?_, fun slot p hm => absurd hm (hptes slot p).1,
    fun slot p ht => absurd ht (hptes slot p).2⟩
  · exact samePages_bootDb.endPfn.trans_le hend
  · rw [hmem]
    by_cases hp : p ∈ pages <;> simp [hp, eq_comm]
  · refine ⟨fun hm => absurd hm (hptes slot p).1, fun ho => ?_⟩
    split at ho <;> cases ho
  · by_cases hp : p ∈ pages <;> simp [boot, hp]

end Boot

def onePage : Mmsupport :=
  { vmWorkingSetList := some
      { firstFree := u32Max
        lastInitializedWsle := 0
        wsleCount := 1
        wsle := fun _ => wsleValid
        wsleSize := 1 } }

/-- The entry of address 0 in process 0. -/
def slotZero : Slot := (0, mmGetPteAddress 0)

/-- One physical page: committed, mapped, trimmed. -/
def mapAndTrim : List PagingOp := [.commit slotZero 4#32, .fault slotZero, .trim 0 onePage 1]

def onePageMachine : Paging := boot 0 1 [0] fun _ => 0

theorem onePageMachine_consistent : onePageMachine.Consistent :=
  boot_consistent (by decide) (by decide) (by decide) fun _ => nameless_zero

/-- Two of three pages are mapped, and one of them trimmed; the third is allocated while it is free; the trimmed
one is taken back, and the other decommitted. -/
def shareAndDecommit : List PagingOp :=
  [.commit slotZero 4#32, .fault slotZero, .commit (1, mmGetPteAddress 0x1000) 4#32, .fault (1, mmGetPteAddress 0x1000),
    .trim 0 onePage 1, .allocatePfnEx 1, .fault slotZero, .decommit (1, mmGetPteAddress 0x1000)]

theorem oneOwner_shareAndDecommit : EveryState step OneOwner (boot 0 3 [0, 1, 2] fun _ => 0) shareAndDecommit := by
  have hok : EveryStep step Allowed (boot 0 3 [0, 1, 2] fun _ => 0) shareAndDecommit :=
    ⟨rfl, trivial, by show (_ : Pte) = 0; decide +kernel, trivial, trivial, trivial, trivial, trivial, trivial⟩
  refine (oneOwner_iff (boot_consistent (by decide) (by decide) (by decide) fun _ => nameless_zero) hok).2
    ⟨trivial, trivial, trivial, trivial, trivial, fun _ hfree => absurd hfree (by decide +kernel), trivial, trivial, trivial⟩

/-- The trimmed page goes to another caller, and the transition entry still names it. -/
theorem repurposed_page_not_oneOwner :
    onePageMachine.Consistent ∧ EveryStep step Allowed onePageMachine (mapAndTrim ++ [.allocatePfnEx 1]) ∧
      ¬ EveryState step OneOwner onePageMachine (mapAndTrim ++ [.allocatePfnEx 1]) := by
  refine ⟨onePageMachine_consistent, ⟨rfl, trivial, trivial, trivial, trivial⟩, ?_⟩
  rintro ⟨-, -, -, -, hlast⟩
  have hone : OneOwner (run step onePageMachine (mapAndTrim ++ [.allocatePfnEx 1])) := hlast
  have hclaim : InTransition ((run step onePageMachine (mapAndTrim ++ [.allocatePfnEx 1])).ptes slotZero) 0 := by
    decide +kernel
  have hempty : ∀ L, ((run step onePageMachine (mapAndTrim ++ [.allocatePfnEx 1])).db.heads L).flink = listHead := by
    intro L
    cases L <;> decide +kernel
  have hoff : ∀ L, ¬ OnList (run step onePageMachine (mapAndTrim ++ [.allocatePfnEx 1])).db L 0 := by
    rintro L ⟨xs, hw, h0⟩
    rw [hempty L] at hw
    obtain rfl : xs = [] := hw.unique (walk_nil.2 rfl)
    cases h0
  rcases (hone.transition slotZero 0 hclaim).1 with hs | hm
  · exact hoff .standby hs
  · exact hoff .modified hm

end Paging

end XenOS.Mm
