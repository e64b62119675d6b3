import XenOS.Mm.PfnRuns
import XenOS.Mm.WorkingSet

/-! The page counters against the lists. An operation moves a page and adjusts the counters itself;
the ledger holds both. -/

namespace XenOS.Mm

open General PfnState PageList
open Function (update update_self update_of_ne)

@[ext] structure Ledger where
  standby : ℕ
  modified : ℕ
  available : ℕ
  total : PageList → ℕ

def PfnState.ledger (σ : PfnState) : Ledger :=
  ⟨σ.standbyPageCount, σ.modifiedPageCount, σ.availablePages, fun L => (σ.heads L).total⟩

namespace Ledger

variable {l : Ledger} {L : PageList}

def insert (l : Ledger) (L : PageList) : Ledger :=
  { l with
    total := update l.total L (fetchAdd (l.total L) 1)
    available := if L.available then fetchAdd l.available 1 else l.available }

def remove (l : Ledger) (L : PageList) : Ledger :=
  { l with
    total := update l.total L (fetchSub (l.total L) 1)
    available := if L.available then fetchSub l.available 1 else l.available }

/-- The standby and the modified pages are counted, and the available ones are the zeroed, the free
and the standby pages. -/
structure Right (l : Ledger) : Prop where
  standby : l.standby = l.total .standby
  modified : l.modified = l.total .modified
  available : l.available = l.total .zeroed + l.total .free + l.total .standby

structure Idle (l : Ledger) : Prop where
  right : l.Right
  standby : l.total .standby = 0

theorem fetchAdd_one_ne (a : ℕ) : fetchAdd a 1 ≠ a := by
  unfold fetchAdd
  omega

theorem fetchSub_one_ne (a : ℕ) : fetchSub a 1 ≠ a := by
  unfold fetchSub
  omega

theorem Idle.insert (h : l.Idle) (hL : L ≠ .standby ∧ L ≠ .modified) (htotal : l.total L + 1 < 2 ^ 64) (havailable : l.available + 1 < 2 ^ 64) :
    (l.insert L).Idle := by
  obtain ⟨⟨hs, hm, ha⟩, h0⟩ := h
  cases L with
  | standby => exact absurd rfl hL.1
  | modified => exact absurd rfl hL.2
  | zeroed | free =>
    refine ⟨⟨hs, hm, ?_⟩, h0⟩
    simp [Ledger.insert, PageList.available, fetchAdd_of_lt htotal, fetchAdd_of_lt havailable]
    omega
  | bad => exact ⟨⟨hs, hm, ha⟩, h0⟩

theorem total_remove {M : PageList} (hM : M ≠ L) : (l.remove L).total M = l.total M := update_of_ne hM _ _

section
variable (h : l.Idle)
include h

theorem Idle.remove (hL : L ≠ .standby ∧ L ≠ .modified) (hpos : 0 < l.total L) (havailable : l.available < 2 ^ 64) :
    (l.remove L).Idle := by
  obtain ⟨⟨hs, hm, ha⟩, h0⟩ := h
  have hstandby : (l.remove L).total .standby = l.total .standby := total_remove (Ne.symm hL.1)
  have hmodified : (l.remove L).total .modified = l.total .modified := total_remove (Ne.symm hL.2)
  refine ⟨⟨by rw [hstandby]; exact hs, by rw [hmodified]; exact hm, ?_⟩, hstandby.trans h0⟩
  rw [hstandby]
  cases L with
  | standby => exact absurd rfl hL.1
  | modified => exact absurd rfl hL.2
  | zeroed =>
    have htotal : fetchSub (l.total .zeroed) 1 = l.total .zeroed - 1 := fetchSub_of_le hpos (by omega)
    have hsub : fetchSub l.available 1 = l.available - 1 := fetchSub_of_le (by omega) havailable
    simp [Ledger.remove, PageList.available, htotal, hsub]
    omega
  | free =>
    have htotal : fetchSub (l.total .free) 1 = l.total .free - 1 := fetchSub_of_le hpos (by omega)
    have hsub : fetchSub l.available 1 = l.available - 1 := fetchSub_of_le (by omega) havailable
    simp [Ledger.remove, PageList.available, htotal, hsub]
    omega
  | bad =>
    rw [total_remove (by decide), total_remove (by decide)]
    simpa [Ledger.remove, PageList.available] using ha

theorem Idle.insertModified : Idle { l.insert .modified with modified := fetchAdd l.modified 1 } := by
  obtain ⟨⟨hs, hm, ha⟩, h0⟩ := h
  refine ⟨⟨hs, ?_, ha⟩, h0⟩
  simp [Ledger.insert, hm]

theorem Idle.removeModified : Idle { l.remove .modified with modified := fetchSub l.modified 1 } := by
  obtain ⟨⟨hs, hm, ha⟩, h0⟩ := h
  refine ⟨⟨hs, ?_, ha⟩, h0⟩
  simp [Ledger.remove, hm]

theorem Idle.not_right_insertStandby (standby : ℕ) : ¬ Right { l.insert .standby with standby } := by
  obtain ⟨⟨-, -, ha⟩, h0⟩ := h
  rintro ⟨-, -, hright⟩
  simp [Ledger.insert, PageList.available, h0, fetchAdd] at hright
  omega

theorem Idle.not_right_standby (valid : Prop) [Decidable valid] :
    ¬ Right { (if valid then l.insert .standby else l) with standby := fetchAdd l.standby 1 } := by
  split_ifs
  · exact h.not_right_insertStandby _
  · rintro ⟨hs, -, -⟩
    exact fetchAdd_one_ne _ (hs.trans h.right.standby.symm)

theorem Idle.not_right_modified : ¬ Right { l with modified := fetchAdd l.modified 1 } := by
  rintro ⟨-, hm, -⟩
  exact fetchAdd_one_ne _ (hm.trans h.right.modified.symm)

theorem Idle.not_right_insert : ¬ (l.insert .modified).Right := by
  rintro ⟨-, hm, -⟩
  have htotal : (l.insert .modified).total .modified = fetchAdd l.modified 1 := by
    simp only [h.right.modified, Ledger.insert, update_self]
  exact fetchAdd_one_ne _ (htotal.symm.trans hm.symm)

theorem Idle.not_right_remove : ¬ (l.remove .modified).Right := by
  rintro ⟨-, hm, -⟩
  have htotal : (l.remove .modified).total .modified = fetchSub l.modified 1 := by
    simp only [h.right.modified, Ledger.remove, update_self]
  exact fetchSub_one_ne _ (htotal.symm.trans hm.symm)

end

end Ledger

section Primitives
variable {σ : PfnState} {L : PageList} {p n v : ℕ}

@[simp] theorem ledger_modifyEntry (f : Mmpfn → Mmpfn) : (σ.modifyEntry p f).ledger = σ.ledger := by
  unfold modifyEntry
  split_ifs <;> rfl

theorem ledger_modifyHead {f : MmpfnList → MmpfnList} (hf : ∀ h, (f h).total = h.total) : (σ.modifyHead L f).ledger = σ.ledger := by
  ext M
  · rfl
  · rfl
  · rfl
  · simp only [ledger, modifyHead]
    by_cases hM : M = L
    · rw [hM, update_self, hf]
    · rw [update_of_ne hM]

@[simp] theorem ledger_setBlink : (σ.setBlink L n v).ledger = σ.ledger := by
  unfold setBlink
  split_ifs
  · exact ledger_modifyEntry _
  · exact ledger_modifyHead fun _ => rfl

@[simp] theorem ledger_setFlink : (σ.setFlink L n v).ledger = σ.ledger := by
  unfold setFlink
  split_ifs
  · exact ledger_modifyEntry _
  · exact ledger_modifyHead fun _ => rfl

theorem ledger_total {τ : PfnState} (hτ : τ.ledger = σ.ledger) (f : MmpfnList → MmpfnList) (available : ℕ) :
    PfnState.ledger { τ.modifyHead L f with availablePages := available } =
      { σ.ledger with total := update σ.ledger.total L (f (τ.heads L)).total, available } := by
  rw [← hτ]
  ext M
  · rfl
  · rfl
  · rfl
  · simp only [ledger, modifyHead]
    by_cases hM : M = L
    · rw [hM, update_self, update_self]
    · rw [update_of_ne hM, update_of_ne hM]

theorem ledger_miInsertPageInList (hp : σ.isValidPfn p) : (miInsertPageInList σ L p).ledger = σ.ledger.insert L := by
  unfold miInsertPageInList
  rw [if_neg (not_not.2 hp)]
  have hτ : ((σ.modifyEntry p fun e => { e with flink := (σ.heads L).flink, blink := listHead, pageLocation := L.name }).setBlink L
      (σ.heads L).flink p).ledger = σ.ledger := by
    rw [ledger_setBlink, ledger_modifyEntry]
  have havailable := congrArg Ledger.available hτ
  have htotal := congrFun (congrArg Ledger.total hτ) L
  refine (ledger_total hτ _ _).trans ?_
  simp only [ledger] at havailable htotal
  simp only [Ledger.insert, ledger, modifyHead, havailable, htotal]

theorem ledger_miRemovePageFromList (hp : σ.isValidPfn p) : (miRemovePageFromList σ L p).ledger = σ.ledger.remove L := by
  unfold miRemovePageFromList
  rw [if_neg (not_not.2 hp)]
  have hτ : (((σ.setBlink L (σ.entries p).flink (σ.entries p).blink).setFlink L (σ.entries p).blink (σ.entries p).flink).modifyEntry p
      fun e => { e with flink := listHead, blink := listHead }).ledger = σ.ledger := by
    rw [ledger_modifyEntry, ledger_setFlink, ledger_setBlink]
  have havailable := congrArg Ledger.available hτ
  have htotal := congrFun (congrArg Ledger.total hτ) L
  refine (ledger_total hτ _ _).trans ?_
  simp only [ledger] at havailable htotal
  simp only [Ledger.remove, ledger, modifyHead, havailable, htotal]

theorem miInsertPageInList_of_not_valid (hp : ¬ σ.isValidPfn p) : miInsertPageInList σ L p = σ := if_pos hp

theorem ledger_miFreePfn (hp : σ.isValidPfn p) : (miFreePfn σ p).ledger = σ.ledger.insert .free := by
  unfold miFreePfn
  rw [ledger_miInsertPageInList ((SamePages.modifyEntry σ p _).valid_iff.2 hp), ledger_modifyEntry]

theorem ledger_miInsertPageInStandbyList : (miInsertPageInStandbyList σ p).ledger =
    { (if σ.isValidPfn p then σ.ledger.insert .standby else σ.ledger) with standby := fetchAdd σ.standbyPageCount 1 } := by
  unfold miInsertPageInStandbyList
  have hvalid := (SamePages.modifyEntry σ p fun e => { e with pageLocation := .standbyPageList }.clearFlag PfnFlags.modified).valid_iff (p := p)
  split_ifs with hp
  · have h := ledger_miInsertPageInList (L := .standby) (hvalid.2 hp)
    rw [ledger_modifyEntry] at h
    rw [← h]
    have hcount := congrArg Ledger.standby h
    simp only [ledger, Ledger.insert] at hcount ⊢
    rw [hcount]
  · simp only
    rw [miInsertPageInList_of_not_valid (fun hp' => hp (hvalid.1 hp')), modifyEntry_of_not_valid hp]
    rfl

theorem ledger_miInsertPageInModifiedList : (miInsertPageInModifiedList σ p).ledger =
    { (if σ.isValidPfn p then σ.ledger.insert .modified else σ.ledger) with modified := fetchAdd σ.modifiedPageCount 1 } := by
  unfold miInsertPageInModifiedList
  have hvalid := (SamePages.modifyEntry σ p fun e => { e with pageLocation := .modifiedPageList }.setFlag PfnFlags.modified).valid_iff (p := p)
  split_ifs with hp
  · have h := ledger_miInsertPageInList (L := .modified) (hvalid.2 hp)
    rw [ledger_modifyEntry] at h
    rw [← h]
    have hcount := congrArg Ledger.modified h
    simp only [ledger, Ledger.insert] at hcount ⊢
    rw [hcount]
  · simp only
    rw [miInsertPageInList_of_not_valid (fun hp' => hp (hvalid.1 hp')), modifyEntry_of_not_valid hp]
    rfl

theorem ledger_miRemovePageFromModifiedList (hp : σ.isValidPfn p) :
    (miRemovePageFromModifiedList σ p).ledger = { σ.ledger.remove .modified with modified := fetchSub σ.modifiedPageCount 1 } := by
  have h := ledger_miRemovePageFromList (L := .modified) hp
  unfold miRemovePageFromModifiedList
  rw [← h]
  have hcount := congrArg Ledger.modified h
  simp only [ledger, Ledger.remove] at hcount ⊢
  rw [hcount]

theorem ledger_miRemovePageFromList_modified (hp : σ.isValidPfn p) (modifiedPageCount : ℕ) :
    (miRemovePageFromList { σ with modifiedPageCount } L p).ledger = { σ.ledger.remove L with modified := modifiedPageCount } :=
  ledger_miRemovePageFromList hp

theorem idle_insertModified (h : σ.ledger.Idle) (hp : σ.isValidPfn p) : (miInsertPageInModifiedList σ p).ledger.Idle := by
  rw [ledger_miInsertPageInModifiedList, if_pos hp]
  exact h.insertModified

theorem idle_removeModified (h : σ.ledger.Idle) (hp : σ.isValidPfn p) : (miRemovePageFromModifiedList σ p).ledger.Idle := by
  rw [ledger_miRemovePageFromModifiedList hp]
  exact h.removeModified

theorem idle_complete (h : σ.ledger.Idle) (hp : σ.isValidPfn p) : (miCompleteModifiedPageWrite σ p false).ledger.Idle := by
  have hsame : SamePages σ (miRemovePageFromModifiedList σ p) :=
    ⟨by simp [miRemovePageFromModifiedList], by simp [miRemovePageFromModifiedList]⟩
  refine idle_insertModified ?_ ((SamePages.modifyEntry _ p _).valid_iff.2 (hsame.valid_iff.2 hp))
  rw [ledger_modifyEntry]
  exact idle_removeModified h hp

theorem ledger_miTrimPage {pteValue : Pte} : (miTrimPage σ pteValue).2.ledger =
    if pteValue &&& pteDirty ≠ 0 then
      { (if σ.isValidPfn (ptePfn pteValue) then σ.ledger.insert .modified else σ.ledger) with modified := fetchAdd σ.modifiedPageCount 1 }
    else { (if σ.isValidPfn (ptePfn pteValue) then σ.ledger.insert .standby else σ.ledger) with standby := fetchAdd σ.standbyPageCount 1 } := by
  have hledger : ∀ L, (miInsertPageInList σ L (ptePfn pteValue)).ledger =
      if σ.isValidPfn (ptePfn pteValue) then σ.ledger.insert L else σ.ledger := fun L => by
    split_ifs with hp
    · exact ledger_miInsertPageInList hp
    · rw [miInsertPageInList_of_not_valid hp]
  have hmodified := congrArg Ledger.modified (hledger .modified)
  have hstandby := congrArg Ledger.standby (hledger .standby)
  unfold miTrimPage trimList
  by_cases hdirty : pteValue &&& pteDirty ≠ 0
  · simp only [if_pos hdirty]
    rw [← hledger]
    simp only [ledger] at hmodified ⊢
    rw [hmodified]
    split_ifs <;> rfl
  · simp only [if_neg hdirty]
    rw [← hledger]
    simp only [ledger] at hstandby ⊢
    rw [hstandby]
    split_ifs <;> rfl

theorem not_right_insertStandby (h : σ.ledger.Idle) : ¬ (miInsertPageInStandbyList σ p).ledger.Right := by
  rw [ledger_miInsertPageInStandbyList]
  exact h.not_right_standby _

theorem not_right_insertModified (h : σ.ledger.Idle) (hp : ¬ σ.isValidPfn p) : ¬ (miInsertPageInModifiedList σ p).ledger.Right := by
  rw [ledger_miInsertPageInModifiedList, if_neg hp]
  exact h.not_right_modified

theorem not_right_complete (h : σ.ledger.Idle) (hp : σ.isValidPfn p) : ¬ (miCompleteModifiedPageWrite σ p true).ledger.Right := by
  refine not_right_insertStandby ?_
  rw [ledger_modifyEntry]
  exact idle_removeModified h hp

end Primitives

inductive PageOp where
  | list (op : ListOp)
  | trimPage (pteValue : Pte)
  | transitionFault (pteValue : Pte)

namespace Tracked

variable {s : Tracked} {c : PageList → List ℕ} {L : PageList} {p : ℕ}

def faultStanding (s : Tracked) (pfn : ℕ) : Standing :=
  match listAt (s.db.locationOf pfn) with
  | some .standby | some .modified => .located
  | some _ => .pinned
  | none => s.standing pfn

def pageStep (s : Tracked) : PageOp → Tracked
  | .list op => s.step op
  | .trimPage pteValue => s.mark (miTrimPage s.db pteValue).2 (ptePfn pteValue) .located
  | .transitionFault pteValue =>
    s.mark (miHandleTransitionFault s.db pteValue).2 (ptePfn pteValue) (s.faultStanding (ptePfn pteValue))

/-- What the callers promise: a mapped page is on no list, and a page located on the standby or the
modified list is on it. -/
def PageAllowed (s : Tracked) : PageOp → Prop
  | .list op => op.Allowed s
  | .trimPage pteValue => ∀ L, ¬ OnList s.db L (ptePfn pteValue)
  | .transitionFault pteValue =>
    ∀ L : PageList, L.IsTransition → s.db.locationOf (ptePfn pteValue) = L.name → OnList s.db L (ptePfn pteValue)

def CountsRight (s : Tracked) : Prop :=
  ∃ c, Lists s.db c ∧ s.db.standbyPageCount = (c .standby).length ∧ s.db.modifiedPageCount = (c .modified).length ∧
    s.db.availablePages = (c .zeroed).length + (c .free).length + (c .standby).length

/-- No page is put on standby or moved over the modified list without its counter, and a counted
page exists. -/
def Counted (s : Tracked) : PageOp → Prop
  | .list (.insert L p) => s.db.isValidPfn p → L ≠ .standby ∧ L ≠ .modified
  | .list (.remove L _) => L ≠ .standby ∧ L ≠ .modified
  | .list (.removeAny L) => L = .standby ∨ L = .modified → (s.db.heads L).flink = listHead
  | .list (.insertStandby _) => False
  | .list (.insertModified p) => s.db.isValidPfn p
  | .list (.makeTransition p isDirty) => isDirty = true ∧ s.db.isValidPfn p
  | .list (.write success) => success = true → (s.db.heads .modified).flink = listHead
  | .trimPage pteValue => pteValue &&& pteDirty ≠ 0 ∧ s.db.isValidPfn (ptePfn pteValue)
  | .transitionFault pteValue => s.db.isValidPfn (ptePfn pteValue) →
      s.db.locationOf (ptePfn pteValue) ≠ .standbyPageList ∧ s.db.locationOf (ptePfn pteValue) ≠ .modifiedPageList
  | _ => True

theorem countsRight_iff (h : Lists s.db c) : s.CountsRight ↔ s.db.ledger.Right := by
  have htotal := h.total
  constructor
  · rintro ⟨c', h', hs, hm, ha⟩
    obtain rfl := h.unique h'
    exact ⟨by simp [ledger, htotal, hs], by simp [ledger, htotal, hm], by simp [ledger, htotal, ha]⟩
  · rintro ⟨hs, hm, ha⟩
    simp only [ledger, htotal] at hs hm ha
    exact ⟨c, h, hs, hm, ha⟩

theorem miTakeTransitionPage_eq (hp : s.db.isValidPfn p) : miTakeTransitionPage s.db p =
    ((match s.db.locationOf p with
      | .standbyPageList => miRemovePageFromList s.db .standby p
      | .modifiedPageList => miRemovePageFromList s.db .modified p
      | _ => s.db).modifyEntry p fun e => { e with pageLocation := .activeAndValid }.addReference) := by
  unfold miTakeTransitionPage getPfnEntry PfnState.locationOf
  rw [if_pos hp]
  cases hloc : (s.db.entries p).pageLocation <;> simp [hloc]

theorem wellFormed_transitionFault (h : s.Exact c) (hok : ∀ L : PageList, L.IsTransition → s.db.locationOf p = L.name → p ∈ c L) :
    (s.mark (miTakeTransitionPage s.db p) p (s.faultStanding p)).WellFormed := by
  by_cases hp : s.db.isValidPfn p
  · rw [miTakeTransitionPage_eq hp]
    have hrelocate : (s.faultStanding p = .located → listAt (s.db.locationOf p) = none ∧ s.standing p = .located) →
        (s.faultStanding p = .loose → s.standing p = .loose) →
        (s.mark (s.db.modifyEntry p fun e => { e with pageLocation := .activeAndValid }.addReference) p (s.faultStanding p)).WellFormed :=
      fun hlocated hloose => ⟨c, h.relocate (fun _ => rfl) (fun _ => rfl)
        (fun hv ht M => ⟨fun hM => absurd hM (h.notMem_of_listAt_none (hlocated ht).1 hv (hlocated ht).2 M),
          fun hn => absurd hn (active_ne_name M)⟩)
        fun hv ht => h.loose p hv (hloose ht)⟩
    cases hloc : s.db.locationOf p with
    | standbyPageList =>
      have hleft := left_miRemovePageFromList h.lists (hok .standby (Or.inl rfl) hloc)
      have ht : s.faultStanding p = .located := by simp [faultStanding, hloc, listAt]
      rw [ht]
      exact ⟨_, h.taken (hleft.modifyEntry h.lists (fun _ => rfl) (fun _ => rfl) fun _ => rfl)⟩
    | modifiedPageList =>
      have hleft := left_miRemovePageFromList h.lists (hok .modified (Or.inr rfl) hloc)
      have ht : s.faultStanding p = .located := by simp [faultStanding, hloc, listAt]
      rw [ht]
      exact ⟨_, h.taken (hleft.modifyEntry h.lists (fun _ => rfl) (fun _ => rfl) fun _ => rfl)⟩
    | _ => exact hrelocate (by simp [faultStanding, hloc, listAt]) (by simp [faultStanding, hloc, listAt])
  · have hsame : miTakeTransitionPage s.db p = s.db := by
      unfold miTakeTransitionPage getPfnEntry
      rw [if_neg hp]
    rw [hsame]
    exact ⟨c, h.mark h.lists (.refl _) (fun _ _ _ => Iff.rfl) (fun _ _ => rfl) (fun hv => absurd hv hp) fun hv => absurd hv hp⟩

theorem pageStep_wellFormed {op : PageOp} (h : s.WellFormed) (hok : s.PageAllowed op) : (s.pageStep op).WellFormed := by
  cases op with
  | list op => exact step_wellFormed h hok
  | trimPage pteValue =>
    obtain ⟨c, h⟩ := h
    have hmem : ∀ M, ptePfn pteValue ∉ c M := fun M hM => hok M (h.lists.onList_iff.2 hM)
    exact h.enter (fun hp => entered_miTrimPage h.lists hp hmem) untouched_miTrimPage hmem
  | transitionFault pteValue =>
    obtain ⟨c, h⟩ := h
    exact wellFormed_transitionFault h fun L hL hloc => h.lists.onList_iff.1 (hok L hL hloc)

section
variable (h : Lists s.db c)
include h

theorem available_add_lt (hidle : s.db.ledger.Idle) {ps : List ℕ} (hps : ps.Nodup) (hvalid : ∀ q ∈ ps, s.db.isValidPfn q)
    (hmem : ∀ q ∈ ps, ∀ M, q ∉ c M) : s.db.ledger.available + ps.length < 2 ^ 64 := by
  have hlists : (c .zeroed ++ c .free).Nodup := by
    refine List.nodup_append.2 ⟨h.nodup _, h.nodup _, ?_⟩
    rintro q hq q' hq' rfl
    cases h.disjoint _ _ q hq hq'
  have hnodup : (ps ++ (c .zeroed ++ c .free)).Nodup := by
    refine List.nodup_append.2 ⟨hps, hlists, ?_⟩
    rintro q hq q' hq' rfl
    exact (List.mem_append.1 hq').elim (hmem q hq _) (hmem q hq _)
  have hsub : (ps ++ (c .zeroed ++ c .free)).toFinset ⊆ Finset.range s.db.endPfn := by
    intro q hq
    rw [List.mem_toFinset, List.mem_append, List.mem_append] at hq
    apply Finset.mem_range.2
    rcases hq with hq | hq | hq
    · exact (hvalid q hq).2
    · exact (h.valid _ q hq).2
    · exact (h.valid _ q hq).2
  have hcard := Finset.card_le_card hsub
  rw [List.toFinset_card_of_nodup hnodup, Finset.card_range] at hcard
  have hbound := h.bound
  have hright := hidle.right.available
  have hstandby := hidle.standby
  simp only [ledger, h.total] at hright hstandby ⊢
  simp only [listHead, usizeMax, List.length_append] at hbound hcard
  omega

theorem idle_insert (hidle : s.db.ledger.Idle) (hp : s.db.isValidPfn p) (hmem : ∀ M, p ∉ c M) (hL : L ≠ .standby ∧ L ≠ .modified) :
    (s.db.ledger.insert L).Idle := by
  have havailable := available_add_lt h hidle (List.nodup_singleton p) (fun q hq => List.mem_singleton.1 hq ▸ hp) fun q hq =>
    List.mem_singleton.1 hq ▸ hmem
  apply hidle.insert hL ?_ havailable
  simp only [ledger, h.total]
  exact h.length_lt hp hmem L

theorem idle_remove (hidle : s.db.ledger.Idle) (hp : p ∈ c L) (hL : L ≠ .standby ∧ L ≠ .modified) : (s.db.ledger.remove L).Idle := by
  have havailable := available_add_lt h hidle List.nodup_nil (fun q hq => absurd hq List.not_mem_nil) fun q hq => absurd hq List.not_mem_nil
  apply hidle.remove hL ?_ havailable
  simp only [ledger, h.total]
  exact List.length_pos_of_mem hp

theorem notMem_standby (hidle : s.db.ledger.Idle) : p ∉ c .standby := fun hp => by
  have hzero := hidle.standby
  simp only [ledger, h.total] at hzero
  rw [List.length_eq_zero_iff.1 hzero] at hp
  cases hp

end

theorem idle_removeAny {db : PfnState} (h : Lists s.db c) (hidle : s.db.ledger.Idle) (hL : L ≠ .standby ∧ L ≠ .modified)
    (hret : miRemoveAnyPage s.db L = some (p, db)) : db.ledger.Idle := by
  obtain ⟨-, rfl, hleft⟩ := miRemoveAnyPage_some h hret
  rw [ledger_miRemovePageFromList (h.valid L p hleft.mem)]
  exact idle_remove h hidle hleft.mem hL

theorem idle_allocate {db : PfnState} (h : Lists s.db c) (hidle : s.db.ledger.Idle) (hret : miAllocatePfn s.db = some (p, db)) :
    db.ledger.Idle := by
  unfold miAllocatePfn at hret
  split at hret
  · rename_i q τ hz
    cases hret
    rw [activate, ledger_modifyEntry]
    exact idle_removeAny h hidle (by decide) hz
  · split at hret
    · rename_i q τ hf
      cases hret
      rw [activate, ledger_modifyEntry]
      exact idle_removeAny h hidle (by decide) hf
    · cases hret

section
variable (h : Lists s.db c)
include h

theorem idle_unlink (hidle : s.db.ledger.Idle) (hok : ∀ M : PageList, s.db.locationOf p = M.name → p ∈ c M) :
    (miUnlinkPageFromList s.db p).ledger.Idle := by
  by_cases hloc : ∃ M : PageList, s.db.locationOf p = M.name
  · obtain ⟨M, hM⟩ := hloc
    have hp := hok M hM
    have hvalid := h.valid M p hp
    have hl : (s.db.entries p).pageLocation = M.name := hM
    unfold miUnlinkPageFromList getPfnEntry
    rw [if_pos hvalid]
    cases M with
    | standby => exact absurd hp (notMem_standby h hidle)
    | modified =>
      simp only [hl, name]
      rw [ledger_miRemovePageFromList_modified hvalid]
      exact hidle.removeModified
    | zeroed | free | bad =>
      simp only [hl, name]
      rw [ledger_miRemovePageFromList hvalid]
      exact idle_remove h hidle hp (by decide)
  · rw [miUnlinkPageFromList_of_not_located fun M hM => hloc ⟨M, hM⟩]
    exact hidle

theorem idle_step {op : ListOp} (hidle : s.db.ledger.Idle) (hok : op.Allowed s) (hcounted : s.Counted (.list op)) :
    (s.step op).db.ledger.Idle := by
  have hloose : ∀ {p}, (∀ M, ¬ OnList s.db M p) → ∀ M, p ∉ c M := fun hp M hM => hp M (h.onList_iff.2 hM)
  cases op with
  | insert L p =>
    change (miInsertPageInList s.db L p).ledger.Idle
    by_cases hp : s.db.isValidPfn p
    · rw [ledger_miInsertPageInList hp]
      exact idle_insert h hidle hp (hloose hok) (hcounted hp)
    · rw [miInsertPageInList_of_not_valid hp]
      exact hidle
  | remove L p =>
    have hp := h.onList_iff.1 hok
    change (miRemovePageFromList s.db L p).ledger.Idle
    rw [ledger_miRemovePageFromList (h.valid L p hp)]
    exact idle_remove h hidle hp hcounted
  | unlink p => exact idle_unlink h hidle fun M hM => h.onList_iff.1 (hok M hM)
  | removeAny L =>
    simp only [step]
    cases hret : miRemoveAnyPage s.db L with
    | none => exact hidle
    | some out =>
      refine idle_removeAny h hidle ?_ hret
      rw [← not_or]
      intro hL
      have hnone := miRemoveAnyPage_eq_none.2 (hcounted hL)
      cases hret.symm.trans hnone
  | allocate =>
    simp only [step]
    cases hret : miAllocatePfn s.db with
    | some out => exact idle_allocate h hidle hret
    | none => exact hidle
  | allocateEx =>
    simp only [step, miAllocatePfnEx_eq]
    cases hret : miAllocatePfn s.db with
    | some out => exact idle_allocate h hidle hret
    | none =>
      cases hs : miRepurposeStandbyPage s.db with
      | some out => exact absurd (miRepurposeStandbyPage_some h hs).1.left.mem (notMem_standby h hidle)
      | none => exact hidle
  | free p =>
    change (miFreePfn s.db p).ledger.Idle
    by_cases hp : s.db.isValidPfn p
    · rw [ledger_miFreePfn hp]
      exact idle_insert h hidle hp (hloose hok) (by decide)
    · unfold miFreePfn
      simp only
      rw [modifyEntry_of_not_valid hp, miInsertPageInList_of_not_valid hp]
      exact hidle
  | insertStandby p => exact absurd hcounted id
  | insertModified p => exact idle_insertModified hidle hcounted
  | removeStandby p => exact absurd (h.onList_iff.1 hok) (notMem_standby h hidle)
  | removeModified p =>
    exact idle_removeModified hidle (h.valid _ p (h.onList_iff.1 hok))
  | write success =>
    simp only [step]
    cases hret : miGetModifiedPageForWrite s.db with
    | none => exact hidle
    | some out =>
      obtain ⟨⟨p, original, pteAddress⟩, db⟩ := out
      obtain ⟨hhead, rfl⟩ := miGetModifiedPageForWrite_some h hret
      have hmem := List.mem_of_mem_head? hhead
      have hp := h.valid _ p hmem
      obtain rfl : success = false := by
        by_contra hs
        have hnil := h.eq_nil_iff.2 (hcounted (by simpa using hs))
        rw [hnil] at hmem
        cases hmem
      have hsame := SamePages.modifyEntry s.db p fun e => e.setFlag PfnFlags.writeInProgress
      refine idle_complete ?_ (hsame.valid_iff.2 hp)
      rw [ledger_modifyEntry]
      exact hidle
  | makeTransition p isDirty =>
    obtain ⟨rfl, hp⟩ := hcounted
    exact idle_insertModified hidle hp
  | resolveTransition p =>
    change (miResolveTransitionPage s.db p).ledger.Idle
    unfold miResolveTransitionPage
    rw [ledger_modifyEntry]
    exact idle_unlink h hidle fun M hM => h.onList_iff.1 (hok M hM)
  | pin p =>
    change (miPinPfn s.db p).ledger.Idle
    rw [miPinPfn, ledger_modifyEntry]
    exact hidle
  | unpin p =>
    change (miUnpinPfn s.db p).ledger.Idle
    rw [miUnpinPfn, ledger_modifyEntry]
    exact hidle

theorem idle_pageStep {op : PageOp} (hidle : s.db.ledger.Idle) (hok : s.PageAllowed op) (hcounted : s.Counted op) :
    (s.pageStep op).db.ledger.Idle := by
  cases op with
  | list op => exact idle_step h hidle hok hcounted
  | trimPage pteValue =>
    obtain ⟨hdirty, hp⟩ := hcounted
    change (miTrimPage s.db pteValue).2.ledger.Idle
    rw [ledger_miTrimPage, if_pos hdirty, if_pos hp]
    exact hidle.insertModified
  | transitionFault pteValue =>
    change (miTakeTransitionPage s.db (ptePfn pteValue)).ledger.Idle
    by_cases hp : s.db.isValidPfn (ptePfn pteValue)
    · obtain ⟨hstandby, hmodified⟩ := hcounted hp
      rw [miTakeTransitionPage_eq hp, ledger_modifyEntry]
      cases hloc : s.db.locationOf (ptePfn pteValue) <;> simp_all
    · unfold miTakeTransitionPage getPfnEntry
      rw [if_neg hp]
      exact hidle

theorem not_right_pageStep {op : PageOp} (hidle : s.db.ledger.Idle) (hok : s.PageAllowed op) (hcounted : ¬ s.Counted op) :
    ¬ (s.pageStep op).db.ledger.Right := by
  cases op with
  | list op =>
    cases op with
    | insert L p =>
      change ¬ (miInsertPageInList s.db L p).ledger.Right
      simp only [Counted, Classical.not_imp, not_and_or, ne_eq, not_not] at hcounted
      obtain ⟨hp, hL⟩ := hcounted
      rw [ledger_miInsertPageInList hp]
      rcases hL with rfl | rfl
      · exact hidle.not_right_insertStandby _
      · exact hidle.not_right_insert
    | remove L p =>
      change ¬ (miRemovePageFromList s.db L p).ledger.Right
      simp only [Counted, not_and_or, ne_eq, not_not] at hcounted
      have hp := h.onList_iff.1 hok
      rw [ledger_miRemovePageFromList (h.valid L p hp)]
      rcases hcounted with rfl | rfl
      · exact absurd hp (notMem_standby h hidle)
      · exact hidle.not_right_remove
    | removeAny L =>
      simp only [Counted, Classical.not_imp] at hcounted
      obtain ⟨hL, hne⟩ := hcounted
      have hmem := h.flink_mem hne
      simp only [pageStep, step]
      cases hret : miRemoveAnyPage s.db L with
      | none => exact absurd (miRemoveAnyPage_eq_none.1 hret) hne
      | some out =>
        obtain ⟨-, hdb, hleft⟩ := miRemoveAnyPage_some h hret
        simp only [mark, hdb]
        rw [ledger_miRemovePageFromList (h.valid L _ hleft.mem)]
        rcases hL with rfl | rfl
        · exact absurd hleft.mem (notMem_standby h hidle)
        · exact hidle.not_right_remove
    | insertStandby p => exact not_right_insertStandby hidle
    | insertModified p => exact not_right_insertModified hidle hcounted
    | makeTransition p isDirty =>
      cases isDirty with
      | false => exact not_right_insertStandby hidle
      | true => exact not_right_insertModified hidle fun hp => hcounted ⟨rfl, hp⟩
    | write success =>
      simp only [Counted, Classical.not_imp] at hcounted
      obtain ⟨rfl, hne⟩ := hcounted
      have hp := h.valid _ _ (h.flink_mem hne)
      simp only [pageStep, step]
      cases hret : miGetModifiedPageForWrite s.db with
      | none =>
        unfold miGetModifiedPageForWrite getPfnEntry at hret
        simp only [if_neg hne, if_pos hp] at hret
        cases hret
      | some out =>
        obtain ⟨⟨p, original, pteAddress⟩, db⟩ := out
        obtain ⟨hhead, rfl⟩ := miGetModifiedPageForWrite_some h hret
        have hsame := SamePages.modifyEntry s.db p fun e => e.setFlag PfnFlags.writeInProgress
        refine not_right_complete ?_ (hsame.valid_iff.2 (h.valid _ p (List.mem_of_mem_head? hhead)))
        rw [ledger_modifyEntry]
        exact hidle
    | _ => exact absurd trivial hcounted
  | trimPage pteValue =>
    change ¬ (miTrimPage s.db pteValue).2.ledger.Right
    rw [ledger_miTrimPage]
    by_cases hdirty : pteValue &&& pteDirty ≠ 0
    · rw [if_pos hdirty, if_neg fun hp => hcounted ⟨hdirty, hp⟩]
      exact hidle.not_right_modified
    · rw [if_neg hdirty]
      exact hidle.not_right_standby _
  | transitionFault pteValue =>
    simp only [Counted, Classical.not_imp, not_and_or, ne_eq, not_not] at hcounted
    obtain ⟨hp, hloc⟩ := hcounted
    change ¬ (miTakeTransitionPage s.db (ptePfn pteValue)).ledger.Right
    rw [miTakeTransitionPage_eq hp, ledger_modifyEntry]
    rcases hloc with hloc | hloc
    · exact absurd (h.onList_iff.1 (hok .standby (Or.inl rfl) hloc)) (notMem_standby h hidle)
    · simp only [hloc]
      rw [ledger_miRemovePageFromList hp]
      exact hidle.not_right_remove

end

/-- From empty lists, the counters are right in every state exactly if every operation counts what
it does. -/
theorem countsRight_iff_counted {σ : PfnState} (hempty : ∀ L, σ.heads L = {}) (hend : σ.endPfn ≤ usizeMax) (hstandby : σ.standbyPageCount = 0)
    (hmodified : σ.modifiedPageCount = 0) (havailable : σ.availablePages = 0) {ops : List PageOp}
    (hok : EveryStep pageStep PageAllowed ⟨σ, fun _ => .loose⟩ ops) :
    EveryState pageStep CountsRight ⟨σ, fun _ => .loose⟩ ops ↔ EveryStep pageStep Counted ⟨σ, fun _ => .loose⟩ ops := by
  have htotal : σ.ledger.total = fun _ => 0 := funext fun L => by simp [ledger, hempty]
  have hidle : σ.ledger.Idle := by
    refine ⟨⟨?_, ?_, ?_⟩, by rw [htotal]⟩ <;> rw [htotal]
    · exact hstandby
    · exact hmodified
    · exact havailable
  refine everyState_iff_everyStep (I := fun s => s.WellFormed ∧ s.db.ledger.Idle) ?_ ?_ ?_ ⟨wellFormed_of_empty hempty hend, hidle⟩ hok
  · rintro s op ⟨hs, hidle⟩ hallowed hcounted
    obtain ⟨c, h⟩ := hs
    exact ⟨pageStep_wellFormed ⟨c, h⟩ hallowed, idle_pageStep h.lists hidle hallowed hcounted⟩
  · rintro s ⟨⟨c, h⟩, hidle⟩
    exact (countsRight_iff h.lists).2 hidle.right
  · rintro s op ⟨⟨c, h⟩, hidle⟩ hallowed hcounted hright
    obtain ⟨c', h'⟩ := pageStep_wellFormed ⟨c, h⟩ hallowed
    exact not_right_pageStep h.lists hidle hallowed hcounted ((countsRight_iff h'.lists).1 hright)

def dirtyTrim : List PageOp := [.list (.free 0), .list .allocate, .trimPage 0x41#64]

/-- Both pages are freed, allocated and trimmed while dirty. -/
def dirtyTrims : List PageOp :=
  [.list (.free 0), .list (.free 1), .list .allocate, .list .allocate, .trimPage 0x41#64, .trimPage 0x1041#64]

theorem countsRight_dirtyTrims : EveryState pageStep CountsRight ⟨PfnState.init 0 2, fun _ => .loose⟩ dirtyTrims := by
  have hok : EveryStep pageStep PageAllowed ⟨PfnState.init 0 2, fun _ => .loose⟩ dirtyTrims := by
    refine ⟨?_, ?_, trivial, trivial, ?_, ?_, trivial⟩
    · exact not_onList (fun _ => []) fun L => by cases L <;> decide +kernel
    · exact not_onList (fun L => if L = .free then [0] else []) fun L => by cases L <;> decide +kernel
    · exact not_onList (fun _ => []) fun L => by cases L <;> decide +kernel
    · exact not_onList (fun L => if L = .modified then [0] else []) fun L => by cases L <;> decide +kernel
  refine (countsRight_iff_counted (fun _ => rfl) (by decide) rfl rfl rfl hok).2
    ⟨trivial, trivial, trivial, trivial, ⟨by decide, ⟨Nat.zero_le _, by decide⟩⟩, ⟨by decide, ⟨Nat.zero_le _, by decide⟩⟩, trivial⟩

/-- The fault takes the page off the modified list and leaves it counted. -/
theorem transitionFault_not_counted :
    EveryStep pageStep PageAllowed ⟨PfnState.init 0 1, fun _ => .loose⟩ (dirtyTrim ++ [.transitionFault 0x800#64]) ∧
      ¬ EveryState pageStep CountsRight ⟨PfnState.init 0 1, fun _ => .loose⟩ (dirtyTrim ++ [.transitionFault 0x800#64]) := by
  constructor
  · refine ⟨?_, trivial, ?_, ?_, trivial⟩
    · rintro L ⟨xs, hw, hp⟩
      obtain rfl : xs = [] := hw.unique (walk_nil.2 rfl)
      cases hp
    · rintro L ⟨xs, hw, hp⟩
      obtain rfl : xs = [] := hw.unique (walk_nil.2 (by cases L <;> rfl))
      cases hp
    · rintro L (rfl | rfl) hloc
      · cases hloc
      · exact ⟨[0], walk_cons.2 ⟨rfl, by decide, walk_nil.2 rfl⟩, by decide⟩
  · rintro ⟨-, -, -, -, c, h, -, hmodified, -⟩
    have hnil : c .modified = [] := h.eq_nil_iff.2 rfl
    rw [hnil] at hmodified
    cases hmodified

end Tracked

end XenOS.Mm
