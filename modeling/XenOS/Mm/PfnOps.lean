import XenOS.Mm.PfnLists

/-! What each operation of the page frame database does to well-formed lists: which
page enters or leaves which list, and which page is relocated. -/

namespace XenOS.Mm

open General PfnState Mmpfn
open Function (update update_self update_of_ne update_idem)

section Fields
variable {σ : PfnState} {L : PageList} {p : ℕ}

def PfnState.pteAddressOf (σ : PfnState) (pfn : ℕ) : ℕ := (σ.entries pfn).pteAddress

@[simp] theorem pteAddressOf_miInsertPageInList : (miInsertPageInList σ L p).pteAddressOf = σ.pteAddressOf := by
  unfold miInsertPageInList
  split
  · rfl
  · exact (field_setBlink pteAddress fun _ => rfl).trans (field_modifyEntry_same pteAddress fun _ => rfl)

@[simp] theorem pteAddressOf_miRemovePageFromList :
    (miRemovePageFromList σ L p).pteAddressOf = σ.pteAddressOf := by
  unfold miRemovePageFromList
  split
  · rfl
  · have hlast : ∀ σ' : PfnState, (σ'.modifyEntry p fun e =>
        { e with flink := listHead, blink := listHead }).pteAddressOf = σ'.pteAddressOf :=
      fun σ' => field_modifyEntry_same pteAddress fun _ => rfl
    refine (hlast _).trans ?_
    refine (field_setFlink pteAddress fun _ => rfl).trans ?_
    exact field_setBlink pteAddress fun _ => rfl

end Fields

structure SamePages (σ σ' : PfnState) : Prop where
  startPfn : σ'.startPfn = σ.startPfn
  endPfn : σ'.endPfn = σ.endPfn

namespace SamePages
variable {σ σ' σ'' : PfnState} {L : PageList} {p : ℕ}

theorem refl (σ : PfnState) : SamePages σ σ := ⟨rfl, rfl⟩

theorem trans (h : SamePages σ σ') (h' : SamePages σ' σ'') : SamePages σ σ'' :=
  ⟨h'.startPfn.trans h.startPfn, h'.endPfn.trans h.endPfn⟩

theorem valid_iff (h : SamePages σ σ') : σ'.isValidPfn p ↔ σ.isValidPfn p := isValidPfn_congr h.startPfn h.endPfn

theorem modifyEntry (σ : PfnState) (p : ℕ) (f : Mmpfn → Mmpfn) : SamePages σ (σ.modifyEntry p f) :=
  ⟨by simp, by simp⟩

theorem insert (σ : PfnState) (L : PageList) (p : ℕ) : SamePages σ (miInsertPageInList σ L p) :=
  ⟨by simp, by simp⟩

theorem remove (σ : PfnState) (L : PageList) (p : ℕ) : SamePages σ (miRemovePageFromList σ L p) :=
  ⟨by simp, by simp⟩

end SamePages

structure Untouched (σ σ' : PfnState) : Prop where
  entries : σ'.entries = σ.entries
  heads : σ'.heads = σ.heads
  samePages : SamePages σ σ'

namespace Untouched
variable {σ σ' : PfnState} {c : PageList → List ℕ}

theorem field (h : Untouched σ σ') {β : Type} (π : Mmpfn → β) :
    (fun q => π (σ'.entries q)) = fun q => π (σ.entries q) := by
  rw [h.entries]

theorem location (h : Untouched σ σ') : σ'.locationOf = σ.locationOf := h.field pageLocation

theorem lists (h : Untouched σ σ') (hl : Lists σ c) : Lists σ' c :=
  hl.congr (h.field flink) (h.field blink) h.heads h.samePages.startPfn h.samePages.endPfn

end Untouched

/-! A page number outside the database is ignored. -/

section Outside
variable {σ : PfnState} {p : ℕ} (hp : ¬ σ.isValidPfn p)
include hp

theorem modifyEntry_of_not_valid (f : Mmpfn → Mmpfn) : σ.modifyEntry p f = σ := if_neg hp

theorem untouched_miInsertPageInList (L : PageList) : Untouched σ (miInsertPageInList σ L p) := by
  rw [show miInsertPageInList σ L p = σ from if_pos hp]
  exact ⟨rfl, rfl, .refl σ⟩

theorem untouched_miInsertPageInStandbyList : Untouched σ (miInsertPageInStandbyList σ p) := by
  have h := untouched_miInsertPageInList hp .standby
  unfold miInsertPageInStandbyList
  rw [modifyEntry_of_not_valid hp]
  exact ⟨h.entries, h.heads, ⟨h.samePages.startPfn, h.samePages.endPfn⟩⟩

theorem untouched_miInsertPageInModifiedList : Untouched σ (miInsertPageInModifiedList σ p) := by
  have h := untouched_miInsertPageInList hp .modified
  unfold miInsertPageInModifiedList
  rw [modifyEntry_of_not_valid hp]
  exact ⟨h.entries, h.heads, ⟨h.samePages.startPfn, h.samePages.endPfn⟩⟩

theorem untouched_miFreePfn : Untouched σ (miFreePfn σ p) := by
  unfold miFreePfn
  rw [modifyEntry_of_not_valid hp]
  exact untouched_miInsertPageInList hp .free

end Outside

section Specs
variable {σ σ' : PfnState} {c : PageList → List ℕ} {L : PageList} {p : ℕ}

/-- `p`, on no list before, is now first on `L` and located there. -/
structure Entered (σ σ' : PfnState) (c : PageList → List ℕ) (L : PageList) (p : ℕ) : Prop where
  lists : Lists σ' (update c L (p :: c L))
  location : σ'.locationOf = update σ.locationOf p L.name
  samePages : SamePages σ σ'

theorem entered_miInsertPageInList (h : Lists σ c) (hp : σ.isValidPfn p) (hmem : ∀ L, p ∉ c L) :
    Entered σ (miInsertPageInList σ L p) c L p :=
  ⟨h.insert hp hmem, locationOf_miInsertPageInList hp, .insert σ L p⟩

variable {f : Mmpfn → Mmpfn}

theorem Entered.of_modifyEntry (hp : σ.isValidPfn p)
    (h : Entered (σ.modifyEntry p f) σ' c L p) : Entered σ σ' c L p where
  lists := h.lists
  location := by
    rw [h.location, locationOf_modifyEntry hp, update_idem]
  samePages := (SamePages.modifyEntry σ p f).trans h.samePages

theorem Lists.counters (h : Lists σ c) (availablePages modifiedPageCount standbyPageCount : ℕ) :
    Lists { σ with availablePages, modifiedPageCount, standbyPageCount } c :=
  h.congr rfl rfl rfl rfl rfl

theorem Entered.counters (h : Entered σ σ' c L p) (availablePages modifiedPageCount standbyPageCount : ℕ) :
    Entered σ { σ' with availablePages, modifiedPageCount, standbyPageCount } c L p where
  lists := h.lists.congr rfl rfl rfl rfl rfl
  location := h.location
  samePages := ⟨h.samePages.startPfn, h.samePages.endPfn⟩

section
variable (h : Lists σ c)
include h

theorem entered_after_modifyEntry (hp : σ.isValidPfn p)
    (hmem : ∀ L, p ∉ c L) (hf : ∀ e, (f e).flink = e.flink) (hb : ∀ e, (f e).blink = e.blink) :
    Entered σ (miInsertPageInList (σ.modifyEntry p f) L p) c L p :=
  .of_modifyEntry hp <| entered_miInsertPageInList (h.modifyEntry hf hb)
    ((SamePages.modifyEntry σ p f).valid_iff.2 hp) hmem

theorem entered_miInsertPageInStandbyList (hp : σ.isValidPfn p) (hmem : ∀ L, p ∉ c L) :
    Entered σ (miInsertPageInStandbyList σ p) c .standby p := by
  refine Entered.counters (entered_after_modifyEntry h hp hmem ?_ ?_) _ _ _
  all_goals exact fun _ => rfl

theorem entered_miInsertPageInModifiedList (hp : σ.isValidPfn p) (hmem : ∀ L, p ∉ c L) :
    Entered σ (miInsertPageInModifiedList σ p) c .modified p := by
  refine Entered.counters (entered_after_modifyEntry h hp hmem ?_ ?_) _ _ _
  all_goals exact fun _ => rfl

theorem entered_miFreePfn (hp : σ.isValidPfn p) (hmem : ∀ L, p ∉ c L) :
    Entered σ (miFreePfn σ p) c .free p :=
  entered_after_modifyEntry h hp hmem (fun _ => rfl) (fun _ => rfl)

theorem entered_miMakeTransitionPage (hp : σ.isValidPfn p) (hmem : ∀ L, p ∉ c L)
    (isDirty : Bool) : Entered σ (miMakeTransitionPage σ p isDirty) c (if isDirty then .modified else .standby) p := by
  cases isDirty with
  | false => exact entered_miInsertPageInStandbyList h hp hmem
  | true => exact entered_miInsertPageInModifiedList h hp hmem

end

theorem Entered.mem_iff (h : Entered σ σ' c L p) {M : PageList} {q : ℕ} :
    q ∈ update c L (p :: c L) M ↔ (M = L ∧ q = p) ∨ q ∈ c M := by
  by_cases hM : M = L
  · subst hM; simp
  · simp [hM]

/-- `p` has left `L`; `loc` is where the pages are recorded now. -/
structure Left (σ σ' : PfnState) (c : PageList → List ℕ) (L : PageList) (p : ℕ) (loc : ℕ → MmLists) : Prop where
  mem : p ∈ c L
  lists : Lists σ' (update c L ((c L).erase p))
  location : σ'.locationOf = loc
  samePages : SamePages σ σ'

theorem Left.mem_iff {loc : ℕ → MmLists} (h : Lists σ c) (hl : Left σ σ' c L p loc) {M : PageList} {q : ℕ} :
    q ∈ update c L ((c L).erase p) M ↔ q ∈ c M ∧ q ≠ p := by
  by_cases hM : M = L
  · subst hM
    rw [update_self, (h.nodup M).mem_erase_iff, and_comm]
  · rw [update_of_ne hM]
    refine ⟨fun hq => ⟨hq, ?_⟩, fun hq => hq.1⟩
    rintro rfl
    exact hM (h.disjoint M L q hq hl.mem)

theorem left_miRemovePageFromList (h : Lists σ c) (hp : p ∈ c L) :
    Left σ (miRemovePageFromList σ L p) c L p σ.locationOf := by
  refine ⟨hp, ?_, locationOf_miRemovePageFromList, .remove σ L p⟩
  obtain ⟨as, bs, hc⟩ := List.append_of_mem hp
  have hnotin : p ∉ as := by
    have hnd := h.nodup L
    rw [hc, List.nodup_append] at hnd
    exact fun ha => hnd.2.2 p ha p (by simp) rfl
  have herase : (c L).erase p = as ++ bs := by
    rw [hc, List.erase_append_right _ hnotin, List.erase_cons_head]
  rw [herase]
  exact h.remove hc

section
variable {loc : ℕ → MmLists}

theorem Left.counters (h : Left σ σ' c L p loc) (availablePages modifiedPageCount standbyPageCount : ℕ) :
    Left σ { σ' with availablePages, modifiedPageCount, standbyPageCount } c L p loc where
  mem := h.mem
  lists := h.lists.congr rfl rfl rfl rfl rfl
  location := h.location
  samePages := ⟨h.samePages.startPfn, h.samePages.endPfn⟩

theorem Left.counters_before {availablePages modifiedPageCount standbyPageCount : ℕ}
    (h : Left { σ with availablePages, modifiedPageCount, standbyPageCount } σ' c L p loc) : Left σ σ' c L p loc :=
  ⟨h.mem, h.lists, h.location, ⟨h.samePages.startPfn, h.samePages.endPfn⟩⟩

theorem Left.modifyEntry (h : Lists σ c) (hl : Left σ σ' c L p loc) {l : MmLists}
    (hf : ∀ e, (f e).flink = e.flink) (hb : ∀ e, (f e).blink = e.blink) (hloc : ∀ e, (f e).pageLocation = l) :
    Left σ (σ'.modifyEntry p f) c L p (update loc p l) where
  mem := hl.mem
  lists := hl.lists.modifyEntry hf hb
  location := by
    rw [locationOf_modifyEntry (hl.samePages.valid_iff.2 (h.valid L p hl.mem)), hl.location, hloc]
  samePages := hl.samePages.trans (.modifyEntry σ' p f)

end

theorem Lists.eq_nil_iff (h : Lists σ c) : c L = [] ↔ (σ.heads L).flink = listHead := by
  rw [h.head_flink]
  cases hc : c L with
  | nil => simp
  | cons q qs =>
    have hq : q ≠ listHead := h.ne_listHead (h.valid L q (by simp [hc]))
    simpa using hq

theorem Lists.flink_of_head? (h : Lists σ c) (hp : (c L).head? = some p) : (σ.heads L).flink = p := by
  rw [h.head_flink, List.headD_eq_head?_getD, hp, Option.getD_some]

theorem miRemoveAnyPage_eq_none : miRemoveAnyPage σ L = none ↔ (σ.heads L).flink = listHead := by
  unfold miRemoveAnyPage
  dsimp only
  split <;> simp_all

theorem miRemoveAnyPage_some (h : Lists σ c) (hr : miRemoveAnyPage σ L = some (p, σ')) :
    (c L).head? = some p ∧ σ' = miRemovePageFromList σ L p ∧ Left σ σ' c L p σ.locationOf := by
  have hhead := h.head_flink L
  unfold miRemoveAnyPage at hr
  simp only at hr
  split at hr
  · cases hr
  · rename_i hne
    obtain ⟨rfl, rfl⟩ : (σ.heads L).flink = p ∧ miRemovePageFromList σ L (σ.heads L).flink = σ' := by
      simpa using hr
    refine ⟨?_, rfl, left_miRemovePageFromList h (h.flink_mem hne)⟩
    cases hc : c L with
    | nil => rw [hc] at hhead; exact absurd hhead hne
    | cons q qs => simp [hhead, hc]

theorem Left.activate (h : Lists σ c) {loc : ℕ → MmLists} (hl : Left σ σ' c L p loc) :
    Left σ (σ'.activate p) c L p (update loc p .activeAndValid) := by
  refine hl.modifyEntry h ?_ ?_ ?_
  all_goals exact fun _ => rfl

structure Taken (σ σ' : PfnState) (c : PageList → List ℕ) (L : PageList) (p : ℕ) : Prop where
  head : (c L).head? = some p
  left : Left σ σ' c L p (update σ.locationOf p .activeAndValid)

theorem miAllocatePfn_some (h : Lists σ c) (hr : miAllocatePfn σ = some (p, σ')) :
    ∃ L, (L = .zeroed ∨ L = .free) ∧ Taken σ σ' c L p := by
  unfold miAllocatePfn at hr
  split at hr
  · rename_i q τ hq
    obtain ⟨hhead, -, hleft⟩ := miRemoveAnyPage_some h hq
    cases hr
    exact ⟨.zeroed, Or.inl rfl, hhead, hleft.activate h⟩
  · split at hr
    · rename_i q τ hq
      obtain ⟨hhead, -, hleft⟩ := miRemoveAnyPage_some h hq
      cases hr
      exact ⟨.free, Or.inr rfl, hhead, hleft.activate h⟩
    · cases hr

theorem miRepurposeStandbyPage_some (h : Lists σ c) {clear : Option ℕ}
    (hr : miRepurposeStandbyPage σ = some (p, σ', clear)) :
    Taken σ σ' c .standby p ∧ clear = if σ.pteAddressOf p ≠ 0 then some (σ.pteAddressOf p) else none := by
  unfold miRepurposeStandbyPage at hr
  split at hr
  · cases hr
  · rename_i q τ hq
    obtain ⟨hhead, hτ, hleft⟩ := miRemoveAnyPage_some h hq
    simp only [Option.some.injEq, Prod.mk.injEq] at hr
    obtain ⟨rfl, rfl, rfl⟩ := hr
    refine ⟨⟨hhead, ?_⟩, ?_⟩
    · refine Left.modifyEntry h (hleft.counters _ _ _) ?_ ?_ ?_
      all_goals exact fun _ => rfl
    · have hvalid : τ.isValidPfn q := hleft.samePages.valid_iff.2 (h.valid _ _ hleft.mem)
      have hpte : τ.pteAddressOf q = σ.pteAddressOf q := by rw [hτ]; simp
      have hentry : ∀ s, PfnState.getPfnEntry { τ with standbyPageCount := s } q = some (τ.entries q) :=
        fun s => if_pos hvalid
      simp only [hentry, ← hpte]
      rfl

theorem miAllocatePfnEx_eq (σ : PfnState) : miAllocatePfnEx σ =
    match miAllocatePfn σ with
    | some (p, σ') => some (p, σ', none)
    | none => miRepurposeStandbyPage σ := by
  unfold miAllocatePfnEx miAllocatePfn
  rcases miRemoveAnyPage σ .zeroed with _ | ⟨p, σ'⟩
  · rcases miRemoveAnyPage σ .free with _ | ⟨p, σ'⟩ <;> rfl
  · rfl

theorem miAllocatePfnEx_some (h : Lists σ c) {clear : Option ℕ} (hr : miAllocatePfnEx σ = some (p, σ', clear)) :
    ∃ L, (L = .zeroed ∨ L = .free ∨ L = .standby ∧ c .zeroed = [] ∧ c .free = []) ∧ Taken σ σ' c L p ∧
      clear = if L = .standby ∧ σ.pteAddressOf p ≠ 0 then some (σ.pteAddressOf p) else none := by
  unfold miAllocatePfnEx at hr
  split at hr
  · rename_i q τ hq
    obtain ⟨hhead, -, hleft⟩ := miRemoveAnyPage_some h hq
    cases hr
    exact ⟨.zeroed, Or.inl rfl, ⟨hhead, hleft.activate h⟩, by simp⟩
  · rename_i hz
    split at hr
    · rename_i q τ hq
      obtain ⟨hhead, -, hleft⟩ := miRemoveAnyPage_some h hq
      cases hr
      exact ⟨.free, Or.inr (Or.inl rfl), ⟨hhead, hleft.activate h⟩, by simp⟩
    · rename_i hf
      obtain ⟨htaken, hclear⟩ := miRepurposeStandbyPage_some h hr
      exact ⟨.standby, Or.inr (Or.inr ⟨rfl, h.eq_nil_iff.2 (miRemoveAnyPage_eq_none.1 hz), h.eq_nil_iff.2 (miRemoveAnyPage_eq_none.1 hf)⟩),
        htaken, by simpa using hclear⟩

theorem miAllocatePfnEx_none (hr : miAllocatePfnEx σ = none) : (σ.heads .standby).flink = listHead := by
  unfold miAllocatePfnEx at hr
  split at hr
  · cases hr
  · split at hr
    · cases hr
    · unfold miRepurposeStandbyPage at hr
      split at hr
      · rename_i hs
        exact miRemoveAnyPage_eq_none.1 hs
      · cases hr

theorem left_miUnlinkPageFromList (h : Lists σ c) (hp : p ∈ c L) (hloc : σ.locationOf p = L.name) :
    Left σ (miUnlinkPageFromList σ p) c L p σ.locationOf := by
  have hentry : σ.getPfnEntry p = some (σ.entries p) := if_pos (h.valid L p hp)
  have hl : (σ.entries p).pageLocation = L.name := hloc
  have hremove : ∀ a m s, Left σ (miRemovePageFromList
      { σ with availablePages := a, modifiedPageCount := m, standbyPageCount := s } L p) c L p σ.locationOf :=
    fun a m s => Left.counters_before
      (left_miRemovePageFromList (h.counters a m s) hp)
  unfold miUnlinkPageFromList
  cases L <;> simp only [hentry, hl, PageList.name] <;> exact hremove _ _ _

theorem miUnlinkPageFromList_of_not_located (hloc : ∀ L : PageList, σ.locationOf p ≠ L.name) :
    miUnlinkPageFromList σ p = σ := by
  unfold miUnlinkPageFromList getPfnEntry
  split
  · rfl
  · rename_i e he
    obtain rfl : e = σ.entries p := by
      split at he <;> simp_all
    have hne : ∀ L : PageList, (σ.entries p).pageLocation ≠ L.name := hloc
    have h1 := hne .zeroed
    have h2 := hne .free
    have h3 := hne .standby
    have h4 := hne .modified
    have h5 := hne .bad
    simp only [PageList.name] at h1 h2 h3 h4 h5
    cases hl : (σ.entries p).pageLocation <;> simp_all

theorem miGetModifiedPageForWrite_some (h : Lists σ c) {original : Pte} {pteAddress : ℕ}
    (hr : miGetModifiedPageForWrite σ = some ((p, original, pteAddress), σ')) :
    (c .modified).head? = some p ∧
      σ' = σ.modifyEntry p fun e => e.setFlag PfnFlags.writeInProgress := by
  have hhead := h.head_flink .modified
  unfold miGetModifiedPageForWrite at hr
  simp only at hr
  split at hr
  · cases hr
  · rename_i hne
    split at hr
    · cases hr
    · simp only [Option.some.injEq, Prod.mk.injEq] at hr
      obtain ⟨⟨rfl, -, -⟩, rfl⟩ := hr
      refine ⟨?_, rfl⟩
      cases hc : c .modified with
      | nil => rw [hc] at hhead; exact absurd hhead hne
      | cons q qs => simp [hhead, hc]

def completionList (success : Bool) : PageList := if success then .standby else .modified

/-- `p` has left its list and entered `L'`. -/
structure Moved (σ σ' : PfnState) (c c' : PageList → List ℕ) (L' : PageList) (p : ℕ) : Prop where
  lists : Lists σ' c'
  mem_iff : ∀ M q, q ∈ c' M ↔ (M = L' ∧ q = p) ∨ (q ∈ c M ∧ q ≠ p)
  location : σ'.locationOf = update σ.locationOf p L'.name
  samePages : SamePages σ σ'

theorem moved_miCompleteModifiedPageWrite (h : Lists σ c) (hp : p ∈ c .modified) (success : Bool) :
    ∃ c', Moved σ (miCompleteModifiedPageWrite σ p success) c c' (completionList success) p := by
  have hvalid := h.valid _ _ hp
  have hleft : Left σ (miRemovePageFromModifiedList σ p) c .modified p σ.locationOf :=
    (left_miRemovePageFromList h hp).counters _ _ _
  -- the page as it is between the two lists: unlinked, its write flags cleared
  let clear : Mmpfn → Mmpfn := fun e => (e.clearFlag PfnFlags.writeInProgress).clearFlag PfnFlags.modified
  have hloose : Lists ((miRemovePageFromModifiedList σ p).modifyEntry p clear) _ :=
    hleft.lists.modifyEntry (fun _ => rfl) (fun _ => rfl)
  have hsame := hleft.samePages.trans (.modifyEntry (miRemovePageFromModifiedList σ p) p clear)
  have hloc : ((miRemovePageFromModifiedList σ p).modifyEntry p clear).locationOf = σ.locationOf :=
    (locationOf_modifyEntry_same (f := clear) fun _ => rfl).trans hleft.location
  have hnot : ∀ L, p ∉ update c .modified ((c .modified).erase p) L :=
    fun L hL => ((hleft.mem_iff h).1 hL).2 rfl
  have hentered : Entered ((miRemovePageFromModifiedList σ p).modifyEntry p clear)
      (miCompleteModifiedPageWrite σ p success)
      (update c .modified ((c .modified).erase p)) (completionList success) p := by
    cases success with
    | true => exact entered_miInsertPageInStandbyList hloose (hsame.valid_iff.2 hvalid) hnot
    | false => exact entered_miInsertPageInModifiedList hloose (hsame.valid_iff.2 hvalid) hnot
  refine ⟨_, hentered.lists, fun M q => ?_, ?_, hsame.trans hentered.samePages⟩
  · rw [hentered.mem_iff, hleft.mem_iff h]
  · rw [hentered.location, hloc]

theorem moved_write (h : Lists σ c) {original : Pte} {pteAddress : ℕ}
    (hr : miGetModifiedPageForWrite σ = some ((p, original, pteAddress), σ')) (success : Bool) :
    ∃ c', Moved σ (miCompleteModifiedPageWrite σ' p success) c c' (completionList success) p := by
  obtain ⟨hhead, rfl⟩ := miGetModifiedPageForWrite_some h hr
  have hmark : Lists (σ.modifyEntry p fun e => e.setFlag PfnFlags.writeInProgress) c :=
    h.modifyEntry (fun _ => rfl) (fun _ => rfl)
  have hloc : (σ.modifyEntry p fun e => e.setFlag PfnFlags.writeInProgress).locationOf = σ.locationOf :=
    locationOf_modifyEntry_same fun _ => rfl
  obtain ⟨c', hm⟩ := moved_miCompleteModifiedPageWrite hmark (List.mem_of_mem_head? hhead) success
  exact ⟨c', hm.lists, hm.mem_iff, by rw [hm.location, hloc], (SamePages.modifyEntry _ _ _).trans hm.samePages⟩

theorem Mmpfn.pageLocation_pin (e : Mmpfn) : e.pin.pageLocation =
    if e.pageLocation = .standbyPageList ∨ e.pageLocation = .modifiedPageList then .activeAndValid
    else e.pageLocation := by
  unfold pin addReference
  dsimp only
  split <;> rfl

theorem Mmpfn.flink_pin (e : Mmpfn) : e.pin.flink = e.flink := by
  unfold pin addReference
  dsimp only
  split <;> rfl

theorem Mmpfn.blink_pin (e : Mmpfn) : e.pin.blink = e.blink := by
  unfold pin addReference
  dsimp only
  split <;> rfl

theorem left_miResolveTransitionPage (h : Lists σ c) (hp : p ∈ c L) (hloc : σ.locationOf p = L.name) :
    Left σ (miResolveTransitionPage σ p) c L p (update σ.locationOf p .activeAndValid) := by
  refine (left_miUnlinkPageFromList h hp hloc).modifyEntry h ?_ ?_ ?_
  all_goals exact fun _ => rfl

end Specs

end XenOS.Mm
