import XenOS.General.Run
import XenOS.Mm.PageFault

/-! The modified page writer against the rest of the memory manager. A page stays on the modified
list while it is written with the lock released, and faults, trims and frees may come in between. -/

namespace XenOS.Mm

open General PfnState Function

/-- `mi_write_page_to_backing_store`: every kind of backing store is still a stub. -/
def miWritePageToBackingStore (originalPte : Pte) : Bool :=
  if originalPte &&& 0x2#64 ≠ 0 then true
  else if originalPte ≠ 0 then true
  else true

/-- `mi_write_modified_pages_batch`, undisturbed: the number of pages written. -/
def miWriteModifiedPagesBatch (σ : PfnState) : ℕ → ℕ × PfnState
  | 0 => (0, σ)
  | maxPages + 1 =>
    match miGetModifiedPageForWrite σ with
    | none => (0, σ)
    | some ((pfn, originalPte, _), σ) =>
      let success := miWritePageToBackingStore originalPte
      let r := miWriteModifiedPagesBatch (miCompleteModifiedPageWrite σ pfn success) maxPages
      (if success then r.1 + 1 else r.1, r.2)

structure Writer where
  db : PfnState
  ptes : Slot → Pte
  inFlight : Option ℕ

inductive WriterStep where
  | get
  | complete (success : Bool)
  | fault (slot : Slot)
  | trim (slot : Slot)
  | free (pfn : ℕ)
  deriving DecidableEq, Repr

namespace Writer

def step (s : Writer) : WriterStep → Writer
  | .get =>
    match s.inFlight, miGetModifiedPageForWrite s.db with
    | none, some ((pfn, _, _), db) => { s with db := db, inFlight := some pfn }
    | _, _ => s
  | .complete success =>
    match s.inFlight with
    | some pfn => { s with db := miCompleteModifiedPageWrite s.db pfn success, inFlight := none }
    | none => s
  | .fault slot =>
    let r := miHandleTransitionFault s.db (s.ptes slot)
    { s with db := r.2, ptes := update s.ptes slot r.1 }
  | .trim slot =>
    if s.ptes slot &&& pteValid ≠ 0 then
      let r := miTrimPage s.db (s.ptes slot)
      { s with db := r.2, ptes := update s.ptes slot r.1 }
    else s
  | .free pfn => { s with db := miFreePfn s.db pfn }

/-- A page that is put on a list is on none: the entry a trim takes maps a page in
use, and a freed page is in use by its owner. -/
def Allowed (s : Writer) : WriterStep → Prop
  | .trim slot => s.ptes slot &&& pteValid ≠ 0 → ∀ L, ¬ OnList s.db L (ptePfn (s.ptes slot))
  | .free pfn => ∀ L, ¬ OnList s.db L pfn
  | _ => True

/-- The completion leaves the lists well formed, puts no active page on them, and takes no other
page off the modified list. -/
def CompletionSound (s : Writer) : WriterStep → Prop
  | .complete success =>
    ∀ pfn, s.inFlight = some pfn → ∃ c c', Lists s.db c ∧ Lists (s.step (.complete success)).db c' ∧
      (∀ q, s.db.locationOf q = .activeAndValid → q ∉ c' .standby ∧ q ∉ c' .modified) ∧
      ∀ q, q ≠ pfn → q ∈ c .modified → q ∈ c' .modified
  | _ => True

def StillModified (s : Writer) : WriterStep → Prop
  | .complete _ => ∀ pfn, s.inFlight = some pfn → s.db.locationOf pfn = .modifiedPageList
  | _ => True

structure Consistent (s : Writer) (c : PageList → List ℕ) : Prop where
  placed : Placed s.db c
  inFlight : ∀ p, s.inFlight = some p → s.db.isValidPfn p ∧ ((∀ L, p ∉ c L) → s.db.locationOf p = .activeAndValid)

def Invariant (s : Writer) : Prop := ∃ c, s.Consistent c

namespace Consistent

variable {s : Writer} {db : PfnState} {ptes : Slot → Pte} {c c' : PageList → List ℕ} {L : PageList} {p : ℕ}

section
variable (h : s.Consistent c)
include h

theorem lists : Lists s.db c := h.placed.lists

theorem entered (he : Entered s.db db c L p) (hmem : ∀ M, p ∉ c M) :
    Consistent { s with db, ptes } (update c L (p :: c L)) where
  placed := h.placed.entered he hmem
  inFlight q hq := by
    obtain ⟨hvalid, hactive⟩ := h.inFlight q hq
    refine ⟨he.samePages.valid_iff.2 hvalid, fun hnot => ?_⟩
    have hqp : q ≠ p := by
      rintro rfl
      exact hnot L (he.mem_iff.2 (Or.inl ⟨rfl, rfl⟩))
    rw [he.location, update_of_ne hqp]
    exact hactive fun M hM => hnot M (he.mem_iff.2 (Or.inr hM))

theorem enter (he : s.db.isValidPfn p → Entered s.db db c L p)
    (hu : ¬ s.db.isValidPfn p → Untouched s.db db) (hmem : ∀ M, p ∉ c M) : Invariant { s with db, ptes } := by
  by_cases hp : s.db.isValidPfn p
  · exact ⟨_, h.entered (he hp) hmem⟩
  · have hu := hu hp
    refine ⟨c, h.placed.untouched hu, fun q hq => ?_⟩
    rw [hu.location]
    exact ⟨hu.samePages.valid_iff.2 (h.inFlight q hq).1, (h.inFlight q hq).2⟩

theorem activated (ha : Activated s.db db c c' p) : Consistent { s with db, ptes } c' where
  placed := h.placed.activated ha
  inFlight q hq := by
    obtain ⟨hvalid, hactive⟩ := h.inFlight q hq
    refine ⟨ha.samePages.valid_iff.2 hvalid, fun hnot => ?_⟩
    by_cases hqp : q = p
    · subst hqp
      exact ha.location hvalid
    · rw [show PfnState.locationOf db q = _ from ha.location_of_ne q hqp]
      exact hactive fun M hM => hnot M ((ha.mem_iff M q).2 ⟨hM, fun hc => hqp hc.1⟩)

theorem completed (hm : Moved s.db db c c' L p) :
    Consistent { s with db, inFlight := none } c' where
  placed := h.placed.moved hm
  inFlight q hq := by cases hq

theorem fetched {original : Pte} {pteAddress : ℕ}
    (hr : miGetModifiedPageForWrite s.db = some ((p, original, pteAddress), db)) :
    Consistent { s with db, inFlight := some p } c := by
  obtain ⟨hhead, rfl⟩ := miGetModifiedPageForWrite_some h.lists hr
  have hp : p ∈ c .modified := List.mem_of_mem_head? hhead
  have hsame := SamePages.modifyEntry s.db p fun e => e.setFlag PfnFlags.writeInProgress
  have hloc : (s.db.modifyEntry p fun e => e.setFlag PfnFlags.writeInProgress).locationOf = s.db.locationOf :=
    locationOf_modifyEntry_same fun _ => rfl
  have hlists : Lists (s.db.modifyEntry p fun e => e.setFlag PfnFlags.writeInProgress) c :=
    h.lists.modifyEntry (fun _ => rfl) (fun _ => rfl)
  refine ⟨⟨hlists, fun q hq M hM => ?_⟩, fun q hq => ?_⟩
  · rw [hloc]
    exact h.placed.located q (hsame.valid_iff.1 hq) M hM
  · cases hq
    exact ⟨hsame.valid_iff.2 (h.lists.valid _ _ hp), fun hnot => absurd hp (hnot .modified)⟩

theorem mem_modified (hp : s.inFlight = some p) :
    p ∈ c .modified ↔ s.db.locationOf p = .modifiedPageList :=
  h.placed.located p (h.inFlight p hp).1 .modified (Or.inr rfl)

end

end Consistent

variable {a : WriterStep}

theorem step_invariant {s : Writer} (h : s.Invariant) (hok : s.Allowed a)
    (hc : s.StillModified a) : (s.step a).Invariant := by
  obtain ⟨c, h⟩ := h
  cases a with
  | get =>
    simp only [step]
    split
    · rename_i p original pteAddress db hnone hr
      exact ⟨c, h.fetched hr⟩
    · exact ⟨c, h⟩
  | complete success =>
    simp only [step]
    split
    · rename_i p hp
      obtain ⟨c', hm⟩ := moved_miCompleteModifiedPageWrite h.lists ((h.mem_modified hp).2 (hc p hp)) success
      exact ⟨c', h.completed hm⟩
    · exact ⟨c, h⟩
  | fault slot =>
    obtain ⟨c', ha⟩ := activated_miTakeTransitionPage h.lists (h.placed.located (ptePfn (s.ptes slot)))
    exact ⟨c', h.activated ha⟩
  | trim slot =>
    simp only [step]
    split
    · rename_i hv
      have hmem : ∀ M, ptePfn (s.ptes slot) ∉ c M := fun M hM => hok hv M (h.lists.onList_iff.2 hM)
      exact h.enter (fun hp => entered_miTrimPage h.lists hp hmem) (fun hp => untouched_miTrimPage hp) hmem
    · exact ⟨c, h⟩
  | free p =>
    have hmem : ∀ M, p ∉ c M := fun M hM => hok M (h.lists.onList_iff.2 hM)
    exact h.enter (fun hp => entered_miFreePfn h.lists hp hmem) untouched_miFreePfn hmem

theorem completionSound_of_stillModified {s : Writer} (h : s.Invariant)
    (hc : s.StillModified a) : s.CompletionSound a := by
  obtain ⟨c, h⟩ := h
  cases a with
  | complete success =>
    intro p hp
    have hmod := (h.mem_modified hp).2 (hc p hp)
    obtain ⟨c', hm⟩ := moved_miCompleteModifiedPageWrite h.lists hmod success
    refine ⟨c, c', h.lists, ?_, fun q hq => ?_, fun q hne hq => (hm.mem_iff _ _).2 (Or.inr ⟨hq, hne⟩)⟩
    · simp only [step, hp]
      exact hm.lists
    · -- an active page is not the one in flight, and it was on neither list before
      have hqp : q ≠ p := by
        rintro rfl
        rw [hc q hp] at hq
        cases hq
      have hnot : ∀ M : PageList, M.IsTransition → q ∉ c' M := by
        intro M hM hq'
        rcases (hm.mem_iff M q).1 hq' with ⟨-, rfl⟩ | ⟨hq', -⟩
        · exact hqp rfl
        · have hname := (h.placed.located q (h.lists.valid M q hq') M hM).1 hq'
          rw [hq] at hname
          cases M <;> cases hname
      exact ⟨hnot .standby (Or.inl rfl), hnot .modified (Or.inr rfl)⟩
  | get => trivial
  | fault slot => trivial
  | trim slot => trivial
  | free p => trivial

structure Pushed (τ σ' : PfnState) (L' : PageList) (p : ℕ) : Prop where
  flinkOf : σ'.flinkOf = update τ.flinkOf p (τ.heads L').flink
  flink : (σ'.heads L').flink = p
  total : (σ'.heads L').total = fetchAdd (τ.heads L').total 1
  other : ∀ L, L ≠ L' → σ'.heads L = τ.heads L

variable {τ : PfnState}

theorem Pushed.counters {σ' : PfnState} {L' : PageList} {p : ℕ} (h : Pushed τ σ' L' p)
    (availablePages modifiedPageCount standbyPageCount : ℕ) :
    Pushed τ { σ' with availablePages, modifiedPageCount, standbyPageCount } L' p :=
  ⟨h.flinkOf, h.flink, h.total, h.other⟩

theorem pushed_after_modifyEntry {p : ℕ} (hp : τ.isValidPfn p) {f : Mmpfn → Mmpfn}
    (hf : ∀ e, (f e).flink = e.flink) (L' : PageList) :
    Pushed τ (miInsertPageInList (τ.modifyEntry p f) L' p) L' p := by
  have hp' := (SamePages.modifyEntry τ p f).valid_iff.2 hp
  have hflink : (τ.modifyEntry p f).flinkOf = τ.flinkOf := field_modifyEntry_same Mmpfn.flink hf
  have hheads := heads_miInsertPageInList (L := L') hp'
  refine ⟨?_, ?_, ?_, fun L hL => ?_⟩
  · rw [flinkOf_miInsertPageInList hp', hflink, heads_modifyEntry]
  · rw [hheads, update_self]
  · rw [hheads, update_self, heads_modifyEntry]
  · rw [hheads, update_of_ne hL, heads_modifyEntry]

theorem pushed_miInsertPageInStandbyList {p : ℕ} (hp : τ.isValidPfn p) :
    Pushed τ (miInsertPageInStandbyList τ p) .standby p := by
  refine Pushed.counters (pushed_after_modifyEntry hp ?_ .standby) _ _ _
  exact fun _ => rfl

theorem pushed_miInsertPageInModifiedList {p : ℕ} (hp : τ.isValidPfn p) :
    Pushed τ (miInsertPageInModifiedList τ p) .modified p := by
  refine Pushed.counters (pushed_after_modifyEntry hp ?_ .modified) _ _ _
  exact fun _ => rfl

/-- A completion unlinks the page by its own links as if it were on the modified list,
and pushes it on its new list. -/
theorem pushed_miCompleteModifiedPageWrite {σ : PfnState} {p : ℕ} (hp : σ.isValidPfn p) (success : Bool) :
    Pushed (miRemovePageFromList σ .modified p) (miCompleteModifiedPageWrite σ p success)
      (completionList success) p := by
  have hremoved : (miRemovePageFromModifiedList σ p).isValidPfn p ↔ σ.isValidPfn p :=
    isValidPfn_congr (by simp [miRemovePageFromModifiedList]) (by simp [miRemovePageFromModifiedList])
  let clear : Mmpfn → Mmpfn := fun e => (e.clearFlag PfnFlags.writeInProgress).clearFlag PfnFlags.modified
  have hcleared : (miRemovePageFromModifiedList σ p |>.modifyEntry p clear).isValidPfn p :=
    (SamePages.modifyEntry (miRemovePageFromModifiedList σ p) p clear).valid_iff.2 (hremoved.2 hp)
  have hflink : (miRemovePageFromModifiedList σ p |>.modifyEntry p clear).flinkOf =
      (miRemovePageFromList σ .modified p).flinkOf := by
    have hkeep : (miRemovePageFromModifiedList σ p |>.modifyEntry p clear).flinkOf =
        (miRemovePageFromModifiedList σ p).flinkOf := field_modifyEntry_same Mmpfn.flink fun _ => rfl
    rw [hkeep]
    funext q
    simp only [PfnState.flinkOf, miRemovePageFromModifiedList]
  have hheads : (miRemovePageFromModifiedList σ p |>.modifyEntry p clear).heads =
      (miRemovePageFromList σ .modified p).heads := by
    simp only [heads_modifyEntry, miRemovePageFromModifiedList]
  have hpush : Pushed (miRemovePageFromModifiedList σ p |>.modifyEntry p clear)
      (miCompleteModifiedPageWrite σ p success) (completionList success) p := by
    cases success with
    | true => exact pushed_miInsertPageInStandbyList hcleared
    | false => exact pushed_miInsertPageInModifiedList hcleared
  exact ⟨by rw [hpush.flinkOf, hflink, hheads], hpush.flink, by rw [hpush.total, hheads],
    fun L hL => by rw [hpush.other L hL, hheads]⟩

theorem not_lists_of_foreign {σ σ' : PfnState} {c : PageList → List ℕ} {L L' : PageList} {p : ℕ}
    (h : Lists σ c) (hL : p ∈ c L) (hLm : L ≠ .modified)
    (hpush : Pushed (miRemovePageFromList σ .modified p) σ' L' p) (c' : PageList → List ℕ) : ¬ Lists σ' c' := by
  intro h'
  have hpn := h.ne_listHead (h.valid L p hL)
  obtain ⟨hhead, ys, hw, hys⟩ := h.remove_from_other hL hLm
  have hmem' : p ∈ c' L' := by
    have hmem := h'.flink_mem (L := L')
    rw [hpush.flink] at hmem
    exact hmem hpn
  by_cases hLL : L = L'
  · subst hLL
    have hflinks := h'.flinks L
    rw [hpush.flink, hpush.flinkOf, hhead] at hflinks
    rcases hys with rfl | ⟨hnot, hlen⟩
    · -- the page was first on its list, and now follows itself
      have hfirst : (σ.heads L).flink = p := (walk_cons.1 hw).1
      rw [hfirst] at hflinks
      cases hc' : c' L with
      | nil => simp [hc'] at hmem'
      | cons q qs =>
        rw [hc'] at hflinks
        have hnext := (walk_cons.1 hflinks).2.2
        rw [← (walk_cons.1 hflinks).1, update_self] at hnext
        have := congrArg List.length (hnext.unique hflinks)
        simp at this
    · -- the walk skipped the page and met it again, but the total counts it twice
      have hunique := hflinks.unique (hw.push hnot hpn)
      have htotal := h'.total L
      have hmax := h.length_le L
      rw [hpush.total, hhead, h.total, hunique, List.length_cons, hlen] at htotal
      unfold fetchAdd at htotal
      omega
  · have hflinks := h'.flinks L
    rw [hpush.other L hLL, hhead, hpush.flinkOf] at hflinks
    rcases hys with rfl | ⟨hnot, hlen⟩
    · -- the page is still first on its list
      have hfirst : (σ.heads L).flink = p := (walk_cons.1 hw).1
      have hmem := h'.flink_mem (L := L)
      rw [hpush.other L hLL, hhead, hfirst] at hmem
      exact hLL (h'.disjoint L L' p (hmem hpn) hmem')
    · -- the walk skips the page, but the total still counts it
      have hunique := hflinks.unique (hw.update_of_notMem hnot)
      have htotal := h'.total L
      rw [hpush.other L hLL, hhead, h.total, hunique] at htotal
      omega

theorem not_completionSound {s : Writer} (h : s.Invariant) (hc : ¬ s.StillModified a) :
    ¬ s.CompletionSound a := by
  obtain ⟨c, h⟩ := h
  cases a with
  | complete success =>
    simp only [StillModified, not_forall] at hc
    obtain ⟨p, hp, hloc⟩ := hc
    obtain ⟨hvalid, hactive⟩ := h.inFlight p hp
    intro hsound
    obtain ⟨d, c', hd, hlists, hput, -⟩ := hsound p hp
    have hpush := pushed_miCompleteModifiedPageWrite hvalid success
    simp only [step, hp] at hlists
    by_cases hnone : ∀ L, p ∉ c L
    · -- the page is active: it is put back
      have hentered := hlists.flink_mem (L := completionList success)
      rw [hpush.flink] at hentered
      have hnot := hput p (hactive hnone)
      cases success with
      | true => exact hnot.1 (hentered (h.lists.ne_listHead hvalid))
      | false => exact hnot.2 (hentered (h.lists.ne_listHead hvalid))
    · simp only [not_forall, not_not] at hnone
      obtain ⟨L, hL⟩ := hnone
      have hLm : L ≠ .modified := by
        rintro rfl
        exact hloc ((h.mem_modified hp).1 hL)
      exact not_lists_of_foreign h.lists hL hLm hpush c' hlists
  | get => exact absurd trivial hc
  | fault slot => exact absurd trivial hc
  | trim slot => exact absurd trivial hc
  | free p => exact absurd trivial hc

/-- In every interleaving, all completions are sound exactly if the page in flight is
located on the modified list at each of them. -/
theorem completions_sound_iff {s : Writer} (h : s.Invariant) {steps : List WriterStep}
    (hok : EveryStep step Allowed s steps) :
    EveryStep step CompletionSound s steps ↔ EveryStep step StillModified s steps :=
  everyStep_iff (fun _ _ hi hg hc => step_invariant hi hg hc)
    (fun _ _ hi _ hc => completionSound_of_stillModified hi hc) (fun _ _ hi _ hc => not_completionSound hi hc) h hok

def twoModified : Writer where
  db := miInsertPageInModifiedList (miInsertPageInModifiedList (PfnState.init 0 2) 0) 1
  ptes := update (fun _ => 0) (0, pteBase) (pfnBits 1 ||| PteState.transition)
  inFlight := none

theorem twoModified_invariant : twoModified.Invariant := by
  have h0 := Placed.init 0 2 (by decide)
  have he0 := entered_miInsertPageInModifiedList h0.lists (p := 0) (by decide) (by simp)
  have h1 := h0.entered he0 (by simp)
  have hnot : ∀ M, 1 ∉ update (fun _ : PageList => ([] : List ℕ)) .modified [0] M := by
    intro M
    cases M <;> simp
  have he1 := entered_miInsertPageInModifiedList h1.lists (p := 1) (by decide) hnot
  exact ⟨_, h1.entered he1 hnot, fun p hp => by cases hp⟩

theorem completions_sound_undisturbed :
    EveryStep step CompletionSound twoModified [.get, .complete true] := by
  have hok : EveryStep step Allowed twoModified [.get, .complete true] := ⟨trivial, trivial, trivial⟩
  refine (completions_sound_iff twoModified_invariant hok).2 ⟨trivial, ?_, trivial⟩
  intro p hp
  have hone : some 1 = some p := hp
  cases hone
  rfl

/-- A fault on the page in flight: the page ends up active and on the standby list, and
the other page is lost from the modified list. -/
theorem completion_after_fault_not_sound :
    twoModified.Invariant ∧ EveryStep step Allowed twoModified [.get, .fault (0, pteBase), .complete true] ∧
      ¬ EveryStep step CompletionSound twoModified [.get, .fault (0, pteBase), .complete true] := by
  refine ⟨twoModified_invariant, ⟨trivial, trivial, trivial, trivial⟩, ?_⟩
  rintro ⟨-, -, hsound, -⟩
  obtain ⟨c, c', hd, hlists, hput, -⟩ := hsound 1 rfl
  have hnot : 1 ∉ c' .standby := (hput 1 rfl).1
  exact hnot (hlists.flink_mem (L := .standby) (by decide))

end Writer

end XenOS.Mm
