import XenOS.General.Run
import XenOS.Mm.PfnOps

/-! Runs of the page frame database. `page_location` is exact only while nobody took the page off
its list without relocating it; the run keeps track of that. -/

namespace XenOS.Mm

open General PfnState
open Function (update update_self update_of_ne)

/-- What `page_location` says about a page. -/
inductive Standing where
  /-- It names the list the page is on, and no list when the page is on none. -/
  | located
  /-- The page is on no list; the field may still name the list it was taken off. -/
  | loose
  /-- The page was pinned on the standby or modified list and made active there. -/
  | pinned
  deriving DecidableEq, Repr

structure Tracked where
  db : PfnState
  standing : ℕ → Standing

inductive ListOp where
  | insert (list : PageList) (pfn : ℕ)
  | remove (list : PageList) (pfn : ℕ)
  | unlink (pfn : ℕ)
  | removeAny (list : PageList)
  | allocate
  | allocateEx
  | free (pfn : ℕ)
  | insertStandby (pfn : ℕ)
  | insertModified (pfn : ℕ)
  | removeStandby (pfn : ℕ)
  | removeModified (pfn : ℕ)
  | write (success : Bool)
  | makeTransition (pfn : ℕ) (isDirty : Bool)
  | resolveTransition (pfn : ℕ)
  | pin (pfn : ℕ)
  | unpin (pfn : ℕ)
  deriving DecidableEq, Repr

namespace Tracked

def listAt (l : MmLists) : Option PageList :=
  match l with
  | .zeroedPageList => some .zeroed
  | .freePageList => some .free
  | .standbyPageList => some .standby
  | .modifiedPageList => some .modified
  | .badPageList => some .bad
  | _ => none

def mark (s : Tracked) (db : PfnState) (pfn : ℕ) (t : Standing) : Tracked :=
  ⟨db, update s.standing pfn t⟩

def pinStanding (s : Tracked) (pfn : ℕ) : Standing :=
  match s.standing pfn, listAt (s.db.locationOf pfn) with
  | .located, some .standby => .pinned
  | .located, some .modified => .pinned
  | t, _ => t

def step (s : Tracked) : ListOp → Tracked
  | .insert list pfn => s.mark (miInsertPageInList s.db list pfn) pfn .located
  | .remove list pfn => s.mark (miRemovePageFromList s.db list pfn) pfn .loose
  | .unlink pfn =>
    s.mark (miUnlinkPageFromList s.db pfn) pfn <|
      match listAt (s.db.locationOf pfn) with
      | some _ => .loose
      | none => s.standing pfn
  | .removeAny list =>
    match miRemoveAnyPage s.db list with
    | some (pfn, db) => s.mark db pfn .loose
    | none => s
  | .allocate =>
    match miAllocatePfn s.db with
    | some (pfn, db) => s.mark db pfn .located
    | none => s
  | .allocateEx =>
    match miAllocatePfnEx s.db with
    | some (pfn, db, _) => s.mark db pfn .located
    | none => s
  | .free pfn => s.mark (miFreePfn s.db pfn) pfn .located
  | .insertStandby pfn => s.mark (miInsertPageInStandbyList s.db pfn) pfn .located
  | .insertModified pfn => s.mark (miInsertPageInModifiedList s.db pfn) pfn .located
  | .removeStandby pfn => s.mark (miRemovePageFromStandbyList s.db pfn) pfn .loose
  | .removeModified pfn => s.mark (miRemovePageFromModifiedList s.db pfn) pfn .loose
  | .write success =>
    match miGetModifiedPageForWrite s.db with
    | some ((pfn, _, _), db) => s.mark (miCompleteModifiedPageWrite db pfn success) pfn .located
    | none => s
  | .makeTransition pfn isDirty => s.mark (miMakeTransitionPage s.db pfn isDirty) pfn .located
  | .resolveTransition pfn =>
    s.mark (miResolveTransitionPage s.db pfn) pfn <|
      match listAt (s.db.locationOf pfn) with
      | some _ => .located
      | none => s.standing pfn
  | .pin pfn => s.mark (miPinPfn s.db pfn) pfn (s.pinStanding pfn)
  | .unpin pfn => s.mark (miUnpinPfn s.db pfn) pfn (s.standing pfn)

end Tracked

def ListOp.Allowed (s : Tracked) : ListOp → Prop
  | .insert _ pfn | .free pfn | .insertStandby pfn | .insertModified pfn | .makeTransition pfn _ =>
    ∀ L, ¬ OnList s.db L pfn
  | .remove list pfn => OnList s.db list pfn
  | .removeStandby pfn => OnList s.db .standby pfn
  | .removeModified pfn => OnList s.db .modified pfn
  | .unlink pfn | .resolveTransition pfn =>
    ∀ L : PageList, s.db.locationOf pfn = L.name → OnList s.db L pfn
  | .removeAny _ | .allocate | .allocateEx | .write _ | .pin _ | .unpin _ => True

structure Tracked.Exact (s : Tracked) (c : PageList → List ℕ) : Prop where
  lists : Lists s.db c
  located : ∀ p, s.db.isValidPfn p → s.standing p = .located → ∀ L : PageList, p ∈ c L ↔ s.db.locationOf p = L.name
  loose : ∀ p, s.db.isValidPfn p → s.standing p = .loose → ∀ L, p ∉ c L

def Tracked.WellFormed (s : Tracked) : Prop := ∃ c, s.Exact c

theorem listAt_eq_some {l : MmLists} {L : PageList} : Tracked.listAt l = some L ↔ l = L.name := by
  cases l <;> cases L <;> simp [Tracked.listAt, PageList.name]

theorem listAt_eq_none {l : MmLists} : Tracked.listAt l = none ↔ ∀ L : PageList, l ≠ L.name := by
  rw [Option.eq_none_iff_forall_not_mem]
  exact forall_congr' fun L => not_congr listAt_eq_some

namespace Tracked.Exact

variable {s : Tracked} {db : PfnState} {c c' : PageList → List ℕ} {L : PageList} {p : ℕ} {t : Standing}

section
variable (h : s.Exact c)
include h

theorem mark (hl : Lists db c') (hsame : SamePages s.db db)
    (hmem : ∀ q M, q ≠ p → (q ∈ c' M ↔ q ∈ c M)) (hloc : ∀ q, q ≠ p → db.locationOf q = s.db.locationOf q)
    (hlocated : s.db.isValidPfn p → t = .located → ∀ M : PageList, p ∈ c' M ↔ db.locationOf p = M.name)
    (hloose : s.db.isValidPfn p → t = .loose → ∀ M, p ∉ c' M) : (s.mark db p t).Exact c' where
  lists := hl
  located q hq ht M := by
    by_cases hqp : q = p
    · subst hqp
      exact hlocated (hsame.valid_iff.1 hq) (by simpa [Tracked.mark] using ht) M
    · have ht' : s.standing q = .located := by simpa [Tracked.mark, hqp] using ht
      rw [hmem q M hqp, h.located q (hsame.valid_iff.1 hq) ht']
      simp only [Tracked.mark, hloc q hqp]
  loose q hq ht M := by
    by_cases hqp : q = p
    · subst hqp
      exact hloose (hsame.valid_iff.1 hq) (by simpa [Tracked.mark] using ht) M
    · have ht' : s.standing q = .loose := by simpa [Tracked.mark, hqp] using ht
      rw [hmem q M hqp]
      exact h.loose q (hsame.valid_iff.1 hq) ht' M

theorem entered (he : Entered s.db db c L p) (hmem : ∀ M, p ∉ c M) :
    (s.mark db p .located).Exact (update c L (p :: c L)) := by
  refine h.mark he.lists he.samePages (fun q M hq => ?_) (fun q hq => ?_) (fun _ _ M => ?_) (fun _ ht => by cases ht)
  · simp [he.mem_iff, hq]
  · rw [he.location, update_of_ne hq]
  · rw [he.mem_iff, he.location, update_self]
    constructor
    · rintro (⟨rfl, -⟩ | hp)
      · rfl
      · exact absurd hp (hmem M)
    · exact fun hn => Or.inl ⟨(PageList.name_injective hn).symm, rfl⟩

theorem enter (he : s.db.isValidPfn p → Entered s.db db c L p)
    (hu : ¬ s.db.isValidPfn p → Untouched s.db db) (hmem : ∀ M, p ∉ c M) :
    (s.mark db p .located).WellFormed := by
  by_cases hp : s.db.isValidPfn p
  · exact ⟨_, h.entered (he hp) hmem⟩
  · have hu := hu hp
    exact ⟨c, h.mark (hu.lists h.lists) hu.samePages (fun _ _ _ => Iff.rfl) (fun q _ => congrFun hu.location q)
      (fun hv => absurd hv hp) (fun hv => absurd hv hp)⟩

theorem left (hl : Left s.db db c L p s.db.locationOf) :
    (s.mark db p .loose).Exact (update c L ((c L).erase p)) := by
  refine h.mark hl.lists hl.samePages (fun q M hq => ?_) (fun q _ => ?_) (fun _ ht => by cases ht) (fun _ _ M hp => ?_)
  · simp [hl.mem_iff h.lists, hq]
  · rw [hl.location]
  · exact ((hl.mem_iff h.lists).1 hp).2 rfl

theorem taken (hl : Left s.db db c L p (update s.db.locationOf p .activeAndValid)) :
    (s.mark db p .located).Exact (update c L ((c L).erase p)) := by
  refine h.mark hl.lists hl.samePages (fun q M hq => ?_) (fun q hq => ?_) (fun _ _ M => ?_) (fun _ ht => by cases ht)
  · simp [hl.mem_iff h.lists, hq]
  · rw [hl.location, update_of_ne hq]
  · rw [hl.mem_iff h.lists, hl.location, update_self]
    exact ⟨fun hp => absurd rfl hp.2, fun hn => absurd hn (PageList.active_ne_name M)⟩

theorem moved (hm : Moved s.db db c c' L p) : (s.mark db p .located).Exact c' := by
  refine h.mark hm.lists hm.samePages (fun q M hq => ?_) (fun q hq => ?_) (fun _ _ M => ?_) (fun _ ht => by cases ht)
  · simp [hm.mem_iff, hq]
  · rw [hm.location, update_of_ne hq]
  · rw [hm.mem_iff, hm.location, update_self]
    constructor
    · rintro (⟨rfl, -⟩ | hp)
      · rfl
      · exact absurd rfl hp.2
    · exact fun hn => Or.inl ⟨(PageList.name_injective hn).symm, rfl⟩

theorem relocate {f : Mmpfn → Mmpfn} (hf : ∀ e, (f e).flink = e.flink)
    (hb : ∀ e, (f e).blink = e.blink)
    (hlocated : s.db.isValidPfn p → t = .located →
      ∀ M : PageList, p ∈ c M ↔ (f (s.db.entries p)).pageLocation = M.name)
    (hloose : s.db.isValidPfn p → t = .loose → ∀ M, p ∉ c M) : (s.mark (s.db.modifyEntry p f) p t).Exact c := by
  refine h.mark (h.lists.modifyEntry hf hb) (.modifyEntry s.db p f) (fun _ _ _ => Iff.rfl) (fun q hq => ?_)
    (fun hp ht M => ?_) hloose
  · exact congrArg Mmpfn.pageLocation (entries_modifyEntry_of_ne hq f)
  · rw [locationOf_modifyEntry hp, update_self]
    exact hlocated hp ht M

theorem notMem_of_listAt_none (hat : Tracked.listAt (s.db.locationOf p) = none)
    (hp : s.db.isValidPfn p) (ht : s.standing p = .located) : ∀ M, p ∉ c M := fun M hM =>
  listAt_eq_none.1 hat M ((h.located p hp ht M).1 hM)

theorem unlink (hok : ∀ M : PageList, s.db.locationOf p = M.name → p ∈ c M) :
    (s.step (.unlink p)).WellFormed := by
  simp only [Tracked.step]
  cases hat : Tracked.listAt (s.db.locationOf p) with
  | some M =>
    have hloc := listAt_eq_some.1 hat
    exact ⟨_, h.left (left_miUnlinkPageFromList h.lists (hok M hloc) hloc)⟩
  | none =>
    rw [miUnlinkPageFromList_of_not_located (listAt_eq_none.1 hat)]
    exact ⟨c, h.mark h.lists (.refl _) (fun _ _ _ => Iff.rfl) (fun _ _ => rfl) (h.located p) (h.loose p)⟩

theorem resolve (hok : ∀ M : PageList, s.db.locationOf p = M.name → p ∈ c M) :
    (s.step (.resolveTransition p)).WellFormed := by
  simp only [Tracked.step]
  cases hat : Tracked.listAt (s.db.locationOf p) with
  | some M =>
    have hloc := listAt_eq_some.1 hat
    exact ⟨_, h.taken (left_miResolveTransitionPage h.lists (hok M hloc) hloc)⟩
  | none =>
    unfold miResolveTransitionPage
    rw [miUnlinkPageFromList_of_not_located (listAt_eq_none.1 hat)]
    refine ⟨c, h.relocate (fun _ => rfl) (fun _ => rfl) (fun hp ht M => ?_) (h.loose p)⟩
    exact ⟨fun hM => absurd hM (h.notMem_of_listAt_none hat hp ht M), fun hn => absurd hn (PageList.active_ne_name M)⟩

theorem pin : (s.step (.pin p)).WellFormed := by
  refine ⟨c, h.relocate Mmpfn.flink_pin Mmpfn.blink_pin (fun hp ht M => ?_) (fun hp ht => ?_)⟩
  · -- still located, so the pin did not relocate the page
    have hstays : s.standing p = .located ∧ (s.db.entries p).pin.pageLocation = s.db.locationOf p := by
      rw [Mmpfn.pageLocation_pin]
      unfold Tracked.pinStanding PfnState.locationOf at *
      cases hs : s.standing p <;> cases hl : (s.db.entries p).pageLocation <;>
        simp_all [Tracked.listAt]
    rw [hstays.2]
    exact h.located p hp hstays.1 M
  · refine h.loose p hp ?_
    unfold Tracked.pinStanding at ht
    split at ht <;> simp_all

theorem unpin : (s.step (.unpin p)).WellFormed :=
  ⟨c, h.relocate (fun _ => rfl) (fun _ => rfl) (h.located p) (h.loose p)⟩

end

end Tracked.Exact

theorem Tracked.step_wellFormed {s : Tracked} {op : ListOp} (h : s.WellFormed) (hok : op.Allowed s) :
    (s.step op).WellFormed := by
  obtain ⟨c, h⟩ := h
  have hlists := h.lists
  have hloose : ∀ {p}, (∀ L, ¬ OnList s.db L p) → ∀ M, p ∉ c M := fun hp M hM => hp M (hlists.onList_iff.2 hM)
  cases op with
  | insert L p =>
    exact h.enter (fun hp => entered_miInsertPageInList hlists hp (hloose hok))
      (fun hp => untouched_miInsertPageInList hp L) (hloose hok)
  | free p =>
    exact h.enter (fun hp => entered_miFreePfn hlists hp (hloose hok)) untouched_miFreePfn (hloose hok)
  | insertStandby p =>
    exact h.enter (fun hp => entered_miInsertPageInStandbyList hlists hp (hloose hok))
      untouched_miInsertPageInStandbyList (hloose hok)
  | insertModified p =>
    exact h.enter (fun hp => entered_miInsertPageInModifiedList hlists hp (hloose hok))
      untouched_miInsertPageInModifiedList (hloose hok)
  | makeTransition p isDirty =>
    refine h.enter (fun hp => entered_miMakeTransitionPage hlists hp (hloose hok) isDirty) (fun hp => ?_) (hloose hok)
    cases isDirty with
    | false => exact untouched_miInsertPageInStandbyList hp
    | true => exact untouched_miInsertPageInModifiedList hp
  | remove L p => exact ⟨_, h.left (left_miRemovePageFromList hlists (hlists.onList_iff.1 hok))⟩
  | removeStandby p | removeModified p =>
    exact ⟨_, h.left ((left_miRemovePageFromList hlists (hlists.onList_iff.1 hok)).counters _ _ _)⟩
  | unlink p => exact h.unlink fun M hM => hlists.onList_iff.1 (hok M hM)
  | resolveTransition p => exact h.resolve fun M hM => hlists.onList_iff.1 (hok M hM)
  | removeAny L =>
    simp only [Tracked.step]
    split
    · rename_i p db hr
      exact ⟨_, h.left (miRemoveAnyPage_some hlists hr).2.2⟩
    · exact ⟨c, h⟩
  | allocate =>
    simp only [Tracked.step]
    split
    · rename_i p db hr
      obtain ⟨L, -, ht⟩ := miAllocatePfn_some hlists hr
      exact ⟨_, h.taken ht.left⟩
    · exact ⟨c, h⟩
  | allocateEx =>
    simp only [Tracked.step]
    split
    · rename_i p db clear hr
      obtain ⟨L, -, ht, -⟩ := miAllocatePfnEx_some hlists hr
      exact ⟨_, h.taken ht.left⟩
    · exact ⟨c, h⟩
  | write success =>
    simp only [Tracked.step]
    split
    · rename_i p original pteAddress db hr
      obtain ⟨c', hm⟩ := moved_write hlists hr success
      exact ⟨c', h.moved hm⟩
    · exact ⟨c, h⟩
  | pin p => exact h.pin
  | unpin p => exact h.unpin

theorem Tracked.wellFormed_of_empty {σ : PfnState} (hempty : ∀ L, σ.heads L = {}) (hend : σ.endPfn ≤ usizeMax) :
    Tracked.WellFormed ⟨σ, fun _ => .loose⟩ := by
  refine ⟨fun _ => [], ⟨?_, ?_, ?_, ?_, ?_, hend⟩, ?_, ?_⟩
  · intro L; simp [walk_nil, hempty]
  · intro L; simp [walk_nil, hempty]
  · intro L; simp [hempty]
  · simp
  · simp
  · simp
  · simp

/-- From empty lists, in every run of allowed operations, the five lists are well formed and the
locations as exact as the standings say. -/
theorem lists_wellFormed {σ : PfnState} (hempty : ∀ L, σ.heads L = {}) (hend : σ.endPfn ≤ usizeMax)
    {ops : List ListOp} (hok : EveryStep Tracked.step (fun s op => op.Allowed s) ⟨σ, fun _ => .loose⟩ ops) :
    EveryState Tracked.step Tracked.WellFormed ⟨σ, fun _ => .loose⟩ ops :=
  everyState_invariant (fun _ _ h hop => Tracked.step_wellFormed h hop) (Tracked.wellFormed_of_empty hempty hend) hok

theorem onList_iff {σ : PfnState} {p : ℕ} (c : PageList → List ℕ)
    (hwalks : ∀ L, Walk listHead σ.flinkOf (σ.heads L).flink (c L)) (L : PageList) : OnList σ L p ↔ p ∈ c L :=
  ⟨fun ⟨_, hwalk, hp⟩ => (hwalks L).unique hwalk ▸ hp, fun hp => ⟨c L, hwalks L, hp⟩⟩

theorem not_onList {σ : PfnState} {p : ℕ} (c : PageList → List ℕ)
    (hc : ∀ L, Walk listHead σ.flinkOf (σ.heads L).flink (c L) ∧ p ∉ c L) (L : PageList) : ¬ OnList σ L p := fun h =>
  (hc L).2 ((onList_iff c (fun L => (hc L).1) L).1 h)

/-- Page 1 goes from between two free pages to the standby list and is pinned there; page 3 is written out; page 2
is allocated, put in transition and taken back. -/
def listRound : List ListOp :=
  [.insert .free 0, .insert .free 1, .insert .free 2, .unlink 1, .insertStandby 1, .insertModified 3, .pin 1,
    .write true, .allocate, .makeTransition 2 true, .unpin 1, .resolveTransition 2, .remove .free 0]

theorem lists_wellFormed_listRound :
    EveryState Tracked.step Tracked.WellFormed ⟨PfnState.init 0 4, fun _ => .loose⟩ listRound := by
  have hlinked : ∀ {σ : PfnState} {p : ℕ} (c : PageList → List ℕ),
      (∀ L, Walk listHead σ.flinkOf (σ.heads L).flink (c L) ∧ (σ.locationOf p = L.name → p ∈ c L)) →
        ∀ L : PageList, σ.locationOf p = L.name → OnList σ L p := fun c hc L h =>
    (onList_iff c (fun L => (hc L).1) L).2 ((hc L).2 h)
  refine lists_wellFormed (fun _ => rfl) (by decide) ⟨?_, ?_, ?_, ?_, ?_, ?_, trivial, trivial, trivial, ?_, trivial, ?_, ?_, trivial⟩
  · exact not_onList (fun _ => []) fun L => by cases L <;> decide +kernel
  · exact not_onList (fun | .free => [0] | _ => []) fun L => by cases L <;> decide +kernel
  · exact not_onList (fun | .free => [1, 0] | _ => []) fun L => by cases L <;> decide +kernel
  · exact hlinked (fun | .free => [2, 1, 0] | _ => []) fun L => by cases L <;> decide +kernel
  · exact not_onList (fun | .free => [2, 0] | _ => []) fun L => by cases L <;> decide +kernel
  · exact not_onList (fun | .free => [2, 0] | .standby => [1] | _ => []) fun L => by cases L <;> decide +kernel
  · exact not_onList (fun | .free => [0] | .standby => [3, 1] | _ => []) fun L => by cases L <;> decide +kernel
  · exact hlinked (fun | .free => [0] | .standby => [3, 1] | .modified => [2] | _ => []) fun L => by cases L <;> decide +kernel
  · exact (onList_iff (fun | .free => [0] | .standby => [3, 1] | _ => []) (fun L => by cases L <;> decide +kernel) .free).2
      (by decide)

def insertRemove : List ListOp := [.insert .free 0, .remove .free 0]

theorem insertRemove_allowed :
    EveryStep Tracked.step (fun s op => op.Allowed s) ⟨PfnState.init 0 1, fun _ => .loose⟩ insertRemove := by
  refine ⟨?_, ?_, trivial⟩
  · rintro L ⟨xs, hw, hp⟩
    obtain rfl : xs = [] := hw.unique (walk_nil.2 rfl)
    cases hp
  · exact ⟨[0], ⟨⟨rfl, rfl⟩, by decide⟩, by simp⟩

/-- The page is on no list, and its location still names the free list. -/
theorem location_after_remove_not_exact :
    EveryStep Tracked.step (fun s op => op.Allowed s) ⟨PfnState.init 0 1, fun _ => .loose⟩ insertRemove ∧
      ¬ ∃ c, Lists (run Tracked.step ⟨PfnState.init 0 1, fun _ => .loose⟩ insertRemove).db c ∧
        ∀ p, (run Tracked.step ⟨PfnState.init 0 1, fun _ => .loose⟩ insertRemove).db.isValidPfn p →
          ∀ L : PageList, p ∈ c L ↔
            (run Tracked.step ⟨PfnState.init 0 1, fun _ => .loose⟩ insertRemove).db.locationOf p = L.name := by
  refine ⟨insertRemove_allowed, ?_⟩
  rintro ⟨c, hlists, hexact⟩
  have hfree : c .free = [] := (hlists.flinks .free).unique (walk_nil.2 rfl)
  have hmem : 0 ∈ c .free := (hexact 0 (by decide) .free).2 rfl
  rw [hfree] at hmem
  cases hmem

end XenOS.Mm
