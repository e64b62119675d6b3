import XenOS.Ob.Counts

/-! Reference and handle counts over runs, with the references that callers hold: a creation gives
one, an insertion that fails takes it. -/

namespace XenOS.Ob

open General Ex Pi
open Option (bind_eq_some_iff isSome_iff_exists)

structure Ledger (P : Type) where
  state : ObState P
  held : ℕ → ℤ

namespace ObState

variable {P : Type} {s s' : ObState P} {o : ℕ} {h d : ℕ → ℤ}

/-! ### Exact counts -/

/-- Every handle count is the number of entries, every pointer count these and the references held,
the types' totals are right; an object is queued once, when its last reference goes, and a deleted
one is named nowhere. -/
structure Exact (s : ObState P) (held : ℕ → ℤ) : Prop where
  handles : ∀ o x, s.counts o = some x → o ∉ s.reaperList → x.handles = s.handlesTo o
  references : ∀ o x, s.counts o = some x → x.pointers = s.handlesTo o + held o
  totals : ∀ t, (s.types t).totalNumberOfHandles = s.typeHandles t
  finiteObjects : {o | (s.headers o).isSome}.Finite
  queued : ∀ o, o ∈ s.reaperList ↔ ∃ x, s.counts o = some x ∧ x.pointers = 0
  nodup : s.reaperList.Nodup
  named : ∀ o, o ≠ 0 → s.counts o = none → s.handlesTo o = 0

theorem Balanced.exact (hb : Balanced s h 0) : Exact s h where
  handles o x hx hq := ((hb.settled o).handles x hx hq).trans (add_zero _)
  references o := (hb.settled o).references
  totals := hb.totals
  finiteObjects := hb.finiteObjects
  queued o := (hb.settled o).queued
  nodup := hb.nodup
  named o ho hgone := ((hb.settled o).gone hgone).2 ho

variable {held : ℕ → ℤ}

theorem Balanced.not_exact (hb : Balanced s h d) (ho : (s.headers o).isSome) (hne : h o ≠ held o) :
    ¬ Exact s held := by
  intro hexact
  rw [← counts_isSome] at ho
  obtain ⟨x, hx⟩ := isSome_iff_exists.1 ho
  have h1 := (hb.settled o).references x hx
  have h2 := hexact.references o x hx
  omega

theorem Balanced.not_exact_handles (hb : Balanced s h d) (hlive : s.Live o) (hne : d o ≠ 0) :
    ¬ Exact s held := by
  intro hexact
  obtain ⟨x, hx⟩ := isSome_iff_exists.1 (counts_isSome.trans hlive.1)
  have h1 := (hb.settled o).handles x hx hlive.2
  have h2 := hexact.handles o x hx hlive.2
  omega

/-! ### Steps that the accounts do not see -/

theorem modifyHeader_counts (s : ObState P) (o : ℕ) {f : ObjectHeader → ObjectHeader}
    (hf : ∀ header, (f header).counts = header.counts) : (s.modifyHeader o f).counts = s.counts := by
  funext b
  unfold modifyHeader
  split
  · rfl
  · rename_i header hheader
    by_cases hbo : b = o
    · subst hbo
      rw [counts, setHeader_headers, Function.update_self, counts, hheader]
      exact congrArg some (hf header)
    · rw [counts, setHeader_headers, Function.update_of_ne hbo]
      rfl

theorem modifyHeader_types (s : ObState P) (o : ℕ) (f : ObjectHeader → ObjectHeader) :
    (s.modifyHeader o f).types = s.types := by
  unfold modifyHeader
  split <;> rfl

theorem freeCreateInfo_counts (s : ObState P) (o : ℕ) : (s.freeCreateInfo o).counts = s.counts :=
  modifyHeader_counts s o fun _ => rfl

theorem freeCreateInfo_reaper (s : ObState P) (o : ℕ) : (s.freeCreateInfo o).reaperList = s.reaperList :=
  modifyHeader_reaper s o _

theorem Balanced.freeCreateInfo (hb : Balanced s h d) (o : ℕ) : Balanced (s.freeCreateInfo o) h d :=
  hb.congr (.freeCreateInfo s o) (freeCreateInfo_counts s o) (freeCreateInfo_reaper s o)
    fun t => by rw [ObState.freeCreateInfo, modifyHeader_types]

theorem Balanced.assignSecurity (hb : Balanced s h d) (o : ℕ) (assigned : Option Se.SecurityDescriptor) :
    Balanced (s.assignSecurity o assigned) h d :=
  hb.congr (.assignSecurity s o assigned) (modifyHeader_counts s o fun _ => by split <;> rfl) (modifyHeader_reaper s o _)
    fun t => by rw [ObState.assignSecurity, modifyHeader_types]

theorem Balanced.setDirectory (hb : Balanced s h d) (o : ℕ) (directory : ObjectDirectory) :
    Balanced (s.setDirectory o directory) h d := hb.congr (.setDirectory s o directory) rfl rfl fun _ => rfl

theorem rollback_cases (s : ObState P) (parent : Option ℕ) (o : ℕ) (attributes : BitVec 32) :
    s.rollback parent o attributes = s ∨
      ∃ parent' directory, s.rollback parent o attributes = s.setDirectory parent' directory := by
  unfold rollback
  split
  · exact Or.inl rfl
  · rename_i parent
    unfold obpRemoveNamespaceEntry
    split
    · dsimp only
      split
      · exact Or.inl rfl
      · exact Or.inr ⟨parent, _, rfl⟩
    · exact Or.inl rfl

theorem Balanced.rollback (hb : Balanced s h d) (parent : Option ℕ) (o : ℕ) (attributes : BitVec 32) :
    Balanced (s.rollback parent o attributes) h d := by
  rcases rollback_cases s parent o attributes with heq | ⟨parent', directory, heq⟩
  · rwa [heq]
  · rw [heq]
    exact hb.setDirectory parent' directory

theorem Balanced.insertIntoDirectory (hb : Balanced s h d) (parent object : ℕ) (entryAllocated : Bool) :
    Balanced (s.insertObjectIntoDirectory parent object entryAllocated).2 h d := by
  unfold insertObjectIntoDirectory
  split
  · dsimp only
    split
    · exact hb
    · split
      · exact hb
      · exact hb.setDirectory parent _
  · exact hb

/-! ### Objects that are queued already -/

section Counted
variable {x : Counts}

theorem header_of_counts (hx : s.counts o = some x) : ∃ header, s.headers o = some header ∧ header.counts = x :=
  Option.map_eq_some_iff.1 hx

theorem setHeader_counts (s : ObState P) (o : ℕ) (header : ObjectHeader) :
    (s.setHeader o header).counts o = some header.counts := by
  rw [counts, setHeader_headers, Function.update_self]
  rfl

section
variable (hx : s.counts o = some x)
include hx

theorem reference_counts :
    (s.obReferenceObject o).counts o = some ⟨x.pointers + 1, x.handles, x.type⟩ := by
  obtain ⟨header, hheader, rfl⟩ := header_of_counts hx
  rw [obReferenceObject, modifyHeader_of_some hheader, setHeader_counts]
  rfl

theorem addHandles_counts (n : ℤ) :
    (s.addHandles o n).counts o = some ⟨x.pointers, x.handles + n, x.type⟩ := by
  obtain ⟨header, hheader, rfl⟩ := header_of_counts hx
  unfold addHandles
  rw [hheader]
  exact setHeader_counts s o _

theorem dereference_pointers (hguard : x.handles ≤ x.pointers) :
    ∃ y, (s.obDereferenceObject o).counts o = some y ∧ y.pointers = x.pointers - 1 := by
  obtain ⟨header, hheader, rfl⟩ := header_of_counts hx
  have hguard : header.handleCountOrNextToFree ≤ header.pointerCount := hguard
  by_cases hlast : header.pointerCount = 1
  · rw [dereference_of_last hheader (by omega) hlast]
    refine ⟨⟨0, pointerAsIsize (s.reaperList.headD 0), header.typePtr⟩, ?_, ?_⟩
    · show (Function.update s.headers o (some _) o).map _ = _
      rw [Function.update_self]
      rfl
    · show (0 : ℤ) = header.pointerCount - 1
      omega
  · unfold obDereferenceObject
    rw [hheader]
    dsimp only
    rw [if_neg (by omega), if_neg (by omega)]
    exact ⟨_, setHeader_counts s o _, rfl⟩

theorem dereference_queues (hguard : x.handles ≤ 1) (hlast : x.pointers = 1) :
    (s.obDereferenceObject o).reaperList = o :: s.reaperList := by
  obtain ⟨header, hheader, rfl⟩ := header_of_counts hx
  rw [dereference_of_last hheader hguard hlast]

theorem isSome_of_counts : (s.headers o).isSome := by
  rw [← counts_isSome, hx]
  rfl

end

theorem Balanced.isSome_of_held (hb : Balanced s h d) (hheld : 1 ≤ h o) : (s.headers o).isSome := by
  cases hnone : s.counts o with
  | none =>
    have := ((hb.settled o).gone hnone).1
    omega
  | some x => exact isSome_of_counts hnone

theorem add_single_self (h : ℕ → ℤ) (o : ℕ) : (h + single o 1 : ℕ → ℤ) o = h o + 1 := by rw [Pi.add_apply, single_eq_same]

theorem Balanced.not_exact_surplus (hb : Balanced s (h + single o 1) d) (hnonneg : 0 ≤ h o) : ¬ Exact s h := by
  refine hb.not_exact (hb.isSome_of_held (o := o) ?_) ?_ <;> rw [add_single_self] <;> omega

theorem Balanced.live_of_held (hb : Balanced s h d) (hheld : 1 ≤ h o) : s.Live o := by
  refine ⟨hb.isSome_of_held hheld, fun hq => ?_⟩
  obtain ⟨x, hx, hzero⟩ := (hb.settled o).queued.1 hq
  have hreferences := (hb.settled o).references x hx
  have hentries := handlesTo_nonneg s o
  omega

theorem Balanced.queued_counts (hb : Balanced s h d) (hsome : (s.headers o).isSome) (hlive : ¬ s.Live o) :
    o ∈ s.reaperList ∧ ∃ x, s.counts o = some x ∧ x.pointers = 0 ∧ x.handles ≤ 0 := by
  have hq : o ∈ s.reaperList := by
    by_contra hq
    exact hlive ⟨hsome, hq⟩
  obtain ⟨x, hx, hzero⟩ := (hb.settled o).queued.1 hq
  exact ⟨hq, x, hx, hzero, (hb.settled o).link x hx hq⟩

variable [DecidableEq P] {c : Caller P} {id : Option P} {table : HandleTable} {access : Se.AccessMask} {flags : BitVec 32}

variable (c id table access flags) in
theorem obpMakeHandle_counts (ho : o ≠ 0) (hx : s.counts o = some x) :
    (s.obpMakeHandle c id table o access flags).2.reaperList = s.reaperList ∧
      ∃ n : ℤ, n ≤ 1 ∧
        (s.obpMakeHandle c id table o access flags).2.counts o = some ⟨x.pointers + 1, x.handles + n, x.type⟩ := by
  have hreference := reference_counts hx
  have hadded : (s.handleMade c id table o access flags).counts o = some ⟨x.pointers + 1, x.handles + 1, x.type⟩ := by
    have hbefore : ((s.obReferenceObject o).setTable id
        (exCreateHandleEx c.pool.blocks table o access flags).2).counts o = some ⟨x.pointers + 1, x.handles, x.type⟩ :=
      hreference
    exact addHandles_counts hbefore 1
  have hreaper : (s.handleMade c id table o access flags).reaperList = s.reaperList := by
    rw [handleMade, addHandles_reaper]
    exact reference_reaper s o
  cases htaking : table.taking c.pool.blocks with
  | none =>
    rw [obpMakeHandle_full ho htaking]
    exact ⟨reference_reaper s o, 0, by decide, by rw [add_zero]; exact hreference⟩
  | some t1 =>
    rw [obpMakeHandle_taken ho htaking]
    split_ifs
    · refine ⟨(addHandles_reaper _ o _).trans hreaper, 0, by decide, ?_⟩
      have hback := addHandles_counts hadded (-1)
      rw [add_neg_cancel_right] at hback
      rwa [add_zero]
    · exact ⟨hreaper, 1, le_refl 1, hadded⟩

theorem Balanced.live_obpMakeHandle (hb : Balanced s h d) (hlive : s.Live o) :
    (s.obpMakeHandle c id table o access flags).2.Live o := by
  obtain ⟨x, hx⟩ := isSome_iff_exists.1 (counts_isSome.trans hlive.1)
  obtain ⟨hreaper, n, -, hcounts⟩ := obpMakeHandle_counts c id table access flags (hb.nonzero hx) hx
  exact ⟨isSome_of_counts hcounts, by rw [hreaper]; exact hlive.2⟩

def afterHandle (s : ObState P) (c : Caller P) (id : Option P) (table : HandleTable) (object : ℕ) (access : Se.AccessMask)
    (flags : BitVec 32) : ObState P :=
  match s.obpMakeHandle c id table object access flags with
  | (.full, s) => s.obDereferenceObject object
  | (.refused _, s) => s.obDereferenceObject object
  | (.made _, s) => s

theorem afterHandle_of_not_made (hnot : ∀ handle, (s.obpMakeHandle c id table o access flags).1 ≠ .made handle) :
    s.afterHandle c id table o access flags =
      (s.obpMakeHandle c id table o access flags).2.obDereferenceObject o := by
  unfold afterHandle
  split <;> rename_i heq
  · rw [heq]
  · rw [heq]
  · exact absurd (by rw [heq]) (hnot _)

theorem afterHandle_of_made {handle : ℕ} (hmade : s.obpMakeHandle c id table o access flags = (.made handle, s')) :
    s.afterHandle c id table o access flags = s' := by
  unfold afterHandle
  rw [hmade]

theorem Balanced.afterHandle (hb : Balanced s h 0) (hlive : s.Live o) (htable : s.tables id = some table)
    (hleaks : ¬ s.Leaks c table o) (access : Se.AccessMask) (flags : BitVec 32) : Balanced (s.afterHandle c id table o access flags) h 0 := by
  rcases hb.makeHandle c access flags hlive htable with
    ⟨-, -, hnot, hback⟩ | ⟨-, hmade, hback⟩ | ⟨h, -⟩
  · rw [afterHandle_of_not_made hnot]
    have hlast := hback.dereference (hb.live_obpMakeHandle hlive)
    rw [add_sub_cancel_right, Pi.add_apply, single_eq_same] at hlast
    have hnonneg := (hb.settled o).nonneg
    exact hlast (by omega) (by show (0 : ℤ) ≤ _; omega) (Or.inl rfl)
  · rw [afterHandle_of_made hmade]
    exact hback
  · exact absurd h hleaks

theorem Balanced.not_exact_afterHandle (hb : Balanced s h d) (hsome : (s.headers o).isSome)
    (hlive : ¬ s.Live o) : ¬ Exact (s.afterHandle c id table o access flags) held := by
  intro hexact
  obtain ⟨hq, x, hx, hzero, hlink⟩ := hb.queued_counts hsome hlive
  obtain ⟨hreaper, n, hn, hcounts⟩ := obpMakeHandle_counts c id table access flags (hb.nonzero hx) hx
  by_cases hmade : ∃ handle, (s.obpMakeHandle c id table o access flags).1 = .made handle
  · obtain ⟨handle, hmade⟩ := hmade
    rw [afterHandle_of_made (Prod.ext hmade rfl)] at hexact
    obtain ⟨y, hy, hyzero⟩ := (hexact.queued o).1 (by rw [hreaper]; exact hq)
    rw [hcounts] at hy
    cases hy
    dsimp only at hyzero
    omega
  · rw [afterHandle_of_not_made fun handle h => hmade ⟨handle, h⟩] at hexact
    have hnodup := hexact.nodup
    rw [dereference_queues hcounts (by dsimp only; omega) (by dsimp only; omega), hreaper] at hnodup
    exact (List.nodup_cons.1 hnodup).1 hq

omit [DecidableEq P] in
theorem not_addsEntry_of_leaks (hleaks : s.Leaks c table o) : ¬ s.AddsEntry c table o := by
  intro hadds
  obtain ⟨⟨⟨t1, h1, hlt⟩, -⟩, ⟨t2, h2, hle⟩, -⟩ := And.intro hadds hleaks
  have heq : t1 = t2 := Option.some.inj ((show table.taking c.pool.blocks = some t1 from h1).symm.trans h2)
  rw [heq] at hlt
  exact absurd hlt (Nat.not_lt.2 hle)

theorem Balanced.afterHandle_of_leaks (hb : Balanced s h 0) (hlive : s.Live o) (htable : s.tables id = some table)
    (hleaks : s.Leaks c table o) (access : Se.AccessMask) (flags : BitVec 32) :
    (∃ handle, (s.obpMakeHandle c id table o access flags).1 = .made handle) ∧
      Balanced (s.afterHandle c id table o access flags) (h + single o 1) (0 + single o 1) := by
  rcases hb.makeHandle c access flags hlive htable with ⟨-, hnot, -⟩ | ⟨hadds, -⟩ | ⟨-, hmade, hback⟩
  · exact absurd hleaks hnot
  · exact absurd hadds (not_addsEntry_of_leaks hleaks)
  · rw [afterHandle_of_made hmade]
    exact ⟨⟨_, by rw [hmade]⟩, hback⟩

end Counted

/-! ### Opens and duplications -/

section Opens
variable [DecidableEq P]

def openTable (s : ObState P) (c : Caller P) (object : ℕ) (attributes : BitVec 32) (accessState : Option AccessState)
    (desiredAccess : Se.AccessMask) (objectType : Option ℕ) (userMode : Bool) : Option (Option (Option P × HandleTable)) :=
  match s.headers object with
  | none => none
  | some header =>
    if objectType.any (· ≠ header.typePtr) then none
    else
      match s.openAccess header (accessState.getD ⟨c.subject, 0⟩) desiredAccess userMode with
      | none => none
      | some _ =>
        let table := s.tableFor (attributes &&& objKernelHandle ≠ 0) c.process
        some (if table.isNone && !userMode then s.tableFor true c.process else table)

def OpenKeeps (s : ObState P) (c : Caller P) (object : ℕ) (attributes : BitVec 32) (accessState : Option AccessState)
    (desiredAccess : Se.AccessMask) (objectType : Option ℕ) (userMode : Bool) : Prop :=
  ∀ target, s.openTable c object attributes accessState desiredAccess objectType userMode = some target →
    s.Live object ∧ ∀ id table, target = some (id, table) → ¬ s.Leaks c table object

variable (c : Caller P) (object : ℕ) (attributes : BitVec 32) (accessState : Option AccessState)
  (desiredAccess : Se.AccessMask) (objectType : Option ℕ) (userMode : Bool)

theorem open_cases (s : ObState P) :
    let s' := (s.obOpenObjectByPointer c object attributes accessState desiredAccess objectType userMode).2
    let target := s.openTable c object attributes accessState desiredAccess objectType userMode
    (target = none ∧ s' = s) ∨
      (s.headers object).isSome ∧
        (target = some none ∧ s' = (s.obReferenceObject object).obDereferenceObject object ∨
          ∃ id table access flags, target = some (some (id, table)) ∧ s.tables id = some table ∧
            s' = s.afterHandle c id table object access flags) := by
  unfold obOpenObjectByPointer openTable
  cases hheader : s.headers object with
  | none => exact Or.inl ⟨rfl, rfl⟩
  | some header =>
    dsimp only
    by_cases htype : objectType.any (· ≠ header.typePtr) = true
    · rw [if_pos htype, if_pos htype]
      exact Or.inl ⟨rfl, rfl⟩
    · rw [if_neg htype, if_neg htype]
      cases haccess : s.openAccess header (accessState.getD ⟨c.subject, 0⟩) desiredAccess userMode with
      | none => exact Or.inl ⟨rfl, rfl⟩
      | some grantedAccess =>
        refine Or.inr ⟨rfl, ?_⟩
        dsimp only
        generalize htable : (if ((s.tableFor (decide (attributes &&& objKernelHandle ≠ 0)) c.process).isNone &&
          !userMode) = true then s.tableFor true c.process
          else s.tableFor (decide (attributes &&& objKernelHandle ≠ 0)) c.process) = target
        cases target with
        | none => exact Or.inl ⟨rfl, rfl⟩
        | some target =>
          obtain ⟨id, table⟩ := target
          refine Or.inr ⟨id, table, grantedAccess, obpObjattrsToHandleFlags attributes, rfl, ?_, ?_⟩
          · split at htable
            · exact tableFor_some htable
            · exact tableFor_some htable
          · unfold afterHandle
            dsimp only
            rcases s.obpMakeHandle c id table object grantedAccess (obpObjattrsToHandleFlags attributes) with ⟨outcome, made⟩
            cases outcome <;> rfl

theorem Balanced.open_keeps (hb : Balanced s h 0)
    (hkeeps : s.OpenKeeps c object attributes accessState desiredAccess objectType userMode) :
    Balanced (s.obOpenObjectByPointer c object attributes accessState desiredAccess objectType userMode).2 h 0 := by
  rcases open_cases c object attributes accessState desiredAccess objectType userMode s with
    ⟨-, heq⟩ | ⟨-, ⟨htarget, heq⟩ | ⟨id, table, access, flags, htarget, htable, heq⟩⟩
  · rwa [heq]
  · rw [heq]
    have hlive := (hkeeps none htarget).1
    have hnonneg := (hb.settled object).nonneg
    have hlast := (hb.reference hlive).dereference hlive.reference
    rw [add_sub_cancel_right, Pi.add_apply, single_eq_same] at hlast
    exact hlast (by omega) (by show (0 : ℤ) ≤ _; omega) (Or.inl rfl)
  · rw [heq]
    obtain ⟨hlive, hleaks⟩ := hkeeps _ htarget
    exact hb.afterHandle hlive htable (hleaks id table rfl) access flags

theorem Balanced.open_breaks (hb : Balanced s h 0)
    (hbreaks : ¬ s.OpenKeeps c object attributes accessState desiredAccess objectType userMode) :
    ¬ Exact (s.obOpenObjectByPointer c object attributes accessState desiredAccess objectType userMode).2 h := by
  rcases open_cases c object attributes accessState desiredAccess objectType userMode s with
    ⟨hnone, -⟩ | ⟨hsome, ⟨htarget, heq⟩ | ⟨id, table, access, flags, htarget, htable, heq⟩⟩
  · refine absurd (fun target htarget => ?_) hbreaks
    rw [hnone] at htarget
    cases htarget
  · rw [heq]
    have hlive : ¬ s.Live object := by
      refine fun hlive => hbreaks fun target htarget' => ⟨hlive, fun id table h => ?_⟩
      rw [htarget] at htarget'
      cases htarget'
      cases h
    obtain ⟨hq, x, hx, hzero, hlink⟩ := hb.queued_counts hsome hlive
    intro hexact
    have hnodup := hexact.nodup
    rw [dereference_queues (reference_counts hx) (by dsimp only; omega) (by dsimp only; omega), reference_reaper] at hnodup
    exact (List.nodup_cons.1 hnodup).1 hq
  · rw [heq]
    by_cases hlive : s.Live object
    · have hleaks : s.Leaks c table object := by
        by_contra hleaks
        refine hbreaks fun target htarget' => ⟨hlive, fun id' table' h => ?_⟩
        rw [htarget] at htarget'
        cases htarget'
        cases h
        exact hleaks
      exact (hb.afterHandle_of_leaks hlive htable hleaks access flags).2.not_exact_surplus (hb.settled object).nonneg
    · exact hb.not_exact_afterHandle hsome hlive

end Opens

section Duplicates
variable [DecidableEq P] (c : Caller P) (sourceProcess targetProcess : Option P) (sourceHandle : ℕ)
  (desiredAccess : Se.AccessMask) (handleAttributes options : BitVec 32)

def DuplicateKeeps (s : ObState P) (c : Caller P) (sourceProcess targetProcess : Option P) (sourceHandle : ℕ) : Prop :=
  ∀ object access flags id table,
    s.handleMeaning (sourceProcess.or c.process) sourceHandle = some (object, access, flags) →
    s.tableFor (isKernelHandle sourceHandle) (targetProcess.or c.process) = some (id, table) → ¬ s.Leaks c table object

def closeSource (s : ObState P) (options : BitVec 32) (sourceId : Option P) (sourceHandle object : ℕ) : ObState P :=
  if options &&& duplicateCloseSource ≠ 0 then
    match s.tables sourceId with
    | none => s
    | some table =>
      match exDestroyHandle table sourceHandle with
      | (false, table) => s.setTable sourceId table
      | (true, table) => (s.setTable sourceId table).obpReleaseHandle object
  else s

theorem duplicate_cases (s : ObState P) :
    let s' := (s.obDuplicateObject c sourceProcess targetProcess sourceHandle desiredAccess handleAttributes options).2
    ((s.handleMeaning (sourceProcess.or c.process) sourceHandle = none ∨
        s.tableFor (isKernelHandle sourceHandle) (targetProcess.or c.process) = none) ∧ s' = s) ∨
      ∃ object access flags sourceId id table access' flags',
        s.handleMeaning (sourceProcess.or c.process) sourceHandle = some (object, access, flags) ∧
        s.tableFor (isKernelHandle sourceHandle) (targetProcess.or c.process) = some (id, table) ∧
        s.handleEntry sourceId sourceHandle = some (object, access, flags) ∧
        ((∀ handle, (s.obpMakeHandle c id table object access' flags').1 ≠ .made handle) ∧
            s' = s.afterHandle c id table object access' flags' ∨
          s' = (s.afterHandle c id table object access' flags').closeSource options sourceId sourceHandle object) := by
  cases hmeaning : s.handleMeaning (sourceProcess.or c.process) sourceHandle with
  | none => exact Or.inl ⟨Or.inl rfl, duplicate_none (Or.inl hmeaning)⟩
  | some entry =>
    cases htarget : s.tableFor (isKernelHandle sourceHandle) (targetProcess.or c.process) with
    | none => exact Or.inl ⟨Or.inr rfl, duplicate_none (Or.inr htarget)⟩
    | some target =>
      obtain ⟨object, access, flags⟩ := entry
      obtain ⟨id, table⟩ := target
      obtain ⟨⟨sourceId, sourceTable⟩, hsource, hlookup⟩ := bind_eq_some_iff.1 hmeaning
      right
      unfold obDuplicateObject
      dsimp only at hlookup ⊢
      rw [hsource]
      dsimp only
      rw [hlookup]
      dsimp only
      rw [htarget]
      dsimp only
      generalize (if options &&& duplicateSameAccess ≠ 0 then access else desiredAccess) = access'
      generalize (if options &&& duplicateSameAttributes ≠ 0 then flags
        else obpObjattrsToHandleFlags (handleAttributes &&& objHandleAttributes)) = flags'
      refine ⟨object, access, flags, sourceId, id, table, access', flags', rfl, rfl, ?_, ?_⟩
      · rw [handleEntry_eq (tableFor_some hsource), hlookup]
      · unfold afterHandle closeSource
        cases hmake : s.obpMakeHandle c id table object access' flags' with
        | mk outcome made =>
          cases outcome with
          | full | refused status => exact Or.inl ⟨fun handle h => (by cases h), rfl⟩
          | made handle =>
            right
            dsimp only
            by_cases hclose : options &&& duplicateCloseSource ≠ 0
            · rw [if_pos hclose, if_pos hclose]
              cases made.tables sourceId with
              | none => rfl
              | some table =>
                dsimp only
                rcases exDestroyHandle table sourceHandle with ⟨destroyed, table⟩
                cases destroyed <;> rfl
            · rw [if_neg hclose, if_neg hclose]

variable {c} {sourceHandle} {object : ℕ} {id sourceId : Option P} {table : HandleTable} {access : Se.AccessMask} {flags : BitVec 32}

theorem handleEntry_afterHandle (hs : s.Sound) (hobject : IsAddress object) (htable : s.tables id = some table)
    {id' : Option P} {handle : ℕ} {y : ℕ × Se.AccessMask × BitVec 32} (hy : s.handleEntry id' handle = some y) :
    (s.afterHandle c id table object access flags).handleEntry id' handle = some y := by
  have htables : (s.afterHandle c id table object access flags).tables =
      (s.obpMakeHandle c id table object access flags).2.tables := by
    unfold afterHandle
    split <;> rename_i heq <;> rw [heq]
    · exact dereference_tables _ object
    · exact dereference_tables _ object
  rw [handleEntry_congr htables]
  exact handleEntry_obpMakeHandle c access flags hs hobject htable hy

theorem Balanced.closeSource (hb : Balanced s h d) {x : ℕ × Se.AccessMask × BitVec 32}
    (hsource : s.handleEntry sourceId sourceHandle = some x) (hd : d x.1 = 0 ∨ d x.1 ≤ 1 ∧ 1 ≤ h x.1) (options : BitVec 32) :
    Balanced (s.closeSource options sourceId sourceHandle x.1) h d := by
  obtain ⟨table, htable, hlookup⟩ := bind_eq_some_iff.1 hsource
  have hrelease := hb.release htable hlookup hd
  have hdestroy := (destroy_lookup (hb.sound.tables sourceId table htable) hlookup).1
  unfold ObState.closeSource
  split_ifs
  · rw [htable]
    dsimp only
    rw [hdestroy] at hrelease ⊢
    exact hrelease
  · exact hb

theorem Balanced.duplicate_keeps (hb : Balanced s h 0) (hkeeps : s.DuplicateKeeps c sourceProcess targetProcess sourceHandle) :
    Balanced
      (s.obDuplicateObject c sourceProcess targetProcess sourceHandle desiredAccess handleAttributes options).2 h 0 := by
  rcases duplicate_cases c sourceProcess targetProcess sourceHandle desiredAccess handleAttributes options s with
    ⟨-, heq⟩ | ⟨object, access, flags, sourceId, id, table, access', flags', hmeaning, htarget, hsource, h⟩
  · rwa [heq]
  · obtain ⟨sourceTable, hsourceTable, hlookup⟩ := bind_eq_some_iff.1 hsource
    have hlive := hb.live_of_lookup hsourceTable hlookup
    have htable := tableFor_some htarget
    have hafter := hb.afterHandle hlive htable (hkeeps object access flags id table hmeaning htarget) access' flags'
    rcases h with ⟨-, heq⟩ | heq
    · rwa [heq]
    · rw [heq]
      exact hafter.closeSource (handleEntry_afterHandle hb.sound (hb.sound.isAddress hlive.1) htable hsource) (Or.inl rfl)
        options

theorem Balanced.duplicate_breaks (hb : Balanced s h 0)
    (hbreaks : ¬ s.DuplicateKeeps c sourceProcess targetProcess sourceHandle) :
    ¬ Exact
      (s.obDuplicateObject c sourceProcess targetProcess sourceHandle desiredAccess handleAttributes options).2 h := by
  simp only [DuplicateKeeps, not_forall, not_not] at hbreaks
  obtain ⟨object, access, flags, id, table, hmeaning, htarget, hleaks⟩ := hbreaks
  rcases duplicate_cases c sourceProcess targetProcess sourceHandle desiredAccess handleAttributes options s with
    ⟨hnone | hnone, -⟩ | ⟨object', accessBefore, flagsBefore, sourceId, id', table', access', flags', hmeaning', htarget', hsource, h⟩
  · rw [hmeaning] at hnone
    cases hnone
  · rw [htarget] at hnone
    cases hnone
  · rw [hmeaning] at hmeaning'
    cases hmeaning'
    rw [htarget] at htarget'
    cases htarget'
    obtain ⟨sourceTable, hsourceTable, hlookup⟩ := bind_eq_some_iff.1 hsource
    have hlive := hb.live_of_lookup hsourceTable hlookup
    have htable := tableFor_some htarget
    have hnonneg := (hb.settled object).nonneg
    obtain ⟨⟨handle, hmade⟩, hafter⟩ := hb.afterHandle_of_leaks hlive htable hleaks access' flags'
    rcases h with ⟨hnot, -⟩ | heq
    · exact absurd hmade (hnot handle)
    · rw [heq]
      have hclosed := hafter.closeSource (handleEntry_afterHandle hb.sound (hb.sound.isAddress hlive.1) htable hsource)
        (Or.inr ⟨by simp, by simp [hnonneg]⟩) options
      exact hclosed.not_exact_surplus hnonneg

end Duplicates

/-! ### Insertions -/

section Insertions
variable [DecidableEq P]

/-- A new object keeps the counts exact if it gets the handle it asks for, or there is no table;
another object that is found, if nothing is returned, or no handle is made and it is still
referenced. -/
def InsertKeeps (s : ObState P) (c : Caller P) (object : ℕ) (wantObject wantHandle entryAllocated : Bool) : Prop :=
  ∀ header target new, s.headers object = some header → s.insertTarget object entryAllocated = some (target, new) →
    if new then
      wantHandle = true → ∀ kernelHandle id table,
        s.insertTable c (createAttributes header) wantObject = some (kernelHandle, id, table) → s.AddsEntry c table target
    else
      (wantHandle = false ∧ wantObject = false) ∨
        wantHandle = true ∧ ((s.freeCreateInfo object).obDereferenceObject object).Live target ∧
          ∃ kernelHandle id table,
            s.insertTable c (createAttributes header) wantObject = some (kernelHandle, id, table) ∧
            ¬ s.AddsEntry c table target ∧ ¬ s.Leaks c table target

/-- After an insertion the creator's reference goes unless it stays with the caller; a pointer to
another object brings one. -/
def insertHeld (held : ℕ → ℤ) (object : ℕ) (wantObject wantHandle : Bool) (result : CallResult) : ℕ → ℤ :=
  if result.status = statusSuccess then
    if wantHandle && !wantObject then held - single object 1 else held
  else
    match result.object with
    | none => held - single object 1
    | some existing => held - single object 1 + single existing 1

variable {c : Caller P} {created target : ℕ} {parent : Option ℕ} {attributes : BitVec 32} {desiredAccess : Se.AccessMask}
  {finalStatus : Ntstatus} {wantObject wantHandle : Bool} {id : Option P} {table : HandleTable} {access : Se.AccessMask}
  {flags : BitVec 32}

omit [DecidableEq P] in
theorem Balanced.finishInsert (hb : Balanced s h d) (handle : Option ObHandle) (hwant : (wantHandle && !wantObject) = false) :
    Balanced (s.finishInsert created target finalStatus wantObject wantHandle handle).2 h d := by
  unfold ObState.finishInsert
  dsimp only
  rw [if_neg (by rw [hwant]; decide)]
  exact hb.freeCreateInfo created

omit [DecidableEq P] in
theorem Live.freeCreateInfo (hlive : s.Live o) (created : ℕ) : (s.freeCreateInfo created).Live o := by
  refine ⟨?_, ?_⟩
  · rw [(Quiet.freeCreateInfo s created).isSome]
    exact hlive.1
  · rw [ObState.freeCreateInfo, modifyHeader_reaper]
    exact hlive.2

omit [DecidableEq P] in
theorem Live.rollback (hlive : s.Live o) (parent : Option ℕ) (object : ℕ) (attributes : BitVec 32) :
    (s.rollback parent object attributes).Live o := by
  rcases rollback_cases s parent object attributes with heq | ⟨parent', directory, heq⟩
  · rwa [heq]
  · rw [heq]
    exact hlive

theorem refused_ne_success {status : Ntstatus} (hmake : (s.obpMakeHandle c id table o access flags).1 = .refused status) :
    status ≠ statusSuccess := by
  unfold obpMakeHandle at hmake
  simp only at hmake
  split_ifs at hmake with _ hopen
  cases hmake
  exact hopen.2

variable (created parent finalStatus) in
theorem insertHandle_refused {kernelHandle : Bool}
    (htable : s.insertTable c attributes wantObject = some (kernelHandle, id, table))
    (hnot : ∀ handle, (s.obpMakeHandle c id table target desiredAccess (obpObjattrsToHandleFlags attributes)).1 ≠ .made handle) :
    let r := s.insertHandle c created target parent attributes desiredAccess finalStatus wantObject true
    let made := (s.obpMakeHandle c id table target desiredAccess (obpObjattrsToHandleFlags attributes)).2
    r.1.status ≠ statusSuccess ∧ r.1.object = none ∧
      (r.2 = (made.rollback parent target attributes).obDereferenceObject target ∨
        r.2 = (made.obDereferenceObject target).rollback parent target attributes) := by
  have hrefused (status : Ntstatus)
      (h : (s.obpMakeHandle c id table target desiredAccess (obpObjattrsToHandleFlags attributes)).1 = .refused status) :
      status ≠ statusSuccess := refused_ne_success h
  unfold insertHandle
  rw [if_neg (by decide), htable]
  dsimp only
  cases hmake : s.obpMakeHandle c id table target desiredAccess (obpObjattrsToHandleFlags attributes) with
  | mk outcome made =>
    rw [hmake] at hnot hrefused
    cases outcome with
    | full =>
      have hfull : statusInsufficientResources ≠ statusSuccess := by decide
      exact ⟨hfull, rfl, Or.inl rfl⟩
    | refused status => exact ⟨hrefused status rfl, rfl, Or.inr rfl⟩
    | made handle => exact absurd rfl (hnot handle)

variable (created parent finalStatus) in
theorem insertHandle_made {kernelHandle : Bool} {handle : ℕ}
    (htable : s.insertTable c attributes wantObject = some (kernelHandle, id, table))
    (hmade : s.obpMakeHandle c id table target desiredAccess (obpObjattrsToHandleFlags attributes) = (.made handle, s')) :
    ∃ h, s.insertHandle c created target parent attributes desiredAccess finalStatus wantObject true =
      s'.finishInsert created target finalStatus wantObject true h := by
  unfold insertHandle
  rw [if_neg (by decide), htable]
  dsimp only
  rw [hmade]
  exact ⟨_, rfl⟩

omit [DecidableEq P] in
variable (parent attributes) in
theorem Balanced.insertHandle_not_made (hnonneg : 0 ≤ h target) {made : ObState P}
    (hback : Balanced made (h + single target 1) 0) (hmade : made.Live target) :
    Balanced ((made.rollback parent target attributes).obDereferenceObject target) h 0 ∧
      Balanced ((made.obDereferenceObject target).rollback parent target attributes) h 0 := by
  have hrolled := hmade.rollback parent target attributes
  have h1 := (hback.rollback parent target attributes).dereference hrolled
  have h2 := hback.dereference hmade
  rw [add_single_self, add_sub_cancel_right] at h1 h2
  exact ⟨h1 (by omega) (by show (0 : ℤ) ≤ _; omega) (Or.inl rfl),
    (h2 (by omega) (by show (0 : ℤ) ≤ _; omega) (Or.inl rfl)).rollback parent target attributes⟩

omit [DecidableEq P] in
theorem Balanced.finishInsert_new (hb : Balanced s h 0) (handle : Option ObHandle) (hlive : s.Live target)
    (hheld : 1 ≤ h target) :
    Balanced (s.finishInsert target target statusSuccess wantObject true handle).2
      (insertHeld h target wantObject true (s.finishInsert target target statusSuccess wantObject true handle).1) 0 := by
  cases wantObject with
  | true => exact hb.finishInsert handle rfl
  | false =>
    exact (hb.freeCreateInfo target).dereference (hlive.freeCreateInfo target) hheld (by show (0 : ℤ) ≤ _; omega) (Or.inl rfl)

theorem Balanced.insertHandle_new (hb : Balanced s h 0) (hheld : 1 ≤ h target)
    (hkeeps : wantHandle = true → ∀ kernelHandle id table,
      s.insertTable c attributes wantObject = some (kernelHandle, id, table) → s.AddsEntry c table target) :
    let r := s.insertHandle c target target parent attributes desiredAccess statusSuccess wantObject wantHandle
    Balanced r.2 (insertHeld h target wantObject wantHandle r.1) 0 := by
  have hlive := hb.live_of_held hheld
  cases wantHandle with
  | false =>
    unfold insertHandle
    rw [if_pos (by decide)]
    exact hb.finishInsert none rfl
  | true =>
    cases htable : s.insertTable c attributes wantObject with
    | none =>
      unfold insertHandle
      rw [if_neg (by decide), htable]
      have hlast := (hb.rollback parent target attributes).dereference (hlive.rollback parent target attributes) hheld
        (by show (0 : ℤ) ≤ _; omega) (Or.inl rfl)
      exact hlast
    | some found =>
      obtain ⟨kernelHandle, id, table⟩ := found
      have hadds := hkeeps rfl kernelHandle id table htable
      have hmadeLive := hlive.handleMade c id table desiredAccess (obpObjattrsToHandleFlags attributes)
      rcases hb.makeHandle c desiredAccess (obpObjattrsToHandleFlags attributes) hlive (insertTable_some htable) with
        ⟨hnot, -⟩ | ⟨-, hmade, hback⟩ | ⟨hleaks, -⟩
      · exact absurd hadds hnot
      · obtain ⟨handle, heq⟩ := insertHandle_made target parent statusSuccess htable hmade
        rw [heq]
        exact hback.finishInsert_new handle hmadeLive hheld
      · exact absurd hadds (not_addsEntry_of_leaks hleaks)

theorem insertHandle_new_breaks (hb : Balanced s h 0) (hheld : 1 ≤ h target) {kernelHandle : Bool}
    (htable : s.insertTable c attributes wantObject = some (kernelHandle, id, table))
    (hbreaks : ¬ s.AddsEntry c table target) :
    let r := s.insertHandle c target target parent attributes desiredAccess statusSuccess wantObject true
    ¬ Exact r.2 (insertHeld h target wantObject true r.1) := by
  have hlive := hb.live_of_held hheld
  rcases hb.makeHandle c desiredAccess (obpObjattrsToHandleFlags attributes) hlive (insertTable_some htable) with
    ⟨-, -, hnot, hback⟩ | ⟨hadds, -⟩ | ⟨-, hmade, hback⟩
  · -- The reference of the creator stays, though the call failed.
    obtain ⟨hstatus, hobject, hstate⟩ := insertHandle_refused target parent statusSuccess htable hnot
    obtain ⟨h1, h2⟩ := hback.insertHandle_not_made parent attributes (by omega)
      (hb.live_obpMakeHandle hlive)
    have hheldAfter : insertHeld h target wantObject true
        (s.insertHandle c target target parent attributes desiredAccess statusSuccess wantObject true).1 =
        h - single target 1 := by
      rw [insertHeld, if_neg hstatus, hobject]
    have hbalanced : Balanced
        (s.insertHandle c target target parent attributes desiredAccess statusSuccess wantObject true).2 h 0 := by
      rcases hstate with heq | heq
      · rw [heq]
        exact h1
      · rw [heq]
        exact h2
    dsimp only
    rw [hheldAfter]
    refine hbalanced.not_exact (hbalanced.isSome_of_held hheld) ?_
    rw [Pi.sub_apply, single_eq_same]
    omega
  · exact absurd hadds hbreaks
  · obtain ⟨handle, heq⟩ := insertHandle_made target parent statusSuccess htable hmade
    have hmadeLive := hlive.handleMade c id table desiredAccess (obpObjattrsToHandleFlags attributes)
    have hone := add_single_self h target
    have hsurplus : (0 + single target 1 : ℕ → ℤ) target = 1 := add_single_self 0 target
    dsimp only
    rw [heq]
    cases wantObject with
    | true => exact (hback.finishInsert handle rfl).not_exact_surplus (by omega)
    | false =>
      have hlast := (hback.freeCreateInfo target).dereference (hmadeLive.freeCreateInfo target) (by omega) (by omega)
        (Or.inr (by omega))
      rw [add_sub_cancel_right] at hlast
      refine hlast.not_exact (hlast.isSome_of_held hheld) ?_
      show h target ≠ (h - single target 1 : ℕ → ℤ) target
      rw [Pi.sub_apply, single_eq_same]
      omega

/-! ### Insertions that find another object -/

/-- The references after an insertion that finds another object: those without the creator's,
and one that comes with a pointer. -/
def existingHeld (held : ℕ → ℤ) (result : CallResult) : ℕ → ℤ :=
  match result.object with
  | none => held
  | some existing => held + single existing 1

theorem Balanced.insertHandle_existing (hb : Balanced s h 0)
    (hkeeps : (wantHandle = false ∧ wantObject = false) ∨ wantHandle = true ∧ s.Live target ∧ ∃ kernelHandle id table,
      s.insertTable c attributes wantObject = some (kernelHandle, id, table) ∧
      ¬ s.AddsEntry c table target ∧ ¬ s.Leaks c table target) :
    let r := s.insertHandle c created target parent attributes desiredAccess finalStatus wantObject wantHandle
    Balanced r.2 (existingHeld h r.1) 0 := by
  rcases hkeeps with ⟨rfl, rfl⟩ | ⟨rfl, hlive, kernelHandle, id, table, htable, hadds, hleaks⟩
  · unfold insertHandle
    rw [if_pos (by decide)]
    exact hb.finishInsert none rfl
  · rcases hb.makeHandle c desiredAccess (obpObjattrsToHandleFlags attributes) hlive (insertTable_some htable) with
      ⟨-, -, hnot, hback⟩ | ⟨h, -⟩ | ⟨h, -⟩
    · obtain ⟨-, hobject, hstate⟩ := insertHandle_refused created parent finalStatus htable hnot
      obtain ⟨h1, h2⟩ := hback.insertHandle_not_made parent attributes
        (hb.settled target).nonneg (hb.live_obpMakeHandle hlive)
      dsimp only
      rw [existingHeld, hobject]
      rcases hstate with heq | heq
      · rw [heq]
        exact h1
      · rw [heq]
        exact h2
    · exact absurd h hadds
    · exact absurd h hleaks

omit [DecidableEq P] in
theorem Balanced.not_exact_dereference (hb : Balanced s h d) (hsome : (s.headers o).isSome) (hd : o ∉ s.reaperList → d o ≤ h o) :
    ¬ Exact (s.obDereferenceObject o) h := by
  obtain ⟨x, hx⟩ := isSome_iff_exists.1 (counts_isSome.trans hsome)
  have hsettled := hb.settled o
  have hreferences := hsettled.references x hx
  have hentries := handlesTo_nonneg s o
  have hnonneg := hsettled.nonneg
  have hguard : x.handles ≤ x.pointers := by
    by_cases hq : o ∈ s.reaperList
    · have := hsettled.link x hx hq
      omega
    · have := hsettled.handles x hx hq
      have := hd hq
      omega
  obtain ⟨y, hy, hpointers⟩ := dereference_pointers hx hguard
  intro hexact
  have hafter := hexact.references o y hy
  rw [congrFun (handlesTo_congr (dereference_tables s o)) o] at hafter
  omega

omit [DecidableEq P] in
theorem Balanced.not_exact_dereference_surplus {held : ℕ → ℤ} (hb : Balanced s (h + single o 1) (0 + single o 1))
    (hlive : s.Live o) (hheld : 0 ≤ h o) (hmore : 1 ≤ s.handlesTo o + h o) : ¬ Exact (s.obDereferenceObject o) held := by
  obtain ⟨header, hheader⟩ := isSome_iff_exists.1 hlive.1
  have hone := add_single_self h o
  have hsurplus : (0 + single o 1 : ℕ → ℤ) o = 1 := add_single_self 0 o
  have hpointers := hb.pointers hheader
  have hhandles := hb.handles hheader hlive.2
  have hlast := hb.dereference_more hheader hlive.2 (by omega) (by omega) (by omega)
  refine hlast.not_exact_handles (o := o) ⟨?_, ?_⟩ (by omega)
  · rw [(Quiet.dereference s o).isSome]
    exact hlive.1
  · unfold obDereferenceObject
    rw [hheader]
    dsimp only
    rw [if_neg (by omega), if_neg (by omega)]
    exact hlive.2

omit [DecidableEq P] in
theorem not_exact_of_revived {held : ℕ → ℤ} {x : Counts} (hq : o ∈ s.reaperList) (hx : s.counts o = some x)
    (hpos : x.pointers ≠ 0) : ¬ Exact s held := by
  intro hexact
  obtain ⟨y, hy, hzero⟩ := (hexact.queued o).1 hq
  rw [hx] at hy
  cases hy
  exact hpos hzero

omit [DecidableEq P] in
theorem not_exact_of_queued_again {held : ℕ → ℤ} {x : Counts} (hq : o ∈ s.reaperList) (hx : s.counts o = some x)
    (hlast : x.pointers = 1) (hguard : x.handles ≤ 1) : ¬ Exact (s.obDereferenceObject o) held := by
  intro hexact
  have hnodup := hexact.nodup
  rw [dereference_queues hx hguard hlast] at hnodup
  exact (List.nodup_cons.1 hnodup).1 hq

theorem Balanced.insertHandle_queued_breaks (hb : Balanced s h 0) (hsome : (s.headers target).isSome)
    (hlive : ¬ s.Live target) {kernelHandle : Bool}
    (htable : s.insertTable c attributes wantObject = some (kernelHandle, id, table)) :
    ¬ Exact (s.insertHandle c created target none attributes desiredAccess finalStatus wantObject true).2 held := by
  obtain ⟨hq, x, hx, hzero, hlink⟩ := hb.queued_counts hsome hlive
  obtain ⟨hreaper, n, hn, hcounts⟩ := obpMakeHandle_counts c id table desiredAccess
    (obpObjattrsToHandleFlags attributes) (hb.nonzero hx) hx
  have hone : x.pointers + 1 = 1 := by omega
  have hguard : x.handles + n ≤ 1 := by omega
  rw [← hreaper] at hq
  by_cases hmade : ∃ handle,
      (s.obpMakeHandle c id table target desiredAccess (obpObjattrsToHandleFlags attributes)).1 = .made handle
  · obtain ⟨handle, hmade⟩ := hmade
    obtain ⟨handle', heq⟩ := insertHandle_made created none finalStatus htable (Prod.ext hmade rfl)
    rw [heq]
    rw [← freeCreateInfo_counts _ created] at hcounts
    rw [← freeCreateInfo_reaper _ created] at hq
    cases wantObject with
    | true => exact not_exact_of_revived hq hcounts (by show x.pointers + 1 ≠ 0; omega)
    | false => exact not_exact_of_queued_again hq hcounts hone hguard
  · obtain ⟨-, -, hstate⟩ := insertHandle_refused created none finalStatus htable fun handle h => hmade ⟨handle, h⟩
    rw [show (s.insertHandle c created target none attributes desiredAccess finalStatus wantObject true).2 = _ from
      or_self_iff.1 hstate]
    exact not_exact_of_queued_again hq hcounts hone hguard

theorem Balanced.insertHandle_existing_breaks (hb : Balanced s h 0) (hsome : (s.headers target).isSome)
    (hbreaks : ¬ ((wantHandle = false ∧ wantObject = false) ∨ wantHandle = true ∧ s.Live target ∧
      ∃ kernelHandle id table, s.insertTable c attributes wantObject = some (kernelHandle, id, table) ∧
        ¬ s.AddsEntry c table target ∧ ¬ s.Leaks c table target)) :
    let r := s.insertHandle c created target none attributes desiredAccess finalStatus wantObject wantHandle
    ¬ Exact r.2 (existingHeld h r.1) := by
  have hone := add_single_self h target
  have hnonneg := (hb.settled target).nonneg
  have hfreed {s : ObState P} (hsome : (s.headers target).isSome) : ((s.freeCreateInfo created).headers target).isSome :=
    (Quiet.freeCreateInfo s created).isSome target ▸ hsome
  cases wantHandle with
  | false =>
    cases wantObject with
    | false => exact absurd (Or.inl ⟨rfl, rfl⟩) hbreaks
    | true =>
      unfold insertHandle
      rw [if_pos (by decide)]
      -- The pointer comes back without a reference of its own.
      have hshort : h target ≠ (h + single target 1 : ℕ → ℤ) target := by omega
      exact (hb.freeCreateInfo created).not_exact (hfreed hsome) hshort
  | true =>
    cases htable : s.insertTable c attributes wantObject with
    | none =>
      unfold insertHandle
      rw [if_neg (by decide), htable]
      exact hb.not_exact_dereference hsome fun _ => hnonneg
    | some found =>
      obtain ⟨kernelHandle, id, table⟩ := found
      by_cases hlive : s.Live target
      · rcases hb.makeHandle c desiredAccess (obpObjattrsToHandleFlags attributes) hlive (insertTable_some htable) with
          ⟨hadds, hleaks, -⟩ | ⟨-, hmade, hback⟩ | ⟨-, hmade, hback⟩
        · exact absurd (Or.inr ⟨rfl, hlive, kernelHandle, id, table, htable, hadds, hleaks⟩) hbreaks
        all_goals
          have hmadeLive := hlive.handleMade c id table desiredAccess (obpObjattrsToHandleFlags attributes)
          have hfreedLive := hmadeLive.freeCreateInfo created
          obtain ⟨handle, heq⟩ := insertHandle_made created none finalStatus htable hmade
          dsimp only
          rw [heq]
        · have hbalanced := hback.freeCreateInfo created
          cases wantObject with
          | true =>
            have hshort : h target ≠ (h + single target 1 : ℕ → ℤ) target := by omega
            exact hbalanced.not_exact hfreedLive.1 hshort
          | false => exact hbalanced.not_exact_dereference hfreedLive.1 fun _ => hnonneg
        · have hbalanced := hback.freeCreateInfo created
          cases wantObject with
          | true =>
            refine hbalanced.not_exact_handles (o := target) hfreedLive ?_
            rw [Pi.add_apply, single_eq_same]
            exact one_ne_zero
          | false =>
            refine hbalanced.not_exact_dereference_surplus hfreedLive hnonneg ?_
            obtain ⟨header, hheader⟩ := isSome_iff_exists.1 hlive.1
            have hpos := hb.pointers_pos hheader hlive.2
            have hcounts := counts_of_header hheader
            obtain ⟨-, n, -, hcounts⟩ := obpMakeHandle_counts c id table desiredAccess
              (obpObjattrsToHandleFlags attributes) (hb.nonzero hcounts) hcounts
            rw [hmade, ← freeCreateInfo_counts _ created] at hcounts
            have hreferences := (hbalanced.settled target).references _ hcounts
            rw [hone] at hreferences
            have hpointers : header.counts.pointers = header.pointerCount := rfl
            dsimp only at hreferences
            omega
      · exact hb.insertHandle_queued_breaks hsome hlive htable

/-! ### The whole insertion -/

theorem insertHandle_status_ne (parent : Option ℕ) (hfinal : finalStatus ≠ statusSuccess) :
    (s.insertHandle c created target parent attributes desiredAccess finalStatus wantObject wantHandle).1.status ≠
      statusSuccess := by
  unfold insertHandle
  split
  · exact hfinal
  · split
    · exact (by decide : statusInsufficientResources ≠ statusSuccess)
    · split
      · exact (by decide : statusInsufficientResources ≠ statusSuccess)
      · rename_i hmake
        exact refused_ne_success (congrArg Prod.fst hmake)
      · exact hfinal

omit [DecidableEq P] in
theorem placeObject_refused {object : ℕ} {header : ObjectHeader} {entryAllocated : Bool} {status : Ntstatus}
    (h : s.placeObject object header entryAllocated = some (.refused status)) : status ≠ statusSuccess := by
  unfold placeObject at h
  split at h
  · cases h
  · split at h
    · cases h
    · dsimp only at h
      split at h
      · cases h
        decide
      · split at h
        · cases h
        · split at h
          · split at h
            · cases h
            · cases h
              decide
          · split at h
            · cases h
              decide
            · cases h

omit [DecidableEq P] in
theorem leaks_congr (hopen : s'.hasOpenProcedure o = s.hasOpenProcedure o) (c : Caller P) (table : HandleTable) :
    s'.Leaks c table o = s.Leaks c table o := by
  rw [Leaks, Leaks, Accepts, Accepts, hopen]

variable (c desiredAccess wantObject wantHandle) in
theorem Balanced.insertObject {object : ℕ} {header : ObjectHeader} (entryAllocated : Bool)
    (assigned : Option Se.SecurityDescriptor) (hb : Balanced s h 0) (hheader : s.headers object = some header)
    (hheld : 1 ≤ h object) (hplace : (s.placeObject object header entryAllocated).isSome) :
    let r := s.obInsertObject c object desiredAccess wantObject wantHandle entryAllocated assigned
    (s.InsertKeeps c object wantObject wantHandle entryAllocated →
      Balanced r.2 (insertHeld h object wantObject wantHandle r.1) 0) ∧
    (¬ s.InsertKeeps c object wantObject wantHandle entryAllocated →
      ¬ Exact r.2 (insertHeld h object wantObject wantHandle r.1)) := by
  have hlive := hb.live_of_held hheld
  have hzero : (0 : ℕ → ℤ) object ≤ h object := by
    show (0 : ℤ) ≤ _
    omega
  -- A new object that is placed, and has a handle made to it.
  have hnew {placed : ObState P} (hplaced : Balanced placed h 0) (htables : placed.tables = s.tables)
      (hopen : placed.hasOpenProcedure object = s.hasOpenProcedure object) (parent : Option ℕ)
      (htarget : s.insertTarget object entryAllocated = some (object, true)) :
      let r := placed.insertHandle c object object parent (createAttributes header) desiredAccess statusSuccess
        wantObject wantHandle
      (s.InsertKeeps c object wantObject wantHandle entryAllocated →
        Balanced r.2 (insertHeld h object wantObject wantHandle r.1) 0) ∧
      (¬ s.InsertKeeps c object wantObject wantHandle entryAllocated →
        ¬ Exact r.2 (insertHeld h object wantObject wantHandle r.1)) := by
    have htable := insertTable_congr htables c (createAttributes header) wantObject
    constructor
    · intro hkeeps
      refine hplaced.insertHandle_new hheld fun hwant kernelHandle id table hfound => ?_
      rw [htable] at hfound
      rw [addsEntry_congr hopen]
      exact hkeeps header object true hheader htarget hwant kernelHandle id table hfound
    · intro hbreaks
      rw [InsertKeeps] at hbreaks
      push Not at hbreaks
      obtain ⟨header', target, new, hheader', htarget', hbreaks⟩ := hbreaks
      rw [hheader] at hheader'
      cases hheader'
      rw [htarget] at htarget'
      cases htarget'
      rw [if_pos rfl] at hbreaks
      push Not at hbreaks
      obtain ⟨rfl, kernelHandle, id, table, hfound, hadds⟩ := hbreaks
      rw [← htable] at hfound
      rw [← addsEntry_congr hopen] at hadds
      exact insertHandle_new_breaks hplaced hheld hfound hadds
  cases hplaced : s.placeObject object header entryAllocated with
  | none =>
    rw [hplaced] at hplace
    cases hplace
  | some placement =>
    cases placement with
    | refused status =>
      have hnone : s.insertTarget object entryAllocated = none := by
        simp only [insertTarget, hheader, hplaced]
      simp only [obInsertObject, hheader, hplaced]
      rw [insertHeld, if_neg (placeObject_refused hplaced)]
      refine ⟨fun _ => hb.dereference hlive hheld hzero (Or.inl rfl), fun hbreaks => absurd ?_ hbreaks⟩
      intro _ _ _ _ htarget
      rw [hnone] at htarget
      cases htarget
    | existing existing =>
      have htarget : s.insertTarget object entryAllocated = some (existing, false) := by
        simp only [insertTarget, hheader, hplaced]
      have hdropped := (hb.freeCreateInfo object).dereference (hlive.freeCreateInfo object) hheld hzero (Or.inl rfl)
      have hquiet : Quiet s ((s.freeCreateInfo object).obDereferenceObject object) :=
        .trans (.freeCreateInfo s object) (.dereference _ object)
      have htables : ((s.freeCreateInfo object).obDereferenceObject object).tables = s.tables :=
        (Steady.trans (.freeCreateInfo s object) (.dereference _ object)).tables
      have htable := insertTable_congr htables c (createAttributes header) wantObject
      have hopen := hquiet.hasOpenProcedure existing
      have hstatus : (((s.freeCreateInfo object).obDereferenceObject object).insertHandle c object existing none
          (createAttributes header) desiredAccess statusObjectNameExists wantObject wantHandle).1.status ≠ statusSuccess :=
        insertHandle_status_ne none (by decide)
      have hheldAfter (result : CallResult) (hne : result.status ≠ statusSuccess) :
          insertHeld h object wantObject wantHandle result = existingHeld (h - single object 1) result := by
        rw [insertHeld, if_neg hne, existingHeld]
      have hkeeps : s.InsertKeeps c object wantObject wantHandle entryAllocated ↔
          ((wantHandle = false ∧ wantObject = false) ∨
            wantHandle = true ∧ ((s.freeCreateInfo object).obDereferenceObject object).Live existing ∧
              ∃ kernelHandle id table,
                ((s.freeCreateInfo object).obDereferenceObject object).insertTable c (createAttributes header) wantObject =
                  some (kernelHandle, id, table) ∧
                ¬ ((s.freeCreateInfo object).obDereferenceObject object).AddsEntry c table existing ∧
                ¬ ((s.freeCreateInfo object).obDereferenceObject object).Leaks c table existing) := by
        simp only [htable, addsEntry_congr hopen, leaks_congr hopen]
        constructor
        · intro hkeeps
          exact hkeeps header existing false hheader htarget
        · intro hkeeps header' target new hheader' htarget'
          rw [hheader] at hheader'
          cases hheader'
          rw [htarget] at htarget'
          cases htarget'
          exact hkeeps
      simp only [obInsertObject, hheader, hplaced]
      rw [hheldAfter _ hstatus, hkeeps]
      refine ⟨hdropped.insertHandle_existing, hdropped.insertHandle_existing_breaks ?_⟩
      rw [hquiet.isSome]
      exact placeObject_existing hplaced
    | inserted parent directory =>
      simp only [obInsertObject, hheader, hplaced]
      refine hnew ((hb.setDirectory parent directory).assignSecurity object assigned)
        (Steady.trans (.setDirectory s parent directory) (.assignSecurity _ object assigned)).tables
        ((Quiet.assignSecurity (s.setDirectory parent directory) object assigned).hasOpenProcedure object) _ ?_
      simp only [insertTarget, hheader, hplaced]
    | unnamed =>
      simp only [obInsertObject, hheader, hplaced]
      refine hnew (hb.assignSecurity object assigned) (Steady.assignSecurity s object assigned).tables
        ((Quiet.assignSecurity s object assigned).hasOpenProcedure object) _ ?_
      simp only [insertTarget, hheader, hplaced]

end Insertions

/-! ### Runs -/

section Start
variable (types : ℕ → ObjectType) (directoryType : ℕ)

theorem balanced_start (htypes : ∀ t, (types t).totalNumberOfHandles = 0) :
    Balanced (start types directoryType : ObState P) 0 0 where
  sound := sound_start types directoryType
  finiteTables := by simp [start]
  finiteObjects := by simp [start]
  settled o :=
    { nonneg := le_refl 0
      references := fun x hx => by cases hx
      handles := fun x hx => by cases hx
      link := fun x hx => by cases hx
      queued := iff_of_false List.not_mem_nil fun ⟨x, hx, _⟩ => by cases hx
      gone := fun _ => ⟨rfl, fun _ => finsum_eq_zero_of_forall_eq_zero fun _ => rfl⟩ }
  nodup := List.nodup_nil
  totals t := (htypes t).trans (finsum_eq_zero_of_forall_eq_zero fun _ => rfl).symm

end Start

theorem Balanced.createObject (hb : Balanced s h 0) (objectType : ℕ) (objectAttributes : Option ObjectAttributes)
    (pool : ObjectPool) :
    let r := s.obCreateObject objectType objectAttributes pool
    Balanced r.2 (existingHeld h r.1) 0 := by
  dsimp only
  rcases obCreateObject_cases s objectType objectAttributes pool with ⟨hnone, heq⟩ | ⟨body, header, hplace, hbody, hnew⟩
  · rwa [heq, existingHeld, hnone]
  · rw [existingHeld, hbody]
    exact hb.create hplace (tame_createObject hb.sound objectType objectAttributes pool).sound hnew

theorem Balanced.createRootDirectory (hb : Balanced s h 0) (pool : ObjectPool) :
    let r := s.createRootDirectory pool
    Balanced r.2 (existingHeld h r.1) 0 := by
  have hcreate := hb.createObject s.directoryType (some ⟨0, none, objPermanent ||| objCaseInsensitive⟩) pool
  unfold ObState.createRootDirectory
  dsimp only at hcreate ⊢
  split <;> rename_i heq <;> rw [heq] at hcreate
  · exact hcreate.congr ⟨rfl, fun _ ho => ho⟩ rfl rfl fun _ => rfl
  · exact hcreate

variable [DecidableEq P]

theorem Balanced.ntClose (hb : Balanced s h 0) (process : Option P) (handle : ℕ) :
    Balanced (s.ntClose process handle).2 h 0 := by
  unfold ObState.ntClose
  split_ifs
  · exact hb
  · split
    · exact hb
    · rename_i id table htable
      split
      · exact hb
      · rename_i object access flags hlookup
        split_ifs
        · exact hb
        · have hrelease := hb.release (tableFor_some htable) hlookup (Or.inl rfl)
          have hdestroy := (destroy_lookup (hb.sound.tables id table (tableFor_some htable)) hlookup).1
          split
          · rename_i heq
            rw [hdestroy] at heq
            cases heq
          · rename_i heq
            rw [heq] at hrelease
            exact hrelease

end ObState

namespace Ledger

open ObState

variable {P : Type} [DecidableEq P]

/-- The references after a call: what it gives to its caller, and what it takes. -/
def heldAfter (L : Ledger P) (op : ObOp P) : ℕ → ℤ :=
  match op with
  | .createObject _ _ _ | .createRootDirectory _ => existingHeld L.held (L.state.call op).1
  | .insertObject _ object _ wantObject wantHandle _ _ =>
    insertHeld L.held object wantObject wantHandle (L.state.call op).1
  | .reference object => L.held + single object 1
  | .dereference object => L.held - single object 1
  | _ => L.held

def step (L : Ledger P) (op : ObOp P) : Ledger P := ⟨L.state.step op, L.heldAfter op⟩

/-- The creator of an object inserts it, under a directory; a pointer that is opened or referenced
leads to a live object; a dropped reference is held. -/
def Admitted (L : Ledger P) : ObOp P → Prop
  | .insertObject _ object _ _ _ entryAllocated _ => 1 ≤ L.held object ∧
    ∀ header, L.state.headers object = some header → (L.state.placeObject object header entryAllocated).isSome
  | .openByPointer _ object _ _ _ _ _ | .reference object => L.state.Live object
  | .dereference object => 1 ≤ L.held object
  | _ => True

def KeepsCounts (L : Ledger P) : ObOp P → Prop
  | .openByName c found attributes accessState desiredAccess objectType userMode =>
    L.state.OpenKeeps c found attributes (some (accessState.getD ⟨c.subject, 0⟩)) desiredAccess objectType userMode
  | .openByPointer c object attributes accessState desiredAccess objectType userMode =>
    L.state.OpenKeeps c object attributes accessState desiredAccess objectType userMode
  | .duplicate c sourceProcess targetProcess sourceHandle _ _ _ =>
    L.state.DuplicateKeeps c sourceProcess targetProcess sourceHandle
  | .insertObject c object _ wantObject wantHandle entryAllocated _ =>
    L.state.InsertKeeps c object wantObject wantHandle entryAllocated
  | _ => True

variable {L : Ledger P}

theorem step_balanced (hb : Balanced L.state L.held 0) (op : ObOp P) (hadmitted : L.Admitted op) :
    (L.KeepsCounts op → Balanced (L.step op).state (L.step op).held 0) ∧
      (¬ L.KeepsCounts op → ¬ Exact (L.step op).state (L.step op).held) := by
  have hkept {op : ObOp P} (hkeeps : L.KeepsCounts op) (h : Balanced (L.step op).state (L.step op).held 0) :
      (L.KeepsCounts op → Balanced (L.step op).state (L.step op).held 0) ∧
        (¬ L.KeepsCounts op → ¬ Exact (L.step op).state (L.step op).held) :=
    ⟨fun _ => h, fun hbreaks => absurd hkeeps hbreaks⟩
  cases op with
  | createTable id block => exact hkept trivial (hb.createTable id block)
  | createRootDirectory pool => exact hkept trivial (hb.createRootDirectory pool)
  | createObject objectType objectAttributes pool =>
    exact hkept trivial (hb.createObject objectType objectAttributes pool)
  | insertObject c object desiredAccess wantObject wantHandle entryAllocated assigned =>
    obtain ⟨hheld, hplace⟩ := hadmitted
    obtain ⟨header, hheader⟩ := isSome_iff_exists.1 (hb.isSome_of_held hheld)
    exact hb.insertObject c desiredAccess wantObject wantHandle entryAllocated assigned hheader hheld (hplace header hheader)
  | insertIntoDirectory parent object entryAllocated =>
    exact hkept trivial (hb.insertIntoDirectory parent object entryAllocated)
  | openByName c found attributes accessState desiredAccess objectType userMode =>
    exact ⟨hb.open_keeps c found attributes _ desiredAccess objectType userMode,
      hb.open_breaks c found attributes _ desiredAccess objectType userMode⟩
  | openByPointer c object attributes accessState desiredAccess objectType userMode =>
    exact ⟨hb.open_keeps c object attributes accessState desiredAccess objectType userMode,
      hb.open_breaks c object attributes accessState desiredAccess objectType userMode⟩
  | duplicate c sourceProcess targetProcess sourceHandle desiredAccess handleAttributes options =>
    exact ⟨hb.duplicate_keeps sourceProcess targetProcess desiredAccess handleAttributes options,
      hb.duplicate_breaks sourceProcess targetProcess desiredAccess handleAttributes options⟩
  | close process handle => exact hkept trivial (hb.ntClose process handle)
  | reference object => exact hkept trivial (hb.reference hadmitted)
  | dereference object =>
    have hheld : 1 ≤ L.held object := hadmitted
    exact hkept trivial (hb.dereference (hb.live_of_held hheld) hheld (by show (0 : ℤ) ≤ _; omega) (Or.inl rfl))
  | reap => exact hkept trivial hb.reap
  | setTables upcase => exact hkept trivial (hb.congr ⟨rfl, fun _ ho => ho⟩ rfl rfl fun _ => rfl)

/-- When callers answer for their references, the counts are exact in every state if and only if
every step leaves them so. -/
theorem counts_exact_iff (types : ℕ → ObjectType) (directoryType : ℕ) (ops : List (ObOp P))
    (htypes : ∀ t, (types t).totalNumberOfHandles = 0)
    (hadmitted : EveryStep step Admitted ⟨start types directoryType, 0⟩ ops) :
    EveryState step (fun L => Exact L.state L.held) ⟨start types directoryType, 0⟩ ops ↔
      EveryStep step KeepsCounts ⟨start types directoryType, 0⟩ ops :=
  everyState_iff_everyStep (I := fun L => Balanced L.state L.held 0) (fun _ op hb hg hc => (step_balanced hb op hg).1 hc)
    (fun _ hb => hb.exact) (fun _ op hb hg hc => (step_balanced hb op hg).2 hc) (balanced_start types directoryType htypes)
    hadmitted

section Decide
variable {s : ObState P} {c : Caller P} {table : HandleTable} {object : ℕ} {wantObject wantHandle entryAllocated : Bool}

instance : Decidable (s.AddsEntry c table object) :=
  decidable_of_iff ((table.taking c.pool.blocks).any (fun t => decide (table.firstFreeIndex < t.tableSize)) = true ∧
      (s.hasOpenProcedure object = true → c.openStatus = statusSuccess)) (by
    simp only [AddsEntry, HandleTable.TakesInside, Option.any_eq_true, decide_eq_true_eq, Accepts, Option.mem_def])

instance : Decidable (s.Leaks c table object) :=
  decidable_of_iff ((table.taking c.pool.blocks).any (fun t => decide (t.tableSize ≤ table.firstFreeIndex)) = true ∧
      (s.hasOpenProcedure object = true → c.openStatus = statusSuccess)) (by
    simp only [Leaks, HandleTable.TakesOutside, Option.any_eq_true, decide_eq_true_eq, Accepts, Option.mem_def])

instance : Decidable (s.Live object) := inferInstanceAs (Decidable (_ ∧ _))

omit [DecidableEq P] in
theorem openKeeps_of {attributes : BitVec 32} {accessState : Option AccessState} {desiredAccess : Se.AccessMask}
    {objectType : Option ℕ} {userMode : Bool} (hlive : s.Live object)
    (h : ∀ target ∈ s.openTable c object attributes accessState desiredAccess objectType userMode,
      ∀ t ∈ target, ¬ s.Leaks c t.2 object) :
    s.OpenKeeps c object attributes accessState desiredAccess objectType userMode :=
  fun target htarget => ⟨hlive, fun _ _ ht => h target htarget _ ht⟩

omit [DecidableEq P] in
theorem duplicateKeeps_of {sourceProcess targetProcess : Option P} {sourceHandle : ℕ}
    (h : ∀ m ∈ s.handleMeaning (sourceProcess.or c.process) sourceHandle,
      ∀ t ∈ s.tableFor (isKernelHandle sourceHandle) (targetProcess.or c.process), ¬ s.Leaks c t.2 m.1) :
    s.DuplicateKeeps c sourceProcess targetProcess sourceHandle :=
  fun _ _ _ _ _ hmeaning htable => h _ hmeaning _ htable

omit [DecidableEq P] in
theorem insertKeeps_of (hnew : s.insertTarget object entryAllocated = some (object, true))
    (h : ∀ header ∈ s.headers object, ∀ t ∈ s.insertTable c (createAttributes header) wantObject,
      s.AddsEntry c t.2.2 object) :
    s.InsertKeeps c object wantObject wantHandle entryAllocated := by
  intro header target new hheader htarget
  rw [hnew] at htarget
  cases htarget
  exact fun _ _ _ _ ht => h header hheader _ ht

end Decide

/-- The process, without a token, and its table for 256 handles. -/
def caller : Caller Unit := ⟨some (), ⟨none, none⟩, fun _ => none, statusSuccess⟩

theorem words_zero (i : ℕ) : ((fun _ => ⟨0, 0, 0⟩ : ℕ → HandleTableEntry) i).object < 2 ^ 64 := Nat.two_pow_pos 64

def rootAddress : ℕ := 2 ^ 63
def bodyAddress : ℕ := 2 ^ 63 + 256

/-- An object is inserted under a name with a handle, opened, duplicated with the close of its first handle, and
deleted when both other handles are closed. -/
def nameOpenClose : List (ObOp Unit) :=
  [.createTable (some ()) ⟨fun _ => ⟨0, 0, 0⟩, words_zero⟩,
    .createRootDirectory ⟨some rootAddress, true, true⟩,
    .createObject 1 (some ⟨0, some ⟨some [65]⟩, 0⟩) ⟨some bodyAddress, true, true⟩,
    .insertObject caller bodyAddress 0 false true true none,
    .openByName caller bodyAddress 0 none 0 none false,
    .duplicate caller none none 4 0 0 duplicateCloseSource,
    .reference bodyAddress,
    .close (some ()) 8,
    .close (some ()) 12,
    .dereference bodyAddress,
    .reap]

theorem counts_exact_nameOpenClose :
    EveryState step (fun L => Exact L.state L.held) (⟨start (fun _ => {}) 0, 0⟩ : Ledger Unit) nameOpenClose := by
  have hadmitted : EveryStep step Admitted (⟨start (fun _ => {}) 0, 0⟩ : Ledger Unit) nameOpenClose := by
    refine ⟨trivial, trivial, trivial, ⟨by decide +kernel, ?_⟩, trivial, trivial, ?_, trivial, trivial, ?_, trivial, trivial⟩
    · change ∀ header ∈ headers _ _, (placeObject _ _ header _).isSome = true
      decide +kernel
    · show Live _ _
      decide +kernel
    · show (1 : ℤ) ≤ _
      decide +kernel
  refine (counts_exact_iff (fun _ => {}) 0 nameOpenClose (fun _ => rfl) hadmitted).2
    ⟨trivial, trivial, trivial, ?_, ?_, ?_, trivial, trivial, trivial, trivial, trivial, trivial⟩
  · refine insertKeeps_of ?_ ?_ <;> decide +kernel
  · refine openKeeps_of ?_ ?_ <;> decide +kernel
  · refine duplicateKeeps_of ?_
    decide +kernel

/-- A handle to an object that was found in place of the new one takes no reference of its own. -/
theorem openif_drops_reference :
    ¬ EveryState step (fun L => Exact L.state L.held) (⟨start (fun _ => {}) 0, 0⟩ : Ledger Unit)
      [.createTable (some ()) ⟨fun _ => ⟨0, 0, 0⟩, fun _ => Nat.two_pow_pos 64⟩,
        .createRootDirectory ⟨some (2 ^ 63), true, true⟩,
        .createObject 1 (some ⟨0, some ⟨some [65]⟩, objOpenif⟩) ⟨some (2 ^ 63 + 256), true, true⟩,
        .insertObject ⟨some (), ⟨none, none⟩, fun _ => none, statusSuccess⟩ (2 ^ 63 + 256) 0 true false true none,
        .createObject 1 (some ⟨0, some ⟨some [65]⟩, objOpenif⟩) ⟨some (2 ^ 63 + 512), true, true⟩,
        .insertObject ⟨some (), ⟨none, none⟩, fun _ => none, statusSuccess⟩ (2 ^ 63 + 512) 0 false true true none] := by
  rintro ⟨-, -, -, -, -, -, hlast⟩
  have hreferences := hlast.references (2 ^ 63 + 256) ⟨1, 1, 1⟩ (by decide)
  have hhandles := hlast.handles (2 ^ 63 + 256) ⟨1, 1, 1⟩ (by decide) (by decide)
  rw [← hhandles] at hreferences
  exact absurd hreferences (by decide)

end Ledger

end XenOS.Ob
