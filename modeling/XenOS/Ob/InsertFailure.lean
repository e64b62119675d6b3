import XenOS.Ob.CountRuns

/-! What a failing `ob_insert_object` leaves behind. An exit before the handle releases the new
object; the exits after it release the reference of the handle only. An object found by name loses a
reference never taken where there is no handle table. -/

namespace XenOS.Ob

open General Ex ObjectHeader Option List
open Function (update update_self update_of_ne update_idem update_eq_self)

/-- `ob_insert_object` failed. -/
def CallResult.failed (result : CallResult) : Prop :=
  result.status ≠ statusSuccess ∧ result.status ≠ statusObjectNameExists

namespace ObState

variable {P : Type} {s s' : ObState P} {object target : ℕ}

structure Unnamed (s : ObState P) (object : ℕ) : Prop where
  entries : ∀ d directory, s.directories d = some directory → ∀ bucket, ∀ entry ∈ directory.hashBuckets bucket,
    entry.object ≠ object
  handles : ∀ id table, s.tables id = some table → table.naming object = 0

structure Fresh (s : ObState P) (object : ℕ) : Prop where
  counts : ∃ header, s.headers object = some header ∧ header.pointerCount = 1 ∧ header.handleCountOrNextToFree = 0
  queued : object ∉ s.reaperList
  unnamed : s.Unnamed object

theorem fresh_of_create {objectType : ℕ} {objectAttributes : Option ObjectAttributes} {pool : ObjectPool}
    (hobject : (s.obCreateObject objectType objectAttributes pool).1.object = some object) (hunnamed : s.Unnamed object)
    (hqueued : object ∉ s.reaperList) : (s.obCreateObject objectType objectAttributes pool).2.Fresh object := by
  rcases obCreateObject_cases s objectType objectAttributes pool with ⟨hnone, -⟩ | ⟨body, header, -, hbody, hcreated⟩
  · rw [hnone] at hobject
    cases hobject
  · rw [hobject] at hbody
    cases hbody
    refine ⟨⟨header, ?_, hcreated.pointerCount, hcreated.handleCount⟩, ?_, ?_, ?_⟩
    · rw [hcreated.headers, update_self]
    · rwa [hcreated.reaperList]
    · intro d directory hd bucket entry hentry
      rw [hcreated.directories] at hd
      by_cases hdo : d = object
      · subst hdo
        rw [update_self] at hd
        split at hd
        · cases hd
          cases hentry
        · cases hd
      · rw [update_of_ne hdo] at hd
        exact hunnamed.entries d directory hd bucket entry hentry
    · rw [hcreated.tables]
      exact hunnamed.handles

/-- The new object has no reference and alone is queued for deletion; nothing names it; all other
counts and totals are what they were. -/
structure NothingLeft (s s' : ObState P) (object : ℕ) : Prop where
  released : (s'.counts object).map Counts.pointers = some 0
  queued : s'.reaperList = object :: s.reaperList
  unnamed : s'.Unnamed object
  counts : ∀ o, o ≠ object → s'.counts o = s.counts o
  totals : ∀ t, (s'.types t).totalNumberOfHandles = (s.types t).totalNumberOfHandles

def FailsCleanly [DecidableEq P] (s : ObState P) (c : Caller P) (object : ℕ) (desiredAccess : Se.AccessMask)
    (wantObject wantHandle entryAllocated : Bool) (assigned : Option Se.SecurityDescriptor) : Prop :=
  let r := s.obInsertObject c object desiredAccess wantObject wantHandle entryAllocated assigned
  r.1.failed → NothingLeft s r.2 object

/-- Where a handle is wanted: to the new object it can be made if there is a table; to an object
found, it can be made, or the failure takes back just what it added. -/
def HandleOrNothing (s : ObState P) (c : Caller P) (object : ℕ) (wantObject wantHandle entryAllocated : Bool) : Prop :=
  wantHandle = true → ∀ header target new, s.headers object = some header →
    s.insertTarget object entryAllocated = some (target, new) →
    match s.insertTable c (createAttributes header) wantObject with
    | none => new = true ∨ ∃ x, s.counts target = some x ∧ x.pointers < x.handles
    | some (_, _, table) =>
      table.taking c.pool.blocks = none ∨ (¬ s.Accepts c target ∧ c.openStatus ≠ statusObjectNameExists) →
        new = false ∧ ∀ x, s.counts target = some x → x.handles ≤ x.pointers + 1 ∧ x.pointers ≠ 0

section References
variable {o : ℕ} {header : ObjectHeader}

theorem dereference_guarded (hheader : s.headers o = some header) (hlt : header.pointerCount < header.handleCountOrNextToFree) :
    s.obDereferenceObject o = s := by
  unfold obDereferenceObject
  rw [hheader]
  exact if_pos hlt

theorem dereference_of_more (hheader : s.headers o = some header) (hle : header.handleCountOrNextToFree ≤ header.pointerCount)
    (hmore : header.pointerCount ≠ 1) :
    s.obDereferenceObject o = s.setHeader o { header with pointerCount := header.pointerCount - 1 } := by
  unfold obDereferenceObject
  rw [hheader]
  dsimp only
  rw [if_neg (by omega), if_neg (by omega)]

theorem counts_update {s' : ObState P} (h : s'.headers = update s.headers o (some header)) (b : ℕ) :
    s'.counts b = if b = o then some header.counts else s.counts b := by
  unfold counts
  rw [h]
  by_cases hb : b = o
  · subst hb
    rw [update_self, if_pos rfl]
    rfl
  · rw [update_of_ne hb, if_neg hb]

theorem nothingLeft_dereference (hfresh : s.Fresh object) : NothingLeft s (s.obDereferenceObject object) object := by
  obtain ⟨header, hheader, hpointers, hhandles⟩ := hfresh.counts
  have hlast := dereference_of_last hheader (by omega) hpointers
  have hheaders : (s.obDereferenceObject object).headers = update s.headers object
      (some { header with pointerCount := 0, handleCountOrNextToFree := pointerAsIsize (s.reaperList.headD 0) }) := by
    rw [hlast]
  have hcounts := counts_update hheaders
  refine ⟨?_, by rw [hlast], ?_, ?_, ?_⟩
  · rw [hcounts, if_pos rfl]
    rfl
  · rw [hlast]
    exact ⟨hfresh.unnamed.entries, hfresh.unnamed.handles⟩
  · intro o ho
    rw [hcounts, if_neg ho]
  · rw [hlast]
    exact fun _ => rfl

structure SameAccounts (s s' : ObState P) : Prop where
  counts : s'.counts = s.counts
  reaperList : s'.reaperList = s.reaperList
  unnamed : ∀ o ≠ 0, s.Unnamed o → s'.Unnamed o
  totals : ∀ t, (s'.types t).totalNumberOfHandles = (s.types t).totalNumberOfHandles

theorem NothingLeft.same {s₁ : ObState P} (h : NothingLeft s s₁ object) (hobject : object ≠ 0) (hsame : SameAccounts s₁ s') :
    NothingLeft s s' object := by
  refine ⟨?_, ?_, hsame.unnamed object hobject h.unnamed, ?_, ?_⟩
  · rw [hsame.counts]
    exact h.released
  · rw [hsame.reaperList]
    exact h.queued
  · intro o ho
    rw [hsame.counts]
    exact h.counts o ho
  · intro t
    rw [hsame.totals]
    exact h.totals t

end References

section MakeHandle
variable [DecidableEq P] {c : Caller P} {id : Option P} {table : HandleTable} {access : Se.AccessMask} {flags : BitVec 32}
variable {header : ObjectHeader}

/-- When no handle is made, one reference more is left, and the tables name what they named. -/
structure HandleFailed (s s' : ObState P) (target : ℕ) (header : ObjectHeader) : Prop where
  headers : s'.headers = update s.headers target (some { header with pointerCount := header.pointerCount + 1 })
  reaperList : s'.reaperList = s.reaperList
  unnamed : ∀ o ≠ 0, s.Unnamed o → s'.Unnamed o
  totals : ∀ t, (s'.types t).totalNumberOfHandles = (s.types t).totalNumberOfHandles

omit [DecidableEq P] in
theorem addHandles_of_some (hheader : s.headers target = some header) (n : ℤ) :
    (s.addHandles target n).headers = update s.headers target
        (some { header with handleCountOrNextToFree := header.handleCountOrNextToFree + n }) ∧
      ∀ t, ((s.addHandles target n).types t).totalNumberOfHandles =
        (s.types t).totalNumberOfHandles + if t = header.typePtr then n else 0 := by
  unfold addHandles
  rw [hheader]
  refine ⟨rfl, ?_⟩
  intro t
  by_cases ht : t = header.typePtr
  · subst ht
    rw [modifyType_types, update_self, if_pos rfl]
    rfl
  · rw [modifyType_types, update_of_ne ht, if_neg ht, add_zero]
    rfl

theorem unnamed_setTable {table' : HandleTable} {s' : ObState P} (htable : s.tables id = some table)
    (hsame : SameEntries table table') (hdirectories : s'.directories = s.directories)
    (htables : s'.tables = update s.tables id (some table')) : ∀ o ≠ 0, s.Unnamed o → s'.Unnamed o := by
  intro o ho hunnamed
  refine ⟨?_, ?_⟩
  · rw [hdirectories]
    exact hunnamed.entries
  · intro id' t ht
    rw [htables] at ht
    by_cases hid : id' = id
    · subst hid
      rw [update_self] at ht
      cases ht
      rw [hsame.naming o ho]
      exact hunnamed.handles id' table htable
    · rw [update_of_ne hid] at ht
      exact hunnamed.handles id' t ht

theorem makeHandle_cases (c : Caller P) (access : Se.AccessMask) (flags : BitVec 32) (hs : s.Sound)
    (htarget : s.headers target = some header) (htable : s.tables id = some table) :
    (table.taking c.pool.blocks = none ∧ (s.obpMakeHandle c id table target access flags).1 = .full ∧
        HandleFailed s (s.obpMakeHandle c id table target access flags).2 target header) ∨
      (table.taking c.pool.blocks ≠ none ∧ ¬ s.Accepts c target ∧
        (s.obpMakeHandle c id table target access flags).1 = .refused c.openStatus ∧
        HandleFailed s (s.obpMakeHandle c id table target access flags).2 target header) ∨
      (table.taking c.pool.blocks ≠ none ∧ s.Accepts c target ∧
        ∃ h, (s.obpMakeHandle c id table target access flags).1 = .made h) := by
  obtain ⟨ho, hlt, haligned⟩ := hs.isAddress (show (s.headers target).isSome by rw [htarget]; rfl)
  have hsane := hs.tables id table htable
  have hreference : (s.obReferenceObject target).headers =
      update s.headers target (some { header with pointerCount := header.pointerCount + 1 }) := by
    rw [obReferenceObject, modifyHeader_of_some htarget]
    rfl
  have hreferenceTypes : (s.obReferenceObject target).types = s.types := by
    rw [obReferenceObject, modifyHeader_of_some htarget]
    rfl
  cases htaking : table.taking c.pool.blocks with
  | none =>
    obtain ⟨-, -, hsame⟩ := create_none access flags hsane ho htaking
    left
    rw [obpMakeHandle_full ho htaking]
    refine ⟨rfl, rfl, hreference, reference_reaper s target, ?_, ?_⟩
    · exact unnamed_setTable htable hsame (Quiet.reference s target).directories (by simp)
    · intro t
      exact congrArg (fun types => (types t).totalNumberOfHandles) hreferenceTypes
  | some t1 =>
    right
    rw [obpMakeHandle_taken ho htaking]
    by_cases haccepts : s.Accepts c target
    · right
      rw [if_neg fun h => h.2 (haccepts h.1)]
      exact ⟨some_ne_none _, haccepts, _, rfl⟩
    · left
      have hrefused : s.hasOpenProcedure target = true ∧ c.openStatus ≠ statusSuccess := Classical.not_imp.1 haccepts
      rw [if_pos hrefused]
      have hback : SameEntries table (exDestroyHandle (exCreateHandleEx c.pool.blocks table target access flags).2
          (exCreateHandleEx c.pool.blocks table target access flags).1).2 := by
        by_cases hinside : table.firstFreeIndex < t1.tableSize
        · exact (create_inside access flags hsane ho haligned hlt ⟨t1, htaking, hinside⟩).2.2.2.2
        · obtain ⟨-, -, hsame, hkept⟩ :=
            create_outside access flags hsane ho hlt ⟨t1, htaking, Nat.le_of_not_lt hinside⟩
          rwa [hkept]
      -- the reference, one handle more, one handle less
      have hheader₁ : ((s.obReferenceObject target).setTable id
          (exCreateHandleEx c.pool.blocks table target access flags).2).headers target =
            some { header with pointerCount := header.pointerCount + 1 } := by
        show (s.obReferenceObject target).headers target = _
        rw [hreference, update_self]
      obtain ⟨hheaders₂, htotals₂⟩ := addHandles_of_some hheader₁ 1
      have hheader₂ : (s.handleMade c id table target access flags).headers target = _ :=
        (congrFun hheaders₂ target).trans (update_self _ _ _)
      obtain ⟨hheaders₃, htotals₃⟩ := addHandles_of_some hheader₂ (-1)
      refine ⟨some_ne_none _, haccepts, rfl, ?_, ?_, ?_, ?_⟩
      · show ((s.handleMade c id table target access flags).addHandles target (-1)).headers = _
        rw [hheaders₃]
        show update (s.handleMade c id table target access flags).headers target _ = _
        unfold handleMade
        rw [hheaders₂, update_idem]
        show update (s.obReferenceObject target).headers target _ = _
        rw [hreference, update_idem]
        simp only [Int.add_neg_cancel_right]
      · show ((s.handleMade c id table target access flags).addHandles target (-1)).reaperList = _
        rw [addHandles_reaper]
        unfold handleMade
        rw [addHandles_reaper]
        exact reference_reaper s target
      · exact unnamed_setTable htable hback (quiet_handleMade.trans (.addHandles _ _ _)).directories
          (by simp [handleMade_tables])
      · intro t
        show (((s.handleMade c id table target access flags).addHandles target (-1)).types t).totalNumberOfHandles = _
        rw [htotals₃]
        unfold handleMade
        rw [htotals₂]
        show ((s.obReferenceObject target).types t).totalNumberOfHandles + _ + _ = _
        rw [hreferenceTypes]
        split <;> omega

end MakeHandle

section Rollback

theorem compareChars_self (table : Option UpcaseTable) (caseInsensitive : Bool) (chars : List WChar) :
    compareChars table caseInsensitive chars chars = .eq := by
  induction chars with
  | nil => rfl
  | cons ch chars ih => simp [compareChars, ih]

theorem rtlEqualUnicodeString_self (table : Option UpcaseTable) (name : UnicodeString) (caseInsensitive : Bool) :
    rtlEqualUnicodeString table name name caseInsensitive = true := by
  unfold rtlEqualUnicodeString rtlCompareUnicodeString
  cases name.buffer with
  | none => rfl
  | some chars => simp [compareChars_self]

theorem searchChain_append {entryMatch : ObjectDirectoryEntry → Bool} {chain : List ObjectDirectoryEntry}
    {entry : ObjectDirectoryEntry} (hnone : (searchChain entryMatch chain).1 = none) (hobject : entry.object ≠ 0)
    (hmatch : entryMatch entry = true) :
    (searchChain entryMatch chain).2 = chain.length ∧
      searchChain entryMatch (chain ++ [entry]) = (some entry.object, chain.length) := by
  induction chain with
  | nil => exact ⟨rfl, if_pos ⟨hobject, hmatch⟩⟩
  | cons first chain ih =>
    rw [searchChain] at hnone
    split_ifs at hnone with hfirst
    obtain ⟨hlength, hfound⟩ := ih hnone
    rw [cons_append, searchChain, searchChain, if_neg hfirst, if_neg hfirst, hfound]
    exact ⟨congrArg (· + 1) hlength, rfl⟩

theorem delete_of_insert {headers headers' : ℕ → Option ObjectHeader} {table : Option UpcaseTable}
    {directory directory' : ObjectDirectory} {name : UnicodeString} {attributes : BitVec 32} (hobject : object ≠ 0)
    (hnames : ∀ o, (headers' o).bind nameInfo = (headers o).bind nameInfo)
    (hname : (headers object).bind nameInfo = some name)
    (hnone : (obpLookupEntryDirectory headers table directory name attributes).object = none)
    (hinsert : obpInsertEntryDirectory directory (obpLookupEntryDirectory headers table directory name attributes) object =
      some directory') :
    (obpLookupEntryDirectory headers' table directory' name attributes).object = some object ∧
      obpDeleteEntryDirectory directory' (obpLookupEntryDirectory headers' table directory' name attributes) =
        some directory := by
  have hmatches : entryMatches headers' = entryMatches headers := by
    funext table name caseInsensitive hashValue entry
    unfold entryMatches
    rw [hnames]
  unfold obpLookupEntryDirectory at hnone hinsert ⊢
  cases hbuffer : name.buffer with
  | none =>
    rw [hbuffer] at hinsert
    cases hinsert
  | some chars =>
    rw [hbuffer] at hnone hinsert
    dsimp only at hnone hinsert ⊢
    rw [hmatches]
    have hself : entryMatches headers table name (decide (attributes &&& objCaseInsensitive ≠ 0))
        (obpHashObjectName table name) ⟨object, obpHashObjectName table name⟩ = true := by
      unfold entryMatches
      rw [hname]
      simp [rtlEqualUnicodeString_self]
    obtain ⟨hlength, hfound⟩ := searchChain_append hnone hobject hself
    simp only [obpInsertEntryDirectory, hlength, take_length, drop_length, some.injEq] at hinsert
    subst hinsert
    simp only [update_self, hfound, obpDeleteEntryDirectory, length_append, length_singleton,
      Nat.lt_succ_self, if_true, update_idem, true_and, some.injEq]
    rw [eraseIdx_append_of_length_le (Nat.le_refl _), Nat.sub_self, eraseIdx_cons_zero, append_nil,
      update_eq_self]

end Rollback

section Place
variable {header : ObjectHeader} {entryAllocated : Bool} {parent existing : ℕ} {directory' : ObjectDirectory}

theorem placeObject_inserted (h : s.placeObject object header entryAllocated = some (.inserted parent directory')) :
    ∃ directory name, s.directories parent = some directory ∧ header.nameInfo = some name ∧
      (obpLookupEntryDirectory s.headers s.upcaseTable directory name (createAttributes header)).object = none ∧
      obpInsertEntryDirectory directory
        (obpLookupEntryDirectory s.headers s.upcaseTable directory name (createAttributes header)) object = some directory' := by
  unfold placeObject at h
  split at h
  · cases h
  next name hname =>
  split at h
  · cases h
  dsimp only at h
  split at h
  · cases h
  split at h
  · cases h
  next directory hdirectory =>
  split at h
  · split at h <;> cases h
  next hnone =>
  split at h
  · cases h
  next found hinsert =>
  cases h
  refine ⟨directory, name, hdirectory, hname, hnone, ?_⟩
  split at hinsert
  · exact hinsert
  · cases hinsert

theorem placeObject_entry (h : s.placeObject object header entryAllocated = some (.existing existing)) :
    ∃ d directory bucket, s.directories d = some directory ∧ ∃ entry ∈ directory.hashBuckets bucket, entry.object = existing := by
  unfold placeObject at h
  split at h
  · cases h
  next name hname =>
  split at h
  · cases h
  dsimp only at h
  split at h
  · cases h
  split at h
  · cases h
  next directory hdirectory =>
  split at h
  next found hfound =>
    split at h
    · cases h
      unfold obpLookupEntryDirectory at hfound
      split at hfound
      · cases hfound
      · obtain ⟨entry, hentry, -, heq⟩ := searchChain_some hfound
        exact ⟨_, directory, _, hdirectory, entry, hentry, heq⟩
    · cases h
  next hnone => split at h <;> cases h

theorem sameAccounts_of (hcounts : s'.counts = s.counts) (hreaper : s'.reaperList = s.reaperList)
    (hdirectories : s'.directories = s.directories) (htables : s'.tables = s.tables) (htypes : s'.types = s.types) :
    SameAccounts s s' := by
  refine ⟨hcounts, hreaper, ?_, ?_⟩
  · intro o ho hunnamed
    exact ⟨by rw [hdirectories]; exact hunnamed.entries, by rw [htables]; exact hunnamed.handles⟩
  · intro t
    rw [htypes]

theorem assignSecurity_counts (s : ObState P) (o : ℕ) (assigned : Option Se.SecurityDescriptor) :
    (s.assignSecurity o assigned).counts = s.counts := modifyHeader_counts s o fun _ => by split <;> rfl

theorem sameAccounts_assignSecurity (assigned : Option Se.SecurityDescriptor) :
    SameAccounts s (s.assignSecurity object assigned) :=
  sameAccounts_of (assignSecurity_counts s object assigned) (modifyHeader_reaper s object _)
    (Quiet.assignSecurity s object assigned).directories (assignSecurity_tables s object assigned)
    (modifyHeader_types s object _)

theorem sameAccounts_rollback (hheader : s.headers object = some header) (hobject : object ≠ 0)
    (assigned : Option Se.SecurityDescriptor)
    (h : s.placeObject object header entryAllocated = some (.inserted parent directory')) :
    SameAccounts s (((s.setDirectory parent directory').assignSecurity object assigned).rollback (some parent) object
      (createAttributes header)) := by
  obtain ⟨directory, name, hdirectory, hname, hnone, hinsert⟩ := placeObject_inserted h
  have hquiet := Quiet.assignSecurity (s.setDirectory parent directory') object assigned
  generalize hplaced : (s.setDirectory parent directory').assignSecurity object assigned = placed at hquiet ⊢
  have hnames : ∀ o, (placed.headers o).bind nameInfo = (s.headers o).bind nameInfo := by
    intro o
    have hfixed := hquiet.fixed o
    have hbind : ∀ x : Option ObjectHeader, x.bind nameInfo = (x.map fixed).bind Prod.snd := by
      intro x
      cases x <;> rfl
    rw [hbind, hfixed, ← hbind]
    rfl
  have hbindName : (s.headers object).bind nameInfo = some name := by
    rw [hheader]
    exact hname
  have hnameAfter : (placed.headers object).bind nameInfo = some name := (hnames object).trans hbindName
  have hdirectoryAfter : placed.directories parent = some directory' := by
    rw [hquiet.directories]
    exact update_self _ _ _
  have hupcase : placed.upcaseTable = s.upcaseTable := hquiet.upcaseTable
  obtain ⟨hfound, hdelete⟩ := delete_of_insert hobject hnames hbindName hnone hinsert
  have hrolled : placed.rollback (some parent) object (createAttributes header) = placed.setDirectory parent directory := by
    show placed.obpRemoveNamespaceEntry parent object (createAttributes header) = _
    unfold obpRemoveNamespaceEntry
    rw [hdirectoryAfter, hnameAfter]
    dsimp only
    rw [hupcase, hfound, hdelete]
    rfl
  have hrest := @sameAccounts_assignSecurity P (s.setDirectory parent directory') object assigned
  rw [hrolled]
  subst hplaced
  refine sameAccounts_of hrest.counts hrest.reaperList ?_ (assignSecurity_tables _ object assigned)
    (modifyHeader_types _ object _)
  show update ((s.setDirectory parent directory').assignSecurity object assigned).directories parent
    (some directory) = _
  rw [hquiet.directories]
  show update (update s.directories parent (some directory')) parent (some directory) = _
  rw [update_idem, ← hdirectory, update_eq_self]

end Place

section AfterFailure
variable {s₁ s₂ : ObState P} {object : ℕ} {header : ObjectHeader} {parent : Option ℕ} {attributes : BitVec 32}

theorem SameAccounts.before (hsame : SameAccounts s s₁) (h : NothingLeft s₁ s' object) :
    NothingLeft s s' object := by
  refine ⟨h.released, ?_, h.unnamed, ?_, ?_⟩
  · rw [h.queued, hsame.reaperList]
  · intro o ho
    rw [h.counts o ho, hsame.counts]
  · intro t
    rw [h.totals, hsame.totals]

theorem SameAccounts.fresh (hsame : SameAccounts s s₁) (hobject : object ≠ 0)
    (hfresh : s.Fresh object) : s₁.Fresh object := by
  obtain ⟨header, hheader, hpointers, hhandles⟩ := hfresh.counts
  refine ⟨?_, ?_, hsame.unnamed object hobject hfresh.unnamed⟩
  · have hcounts : s₁.counts object = some header.counts := by
      rw [hsame.counts]
      exact counts_of_header hheader
    obtain ⟨header₁, hheader₁, heq⟩ := map_eq_some_iff.1 hcounts
    exact ⟨header₁, hheader₁, (congrArg Counts.pointers heq).trans hpointers, (congrArg Counts.handles heq).trans hhandles⟩
  · rw [hsame.reaperList]
    exact hfresh.queued

theorem existing_noTable_iff (h : NothingLeft s s₁ object) (hne : target ≠ object)
    (htarget : s₁.headers target = some header) :
    NothingLeft s (s₁.obDereferenceObject target) object ↔ header.pointerCount < header.handleCountOrNextToFree := by
  constructor
  · intro hafter
    by_contra hguard
    have hcounts : (s₁.obDereferenceObject target).counts target = some header.counts := by
      rw [hafter.counts target hne, ← h.counts target hne]
      exact counts_of_header htarget
    by_cases hlast : header.pointerCount = 1
    · have hreaper := hafter.queued
      rw [dereference_of_last htarget (by omega) hlast, ← h.queued] at hreaper
      exact absurd hreaper (cons_ne_self _ _)
    · rw [dereference_of_more htarget (by omega) hlast, counts_update rfl, if_pos rfl] at hcounts
      have hpointers := congrArg (Option.map Counts.pointers) hcounts
      simp only [Option.map_some, ObjectHeader.counts, Option.some.injEq] at hpointers
      omega
  · intro hguard
    rw [dereference_guarded htarget hguard]
    exact h

/-- When no handle is made, the reference of the handle goes again, unless the guard stops it or it
is the last one. -/
theorem existing_failed_iff (h : NothingLeft s s₁ object) (hne : target ≠ object) (hobject : object ≠ 0)
    (htarget : s₁.headers target = some header) (hfailed : HandleFailed s₁ s₂ target header) :
    NothingLeft s (s₂.obDereferenceObject target) object ↔
      header.handleCountOrNextToFree ≤ header.pointerCount + 1 ∧ header.pointerCount ≠ 0 := by
  have hheader₂ : s₂.headers target = some { header with pointerCount := header.pointerCount + 1 } := by
    rw [hfailed.headers, update_self]
  constructor
  · intro hafter
    have hcounts : (s₂.obDereferenceObject target).counts target = some header.counts := by
      rw [hafter.counts target hne, ← h.counts target hne]
      exact counts_of_header htarget
    have hle : header.handleCountOrNextToFree ≤ header.pointerCount + 1 := by
      by_contra hguard
      rw [dereference_guarded hheader₂ (by simp only; omega), counts_of_header hheader₂] at hcounts
      have hpointers := congrArg (Option.map Counts.pointers) hcounts
      simp only [Option.map_some, ObjectHeader.counts, Option.some.injEq] at hpointers
      omega
    refine ⟨hle, ?_⟩
    intro hzero
    have hreaper := hafter.queued
    rw [dereference_of_last hheader₂ (by simp only; omega) (by simp only; omega)] at hreaper
    dsimp only at hreaper
    rw [hfailed.reaperList, h.queued] at hreaper
    exact absurd hreaper (cons_ne_self _ _)
  · rintro ⟨hle, hne0⟩
    apply h.same hobject
    rw [dereference_of_more hheader₂ (by simp only; omega) (by simp only; omega)]
    refine ⟨?_, hfailed.reaperList, ?_, hfailed.totals⟩
    · funext o
      have hheaders : (s₂.setHeader target { header with pointerCount := header.pointerCount + 1 - 1 }).headers =
          update s₁.headers target (some { header with pointerCount := header.pointerCount + 1 - 1 }) := by
        rw [setHeader_headers, hfailed.headers, update_idem]
      rw [counts_update hheaders]
      by_cases ho : o = target
      · subst ho
        rw [if_pos rfl, counts_of_header htarget]
        simp [ObjectHeader.counts]
      · rw [if_neg ho]
    · intro o ho hunnamed
      have hafter := hfailed.unnamed o ho hunnamed
      exact ⟨hafter.entries, hafter.handles⟩

theorem rollback_reaper (s : ObState P) (parent : Option ℕ) (o : ℕ) (attributes : BitVec 32) :
    (s.rollback parent o attributes).reaperList = s.reaperList := by
  rcases rollback_cases s parent o attributes with heq | ⟨parent', directory, heq⟩
  · rw [heq]
  · rw [heq]
    rfl

theorem new_failed (hreaper : s₁.reaperList = s.reaperList) (hpointers : header.pointerCount = 1)
    (hhandles : header.handleCountOrNextToFree = 0) (hfailed : HandleFailed s₁ s₂ object header) :
    ¬ NothingLeft s ((s₂.rollback parent object attributes).obDereferenceObject object) object ∧
      ¬ NothingLeft s ((s₂.obDereferenceObject object).rollback parent object attributes) object := by
  have hheader₂ : s₂.headers object = some { header with pointerCount := header.pointerCount + 1 } := by
    rw [hfailed.headers, update_self]
  have hkept : ∀ s₃ : ObState P, s₃.reaperList = s.reaperList → ¬ NothingLeft s s₃ object := by
    intro s₃ hreaper₃ h
    exact absurd (h.queued.symm.trans hreaper₃) (cons_ne_self _ _)
  refine ⟨hkept _ ?_, hkept _ ?_⟩
  · have hheader₃ : (s₂.rollback parent object attributes).headers object = _ :=
      (congrFun (rollback_headers s₂ object parent attributes) object).trans hheader₂
    rw [dereference_of_more hheader₃ (by simp only; omega) (by simp only; omega)]
    exact (rollback_reaper s₂ parent object attributes).trans (hfailed.reaperList.trans hreaper)
  · rw [rollback_reaper, dereference_of_more hheader₂ (by simp only; omega) (by simp only; omega)]
    exact hfailed.reaperList.trans hreaper

end AfterFailure

section Exits
variable [DecidableEq P] {c : Caller P} {created : ℕ} {parent : Option ℕ} {attributes : BitVec 32}
variable {desiredAccess : Se.AccessMask} {finalStatus : Ntstatus} {wantObject wantHandle : Bool} {header : ObjectHeader}

/-- The failing exits from the creation of the handle on: without a table, with a full one, and
after the open procedure refused. -/
theorem insertHandle_failed_iff (Q : ObState P → Prop) (hs : s.Sound) (htarget : s.headers target = some header)
    (hfinal : finalStatus = statusSuccess ∨ finalStatus = statusObjectNameExists) :
    ((s.insertHandle c created target parent attributes desiredAccess finalStatus wantObject wantHandle).1.failed →
        Q (s.insertHandle c created target parent attributes desiredAccess finalStatus wantObject wantHandle).2) ↔
      (wantHandle = true →
        match s.insertTable c attributes wantObject with
        | none => Q ((s.rollback parent target attributes).obDereferenceObject target)
        | some (_, id, table) =>
          let s₂ := (s.obpMakeHandle c id table target desiredAccess (obpObjattrsToHandleFlags attributes)).2
          (table.taking c.pool.blocks = none → Q ((s₂.rollback parent target attributes).obDereferenceObject target)) ∧
            (table.taking c.pool.blocks ≠ none → ¬ s.Accepts c target → c.openStatus ≠ statusObjectNameExists →
              Q ((s₂.obDereferenceObject target).rollback parent target attributes))) := by
  have hnotFailed : ∀ result : CallResult, result.status = finalStatus → ¬ result.failed := by
    rintro result hstatus ⟨h₁, h₂⟩
    rw [hstatus] at h₁ h₂
    exact hfinal.elim h₁ h₂
  have hresources : ∀ result : CallResult, result.status = statusInsufficientResources → result.failed := by
    rintro result hstatus
    rw [CallResult.failed, hstatus]
    decide
  unfold insertHandle
  cases wantHandle with
  | false => simpa using fun h => absurd h (hnotFailed _ rfl)
  | true =>
  simp only [Bool.not_true, Bool.false_eq_true, if_false, true_implies]
  cases htable : s.insertTable c attributes wantObject with
  | none => exact ⟨fun h => h (hresources _ rfl), fun h _ => h⟩
  | some found =>
  obtain ⟨kernelHandle, id, table⟩ := found
  dsimp only
  have hcases := makeHandle_cases c desiredAccess (obpObjattrsToHandleFlags attributes) hs htarget (insertTable_some htable)
  rcases hmake : s.obpMakeHandle c id table target desiredAccess (obpObjattrsToHandleFlags attributes) with ⟨outcome, s₂⟩
  rw [hmake] at hcases
  rcases hcases with ⟨hfull, houtcome, -⟩ | ⟨htaken, hrefuses, houtcome, -⟩ | ⟨htaken, haccepts, h, houtcome⟩
  · dsimp only at houtcome
    subst houtcome
    exact ⟨fun h => ⟨fun _ => h (hresources _ rfl), fun hne => absurd hfull hne⟩, fun h _ => h.1 hfull⟩
  · dsimp only at houtcome
    subst houtcome
    have hstatus := (Classical.not_imp.1 hrefuses).2
    exact ⟨fun h => ⟨fun hnone => absurd hnone htaken, fun _ _ hexists => h ⟨hstatus, hexists⟩⟩,
      fun h hfailed => h.2 htaken hrefuses hfailed.2⟩
  · dsimp only at houtcome
    subst houtcome
    exact iff_of_true (fun hfailed => absurd hfailed (hnotFailed _ rfl))
      ⟨fun hnone => absurd hnone htaken, fun _ hnot => absurd haccepts hnot⟩

end Exits

section Insert
variable [DecidableEq P] {c : Caller P} {object : ℕ} {desiredAccess : Se.AccessMask}
variable {wantObject wantHandle entryAllocated : Bool} {assigned : Option Se.SecurityDescriptor}

omit [DecidableEq P] in
theorem handleOrNothing_iff {header : ObjectHeader} {new : Bool} (hheader : s.headers object = some header)
    (htarget : s.insertTarget object entryAllocated = some (target, new)) :
    s.HandleOrNothing c object wantObject wantHandle entryAllocated ↔
      (wantHandle = true →
        match s.insertTable c (createAttributes header) wantObject with
        | none => new = true ∨ ∃ x, s.counts target = some x ∧ x.pointers < x.handles
        | some (_, _, table) =>
          table.taking c.pool.blocks = none ∨ (¬ s.Accepts c target ∧ c.openStatus ≠ statusObjectNameExists) →
            new = false ∧ ∀ x, s.counts target = some x → x.handles ≤ x.pointers + 1 ∧ x.pointers ≠ 0) := by
  constructor
  · intro h hwant
    exact h hwant header target new hheader htarget
  · intro h hwant header' target' new' hheader' htarget'
    rw [hheader] at hheader'
    rw [htarget] at htarget'
    cases hheader'
    cases htarget'
    exact h hwant

theorem insertHandle_new_iff {placed : ObState P} {parent : Option ℕ} {header placedHeader : ObjectHeader} (hs : placed.Sound)
    (hfresh : s.Fresh object) (hobject : object ≠ 0) (hheader : placed.headers object = some placedHeader)
    (hpointers : placedHeader.pointerCount = 1) (hhandles : placedHeader.handleCountOrNextToFree = 0)
    (htables : placed.tables = s.tables) (hreaper : placed.reaperList = s.reaperList)
    (hopen : placed.hasOpenProcedure object = s.hasOpenProcedure object)
    (hrolled : SameAccounts s (placed.rollback parent object (createAttributes header)))
    (hsHeader : s.headers object = some header) (htarget : s.insertTarget object entryAllocated = some (object, true)) :
    ((placed.insertHandle c object object parent (createAttributes header) desiredAccess statusSuccess wantObject
        wantHandle).1.failed →
        NothingLeft s (placed.insertHandle c object object parent (createAttributes header) desiredAccess statusSuccess
          wantObject wantHandle).2 object) ↔ s.HandleOrNothing c object wantObject wantHandle entryAllocated := by
  have haccepts : placed.Accepts c object ↔ s.Accepts c object := by
    rw [Accepts, Accepts, hopen]
  rw [insertHandle_failed_iff (fun s' => NothingLeft s s' object) hs hheader (Or.inl rfl), handleOrNothing_iff hsHeader htarget,
    insertTable_congr htables]
  apply forall_congr'
  intro hwant
  cases htable : s.insertTable c (createAttributes header) wantObject with
  | none => exact iff_of_true (hrolled.before (nothingLeft_dereference (hrolled.fresh hobject hfresh))) (Or.inl rfl)
  | some found =>
  obtain ⟨kernelHandle, id, table⟩ := found
  have hplacedTable : placed.tables id = some table := by
    rw [htables]
    exact insertTable_some htable
  have hcases := makeHandle_cases c desiredAccess (obpObjattrsToHandleFlags (createAttributes header)) hs hheader
    hplacedTable
  dsimp only
  rw [haccepts] at hcases ⊢
  constructor
  · rintro ⟨hfull, hrefused⟩ hfails
    exfalso
    rcases hcases with ⟨hnone, -, hfailed⟩ | ⟨htaken, hrefuses, -, hfailed⟩ | ⟨htaken, haccept, -⟩
    · exact (new_failed hreaper hpointers hhandles hfailed).1 (hfull hnone)
    · rcases hfails with hnone | ⟨-, hexists⟩
      · exact htaken hnone
      · exact (new_failed hreaper hpointers hhandles hfailed).2 (hrefused htaken hrefuses hexists)
    · rcases hfails with hnone | ⟨hrefuses, -⟩
      · exact htaken hnone
      · exact hrefuses haccept
  · intro hfails
    refine ⟨?_, ?_⟩
    · intro hnone
      exact absurd (hfails (Or.inl hnone)).1 (by decide)
    · intro htaken hrefuses hexists
      exact absurd (hfails (Or.inr ⟨hrefuses, hexists⟩)).1 (by decide)

theorem insertHandle_existing_iff {placed : ObState P} {header targetHeader : ObjectHeader} (hs : placed.Sound)
    (hplaced : NothingLeft s placed object) (hobject : object ≠ 0) (hne : target ≠ object)
    (htargetHeader : placed.headers target = some targetHeader)
    (htables : placed.tables = s.tables) (hopen : placed.hasOpenProcedure target = s.hasOpenProcedure target)
    (hsHeader : s.headers object = some header) (htarget : s.insertTarget object entryAllocated = some (target, false)) :
    ((placed.insertHandle c object target none (createAttributes header) desiredAccess statusObjectNameExists wantObject
        wantHandle).1.failed →
        NothingLeft s (placed.insertHandle c object target none (createAttributes header) desiredAccess
          statusObjectNameExists wantObject wantHandle).2 object) ↔
      s.HandleOrNothing c object wantObject wantHandle entryAllocated := by
  have haccepts : placed.Accepts c target ↔ s.Accepts c target := by
    rw [Accepts, Accepts, hopen]
  have hcounts : s.counts target = some targetHeader.counts := by
    rw [← hplaced.counts target hne]
    exact counts_of_header htargetHeader
  rw [insertHandle_failed_iff (fun s' => NothingLeft s s' object) hs htargetHeader (Or.inr rfl),
    handleOrNothing_iff hsHeader htarget, insertTable_congr htables, hcounts]
  apply forall_congr'
  intro hwant
  cases htable : s.insertTable c (createAttributes header) wantObject with
  | none =>
    refine (existing_noTable_iff hplaced hne htargetHeader).trans ?_
    simp [ObjectHeader.counts]
  | some found =>
  obtain ⟨kernelHandle, id, table⟩ := found
  have hplacedTable : placed.tables id = some table := by
    rw [htables]
    exact insertTable_some htable
  have hcases := makeHandle_cases c desiredAccess (obpObjattrsToHandleFlags (createAttributes header)) hs htargetHeader
    hplacedTable
  dsimp only
  rw [haccepts] at hcases ⊢
  have hsane : (∀ x, some targetHeader.counts = some x → x.handles ≤ x.pointers + 1 ∧ x.pointers ≠ 0) ↔
      targetHeader.handleCountOrNextToFree ≤ targetHeader.pointerCount + 1 ∧ targetHeader.pointerCount ≠ 0 := by
    simp [ObjectHeader.counts]
  rw [hsane]
  constructor
  · rintro ⟨hfull, hrefused⟩ hfails
    refine ⟨rfl, ?_⟩
    rcases hcases with ⟨hnone, -, hfailed⟩ | ⟨htaken, hrefuses, -, hfailed⟩ | ⟨htaken, haccept, -⟩
    · exact (existing_failed_iff hplaced hne hobject htargetHeader hfailed).1 (hfull hnone)
    · rcases hfails with hnone | ⟨-, hexists⟩
      · exact absurd hnone htaken
      · exact (existing_failed_iff hplaced hne hobject htargetHeader hfailed).1 (hrefused htaken hrefuses hexists)
    · rcases hfails with hnone | ⟨hrefuses, -⟩
      · exact absurd hnone htaken
      · exact absurd haccept hrefuses
  · intro hfails
    rcases hcases with ⟨hnone, -, hfailed⟩ | ⟨htaken, hrefuses, -, hfailed⟩ | ⟨htaken, haccept, -⟩
    · have hiff := existing_failed_iff hplaced hne hobject htargetHeader hfailed
      exact ⟨fun _ => hiff.2 (hfails (Or.inl hnone)).2, fun htaken => absurd hnone htaken⟩
    · have hiff := existing_failed_iff hplaced hne hobject htargetHeader hfailed
      exact ⟨fun hnone => absurd hnone htaken, fun _ _ hexists => hiff.2 (hfails (Or.inr ⟨hrefuses, hexists⟩)).2⟩
    · exact ⟨fun hnone => absurd hnone htaken, fun _ hrefuses => absurd haccept hrefuses⟩

/-- A failing insertion leaves nothing behind exactly if the condition holds. -/
theorem failsCleanly_iff (hs : s.Sound) (hfresh : s.Fresh object)
    (hreturns : ∀ header, s.headers object = some header → s.placeObject object header entryAllocated ≠ none) :
    s.FailsCleanly c object desiredAccess wantObject wantHandle entryAllocated assigned ↔
      s.HandleOrNothing c object wantObject wantHandle entryAllocated := by
  obtain ⟨header, hheader, hpointers, hhandles⟩ := hfresh.counts
  have hobject : object ≠ 0 := (hs.isAddress (show (s.headers object).isSome by rw [hheader]; rfl)).1
  have hassigned : ∀ s₁ : ObState P, s₁.headers object = some header → ∃ header₁,
      (s₁.assignSecurity object assigned).headers object = some header₁ ∧ header₁.pointerCount = 1 ∧
        header₁.handleCountOrNextToFree = 0 := by
    intro s₁ hs₁
    have hcounts : (s₁.assignSecurity object assigned).counts object = some header.counts := by
      rw [assignSecurity_counts]
      exact counts_of_header hs₁
    obtain ⟨header₁, hheader₁, heq⟩ := map_eq_some_iff.1 hcounts
    exact ⟨header₁, hheader₁, (congrArg Counts.pointers heq).trans hpointers, (congrArg Counts.handles heq).trans hhandles⟩
  cases hplace : s.placeObject object header entryAllocated with
  | none => exact absurd hplace (hreturns header hheader)
  | some placement =>
  cases placement with
  | refused status =>
    have htarget : s.insertTarget object entryAllocated = none := by
      simp only [insertTarget, hheader, hplace]
    refine iff_of_true ?_ ?_
    · simp only [FailsCleanly, obInsertObject, hheader, hplace]
      exact fun _ => nothingLeft_dereference hfresh
    · intro _ _ target new _ hsome
      rw [htarget] at hsome
      cases hsome
  | existing existing =>
    have htarget : s.insertTarget object entryAllocated = some (existing, false) := by
      simp only [insertTarget, hheader, hplace]
    have hne : existing ≠ object := by
      obtain ⟨d, directory, bucket, hdirectory, entry, hentry, rfl⟩ := placeObject_entry hplace
      exact hfresh.unnamed.entries d directory hdirectory bucket entry hentry
    have hsame : SameAccounts s (s.freeCreateInfo object) :=
      sameAccounts_of (freeCreateInfo_counts s object) (freeCreateInfo_reaper s object)
        (Quiet.freeCreateInfo s object).directories (freeCreateInfo_tables s object) (modifyHeader_types s object _)
    have hplaced := hsame.before (nothingLeft_dereference (hsame.fresh hobject hfresh))
    have hquiet := (Quiet.freeCreateInfo s object).trans (.dereference _ object)
    have hsome : (((s.freeCreateInfo object).obDereferenceObject object).headers existing).isSome := by
      rw [hquiet.isSome]
      exact placeObject_existing hplace
    obtain ⟨targetHeader, htargetHeader⟩ := isSome_iff_exists.1 hsome
    simp only [FailsCleanly, obInsertObject, hheader, hplace]
    exact insertHandle_existing_iff (hs.steady (.trans (.freeCreateInfo s object) (.dereference _ object))) hplaced hobject
      hne htargetHeader (by rw [dereference_tables, freeCreateInfo_tables]) (hquiet.hasOpenProcedure existing) hheader htarget
  | inserted parent directory =>
    have htarget : s.insertTarget object entryAllocated = some (object, true) := by
      simp only [insertTarget, hheader, hplace]
    obtain ⟨header₁, hheader₁, hpointers₁, hhandles₁⟩ := hassigned (s.setDirectory parent directory) hheader
    have hquiet := Quiet.assignSecurity (s.setDirectory parent directory) object assigned
    simp only [FailsCleanly, obInsertObject, hheader, hplace]
    exact insertHandle_new_iff (hs.steady (.trans (.setDirectory s parent directory) (.assignSecurity _ object assigned)))
      hfresh hobject hheader₁ hpointers₁ hhandles₁ (assignSecurity_tables _ object assigned) (modifyHeader_reaper _ object _)
      (hquiet.hasOpenProcedure object) (sameAccounts_rollback hheader hobject assigned hplace) hheader htarget
  | unnamed =>
    have htarget : s.insertTarget object entryAllocated = some (object, true) := by
      simp only [insertTarget, hheader, hplace]
    obtain ⟨header₁, hheader₁, hpointers₁, hhandles₁⟩ := hassigned s hheader
    simp only [FailsCleanly, obInsertObject, hheader, hplace]
    exact insertHandle_new_iff (hs.steady (.assignSecurity s object assigned)) hfresh hobject hheader₁ hpointers₁ hhandles₁
      (assignSecurity_tables s object assigned) (modifyHeader_reaper s object _)
      ((Quiet.assignSecurity s object assigned).hasOpenProcedure object) (sameAccounts_assignSecurity assigned) hheader htarget

end Insert

def firstObject : ObState Unit := ((start (fun _ => {}) 0).obCreateObject 1 none ⟨some (2 ^ 63), true, true⟩).2

theorem fresh_firstObject : firstObject.Fresh (2 ^ 63) :=
  fresh_of_create (by decide) ⟨(fun _ _ h => by cases h), (fun _ _ h => by cases h)⟩ not_mem_nil

/-- Without a handle table the object goes. -/
theorem failsCleanly_noTable :
    firstObject.FailsCleanly ⟨some (), ⟨none, none⟩, fun _ => none, statusSuccess⟩ (2 ^ 63) 0 true true true none := by
  refine (failsCleanly_iff ((sound_start (fun _ => {}) 0).step (.createObject 1 none ⟨some (2 ^ 63), true, true⟩))
    fresh_firstObject ?_).2 ?_
  · intro header hheader
    obtain rfl := some.inj hheader
    decide
  · intro _ header target new hheader htarget
    obtain rfl := some.inj hheader
    obtain ⟨rfl, rfl⟩ := Prod.mk.inj (some.inj htarget)
    exact Or.inl rfl

def guardedObject : ObState Unit :=
  (((start (fun _ => { hasOpenProcedure := true }) 0).createTable (some ())
    ⟨fun _ => ⟨0, 0, 0⟩, fun _ => Nat.two_pow_pos 64⟩).obCreateObject 1 none ⟨some (2 ^ 63), true, true⟩).2

/-- The open procedure refuses, and the fresh object stays with the reference of its creator. -/
theorem refused_object_stays : guardedObject.Fresh (2 ^ 63) ∧
    ¬ guardedObject.FailsCleanly ⟨some (), ⟨none, none⟩, fun _ => none, statusAccessDenied⟩ (2 ^ 63) 0 false true true none := by
  constructor
  · refine fresh_of_create (by decide) ⟨(fun _ _ h => by cases h), ?_⟩ not_mem_nil
    intro id table htable
    cases id with
    | none => cases htable
    | some p =>
      obtain rfl := some.inj htable
      exact (fresh_spec _).2 (2 ^ 63) (by decide)
  · intro h
    have hleft := h ⟨by decide, by decide⟩
    exact absurd hleft.queued (by decide)

end ObState

end XenOS.Ob
