import XenOS.Ob.Frame

/-! What the calls do to the handle tables: which entries can appear, and what every
call keeps of the tables and of the places of the objects. -/

namespace XenOS.Ob

open Ex Se Option
open Function (update update_self update_of_ne update_eq_self)

namespace ObState

variable {P : Type} {s s' s'' : ObState P} {o : ℕ}

structure Sound (s : ObState P) : Prop where
  tables : ∀ id t, s.tables id = some t → t.Sane
  placed : ∀ o, (s.headers o).isSome → 2 ^ 63 ≤ o ∧ o < 2 ^ 64 ∧ o % 8 = 0

def IsAddress (o : ℕ) : Prop := o ≠ 0 ∧ o < 2 ^ 64 ∧ o % 8 = 0

variable {handle : ℕ}

theorem isAddress_of_lookup {table : HandleTable} (ht : table.Sane) {x : ℕ × AccessMask × BitVec 32}
    (h : exMapHandleToPointerFull table handle = some x) : IsAddress x.1 := by
  obtain ⟨-, -, hobject, hget⟩ := lookup_some h
  have hword := ht.words (handleToIndex handle)
  refine ⟨hobject, ?_⟩
  rw [← hget, HandleTableEntry.getObject] at hobject ⊢
  split_ifs with hfree
  · exact absurd (if_pos hfree) hobject
  · omega

def handleEntry (s : ObState P) (id : Option P) (handle : ℕ) : Option (ℕ × AccessMask × BitVec 32) :=
  (s.tables id).bind fun table => exMapHandleToPointerFull table handle

def handleMeaning (s : ObState P) (process : Option P) (handle : ℕ) : Option (ℕ × AccessMask × BitVec 32) :=
  (s.tableFor (isKernelHandle handle) process).bind fun table => exMapHandleToPointerFull table.2 handle

section Tables
variable (s o)

@[simp] theorem setHeader_tables (header : ObjectHeader) : (s.setHeader o header).tables = s.tables := rfl

@[simp] theorem setTable_tables [DecidableEq P] (id : Option P) (table : HandleTable) :
    (s.setTable id table).tables = update s.tables id (some table) := rfl

@[simp] theorem modifyHeader_tables (f : ObjectHeader → ObjectHeader) : (s.modifyHeader o f).tables = s.tables := by
  unfold modifyHeader
  split <;> rfl

@[simp] theorem reference_tables : (s.obReferenceObject o).tables = s.tables := modifyHeader_tables s o _

@[simp] theorem deferDeletion_tables : (s.obpDeferObjectDeletion o).tables = s.tables := modifyHeader_tables s o _

@[simp] theorem dereference_tables : (s.obDereferenceObject o).tables = s.tables := by
  unfold obDereferenceObject
  split
  · rfl
  · split
    · rfl
    · dsimp only
      split
      · rw [deferDeletion_tables, setHeader_tables]
      · rfl

@[simp] theorem addHandles_tables (n : ℤ) : (s.addHandles o n).tables = s.tables := by
  unfold addHandles
  split <;> rfl

@[simp] theorem releaseHandle_tables : (s.obpReleaseHandle o).tables = s.tables :=
  (dereference_tables _ o).trans (addHandles_tables s o (-1))

@[simp] theorem freeCreateInfo_tables : (s.freeCreateInfo o).tables = s.tables := modifyHeader_tables s o _

@[simp] theorem assignSecurity_tables (assigned : Option SecurityDescriptor) :
    (s.assignSecurity o assigned).tables = s.tables := modifyHeader_tables s o _

@[simp] theorem rollback_tables (parent : Option ℕ) (attributes : BitVec 32) :
    (s.rollback parent o attributes).tables = s.tables := by
  unfold rollback
  split
  · rfl
  · unfold obpRemoveNamespaceEntry
    split
    · dsimp only
      split <;> rfl
    · rfl

theorem rollback_headers (parent : Option ℕ) (attributes : BitVec 32) :
    (s.rollback parent o attributes).headers = s.headers := by
  unfold rollback
  split
  · rfl
  · unfold obpRemoveNamespaceEntry
    split
    · dsimp only
      split <;> rfl
    · rfl

end Tables

structure Steady (s s' : ObState P) : Prop where
  tables : s'.tables = s.tables
  headers : ∀ o, (s'.headers o).isSome → (s.headers o).isSome

namespace Steady

theorem refl (s : ObState P) : Steady s s := ⟨rfl, fun _ ho => ho⟩

theorem of_quiet (hq : Quiet s s') (ht : s'.tables = s.tables) : Steady s s' := ⟨ht, fun o ho => hq.isSome o ▸ ho⟩

theorem trans (h : Steady s s') (h' : Steady s' s'') : Steady s s'' :=
  ⟨h'.tables.trans h.tables, fun o ho => h.headers o (h'.headers o ho)⟩

theorem setDirectory (s : ObState P) (o : ℕ) (directory : ObjectDirectory) : Steady s (s.setDirectory o directory) :=
  ⟨rfl, fun _ ho => ho⟩

theorem dereference (s : ObState P) (o : ℕ) : Steady s (s.obDereferenceObject o) :=
  .of_quiet (.dereference s o) (dereference_tables s o)

theorem releaseHandle (s : ObState P) (o : ℕ) : Steady s (s.obpReleaseHandle o) :=
  .of_quiet (.releaseHandle s o) (releaseHandle_tables s o)

theorem freeCreateInfo (s : ObState P) (o : ℕ) : Steady s (s.freeCreateInfo o) :=
  .of_quiet (.freeCreateInfo s o) (freeCreateInfo_tables s o)

theorem assignSecurity (s : ObState P) (o : ℕ) (assigned : Option SecurityDescriptor) :
    Steady s (s.assignSecurity o assigned) := .of_quiet (.assignSecurity s o assigned) (assignSecurity_tables s o assigned)

theorem finishInsert (s : ObState P) (created target : ℕ) (finalStatus : Ntstatus) (wantObject wantHandle : Bool)
    (handle : Option ObHandle) : Steady s (s.finishInsert created target finalStatus wantObject wantHandle handle).2 := by
  unfold ObState.finishInsert
  dsimp only
  split
  · exact .trans (.freeCreateInfo s created) (.dereference _ target)
  · exact .freeCreateInfo s created

theorem rollback (s : ObState P) (parent : Option ℕ) (o : ℕ) (attributes : BitVec 32) :
    Steady s (s.rollback parent o attributes) :=
  ⟨rollback_tables s o parent attributes, fun _ ho => rollback_headers s o parent attributes ▸ ho⟩

end Steady

namespace Sound

theorem isAddress (hs : s.Sound) (ho : (s.headers o).isSome) : IsAddress o := by
  obtain ⟨hlow, hlt, haligned⟩ := hs.placed o ho
  exact ⟨by omega, hlt, haligned⟩

theorem steady (hs : s.Sound) (h : Steady s s') : s'.Sound where
  tables id t ht := hs.tables id t (h.tables ▸ ht)
  placed o ho := hs.placed o (h.headers o ho)

theorem setTable [DecidableEq P] (hs : s.Sound) (id : Option P) {table : HandleTable} (ht : table.Sane) :
    (s.setTable id table).Sound where
  tables id' t h := by
    rw [setTable_tables] at h
    by_cases hid : id' = id
    · subst hid
      rw [update_self] at h
      exact some.inj h ▸ ht
    · rw [update_of_ne hid] at h
      exact hs.tables id' t h
  placed := hs.placed

end Sound

/-! ### The creation of a handle -/

def Accepts (s : ObState P) (c : Caller P) (object : ℕ) : Prop :=
  s.hasOpenProcedure object = true → c.openStatus = statusSuccess

def AddsEntry (s : ObState P) (c : Caller P) (table : HandleTable) (object : ℕ) : Prop :=
  table.TakesInside c.pool.blocks ∧ s.Accepts c object

section MakeHandle
variable [DecidableEq P] {c : Caller P} {id : Option P} {table : HandleTable} {object : ℕ} {access : AccessMask} {flags : BitVec 32}

def handleMade (s : ObState P) (c : Caller P) (id : Option P) (table : HandleTable) (object : ℕ)
    (access : AccessMask) (flags : BitVec 32) : ObState P :=
  ((s.obReferenceObject object).setTable id (exCreateHandleEx c.pool.blocks table object access flags).2).addHandles
    object 1

theorem quiet_handleMade : Quiet s (s.handleMade c id table object access flags) :=
  ((Quiet.reference s object).trans (.setTable _ _ _)).trans (.addHandles _ _ _)

theorem handleMade_tables (s : ObState P) (c : Caller P) (id : Option P) (table : HandleTable) (object : ℕ)
    (access : AccessMask) (flags : BitVec 32) : (s.handleMade c id table object access flags).tables =
      update s.tables id (some (exCreateHandleEx c.pool.blocks table object access flags).2) := by
  simp [handleMade]

theorem obpMakeHandle_full (ho : object ≠ 0) (hfull : table.taking c.pool.blocks = none) :
    s.obpMakeHandle c id table object access flags =
      (.full, (s.obReferenceObject object).setTable id (exCreateHandleEx c.pool.blocks table object access flags).2) := by
  have hinvalid : (exCreateHandleEx c.pool.blocks table object access flags).1 = invalidHandleValue :=
    exCreateHandleEx_of_not_taking ho hfull
  unfold obpMakeHandle
  simp only
  rw [if_pos hinvalid]

theorem obpMakeHandle_taken (ho : object ≠ 0) {t' : HandleTable} (ht : table.taking c.pool.blocks = some t') :
    s.obpMakeHandle c id table object access flags =
      if s.hasOpenProcedure object = true ∧ c.openStatus ≠ statusSuccess then
        (.refused c.openStatus, ((s.handleMade c id table object access flags).addHandles object (-1)).setTable id
          (exDestroyHandle (exCreateHandleEx c.pool.blocks table object access flags).2
            (exCreateHandleEx c.pool.blocks table object access flags).1).2)
      else (.made (indexToHandle table.firstFreeIndex), s.handleMade c id table object access flags) := by
  have hcall : (exCreateHandleEx c.pool.blocks table object access flags).1 = indexToHandle table.firstFreeIndex := by
    rw [exCreateHandleEx_of_taking ho ht]
  have hvalid : (exCreateHandleEx c.pool.blocks table object access flags).1 ≠ invalidHandleValue := by
    rw [hcall]
    exact indexToHandle_ne _
  have hopen : (s.handleMade c id table object access flags).hasOpenProcedure object = s.hasOpenProcedure object :=
    quiet_handleMade.hasOpenProcedure object
  unfold obpMakeHandle
  simp only
  rw [if_neg hvalid]
  unfold handleMade at hopen ⊢
  rw [hopen]
  congr 3

theorem obpMakeHandle_adds (ho : object ≠ 0) (hadds : s.AddsEntry c table object) :
    s.obpMakeHandle c id table object access flags =
      (.made (indexToHandle table.firstFreeIndex), s.handleMade c id table object access flags) := by
  obtain ⟨⟨t', ht, -⟩, haccepts⟩ := hadds
  rw [obpMakeHandle_taken ho ht, if_neg fun h => h.2 (haccepts h.1)]

theorem quiet_obpMakeHandle : Quiet s (s.obpMakeHandle c id table object access flags).2 := by
  unfold obpMakeHandle
  simp only
  split_ifs
  · exact (Quiet.reference s object).trans (.setTable _ _ _)
  · exact (quiet_handleMade.trans (.addHandles _ _ _)).trans (.setTable _ _ _)
  · exact quiet_handleMade

structure TableAfter (table t' : HandleTable) (adds : Prop) (x : ℕ × AccessMask × BitVec 32) : Prop where
  sane : t'.Sane
  more : adds → OneMore table t' x
  new : adds → exMapHandleToPointerFull t' (indexToHandle table.firstFreeIndex) = some x ∧
    exMapHandleToPointerFull table (indexToHandle table.firstFreeIndex) = none
  same : ¬ adds → SameEntries table t'

variable (s c id access flags) in
theorem obpMakeHandle_tables (hobject : IsAddress object) (htable : table.Sane) :
    ∃ t', (s.obpMakeHandle c id table object access flags).2.tables = update s.tables id (some t') ∧
      TableAfter table t' (s.AddsEntry c table object) (object, access, flags) := by
  obtain ⟨ho, hlt, haligned⟩ := hobject
  cases htaking : table.taking c.pool.blocks with
  | none =>
    obtain ⟨-, hsane, hsame⟩ := create_none access flags htable ho htaking
    rw [obpMakeHandle_full ho htaking]
    have hnot : ¬ s.AddsEntry c table object := by
      rintro ⟨⟨t1, h1, -⟩, -⟩
      rw [htaking] at h1
      cases h1
    exact ⟨_, by simp, hsane, fun h => absurd h hnot, fun h => absurd h hnot, fun _ => hsame⟩
  | some t1 =>
    rw [obpMakeHandle_taken ho htaking]
    by_cases hinside : table.firstFreeIndex < t1.tableSize
    · have htakes : table.TakesInside c.pool.blocks := ⟨t1, htaking, hinside⟩
      obtain ⟨-, hsane, hmore, hback, hsame⟩ := create_inside access flags htable ho haligned hlt htakes
      split_ifs with hrefused
      · have hnot : ¬ s.AddsEntry c table object := fun h => hrefused.2 (h.2 hrefused.1)
        exact ⟨_, by simp [handleMade], hback, fun h => absurd h hnot, fun h => absurd h hnot, fun _ => hsame⟩
      · have hadds : s.AddsEntry c table object := ⟨htakes, fun h => by_contra fun hne => hrefused ⟨h, hne⟩⟩
        exact ⟨_, by simp [handleMade], hsane, fun _ => hmore, fun _ => create_made access flags htable ho haligned htakes,
          fun h => absurd hadds h⟩
    · have houtside : table.TakesOutside c.pool.blocks := ⟨t1, htaking, Nat.le_of_not_lt hinside⟩
      obtain ⟨-, hsane, hsame, hback⟩ := create_outside access flags htable ho hlt houtside
      have hnot : ¬ s.AddsEntry c table object := by
        rintro ⟨⟨t2, h2, hlt⟩, -⟩
        rw [htaking] at h2
        cases h2
        exact hinside hlt
      split_ifs with hrefused
      · rw [hback]
        exact ⟨_, by simp [handleMade], hsane, fun h => absurd h hnot, fun h => absurd h hnot, fun _ => hsame⟩
      · exact ⟨_, by simp [handleMade], hsane, fun h => absurd h hnot, fun h => absurd h hnot, fun _ => hsame⟩

end MakeHandle

/-! ### Entries of a state -/

/-- A handle that leads to an entry led to the same one before. -/
def NoNew (s s' : ObState P) : Prop :=
  ∀ id handle y, s'.handleEntry id handle = some y → s.handleEntry id handle = some y

/-- Or it leads to an entry with the content `x`. -/
def Adds (s s' : ObState P) (x : ℕ × AccessMask × BitVec 32) : Prop :=
  ∀ id handle y, s'.handleEntry id handle = some y → s.handleEntry id handle = some y ∨ y = x

theorem handleEntry_congr (h : s'.tables = s.tables) : s'.handleEntry = s.handleEntry := by
  unfold handleEntry
  rw [h]

theorem handleEntry_eq {id : Option P} {table : HandleTable} (h : s.tables id = some table) (handle : ℕ) :
    s.handleEntry id handle = exMapHandleToPointerFull table handle := by
  rw [handleEntry, h]
  rfl

theorem NoNew.of_tables (h : s'.tables = s.tables) : NoNew s s' := by
  intro id handle y hy
  rwa [handleEntry_congr h] at hy

theorem NoNew.trans (h : NoNew s s') (h' : NoNew s' s'') : NoNew s s'' :=
  fun id handle y hy => h id handle y (h' id handle y hy)

theorem Adds.trans {x : ℕ × AccessMask × BitVec 32} (h : Adds s s' x) (h' : NoNew s' s'') : Adds s s'' x :=
  fun id handle y hy => h id handle y (h' id handle y hy)

section SetTable
variable [DecidableEq P] {id : Option P} {table : HandleTable}

theorem handleEntry_update_self (h : s'.tables = update s.tables id (some table)) (handle : ℕ) :
    s'.handleEntry id handle = exMapHandleToPointerFull table handle := by
  rw [handleEntry, h, update_self]
  rfl

theorem handleEntry_update_of_ne (h : s'.tables = update s.tables id (some table)) {id' : Option P}
    (hid : id' ≠ id) (handle : ℕ) : s'.handleEntry id' handle = s.handleEntry id' handle := by
  rw [handleEntry, h, update_of_ne hid]
  rfl

end SetTable

/-- A step that asks for an entry `x` in the table `id`: it comes under the handle `new` if
`adds`, and nothing comes otherwise. -/
structure Added (s s' : ObState P) (id : Option P) (new : ℕ) (adds : Prop) (x : ℕ × AccessMask × BitVec 32) :
    Prop where
  sound : s'.Sound
  only : adds → Adds s s' x
  new : adds → s'.handleEntry id new = some x ∧ s.handleEntry id new = none
  noNew : ¬ adds → NoNew s s'

section Added
variable {id : Option P} {new : ℕ} {adds : Prop} {x : ℕ × AccessMask × BitVec 32}

theorem Added.andThen (h : Added s s' id new adds x) (h' : Steady s' s'') : Added s s'' id new adds x where
  sound := h.sound.steady h'
  only ha := (h.only ha).trans (.of_tables h'.tables)
  new ha := by
    rw [handleEntry_congr h'.tables]
    exact h.new ha
  noNew ha := (h.noNew ha).trans (.of_tables h'.tables)

theorem Added.congr_left {s₀ : ObState P} (h : Added s s' id new adds x) (ht : s.tables = s₀.tables) :
    Added s₀ s' id new adds x where
  sound := h.sound
  only ha id' handle y hy := handleEntry_congr ht ▸ h.only ha id' handle y hy
  new ha := handleEntry_congr ht ▸ h.new ha
  noNew ha id' handle y hy := handleEntry_congr ht ▸ h.noNew ha id' handle y hy

variable [DecidableEq P] (c : Caller P) {table : HandleTable} {object : ℕ} (access : AccessMask) (flags : BitVec 32)

theorem added_obpMakeHandle (hs : s.Sound) (hobject : IsAddress object) (htable : s.tables id = some table) :
    Added s (s.obpMakeHandle c id table object access flags).2 id (indexToHandle table.firstFreeIndex)
      (s.AddsEntry c table object) (object, access, flags) := by
  obtain ⟨t', htables, hafter⟩ := obpMakeHandle_tables s c id access flags hobject (hs.tables id table htable)
  have hother {id' : Option P} (hid : id' ≠ id) (handle : ℕ) :
      (s.obpMakeHandle c id table object access flags).2.handleEntry id' handle = s.handleEntry id' handle :=
    handleEntry_update_of_ne htables hid handle
  refine ⟨⟨fun id' t h => ?_, fun o ho => ?_⟩, fun hadds id' handle y hy => ?_, fun hadds => ?_,
    fun hadds id' handle y hy => ?_⟩
  · rw [htables] at h
    by_cases hid : id' = id
    · subst hid
      rw [update_self] at h
      exact some.inj h ▸ hafter.sane
    · rw [update_of_ne hid] at h
      exact hs.tables id' t h
  · rw [quiet_obpMakeHandle.isSome] at ho
    exact hs.placed o ho
  · by_cases hid : id' = id
    · subst hid
      rw [handleEntry_update_self htables] at hy
      rw [handleEntry_eq htable]
      exact (hafter.more hadds).only handle y hy
    · rw [hother hid] at hy
      exact Or.inl hy
  · rw [handleEntry_update_self htables, handleEntry_eq htable]
    exact hafter.new hadds
  · by_cases hid : id' = id
    · subst hid
      rw [handleEntry_update_self htables, (hafter.same hadds).lookup] at hy
      rw [handleEntry_eq htable]
      exact hy
    · rwa [hother hid] at hy

theorem handleEntry_obpMakeHandle (hs : s.Sound) (hobject : IsAddress object)
    (htable : s.tables id = some table) {id' : Option P} {y : ℕ × AccessMask × BitVec 32}
    (hy : s.handleEntry id' handle = some y) :
    (s.obpMakeHandle c id table object access flags).2.handleEntry id' handle = some y := by
  obtain ⟨t', htables, hafter⟩ := obpMakeHandle_tables s c id access flags hobject (hs.tables id table htable)
  by_cases hid : id' = id
  · subst hid
    rw [handleEntry_update_self htables]
    rw [handleEntry_eq htable] at hy
    by_cases hadds : s.AddsEntry c table object
    · exact (hafter.more hadds).lookup handle y hy
    · rwa [(hafter.same hadds).lookup]
  · rwa [handleEntry_update_of_ne htables hid]

end Added

/-! ### Calls -/

/-- A step that adds nothing. -/
structure Tame (s s' : ObState P) : Prop where
  sound : s'.Sound
  noNew : NoNew s s'

namespace Tame

theorem refl (hs : s.Sound) : Tame s s := ⟨hs, fun _ _ _ hy => hy⟩

theorem of_steady (hs : s.Sound) (h : Steady s s') : Tame s s' := ⟨hs.steady h, .of_tables h.tables⟩

theorem trans (h : Tame s s') (h' : Tame s' s'') : Tame s s'' := ⟨h'.sound, h.noNew.trans h'.noNew⟩

end Tame

variable {kernelHandle : Bool}

theorem tableFor_some {process id : Option P} {table : HandleTable}
    (h : s.tableFor kernelHandle process = some (id, table)) : s.tables id = some table := by
  unfold tableFor at h
  split at h
  · obtain ⟨t, ht, heq⟩ := map_eq_some_iff.1 h
    cases heq
    exact ht
  · obtain ⟨p, -, hp⟩ := bind_eq_some_iff.1 h
    obtain ⟨t, ht, heq⟩ := map_eq_some_iff.1 hp
    cases heq
    exact ht

variable {attributes : BitVec 32} {wantObject : Bool}

theorem insertTable_some {c : Caller P} {id : Option P} {table : HandleTable}
    (h : s.insertTable c attributes wantObject = some (kernelHandle, id, table)) :
    s.tables id = some table := by
  unfold insertTable at h
  dsimp only at h
  split at h
  · rename_i found hfound
    cases h
    exact tableFor_some hfound
  · split at h
    · obtain ⟨found, hfound, heq⟩ := map_eq_some_iff.1 h
      cases heq
      exact tableFor_some hfound
    · cases h

theorem insertTable_congr (h : s'.tables = s.tables) (c : Caller P) (attributes : BitVec 32) (wantObject : Bool) :
    s'.insertTable c attributes wantObject = s.insertTable c attributes wantObject := by
  simp only [insertTable, tableFor, h]

theorem addsEntry_congr (h : s'.hasOpenProcedure o = s.hasOpenProcedure o) (c : Caller P) (table : HandleTable) :
    s'.AddsEntry c table o = s.AddsEntry c table o := by
  rw [AddsEntry, AddsEntry, Accepts, Accepts, h]

def insertTarget (s : ObState P) (object : ℕ) (entryAllocated : Bool) : Option (ℕ × Bool) :=
  match s.headers object with
  | none => none
  | some header =>
    match s.placeObject object header entryAllocated with
    | some (.existing existing) => some (existing, false)
    | some (.inserted _ _) => some (object, true)
    | some .unnamed => some (object, true)
    | _ => none

variable {entryAllocated : Bool}

theorem insertTarget_header {object : ℕ} {target : ℕ × Bool}
    (h : s.insertTarget object entryAllocated = some target) : ∃ header, s.headers object = some header := by
  unfold insertTarget at h
  split at h
  · cases h
  · rename_i header hheader
    exact ⟨header, hheader⟩

variable {target : ℕ}

theorem insertTarget_new {object : ℕ} (h : s.insertTarget object entryAllocated = some (target, true)) :
    target = object := by
  unfold insertTarget at h
  split at h
  · cases h
  · split at h <;> cases h <;> rfl

theorem placeObject_existing {object existing : ℕ} {header : ObjectHeader}
    (h : s.placeObject object header entryAllocated = some (.existing existing)) :
    (s.headers existing).isSome := by
  unfold placeObject at h
  split at h
  · cases h
  · split at h
    · cases h
    · dsimp only at h
      split at h
      · cases h
      · split at h
        · cases h
        · split at h
          · rename_i found hfound
            split at h
            · cases h
              have hnamed := obpLookupEntryDirectory_named hfound
              obtain ⟨name, hname⟩ := isSome_iff_exists.1 hnamed
              obtain ⟨foundHeader, hheader, -⟩ := bind_eq_some_iff.1 hname
              rw [hheader]
              rfl
            · cases h
          · split at h <;> cases h

theorem steady_insertIntoDirectory (s : ObState P) (parent object : ℕ) (entryAllocated : Bool) :
    Steady s (s.insertObjectIntoDirectory parent object entryAllocated).2 := by
  unfold insertObjectIntoDirectory
  split
  · dsimp only
    split
    · exact .refl s
    · split
      · exact .refl s
      · exact .setDirectory s parent _
  · exact .refl s

theorem deleteObject_headers (s : ObState P) (o : ℕ) :
    (s.obpDeleteObject o).headers = update s.headers o none := by
  unfold obpDeleteObject
  split
  · rename_i hnone
    rw [← hnone, update_eq_self]
  · rfl

theorem deleteObject_tables (s : ObState P) (o : ℕ) : (s.obpDeleteObject o).tables = s.tables := by
  unfold obpDeleteObject
  split <;> rfl

theorem deleteObject_reaper (s : ObState P) (o : ℕ) : (s.obpDeleteObject o).reaperList = s.reaperList := by
  unfold obpDeleteObject
  split <;> rfl

theorem deleteObject_totals (s : ObState P) (o t : ℕ) :
    ((s.obpDeleteObject o).types t).totalNumberOfHandles = (s.types t).totalNumberOfHandles := by
  unfold obpDeleteObject
  split
  · rfl
  · rename_i header hheader
    by_cases ht : t = header.typePtr
    · subst ht
      show (update s.types _ _ _).totalNumberOfHandles = _
      rw [update_self]
    · show (update s.types _ _ _).totalNumberOfHandles = _
      rw [update_of_ne ht]

theorem steady_deleteObject (s : ObState P) (o : ℕ) : Steady s (s.obpDeleteObject o) := by
  refine ⟨deleteObject_tables s o, fun o' ho => ?_⟩
  rw [deleteObject_headers] at ho
  by_cases heq : o' = o
  · subst heq
    rw [update_self] at ho
    cases ho
  · rwa [update_of_ne heq] at ho

theorem steady_reapObject (s : ObState P) : Steady s s.obpReapObject := by
  have hfold (list : List ℕ) (s : ObState P) : Steady s (list.foldl obpDeleteObject s) := by
    induction list generalizing s with
    | nil => exact .refl s
    | cons o list ih => exact (steady_deleteObject s o).trans (ih _)
  have hempty : Steady s { s with reaperList := [] } := ⟨rfl, fun _ ho => ho⟩
  exact hempty.trans (hfold s.reaperList _)

/-- What a creation that succeeds puts at `body`. -/
structure Created (s s' : ObState P) (objectType : ℕ) (objectAttributes : Option ObjectAttributes) (pool : ObjectPool)
    (body : ℕ) (header : ObjectHeader) : Prop where
  headers : s'.headers = update s.headers body (some header)
  directories : s'.directories =
    update s.directories body (if objectType = s.directoryType then some {} else none)
  tables : s'.tables = s.tables
  reaperList : s'.reaperList = s.reaperList
  upcaseTable : s'.upcaseTable = s.upcaseTable
  totals : ∀ t, (s'.types t).totalNumberOfHandles = (s.types t).totalNumberOfHandles
  pointerCount : header.pointerCount = 1
  handleCount : header.handleCountOrNextToFree = 0
  typePtr : header.typePtr = objectType
  nameInfo : header.nameInfo = objectAttributes.bind (newNameInfo pool)

theorem obCreateObject_cases (s : ObState P) (objectType : ℕ) (objectAttributes : Option ObjectAttributes)
    (pool : ObjectPool) :
    (s.obCreateObject objectType objectAttributes pool).1.object = none ∧
        (s.obCreateObject objectType objectAttributes pool).2 = s ∨
      ∃ body header, s.Allocatable body ∧ (s.obCreateObject objectType objectAttributes pool).1.object = some body ∧
        Created s (s.obCreateObject objectType objectAttributes pool).2 objectType objectAttributes pool body header := by
  unfold obCreateObject
  dsimp only
  split
  · exact Or.inl ⟨rfl, rfl⟩
  · split
    · exact Or.inl ⟨rfl, rfl⟩
    · rename_i body hbody
      split
      · exact Or.inl ⟨rfl, rfl⟩
      · rename_i hallocatable
        split
        · exact Or.inl ⟨rfl, rfl⟩
        · refine Or.inr ⟨body, _, not_not.1 hallocatable, rfl, ⟨rfl, rfl, rfl, rfl, rfl, fun t => ?_, rfl, rfl, rfl, rfl⟩⟩
          by_cases ht : t = objectType
          · subst ht
            rw [modifyType_types, update_self]
            rfl
          · rw [modifyType_types, update_of_ne ht]
            rfl

theorem tame_createObject (hs : s.Sound) (objectType : ℕ) (objectAttributes : Option ObjectAttributes) (pool : ObjectPool) :
    Tame s (s.obCreateObject objectType objectAttributes pool).2 := by
  rcases obCreateObject_cases s objectType objectAttributes pool with ⟨-, heq⟩ | ⟨body, header, hallocatable, -, hnew⟩
  · rw [heq]
    exact .refl hs
  · obtain ⟨hlow, hlt, haligned, -⟩ := hallocatable
    refine ⟨⟨fun id t h => hs.tables id t (hnew.tables ▸ h), fun o ho => ?_⟩, .of_tables hnew.tables⟩
    by_cases heq : o = body
    · subst heq
      exact ⟨hlow, hlt, haligned⟩
    · refine hs.placed o ?_
      rwa [hnew.headers, update_of_ne heq] at ho

theorem tame_createRootDirectory (hs : s.Sound) (pool : ObjectPool) : Tame s (s.createRootDirectory pool).2 := by
  have hcreate := tame_createObject hs s.directoryType (some ⟨0, none, objPermanent ||| objCaseInsensitive⟩) pool
  unfold createRootDirectory
  split <;> rename_i heq <;> rw [heq] at hcreate
  · exact hcreate.trans (.of_steady hcreate.sound ⟨rfl, fun _ ho => ho⟩)
  · exact hcreate

variable [DecidableEq P] {c : Caller P}

theorem tame_destroy {id : Option P} {table : HandleTable} (hs : s.Sound) (htable : s.tables id = some table)
    {x : ℕ × AccessMask × BitVec 32} (hx : exMapHandleToPointerFull table handle = some x) :
    Tame s (s.setTable id (exDestroyHandle table handle).2) := by
  have hsane := hs.tables id table htable
  refine ⟨hs.setTable id ?_, fun id' other y hy => ?_⟩
  · rw [(destroy_lookup hsane hx).1]
    exact (destroy_lookup hsane hx).2.1
  · by_cases hid : id' = id
    · subst hid
      rw [handleEntry_update_self (setTable_tables s id' _)] at hy
      rw [handleEntry_eq htable]
      exact destroy_only hy
    · rwa [handleEntry_update_of_ne (setTable_tables s id _) hid] at hy

theorem tame_ntClose (hs : s.Sound) (process : Option P) (handle : ℕ) : Tame s (s.ntClose process handle).2 := by
  unfold ntClose
  split
  · exact .refl hs
  · split
    · exact .refl hs
    · rename_i id table htable
      split
      · exact .refl hs
      · rename_i object access handleAttrs hlookup
        split
        · exact .refl hs
        · have hdestroy := tame_destroy hs (tableFor_some htable) hlookup
          split
          · rename_i heq
            rw [heq] at hdestroy
            exact hdestroy
          · rename_i heq
            rw [heq] at hdestroy
            exact hdestroy.trans (.of_steady hdestroy.sound (.releaseHandle _ object))

theorem openByPointer_entries (hs : s.Sound) (c : Caller P) (object : ℕ) (attributes : BitVec 32)
    (passedAccessState : Option AccessState) (desiredAccess : AccessMask) (objectType : Option ℕ) (userMode : Bool) :
    let s' := (s.obOpenObjectByPointer c object attributes passedAccessState desiredAccess objectType userMode).2
    Tame s s' ∨ s'.Sound ∧ ∃ header grantedAccess flags, s.headers object = some header ∧
      s.openAccess header (passedAccessState.getD ⟨c.subject, 0⟩) desiredAccess userMode = some grantedAccess ∧
      Adds s s' (object, grantedAccess, flags) := by
  unfold obOpenObjectByPointer
  split
  · exact Or.inl (.refl hs)
  · rename_i header hheader
    split
    · exact Or.inl (.refl hs)
    · split
      · exact Or.inl (.refl hs)
      · rename_i grantedAccess haccess
        have hobject : IsAddress object := hs.isAddress (by rw [hheader]; rfl)
        dsimp only
        split
        · exact Or.inl (.of_steady hs (.of_quiet (.trans (.reference s object) (.dereference _ object)) (by simp)))
        · rename_i id table htable
          have htable : s.tables id = some table := by
            split at htable
            · exact tableFor_some htable
            · exact tableFor_some htable
          have hadded := added_obpMakeHandle c grantedAccess (obpObjattrsToHandleFlags attributes) hs hobject htable
          have hcases {s' : ObState P} (h : Added s s' id (indexToHandle table.firstFreeIndex) (s.AddsEntry c table object)
              (object, grantedAccess, obpObjattrsToHandleFlags attributes)) :
              Tame s s' ∨ s'.Sound ∧ ∃ header grantedAccess flags, s.headers object = some header ∧
                s.openAccess header (passedAccessState.getD ⟨c.subject, 0⟩) desiredAccess userMode = some grantedAccess ∧
                Adds s s' (object, grantedAccess, flags) := by
            by_cases hadds : s.AddsEntry c table object
            · exact Or.inr ⟨h.sound, header, grantedAccess, _, hheader, haccess, h.only hadds⟩
            · exact Or.inl ⟨h.sound, h.noNew hadds⟩
          split <;> rename_i heq <;> rw [heq] at hadded
          · exact hcases (hadded.andThen (.dereference _ object))
          · exact hcases (hadded.andThen (.dereference _ object))
          · exact hcases hadded

variable {sourceHandle : ℕ}

theorem Added.closeSource {id sourceId : Option P} {new : ℕ} {adds : Prop}
    {x y : ℕ × AccessMask × BitVec 32} (h : Added s s' id new adds x)
    (hbefore : s.handleEntry sourceId sourceHandle = some y)
    (hsource : s'.handleEntry sourceId sourceHandle = some y) {table : HandleTable}
    (htable : s'.tables sourceId = some table) :
    Added s (s'.setTable sourceId (exDestroyHandle table sourceHandle).2) id new adds x := by
  have hdestroy : Tame s' (s'.setTable sourceId (exDestroyHandle table sourceHandle).2) := by
    rw [handleEntry_eq htable] at hsource
    exact tame_destroy h.sound htable hsource
  refine ⟨hdestroy.sound, fun ha => (h.only ha).trans hdestroy.noNew, fun ha => ⟨?_, (h.new ha).2⟩,
    fun ha => (h.noNew ha).trans hdestroy.noNew⟩
  obtain ⟨hnew, hnone⟩ := h.new ha
  by_cases hid : id = sourceId
  · subst hid
    rw [handleEntry_update_self (setTable_tables s' id _)]
    rw [handleEntry_eq htable] at hnew
    -- The new entry is not that of the source: it led nowhere before.
    have hother : handleToIndex new ≠ handleToIndex sourceHandle := by
      intro hi
      obtain ⟨t, ht, hlookup⟩ := bind_eq_some_iff.1 hbefore
      have hsame := lookup_same_index hi (lookup_some hnew).1 hlookup
      rw [handleEntry_eq ht, hsame] at hnone
      cases hnone
    rwa [destroy_other hother]
  · rwa [handleEntry_update_of_ne (setTable_tables s' sourceId _) hid]

theorem duplicate_none {c : Caller P} {sourceProcess targetProcess : Option P} {desiredAccess : AccessMask}
    {handleAttributes options : BitVec 32}
    (h : s.handleMeaning (sourceProcess.or c.process) sourceHandle = none ∨
      s.tableFor (isKernelHandle sourceHandle) (targetProcess.or c.process) = none) :
    (s.obDuplicateObject c sourceProcess targetProcess sourceHandle desiredAccess handleAttributes options).2 = s := by
  unfold obDuplicateObject
  dsimp only
  cases hsource : s.tableFor (isKernelHandle sourceHandle) (sourceProcess.or c.process) with
  | none => rfl
  | some source =>
    dsimp only
    cases hlookup : exMapHandleToPointerFull source.2 sourceHandle with
    | none => rfl
    | some entry =>
      rw [handleMeaning, hsource] at h
      rcases h with h | h
      · rw [bind_some, hlookup] at h
        cases h
      · rw [h]

theorem duplicate_entries (hs : s.Sound) (c : Caller P)
    {sourceProcess targetProcess sourceId targetId : Option P} {object : ℕ}
    {sourceAccess : AccessMask} {sourceAttributes : BitVec 32}
    {sourceTable targetTable : HandleTable} (desiredAccess : AccessMask)
    (handleAttributes options : BitVec 32)
    (hsource : s.tableFor (isKernelHandle sourceHandle) (sourceProcess.or c.process) = some (sourceId, sourceTable))
    (hlookup : exMapHandleToPointerFull sourceTable sourceHandle = some (object, sourceAccess, sourceAttributes))
    (htarget : s.tableFor (isKernelHandle sourceHandle) (targetProcess.or c.process) = some (targetId, targetTable))
    :
    ∃ flags, Added s
      (s.obDuplicateObject c sourceProcess targetProcess sourceHandle desiredAccess handleAttributes options).2 targetId
      (indexToHandle targetTable.firstFreeIndex) (s.AddsEntry c targetTable object)
      (object, if options &&& duplicateSameAccess ≠ 0 then sourceAccess else desiredAccess, flags) := by
  have hsourceTable := tableFor_some hsource
  have htargetTable := tableFor_some htarget
  have hobject : IsAddress object := isAddress_of_lookup (hs.tables sourceId sourceTable hsourceTable) hlookup
  have hbefore : s.handleEntry sourceId sourceHandle = some (object, sourceAccess, sourceAttributes) := by
    rw [handleEntry_eq hsourceTable, hlookup]
  refine ⟨if options &&& duplicateSameAttributes ≠ 0 then sourceAttributes
    else obpObjattrsToHandleFlags (handleAttributes &&& objHandleAttributes), ?_⟩
  unfold obDuplicateObject
  dsimp only
  rw [hsource]
  dsimp only
  rw [hlookup]
  dsimp only
  rw [htarget]
  dsimp only
  generalize (if options &&& duplicateSameAccess ≠ 0 then sourceAccess else desiredAccess) = access
  generalize (if options &&& duplicateSameAttributes ≠ 0 then sourceAttributes
    else obpObjattrsToHandleFlags (handleAttributes &&& objHandleAttributes)) = flags
  have hadded := added_obpMakeHandle c access flags hs hobject htargetTable
  split <;> rename_i heq <;> rw [heq] at hadded
  · exact hadded.andThen (.dereference _ object)
  · exact hadded.andThen (.dereference _ object)
  · have hkept := handleEntry_obpMakeHandle c access flags hs hobject htargetTable hbefore
    rw [heq] at hkept
    by_cases hclose : options &&& duplicateCloseSource ≠ 0
    · rw [if_pos hclose]
      split
      · exact hadded
      · rename_i table htable
        have hclosed := hadded.closeSource hbefore hkept htable
        split <;> rename_i hdestroy <;> rw [hdestroy] at hclosed
        · exact hclosed
        · exact hclosed.andThen (.releaseHandle _ object)
    · rw [if_neg hclose]
      exact hadded

theorem insertHandle_added (hs : s.Sound) (c : Caller P) (created : ℕ) (htarget : IsAddress target)
    (parent : Option ℕ) (desiredAccess : AccessMask) (finalStatus : Ntstatus) {id : Option P}
    {table : HandleTable}
    (htable : s.insertTable c attributes wantObject = some (kernelHandle, id, table)) :
    Added s (s.insertHandle c created target parent attributes desiredAccess finalStatus wantObject true).2 id
      (indexToHandle table.firstFreeIndex) (s.AddsEntry c table target)
      (target, desiredAccess, obpObjattrsToHandleFlags attributes) := by
  have hadded := added_obpMakeHandle c desiredAccess (obpObjattrsToHandleFlags attributes) hs htarget
    (insertTable_some htable)
  unfold insertHandle
  rw [if_neg (by decide), htable]
  dsimp only
  split <;> rename_i heq <;> rw [heq] at hadded
  · exact hadded.andThen (.trans (.rollback _ parent target attributes) (.dereference _ target))
  · exact hadded.andThen (.trans (.dereference _ target) (.rollback _ parent target attributes))
  · exact hadded.andThen (.finishInsert _ created target finalStatus wantObject true _)

theorem insertHandle_status (c : Caller P) (created : ℕ) (htarget : IsAddress target)
    (parent : Option ℕ) (desiredAccess : AccessMask) (finalStatus : Ntstatus) {id : Option P}
    {table : HandleTable}
    (htable : s.insertTable c attributes wantObject = some (kernelHandle, id, table))
    (hadds : s.AddsEntry c table target) :
    (s.insertHandle c created target parent attributes desiredAccess finalStatus wantObject true).1.status =
      finalStatus := by
  unfold insertHandle
  rw [if_neg (by decide), htable]
  dsimp only
  rw [obpMakeHandle_adds htarget.1 hadds]
  rfl

theorem insertHandle_steady (s : ObState P) (c : Caller P) (created target : ℕ) (parent : Option ℕ)
    (attributes : BitVec 32) (desiredAccess : AccessMask) (finalStatus : Ntstatus) (wantObject wantHandle : Bool)
    (h : wantHandle = true → s.insertTable c attributes wantObject = none) :
    Steady s (s.insertHandle c created target parent attributes desiredAccess finalStatus wantObject wantHandle).2 := by
  unfold insertHandle
  cases wantHandle with
  | false => exact .finishInsert s created target finalStatus wantObject false none
  | true =>
    rw [h rfl]
    exact .trans (.rollback s parent target attributes) (.dereference _ target)

theorem insert_eq (hs : s.Sound) (c : Caller P) {object target : ℕ} {new : Bool} {header : ObjectHeader}
    (hheader : s.headers object = some header) (desiredAccess : AccessMask)
    (wantObject wantHandle : Bool) (assigned : Option SecurityDescriptor)
    (htarget : s.insertTarget object entryAllocated = some (target, new)) :
    IsAddress target ∧ ∃ placed parent, Steady s placed ∧ placed.hasOpenProcedure target = s.hasOpenProcedure target ∧
      s.obInsertObject c object desiredAccess wantObject wantHandle entryAllocated assigned =
        placed.insertHandle c object target parent (createAttributes header) desiredAccess
          (if new then statusSuccess else statusObjectNameExists) wantObject wantHandle := by
  have hobject : IsAddress object := hs.isAddress (by rw [hheader]; rfl)
  unfold insertTarget at htarget
  unfold obInsertObject
  rw [hheader] at htarget ⊢
  dsimp only at htarget ⊢
  cases hplace : s.placeObject object header entryAllocated with
  | none =>
    rw [hplace] at htarget
    cases htarget
  | some placement =>
    rw [hplace] at htarget
    cases placement with
    | refused status => cases htarget
    | existing existing =>
      cases htarget
      have hquiet : Quiet s ((s.freeCreateInfo object).obDereferenceObject object) :=
        .trans (.freeCreateInfo s object) (.dereference _ object)
      exact ⟨hs.isAddress (placeObject_existing hplace), _, none,
        .trans (.freeCreateInfo s object) (.dereference _ object), hquiet.hasOpenProcedure target, rfl⟩
    | inserted parent directory =>
      cases htarget
      exact ⟨hobject, _, some parent, .trans (.setDirectory s parent directory) (.assignSecurity _ object assigned),
        (Quiet.assignSecurity (s.setDirectory parent directory) object assigned).hasOpenProcedure object, rfl⟩
    | unnamed =>
      cases htarget
      exact ⟨hobject, _, none, .assignSecurity s object assigned,
        (Quiet.assignSecurity s object assigned).hasOpenProcedure object, rfl⟩

theorem insert_refused (s : ObState P) (c : Caller P) {object : ℕ} (desiredAccess : AccessMask)
    (wantObject wantHandle : Bool) (assigned : Option SecurityDescriptor)
    (htarget : s.insertTarget object entryAllocated = none) :
    Steady s (s.obInsertObject c object desiredAccess wantObject wantHandle entryAllocated assigned).2 := by
  unfold insertTarget at htarget
  unfold obInsertObject
  split
  · exact .refl s
  · rename_i header hheader
    rw [hheader] at htarget
    dsimp only at htarget ⊢
    cases hplace : s.placeObject object header entryAllocated with
    | none => exact .refl s
    | some placement =>
      rw [hplace] at htarget
      cases placement with
      | refused status => exact .dereference s object
      | existing existing => cases htarget
      | inserted parent directory => cases htarget
      | unnamed => cases htarget

/-! ### The other calls -/

theorem tame_createTable (hs : s.Sound) (id : Option P) (block : WordBlock) : Tame s (s.createTable id block) := by
  unfold ObState.createTable
  split
  · obtain ⟨hsane, hnaming⟩ := fresh_spec block
    refine ⟨hs.setTable id hsane, fun id' handle y hy => ?_⟩
    by_cases hid : id' = id
    · subst hid
      rw [handleEntry_update_self (setTable_tables s id' _)] at hy
      exact absurd (hnaming y.1 (lookup_some hy).2.2.1) (naming_pos hy).ne'
    · rwa [handleEntry_update_of_ne (setTable_tables s id _) hid] at hy
  · exact .refl hs

/-! ### Every call -/

section
variable (hs : s.Sound)
include hs

theorem sound_openByPointer (c : Caller P) (object : ℕ) (attributes : BitVec 32)
    (passedAccessState : Option AccessState) (desiredAccess : AccessMask) (objectType : Option ℕ) (userMode : Bool) :
    (s.obOpenObjectByPointer c object attributes passedAccessState desiredAccess objectType userMode).2.Sound := by
  rcases openByPointer_entries hs c object attributes passedAccessState desiredAccess objectType userMode with h | h
  · exact h.sound
  · exact h.1

theorem sound_duplicate (c : Caller P) (sourceProcess targetProcess : Option P) (sourceHandle : ℕ)
    (desiredAccess : AccessMask) (handleAttributes options : BitVec 32) :
    (s.obDuplicateObject c sourceProcess targetProcess sourceHandle desiredAccess handleAttributes options).2.Sound := by
  cases hmeaning : s.handleMeaning (sourceProcess.or c.process) sourceHandle with
  | none => rwa [duplicate_none (Or.inl hmeaning)]
  | some entry =>
    cases htarget : s.tableFor (isKernelHandle sourceHandle) (targetProcess.or c.process) with
    | none => rwa [duplicate_none (Or.inr htarget)]
    | some target =>
      obtain ⟨source, hsource, hlookup⟩ := bind_eq_some_iff.1 hmeaning
      obtain ⟨flags, hadded⟩ := duplicate_entries hs c desiredAccess handleAttributes options hsource hlookup htarget
      exact hadded.sound

theorem sound_insertHandle (c : Caller P) (created : ℕ) (htarget : IsAddress target)
    (parent : Option ℕ) (attributes : BitVec 32) (desiredAccess : AccessMask) (finalStatus : Ntstatus)
    (wantObject wantHandle : Bool) :
    (s.insertHandle c created target parent attributes desiredAccess finalStatus wantObject wantHandle).2.Sound := by
  by_cases htable : wantHandle = true → s.insertTable c attributes wantObject = none
  · exact hs.steady (insertHandle_steady s c created target parent attributes desiredAccess finalStatus wantObject
      wantHandle htable)
  · rw [Classical.not_imp] at htable
    obtain ⟨rfl, htable⟩ := htable
    obtain ⟨⟨kernelHandle, id, table⟩, htable⟩ := ne_none_iff_exists'.1 htable
    exact (insertHandle_added hs c created htarget parent desiredAccess finalStatus htable).sound

theorem sound_insertObject (c : Caller P) (object : ℕ) (desiredAccess : AccessMask)
    (wantObject wantHandle entryAllocated : Bool) (assigned : Option SecurityDescriptor) :
    (s.obInsertObject c object desiredAccess wantObject wantHandle entryAllocated assigned).2.Sound := by
  cases htarget : s.insertTarget object entryAllocated with
  | none => exact hs.steady (insert_refused s c desiredAccess wantObject wantHandle assigned htarget)
  | some found =>
    obtain ⟨header, hheader⟩ := insertTarget_header htarget
    obtain ⟨haddress, placed, parent, hplaced, -, heq⟩ :=
      insert_eq hs c hheader desiredAccess wantObject wantHandle assigned htarget
    rw [heq]
    exact sound_insertHandle (hs.steady hplaced) c object haddress parent _ desiredAccess _ wantObject wantHandle

theorem Sound.step (op : ObOp P) : (s.step op).Sound := by
  cases op with
  | createTable id block => exact (tame_createTable hs id block).sound
  | createRootDirectory pool => exact (tame_createRootDirectory hs pool).sound
  | createObject objectType objectAttributes pool => exact (tame_createObject hs objectType objectAttributes pool).sound
  | insertObject c object desiredAccess wantObject wantHandle entryAllocated assigned =>
    exact sound_insertObject hs c object desiredAccess wantObject wantHandle entryAllocated assigned
  | insertIntoDirectory parent object entryAllocated =>
    exact hs.steady (steady_insertIntoDirectory s parent object entryAllocated)
  | openByName c found attributes accessState desiredAccess objectType userMode =>
    exact sound_openByPointer hs c found attributes _ desiredAccess objectType userMode
  | openByPointer c object attributes accessState desiredAccess objectType userMode =>
    exact sound_openByPointer hs c object attributes accessState desiredAccess objectType userMode
  | duplicate c sourceProcess targetProcess sourceHandle desiredAccess handleAttributes options =>
    exact sound_duplicate hs c sourceProcess targetProcess sourceHandle desiredAccess handleAttributes options
  | close process handle => exact (tame_ntClose hs process handle).sound
  | reference object => exact hs.steady (.of_quiet (.reference s object) (reference_tables s object))
  | dereference object => exact hs.steady (.dereference s object)
  | reap => exact hs.steady (steady_reapObject s)
  | setTables upcase => exact hs.steady ⟨rfl, fun _ ho => ho⟩

end

omit [DecidableEq P] in
theorem sound_start (types : ℕ → ObjectType) (directoryType : ℕ) : (start types directoryType : ObState P).Sound where
  tables _ _ h := by cases h
  placed _ h := by cases h

end ObState

end XenOS.Ob
