import XenOS.General.Run
import XenOS.Io.FileLife

/-! When each opened file is cleaned up once and closed once. The close procedure waits for the last
handle, and its callers always tell it that there is none. -/

namespace XenOS.FileLife

open General FileObject List

def ObjectHeader.after (h : ObjectHeader) (pointers handles : ℤ) : ObjectHeader :=
  { h with pointerCount := h.pointerCount + pointers, handleCount := h.handleCount + handles }

namespace FileObject

variable {f : FileObject} {a : FileAction} {process : ℕ} {irp : Bool}

structure Sound (f : FileObject) : Prop where
  rejected : .createFailed ∈ f.history →
    f.history = [.createFailed, .free] ∧ f.handles = [] ∧ f.deleting = false ∧ f.deviceReferences = 0
  opened : .create ∈ f.history → f.handles ≠ [] → f.history = [.create] ∧ f.deleting = false ∧ f.deviceReferences = 1
  referenced : .create ∈ f.history → f.handles = [] → f.references ≠ 0 →
    f.history = [.create, .cleanup] ∧ f.deleting = false ∧ f.deviceReferences = 1
  unused : .create ∈ f.history → f.handles = [] → f.references = 0 →
    f.history = [.create, .cleanup] ∧ f.deleting = true ∧ f.deviceReferences = 1 ∨
      f.history = [.create, .cleanup, .close, .free] ∧ f.deleting = false ∧ f.deviceReferences = 0

structure Open (f : FileObject) : Prop where
  handles : f.handles ≠ []
  history : f.history = [.create]
  deleting : f.deleting = false
  device : f.deviceReferences = 1

structure Ended (f : FileObject) : Prop where
  handles : f.handles = []
  references : f.references = 0
  deleting : f.deleting = false
  device : f.deviceReferences = 0
  history : f.history = [.createFailed, .free] ∨ f.history = [.create, .cleanup, .close, .free]

theorem Open.sound (h : f.Open) : f.Sound where
  rejected hfailed := by simp [h.history] at hfailed
  opened _ _ := ⟨h.history, h.deleting, h.device⟩
  referenced _ hnone := absurd hnone h.handles
  unused _ hnone := absurd hnone h.handles

theorem Ended.sound (h : f.Ended) : f.Sound where
  rejected hfailed := by
    rcases h.history with hhistory | hhistory
    · exact ⟨hhistory, h.handles, h.deleting, h.device⟩
    · simp [hhistory] at hfailed
  opened _ hhandles := absurd h.handles hhandles
  referenced _ _ hreferences := absurd h.references hreferences
  unused hcreate _ _ := by
    rcases h.history with hhistory | hhistory
    · simp [hhistory] at hcreate
    · exact Or.inr ⟨hhistory, h.deleting, h.device⟩

@[simp] theorem obDereferenceObject_handles : f.obDereferenceObject.handles = f.handles := by
  unfold obDereferenceObject
  split <;> rfl

@[simp] theorem obDereferenceObject_history : f.obDereferenceObject.history = f.history := by
  unfold obDereferenceObject
  split <;> rfl

@[simp] theorem obDereferenceObject_deviceReferences : f.obDereferenceObject.deviceReferences = f.deviceReferences := by
  unfold obDereferenceObject
  split <;> rfl

theorem obDereferenceObject_deleting : f.obDereferenceObject.deleting = (f.deleting || decide f.header.Deletes) := by
  unfold obDereferenceObject
  split
  · rename_i hless
    have hnot : ¬ f.header.Deletes := fun ⟨hle, _⟩ => by omega
    simp [hnot]
  · rename_i hless
    have hiff : f.header.pointerCount - 1 = 0 ↔ f.header.Deletes := by
      unfold ObjectHeader.Deletes
      omega
    exact congrArg (f.deleting || ·) (decide_eq_decide.2 hiff)

@[simp] theorem closeProcedure_zero : f.closeProcedure 0 irp = f := by
  unfold closeProcedure
  cases f.header.typePtr <;> rfl

def Clear (f : FileObject) : FileAction → Prop
  | .duplicate source _ entry closeSource _ =>
    source ∈ f.handles → (entry = true → closeSource = true) → ¬ (f.header.after 1 0).Deletes
  | .close process _ => process ∈ f.handles → f.handles.erase process ≠ [] ∧ ¬ (f.header.after 0 (-1)).Deletes
  | .reference => True
  | .dereference => f.references ≠ 0 → ¬ f.header.Deletes
  | .reap => True

theorem Ended.step (h : f.Ended) (a : FileAction) : f.step a = f := by
  cases a with
  | duplicate source target entry closeSource irp => simp [FileObject.step, obDuplicateObject, h.handles]
  | close process irp => simp [FileObject.step, ntClose, h.handles]
  | reference => simp [FileObject.step, FileObject.reference, h.handles, h.references]
  | dereference => simp [FileObject.step, FileObject.dereference, h.references]
  | reap => simp [FileObject.step, obpDeleteObject, h.deleting]

theorem Ended.clear (h : f.Ended) (a : FileAction) : f.Clear a := by
  cases a with
  | duplicate source target entry closeSource irp => simp [Clear, h.handles]
  | close process irp => simp [Clear, h.handles]
  | reference => trivial
  | dereference => simp [Clear, h.references]
  | reap => trivial

section
variable (h : f.Open)
include h

/-- An open file object without one of its references stays so unless the counts delete it, and then is
on its way to the reaper. -/
theorem Open.obDereferenceObject :
    if f.header.Deletes then ¬ f.obDereferenceObject.Sound else f.obDereferenceObject.Open := by
  split
  · rename_i hdeletes
    intro hsound
    have hopen := hsound.opened (by simp [h.history]) (by simpa using h.handles)
    rw [obDereferenceObject_deleting] at hopen
    simp [hdeletes] at hopen
  · rename_i hdeletes
    exact ⟨by simpa using h.handles, by simpa using h.history,
      by rw [obDereferenceObject_deleting]; simp [h.deleting, hdeletes], by simpa using h.device⟩

theorem Open.obDereferenceObject_of_not (hdeletes : ¬ f.header.Deletes) : f.obDereferenceObject.Open := by
  simpa [hdeletes] using h.obDereferenceObject

theorem Open.not_sound_of_deletes (hdeletes : f.header.Deletes) : ¬ f.obDereferenceObject.Sound := by
  simpa [hdeletes] using h.obDereferenceObject

theorem Open.obReferenceObject : f.obReferenceObject.Open := ⟨h.handles, h.history, h.deleting, h.device⟩

theorem Open.addHandle (process : ℕ) : (f.addHandle process).Open :=
  ⟨by simp [FileObject.addHandle], h.history, h.deleting, h.device⟩

end

def withoutHandle (f : FileObject) (process : ℕ) : FileObject :=
  { f with handles := f.handles.erase process, header := { f.header with handleCount := f.header.handleCount - 1 } }

theorem removeHandle_eq : f.removeHandle process irp = (f.withoutHandle process).obDereferenceObject := by
  unfold removeHandle withoutHandle
  rw [closeProcedure_zero]

theorem Open.withoutHandle (h : f.Open) (hrest : f.handles.erase process ≠ []) : (f.withoutHandle process).Open :=
  ⟨hrest, h.history, h.deleting, h.device⟩

theorem Open.not_sound_of_last (h : f.Open) (hlast : f.handles.erase process = []) :
    ¬ (f.withoutHandle process).obDereferenceObject.Sound := by
  intro hsound
  have hcreate : Event.create ∈ (f.withoutHandle process).obDereferenceObject.history := by
    simp [FileObject.withoutHandle, h.history]
  have hnone : (f.withoutHandle process).obDereferenceObject.handles = [] := by
    simpa [FileObject.withoutHandle] using hlast
  by_cases hreferences : (f.withoutHandle process).obDereferenceObject.references = 0
  · have hunused := hsound.unused hcreate hnone hreferences
    simp [FileObject.withoutHandle, h.history] at hunused
  · have hreferenced := hsound.referenced hcreate hnone hreferences
    simp [FileObject.withoutHandle, h.history] at hreferenced

theorem withoutHandle_header : (f.withoutHandle process).header = f.header.after 0 (-1) := by
  simp [withoutHandle, ObjectHeader.after, Int.sub_eq_add_neg]

theorem duplicated_header {target : ℕ} :
    ((f.obReferenceObject.addHandle target).withoutHandle process).header = f.header.after 1 0 := by
  simp [withoutHandle, ObjectHeader.after, addHandle, obReferenceObject]

theorem obReferenceObject_header : f.obReferenceObject.header = f.header.after 1 0 := by
  simp [obReferenceObject, ObjectHeader.after]

theorem duplicated_rest {source target : ℕ} (hsource : source ∈ f.handles) :
    (f.obReferenceObject.addHandle target).handles.erase source ≠ [] := by
  intro hnone
  have hlength := length_erase_of_mem (l := (f.obReferenceObject.addHandle target).handles) (a := source)
    (by simp [addHandle, obReferenceObject, hsource])
  have hpos := length_pos_of_mem hsource
  rw [hnone] at hlength
  simp only [addHandle, obReferenceObject, length_nil, length_cons] at hlength
  omega

theorem Open.step (h : f.Open) (hclear : f.Clear a) : (f.step a).Open := by
  cases a with
  | duplicate source target entry closeSource irp =>
    simp only [step, obDuplicateObject]
    split
    · rename_i hsource
      have hadded := h.obReferenceObject.addHandle target
      cases entry with
      | false =>
        exact h.obReferenceObject.obDereferenceObject_of_not (obReferenceObject_header ▸ hclear hsource (by simp))
      | true =>
        cases closeSource with
        | false => exact hadded
        | true =>
          simp only [if_true, removeHandle_eq]
          exact (hadded.withoutHandle (duplicated_rest hsource)).obDereferenceObject_of_not
            (duplicated_header ▸ hclear hsource (by simp))
    · exact h
  | close process irp =>
    simp only [step, ntClose]
    split
    · rename_i hmem
      rw [removeHandle_eq]
      exact (h.withoutHandle (hclear hmem).1).obDereferenceObject_of_not (withoutHandle_header ▸ (hclear hmem).2)
    · exact h
  | reference =>
    simp only [step, reference]
    split
    · exact ⟨h.handles, h.history, h.deleting, h.device⟩
    · exact h
  | dereference =>
    simp only [step, dereference]
    split
    · rename_i hreferences
      have hless : ({ f with references := f.references - 1 } : FileObject).Open := ⟨h.handles, h.history, h.deleting, h.device⟩
      exact hless.obDereferenceObject_of_not (hclear hreferences)
    · exact h
  | reap =>
    simp only [step, obpDeleteObject, h.deleting]
    exact h

theorem Open.breaks (h : f.Open) (hclear : ¬ f.Clear a) : ¬ (f.step a).Sound := by
  cases a with
  | duplicate source target entry closeSource irp =>
    simp only [Clear, Classical.not_imp, not_not] at hclear
    obtain ⟨hsource, hclose, hdeletes⟩ := hclear
    simp only [FileObject.step, obDuplicateObject, hsource, if_true]
    cases entry with
    | false => exact h.obReferenceObject.not_sound_of_deletes (obReferenceObject_header ▸ hdeletes)
    | true =>
      simp only [hclose rfl, if_true, removeHandle_eq]
      exact ((h.obReferenceObject.addHandle target).withoutHandle (duplicated_rest hsource)).not_sound_of_deletes
        (duplicated_header ▸ hdeletes)
  | close process irp =>
    simp only [Clear, Classical.not_imp] at hclear
    obtain ⟨hmem, hbad⟩ := hclear
    simp only [FileObject.step, ntClose, hmem, if_true, removeHandle_eq]
    by_cases hlast : f.handles.erase process = []
    · exact h.not_sound_of_last hlast
    · have hdeletes := not_not.1 fun hdeletes => hbad ⟨hlast, hdeletes⟩
      exact (h.withoutHandle hlast).not_sound_of_deletes (withoutHandle_header ▸ hdeletes)
  | reference => exact absurd trivial hclear
  | dereference =>
    simp only [Clear, Classical.not_imp, not_not] at hclear
    have hless : ({ f with references := f.references - 1 } : FileObject).Open := ⟨h.handles, h.history, h.deleting, h.device⟩
    simp only [FileObject.step, FileObject.dereference, if_pos hclear.1]
    exact hless.not_sound_of_deletes hclear.2
  | reap => exact absurd trivial hclear

end FileObject

structure OpenResult.Sound (r : OpenResult) : Prop where
  failing : ¬ Opens r.status → r.handle = none
  references : r.handle = none → r.references = 0
  stored : r.handle = none → ∀ v, r.ioStatus = some v → v = r.status

/-- The object of the path is opened by a temporary handle. -/
structure CreateFile.Walks (c : CreateFile) : Prop where
  fileHandle : c.fileHandle = true
  ioStatusBlock : c.ioStatusBlock ≠ none
  objectAttributes : c.objectAttributes = true
  name : c.walk.name = true
  opens : c.walk.openStatus = statusSuccess

structure CreateFile.Reaches (c : CreateFile) : Prop where
  fileHandle : c.fileHandle = true
  ioStatusBlock : c.ioStatusBlock ≠ none
  objectAttributes : c.objectAttributes = true
  walk : (iopParseDevice c.walk).status = statusSuccess
  mount : c.mountStatus = statusSuccess
  memory : c.fileMemory = true

/-- A temporary handle is closed; a refused IRP_MJ_CREATE finds its status in the IO_STATUS_BLOCK;
without an entry for the handle there is memory for both IRPs and no deletion; with one, the type is one
to follow. -/
structure CreateFile.Clear (c : CreateFile) : Prop where
  closes : c.Walks → c.walk.closes = true
  fileHandle : c.fileHandle = false → ∀ v, c.ioStatusBlock = some v → v = statusInvalidParameter
  refused : c.Reaches → ¬ Opens (iopSendCreateIrp c.createReply) → c.ioStatusBlock = some (iopSendCreateIrp c.createReply)
  noEntry : c.Reaches → Opens (iopSendCreateIrp c.createReply) → c.entry = none →
    c.cleanupIrp = true ∧ c.closeIrp = true ∧ ¬ (c.header.after 1 0).Deletes
  entry : c.Reaches → Opens (iopSendCreateIrp c.createReply) → c.entry ≠ none → c.header.typePtr ≠ .other

namespace FileSpace

variable {s : FileSpace} {c : CreateFile} {f : FileObject} {process : ℕ}

structure Sound (s : FileSpace) : Prop where
  files : ∀ f ∈ s.files, f.Sound
  lastOpen : ∀ r, s.lastOpen = some r → r.Sound
  running : s.faulted = false

structure Inv (s : FileSpace) : Prop where
  files : ∀ f ∈ s.files, f.Open ∨ f.Ended
  lastOpen : ∀ r, s.lastOpen = some r → r.Sound
  running : s.faulted = false

theorem Inv.sound (h : s.Inv) : s.Sound :=
  ⟨fun f hf => (h.files f hf).elim Open.sound Ended.sound, h.lastOpen, h.running⟩

theorem inv_init : init.Inv := ⟨by simp [init], by simp [init], rfl⟩

theorem Inv.add (h : s.Inv) (hf : f.Open ∨ f.Ended) : (s.add f).Inv := by
  refine ⟨fun f' hf' => ?_, h.lastOpen, h.running⟩
  rcases mem_append.1 hf' with hold | hnew
  · exact h.files f' hold
  · rw [mem_singleton.1 hnew]
    exact hf

theorem Inv.failed (h : s.Inv) {status : ℕ} {ioStatus : Option ℕ} (hstored : ∀ v, ioStatus = some v → v = status) :
    (s.failed status ioStatus 0).Inv := by
  refine ⟨h.files, fun r hr => ?_, h.running⟩
  cases hr
  exact ⟨fun _ => rfl, fun _ => rfl, fun _ => hstored⟩

theorem not_sound_failed {status references : ℕ} {ioStatus : Option ℕ} (hstored : ¬ ∀ v, ioStatus = some v → v = status) :
    ¬ (s.failed status ioStatus references).Sound :=
  fun hsound => hstored ((hsound.lastOpen _ rfl).stored rfl)

theorem not_sound_left {status references : ℕ} {ioStatus : Option ℕ} (hleft : references ≠ 0) :
    ¬ (s.failed status ioStatus references).Sound :=
  fun hsound => hleft ((hsound.lastOpen _ rfl).references rfl)

theorem iopParseDevice_cases {w : PathWalk} (hcloses : w.name = true → w.openStatus = statusSuccess → w.closes = true) :
    iopParseDevice w = ⟨some w.object, statusSuccess, 1⟩ ∨
    (iopParseDevice w).status ≠ statusSuccess ∧ (iopParseDevice w).references = 0 := by
  unfold iopParseDevice
  split_ifs with hname hopen hreference hdevice
  · exact Or.inr ⟨by decide, rfl⟩
  · exact Or.inr ⟨hopen, rfl⟩
  all_goals
    have hleft : w.left = 0 := if_pos (hcloses (by simpa using hname) (not_not.1 hopen))
    rw [hleft]
  · exact Or.inr ⟨hreference, rfl⟩
  · exact Or.inl rfl
  · exact Or.inr ⟨by decide, rfl⟩

/-- A temporary handle that stays keeps its reference on the device. -/
theorem not_sound_of_stays (hwalks : c.Walks) (hstays : c.walk.closes = false) : ¬ (s.iopCreateFile c).Sound := by
  have hnull : ¬ (c.fileHandle = false ∨ c.ioStatusBlock = none) := by simp [hwalks.fileHandle, hwalks.ioStatusBlock]
  have hleft : c.walk.left = 1 := if_neg (by simp [hstays])
  have hparse : iopParseDevice c.walk = if c.walk.referenceStatus ≠ statusSuccess then ⟨none, c.walk.referenceStatus, 1⟩
      else if c.walk.isDevice then ⟨some c.walk.object, statusSuccess, 2⟩ else ⟨none, statusObjectTypeMismatch, 1⟩ := by
    unfold iopParseDevice
    rw [hwalks.name, hwalks.opens, hleft]
    rfl
  unfold iopCreateFile
  rw [if_neg hnull, if_neg (by simp [hwalks.objectAttributes]), hparse]
  by_cases hreference : c.walk.referenceStatus = statusSuccess
  swap
  · rw [if_pos hreference]
    dsimp only
    rw [if_pos hreference]
    exact not_sound_left (by decide)
  rw [if_neg (not_not.2 hreference)]
  cases hdevice : c.walk.isDevice with
  | false =>
    rw [if_neg Bool.false_ne_true]
    exact not_sound_left (by decide)
  | true =>
    rw [if_pos rfl]
    dsimp only
    rw [if_neg (not_not.2 rfl)]
    split_ifs with hmount hmemory hopens
    · exact not_sound_left (by decide)
    · exact not_sound_left (by decide)
    · split
      · refine not_sound_left ?_
        unfold obDereferenceObject
        split <;> cases c.cleanupIrp <;> cases c.closeIrp <;> exact Nat.one_ne_zero
      · intro hsound
        unfold FileSpace.opened at hsound
        split at hsound
        · cases hsound.running
        all_goals
          have hfile := hsound.files _ (mem_append.2 (Or.inr (mem_singleton.2 rfl)))
          cases (hfile.opened mem_cons_self (cons_ne_nil _ _)).2.2
    · exact not_sound_left Nat.one_ne_zero

theorem iopCreateFile_early (hcloses : c.Walks → c.walk.closes = true) (hearly : ¬ c.Reaches) : ∃ status ioStatus, s.iopCreateFile c = s.failed status ioStatus 0 ∧
    ((∀ v, ioStatus = some v → v = status) ↔ (c.fileHandle = false → ∀ v, c.ioStatusBlock = some v → v = statusInvalidParameter)) := by
  unfold iopCreateFile
  split
  · rename_i hnull
    refine ⟨_, _, rfl, fun h _ => h, fun h v hv => ?_⟩
    rcases hnull with hhandle | hblock
    · exact h hhandle v hv
    · rw [hblock] at hv
      cases hv
  · rename_i hnull
    have hhandle : c.fileHandle = true := by
      cases hc : c.fileHandle with
      | false => exact absurd (Or.inl hc) hnull
      | true => rfl
    have hblock : c.ioStatusBlock ≠ none := fun h => hnull (Or.inr h)
    -- every exit from here on stores the status that it returns
    have hstored : ∀ status : ℕ, (∀ v, some status = some v → v = status) ↔
        (c.fileHandle = false → ∀ v, c.ioStatusBlock = some v → v = statusInvalidParameter) := by
      intro status
      refine ⟨fun _ hfalse => ?_, fun _ v hv => (Option.some.inj hv).symm⟩
      rw [hhandle] at hfalse
      cases hfalse
    split
    · exact ⟨_, _, rfl, hstored _⟩
    · rename_i hattributes
      rcases iopParseDevice_cases fun hname hopens => hcloses ⟨hhandle, hblock, by simpa using hattributes, hname, hopens⟩
        with hdevice | ⟨hstatus, hreferences⟩
      · simp only [hdevice, ne_eq, not_true_eq_false, if_false]
        split
        · exact ⟨_, _, rfl, hstored _⟩
        · split
          · exact ⟨_, _, rfl, hstored _⟩
          · rename_i hmount hmemory
            exact absurd ⟨hhandle, hblock, by simpa using hattributes, by rw [hdevice], not_not.1 hmount, by simpa using hmemory⟩ hearly
      · simp only [hstatus, ne_eq, not_false_eq_true, if_true, hreferences]
        exact ⟨_, _, rfl, hstored _⟩

theorem Reaches.walks (h : c.Reaches) : c.Walks := by
  have hwalk := h.walk
  unfold iopParseDevice at hwalk
  split_ifs at hwalk with hname hopens
  · cases hwalk
  · exact absurd hwalk hopens
  all_goals exact ⟨h.fileHandle, h.ioStatusBlock, h.objectAttributes, by simpa using hname, not_not.1 hopens⟩

def fileOf (c : CreateFile) : FileObject := iopCreateFileObject c.walk.object 1 c.header

theorem iopCreateFile_reaches (hcloses : c.walk.closes = true) (h : c.Reaches) : s.iopCreateFile c =
    if Opens (iopSendCreateIrp c.createReply) then
      match c.entry with
      | none => s.handleFailed c (fileOf c)
      | some process => s.opened c (fileOf c) process
    else s.createFailed c (fileOf c) := by
  have hdevice : iopParseDevice c.walk = ⟨some c.walk.object, statusSuccess, 1⟩ := by
    rcases iopParseDevice_cases fun _ _ => hcloses with hdevice | ⟨hstatus, -⟩
    · exact hdevice
    · exact absurd h.walk hstatus
  have hnull : ¬ (c.fileHandle = false ∨ c.ioStatusBlock = none) := by simp [h.fileHandle, h.ioStatusBlock]
  cases hentry : c.entry <;>
    simp only [iopCreateFile, hnull, h.objectAttributes, hdevice, h.mount, h.memory, fileOf, hentry, ne_eq, not_true_eq_false,
      if_false, Bool.true_eq_false]

theorem Inv.createFailed (h : s.Inv) (hstored : c.ioStatusBlock = some (iopSendCreateIrp c.createReply)) :
    (s.createFailed c (fileOf c)).Inv :=
  (h.add (Or.inr ⟨rfl, rfl, rfl, rfl, Or.inl rfl⟩)).failed fun v hv => by
    rw [hstored] at hv
    exact (Option.some.inj hv).symm

theorem not_sound_createFailed (hblock : c.ioStatusBlock ≠ none) (hstored : c.ioStatusBlock ≠ some (iopSendCreateIrp c.createReply)) :
    ¬ (s.createFailed c (fileOf c)).Sound := by
  refine not_sound_failed fun hall => ?_
  obtain ⟨v, hv⟩ := Option.ne_none_iff_exists'.1 hblock
  rw [hall v hv] at hv
  exact hstored hv

/-- The file object without a handle, closed by `iop_close_file`. -/
def closedFile (c : CreateFile) : FileObject :=
  (((fileOf c).sent .create).obReferenceObject.obDereferenceObject.iopCloseFile c.cleanupIrp c.closeIrp).dereferenceDevice

theorem closedFile_history : (closedFile c).history =
    [.create] ++ (if c.cleanupIrp then [.cleanup] else []) ++ (if c.closeIrp then [.close] else []) ++ [.free] := by
  unfold closedFile obDereferenceObject
  split <;> cases c.cleanupIrp <;> cases c.closeIrp <;> rfl

theorem closedFile_deleting : (closedFile c).deleting = decide (c.header.after 1 0).Deletes := by
  have hsame : (closedFile c).deleting = ((fileOf c).sent .create).obReferenceObject.obDereferenceObject.deleting := by
    unfold closedFile obDereferenceObject
    split <;> cases c.cleanupIrp <;> cases c.closeIrp <;> rfl
  rw [hsame, obDereferenceObject_deleting, obReferenceObject_header]
  rfl

theorem closedFile_rest : (closedFile c).handles = [] ∧ (closedFile c).references = 0 ∧ (closedFile c).deviceReferences = 0 := by
  unfold closedFile obDereferenceObject
  split <;> cases c.cleanupIrp <;> cases c.closeIrp <;> exact ⟨rfl, rfl, rfl⟩

theorem Inv.handleFailed (h : s.Inv) (hcleanup : c.cleanupIrp = true) (hclose : c.closeIrp = true)
    (hdeletes : ¬ (c.header.after 1 0).Deletes) : (s.handleFailed c (fileOf c)).Inv := by
  have hended : (closedFile c).Ended :=
    ⟨closedFile_rest.1, closedFile_rest.2.1, by simp [closedFile_deleting, hdeletes], closedFile_rest.2.2,
      Or.inr (by simp [closedFile_history, hcleanup, hclose])⟩
  have hfailed : ((s.add (closedFile c)).failed statusInsufficientResources (some statusInsufficientResources) 0).Inv :=
    (h.add (Or.inr hended)).failed fun v hv => (Option.some.inj hv).symm
  rw [← closedFile_rest.2.2] at hfailed
  exact hfailed

theorem not_sound_handleFailed (hbad : ¬ (c.cleanupIrp = true ∧ c.closeIrp = true ∧
    ¬ (c.header.after 1 0).Deletes)) : ¬ (s.handleFailed c (fileOf c)).Sound := by
  intro hsound
  have hfile : (closedFile c).Sound := hsound.files _ (mem_append.2 (Or.inr (mem_singleton.2 rfl)))
  rcases hfile.unused (by simp [closedFile_history]) closedFile_rest.1 closedFile_rest.2.1 with ⟨hhistory, -, -⟩ | ⟨hhistory, hdeleting, -⟩
  · rw [closedFile_history] at hhistory
    cases hcleanup : c.cleanupIrp <;> cases hclose : c.closeIrp <;> simp [hcleanup, hclose] at hhistory
  · rw [closedFile_history] at hhistory
    rw [closedFile_deleting, decide_eq_false_iff_not] at hdeleting
    cases hcleanup : c.cleanupIrp <;> cases hclose : c.closeIrp <;> simp [hcleanup, hclose] at hhistory
    exact hbad ⟨hcleanup, hclose, hdeleting⟩

theorem Inv.opened (h : s.Inv) (hopens : Opens (iopSendCreateIrp c.createReply)) (htype : c.header.typePtr ≠ .other) :
    (s.opened c (fileOf c) process).Inv := by
  have hopen : (((fileOf c).sent .create).obReferenceObject.addHandle process).Open := by
    refine ⟨?_, rfl, rfl, rfl⟩
    simp [addHandle]
  have hadd := h.add (Or.inl hopen)
  unfold FileSpace.opened
  split
  · rename_i hother
    exact absurd hother htype
  all_goals
    refine ⟨hadd.files, fun r hr => ?_, h.running⟩
    cases hr
    exact ⟨fun hfailing => absurd hopens hfailing, nofun, nofun⟩

theorem not_sound_opened (hother : c.header.typePtr = .other) : ¬ (s.opened c (fileOf c) process).Sound := by
  intro hsound
  have hrunning := hsound.running
  simp [FileSpace.opened, hother] at hrunning

def Clear (s : FileSpace) : Action → Prop
  | .createFile c => c.Clear
  | .onFile i a => ∀ f, s.files[i]? = some f → f.Clear a

theorem Inv.createFile (h : s.Inv) (hclear : c.Clear) : (s.iopCreateFile c).Inv := by
  by_cases hreaches : c.Reaches
  · rw [iopCreateFile_reaches (hclear.closes (Reaches.walks hreaches)) hreaches]
    split
    · rename_i hopens
      split
      · rename_i hentry
        obtain ⟨hcleanup, hclose, hdeletes⟩ := hclear.noEntry hreaches hopens hentry
        exact h.handleFailed hcleanup hclose hdeletes
      · rename_i process hentry
        exact h.opened hopens (hclear.entry hreaches hopens (by simp [hentry]))
    · rename_i hrefused
      exact h.createFailed (hclear.refused hreaches hrefused)
  · obtain ⟨status, ioStatus, heq, hstored⟩ := iopCreateFile_early (s := s) hclear.closes hreaches
    rw [heq]
    exact h.failed (hstored.2 hclear.fileHandle)

theorem not_sound_createFile (hclear : ¬ c.Clear) : ¬ (s.iopCreateFile c).Sound := by
  by_cases hstays : c.Walks → c.walk.closes = true
  swap
  · obtain ⟨hwalks, hstays⟩ := Classical.not_imp.1 hstays
    exact not_sound_of_stays hwalks (Bool.eq_false_iff.2 hstays)
  by_cases hreaches : c.Reaches
  · rw [iopCreateFile_reaches (hstays (Reaches.walks hreaches)) hreaches]
    have hhandle : c.fileHandle = false → ∀ v, c.ioStatusBlock = some v → v = statusInvalidParameter := by
      intro hfalse
      rw [hreaches.fileHandle] at hfalse
      cases hfalse
    split
    · rename_i hopens
      split
      · rename_i hentry
        exact not_sound_handleFailed fun hgood => hclear ⟨hstays, hhandle, fun _ hrefused => absurd hopens hrefused,
          fun _ _ _ => hgood, fun _ _ hsome => absurd hentry hsome⟩
      · rename_i process hentry
        refine not_sound_opened (not_not.1 fun htype => hclear ⟨hstays, hhandle, fun _ hrefused => absurd hopens hrefused,
          fun _ _ hnone => ?_, fun _ _ _ => htype⟩)
        rw [hentry] at hnone
        cases hnone
    · rename_i hrefused
      exact not_sound_createFailed hreaches.ioStatusBlock fun hstored => hclear ⟨hstays, hhandle, fun _ _ => hstored,
        fun _ hopens => absurd hopens hrefused, fun _ hopens => absurd hopens hrefused⟩
  · obtain ⟨status, ioStatus, heq, hstored⟩ := iopCreateFile_early (s := s) hstays hreaches
    rw [heq]
    exact not_sound_failed fun hall => hclear ⟨hstays, hstored.1 hall, fun h => absurd h hreaches, fun h => absurd h hreaches,
      fun h => absurd h hreaches⟩

theorem Inv.step (h : s.Inv) {a : Action} (hclear : s.Clear a) : (s.step a).Inv := by
  simp only [FileSpace.step, h.running, if_false, Bool.false_eq_true]
  cases a with
  | createFile c => exact h.createFile hclear
  | onFile i a =>
    dsimp only
    split
    · rename_i f hf
      refine ⟨fun f' hf' => ?_, h.lastOpen, rfl⟩
      rcases mem_or_eq_of_mem_set hf' with hold | rfl
      · exact h.files f' hold
      · rcases h.files f (mem_of_getElem? hf) with hopen | hended
        · exact Or.inl (hopen.step (hclear f hf))
        · rw [hended.step]
          exact Or.inr hended
    · exact h

theorem Inv.breaks (h : s.Inv) {a : Action} (hclear : ¬ s.Clear a) : ¬ (s.step a).Sound := by
  simp only [FileSpace.step, h.running, if_false, Bool.false_eq_true]
  cases a with
  | createFile c => exact not_sound_createFile hclear
  | onFile i a =>
    simp only [FileSpace.Clear, not_forall] at hclear
    obtain ⟨f, hf, hbad⟩ := hclear
    simp only [hf]
    obtain ⟨hlt, -⟩ := List.getElem?_eq_some_iff.1 hf
    intro hsound
    have hfile : (f.step a).Sound := hsound.files _ (List.mem_set hlt _)
    rcases h.files f (List.mem_of_getElem? hf) with hopen | hended
    · exact hopen.breaks hbad hfile
    · exact hbad (hended.clear a)

/-- Every file object is cleaned up and closed, every open device held, and failing opens leave only
their status, exactly if every step is clear; closing the last handle of a file never is. -/
theorem everyState_sound_iff (as : List Action) : EveryState step Sound init as ↔ EveryStep step Clear init as :=
  everyState_iff_everyStep (I := Inv) (G := fun _ _ => True) (fun _ _ h _ hclear => h.step hclear) (fun _ h => h.sound)
    (fun _ _ h _ hclear => h.breaks hclear) inv_init (everyStep_of_forall fun _ _ => trivial)

def wellOpened : CreateFile :=
  { fileHandle := true, ioStatusBlock := some 0, objectAttributes := true,
    walk := { name := true, openStatus := statusSuccess, closes := true, referenceStatus := statusSuccess, object := 0, isDevice := true },
    mountStatus := statusSuccess, fileMemory := true, header := { pointerCount := 0, handleCount := 0, typePtr := .file },
    createReply := some statusSuccess, entry := some 1, cleanupIrp := true, closeIrp := true }

/-- The only handle of a file is closed, and the file is not cleaned up. -/
theorem closed_without_cleanup : ¬ EveryState step Sound init [.createFile wellOpened, .onFile 0 (.close 1 true)] := by
  rw [everyState_iff_take]
  intro hall
  have hsound := (hall 2).files _ (mem_singleton.2 rfl)
  rcases hsound.unused (by decide) rfl rfl with ⟨hhistory, -⟩ | ⟨hhistory, -⟩
  · exact absurd hhistory (by decide)
  · exact absurd hhistory (by decide)

end FileSpace

end XenOS.FileLife
