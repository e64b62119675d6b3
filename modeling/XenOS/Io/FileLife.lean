import Mathlib.Data.Int.Notation
import Mathlib.Tactic.Common

/-! The life of a file object. It is a block of the pool and not an object of the object manager: in
front of it there is no `OBJECT_HEADER`, and the counts and the type read there are what that memory
holds. -/

namespace XenOS.FileLife

def statusSuccess : ℕ := 0
def statusPending : ℕ := 0x103
def statusInvalidParameter : ℕ := 0xC000000D
def statusObjectTypeMismatch : ℕ := 0xC0000024
def statusObjectNameInvalid : ℕ := 0xC0000033
def statusObjectNameNotFound : ℕ := 0xC0000034
def statusInsufficientResources : ℕ := 0xC000009A

inductive TypePtr where
  | null
  | file
  | other
deriving DecidableEq

structure ObjectHeader where
  pointerCount : ℤ
  handleCount : ℤ
  typePtr : TypePtr

/-- `obf_dereference_object` deletes the object. -/
def ObjectHeader.Deletes (h : ObjectHeader) : Prop := h.handleCount ≤ h.pointerCount ∧ h.pointerCount = 1

instance (h : ObjectHeader) : Decidable h.Deletes := inferInstanceAs (Decidable (_ ∧ _))

/-- What happens to a file object. `freeHeader` releases the address of the header, which is no
block of the pool. -/
inductive Event where
  | create
  | createFailed
  | cleanup
  | close
  | free
  | freeHeader
deriving DecidableEq

structure FileObject where
  deviceObject : ℕ
  /-- What is left of the references on the device that the open took. -/
  deviceReferences : ℕ
  header : ObjectHeader
  /-- For each handle the process whose table has it. -/
  handles : List ℕ
  /-- The pointers that others hold. -/
  references : ℕ
  cleanupComplete : Bool
  /-- The reaper has the object in its list. -/
  deleting : Bool
  history : List Event

namespace FileObject

def iopCreateFileObject (deviceObject deviceReferences : ℕ) (header : ObjectHeader) : FileObject :=
  { deviceObject := deviceObject, deviceReferences := deviceReferences, header := header, handles := [], references := 0,
    cleanupComplete := false, deleting := false, history := [] }

def sent (f : FileObject) (e : Event) : FileObject := { f with history := f.history ++ [e] }

def iopDeleteFileObject (f : FileObject) : FileObject := f.sent .free

def dereferenceDevice (f : FileObject) : FileObject := { f with deviceReferences := f.deviceReferences - 1 }

/-- `irp` says that there is memory for the IRP. -/
def iopSendCleanupIrp (irp : Bool) (f : FileObject) : FileObject :=
  if irp then { f.sent .cleanup with cleanupComplete := true } else f

def iopSendCloseIrp (irp : Bool) (f : FileObject) : FileObject := if irp then f.sent .close else f

/-- `iop_close_file` of `file.rs`, on the failure path of the open. -/
def iopCloseFile (cleanupIrp closeIrp : Bool) (f : FileObject) : FileObject :=
  let f := if f.cleanupComplete then f else f.iopSendCleanupIrp cleanupIrp
  (f.iopSendCloseIrp closeIrp).iopDeleteFileObject

/-- `iop_close_file` of `init.rs`, the close procedure of the type. -/
def closeProcedure (processHandleCount : ℕ) (irp : Bool) (f : FileObject) : FileObject :=
  match f.header.typePtr with
  | .file => if processHandleCount = 1 then (if f.cleanupComplete then f else f.iopSendCleanupIrp irp) else f
  | .null | .other => f

def obReferenceObject (f : FileObject) : FileObject :=
  { f with header := { f.header with pointerCount := f.header.pointerCount + 1 } }

def obDereferenceObject (f : FileObject) : FileObject :=
  if f.header.pointerCount < f.header.handleCount then f
  else { f with header := { f.header with pointerCount := f.header.pointerCount - 1 },
                deleting := f.deleting || decide (f.header.pointerCount - 1 = 0) }

def addHandle (process : ℕ) (f : FileObject) : FileObject :=
  { f with handles := process :: f.handles, header := { f.header with handleCount := f.header.handleCount + 1 } }

def removeHandle (process : ℕ) (irp : Bool) (f : FileObject) : FileObject :=
  ({ f with handles := f.handles.erase process,
            header := { f.header with handleCount := f.header.handleCount - 1 } } : FileObject).closeProcedure 0 irp
    |>.obDereferenceObject

/-- `nt_close`, in the context of the process. -/
def ntClose (process : ℕ) (irp : Bool) (f : FileObject) : FileObject :=
  if process ∈ f.handles then f.removeHandle process irp else f

/-- `ob_duplicate_object`. `entry` says that the table of the target has an entry for it. -/
def obDuplicateObject (source target : ℕ) (entry closeSource irp : Bool) (f : FileObject) : FileObject :=
  if source ∈ f.handles then
    if entry then
      let f := f.obReferenceObject.addHandle target
      if closeSource then f.removeHandle source irp else f
    else f.obReferenceObject.obDereferenceObject
  else f

def reference (f : FileObject) : FileObject :=
  if f.handles ≠ [] ∨ f.references ≠ 0 then { f.obReferenceObject with references := f.references + 1 } else f

def dereference (f : FileObject) : FileObject :=
  if f.references ≠ 0 then ({ f with references := f.references - 1 } : FileObject).obDereferenceObject else f

/-- `obp_delete_object`, by the reaper: the delete procedure of the type only frees the block. -/
def obpDeleteObject (f : FileObject) : FileObject :=
  if f.deleting then
    let f := if f.header.typePtr = .file then f.iopDeleteFileObject else f
    { f.sent .freeHeader with deleting := false }
  else f

end FileObject

/-- `closes` says that `NtClose` takes the temporary handle: there is a table, and the handle is not
protected from being closed. -/
structure PathWalk where
  name : Bool
  openStatus : ℕ
  closes : Bool
  referenceStatus : ℕ
  object : ℕ
  isDevice : Bool

structure ParsedDevice where
  device : Option ℕ
  status : ℕ
  references : ℕ

/-- The reference of the temporary handle, if it stays. -/
def PathWalk.left (w : PathWalk) : ℕ := if w.closes then 0 else 1

def iopParseDevice (w : PathWalk) : ParsedDevice :=
  if !w.name then ⟨none, statusObjectNameInvalid, 0⟩
  else if w.openStatus ≠ statusSuccess then ⟨none, w.openStatus, 0⟩
  else if w.referenceStatus ≠ statusSuccess then ⟨none, w.referenceStatus, w.left⟩
  else if w.isDevice then ⟨some w.object, statusSuccess, 1 + w.left⟩
  else ⟨none, statusObjectTypeMismatch, 1 + w.left - 1⟩

/-- The arguments of `iop_create_file`, with what it meets on its way. -/
structure CreateFile where
  fileHandle : Bool
  /-- The status that the IO_STATUS_BLOCK holds, if there is one. -/
  ioStatusBlock : Option ℕ
  objectAttributes : Bool
  walk : PathWalk
  mountStatus : ℕ
  fileMemory : Bool
  /-- What the memory in front of the file object holds. -/
  header : ObjectHeader
  /-- The status of the driver for IRP_MJ_CREATE; none if there is no memory for the IRP. -/
  createReply : Option ℕ
  /-- The process whose table has an entry for the handle, if one has. -/
  entry : Option ℕ
  cleanupIrp : Bool
  closeIrp : Bool

def iopSendCreateIrp (reply : Option ℕ) : ℕ := reply.getD statusInsufficientResources

def Opens (status : ℕ) : Prop := status = statusSuccess ∨ status = statusPending

instance (status : ℕ) : Decidable (Opens status) := inferInstanceAs (Decidable (_ ∨ _))

structure OpenResult where
  status : ℕ
  ioStatus : Option ℕ
  handle : Option ℕ
  /-- The references on the device that are left. -/
  references : ℕ

structure FileSpace where
  files : List FileObject
  lastOpen : Option OpenResult
  /-- A pointer to no type has been followed. -/
  faulted : Bool

namespace FileSpace

def init : FileSpace := { files := [], lastOpen := none, faulted := false }

/-- A failing open; `ioStatus` is what its IO_STATUS_BLOCK then holds. -/
def failed (s : FileSpace) (status : ℕ) (ioStatus : Option ℕ) (references : ℕ) : FileSpace :=
  { s with lastOpen := some ⟨status, ioStatus, none, references⟩ }

def add (s : FileSpace) (f : FileObject) : FileSpace := { s with files := s.files ++ [f] }

def createFailed (s : FileSpace) (c : CreateFile) (f : FileObject) : FileSpace :=
  let f := (f.sent .createFailed).iopDeleteFileObject.dereferenceDevice
  (s.add f).failed (iopSendCreateIrp c.createReply) c.ioStatusBlock f.deviceReferences

/-- `ob_open_object_by_pointer` finds no entry for the handle. -/
def handleFailed (s : FileSpace) (c : CreateFile) (f : FileObject) : FileSpace :=
  let f := ((f.sent .create).obReferenceObject.obDereferenceObject.iopCloseFile c.cleanupIrp c.closeIrp).dereferenceDevice
  (s.add f).failed statusInsufficientResources (some statusInsufficientResources) f.deviceReferences

/-- The counters of the type are raised through its pointer. -/
def opened (s : FileSpace) (c : CreateFile) (f : FileObject) (process : ℕ) : FileSpace :=
  match c.header.typePtr with
  | .other => { s with faulted := true }
  | .null | .file =>
    let f := (f.sent .create).obReferenceObject.addHandle process
    { s.add f with
      lastOpen := some ⟨iopSendCreateIrp c.createReply, some (iopSendCreateIrp c.createReply), some process, f.deviceReferences⟩ }

def iopCreateFile (s : FileSpace) (c : CreateFile) : FileSpace :=
  if c.fileHandle = false ∨ c.ioStatusBlock = none then s.failed statusInvalidParameter c.ioStatusBlock 0
  else if c.objectAttributes = false then s.failed statusInvalidParameter (some statusInvalidParameter) 0
  else
    let p := iopParseDevice c.walk
    if p.status ≠ statusSuccess then s.failed p.status (some p.status) p.references
    else
      match p.device with
      | none => s.failed statusObjectNameNotFound (some statusObjectNameNotFound) p.references
      | some device =>
        if c.mountStatus ≠ statusSuccess then s.failed c.mountStatus (some c.mountStatus) (p.references - 1)
        else if c.fileMemory = false then
          s.failed statusInsufficientResources (some statusInsufficientResources) (p.references - 1)
        else
          let f := FileObject.iopCreateFileObject device p.references c.header
          if Opens (iopSendCreateIrp c.createReply) then
            match c.entry with
            | none => s.handleFailed c f
            | some process => s.opened c f process
          else s.createFailed c f

end FileSpace

inductive FileAction where
  | duplicate (source target : ℕ) (entry closeSource irp : Bool)
  | close (process : ℕ) (irp : Bool)
  | reference
  | dereference
  | reap

def FileObject.step (f : FileObject) : FileAction → FileObject
  | .duplicate source target entry closeSource irp => f.obDuplicateObject source target entry closeSource irp
  | .close process irp => f.ntClose process irp
  | .reference => f.reference
  | .dereference => f.dereference
  | .reap => f.obpDeleteObject

inductive Action where
  | createFile (c : CreateFile)
  | onFile (i : ℕ) (a : FileAction)

/-- After a fault nothing runs. -/
def FileSpace.step (s : FileSpace) (a : Action) : FileSpace :=
  if s.faulted then s
  else
    match a with
    | .createFile c => s.iopCreateFile c
    | .onFile i a =>
      match s.files[i]? with
      | some f => { s with files := s.files.set i (f.step a) }
      | none => s

end XenOS.FileLife
