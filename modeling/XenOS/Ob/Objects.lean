import XenOS.Ob.Directory
import XenOS.Ex.HandleEntries

/-! The operations of the object manager (`ob/life.rs`, `ob/handle.rs`, `ob/refcount.rs`). What a
call asks of other code (the pool, the open procedure, the assignment of a descriptor) is an
argument. -/

namespace XenOS.Ob

open Ex Function Se

/-- The objects and the global data; `P` are the processes, `tables none` is the kernel's. A type is
named by its body's address. -/
structure ObState (P : Type) where
  headers : ℕ → Option ObjectHeader
  types : ℕ → ObjectType
  directories : ℕ → Option ObjectDirectory
  rootDirectory : ℕ
  directoryType : ℕ
  tables : Option P → Option HandleTable
  reaperList : List ℕ
  upcaseTable : Option UpcaseTable

/-- What a call finds: the current process, its security context, the pool for handle tables, and
the answer of the open procedure. -/
structure Caller (P : Type) where
  process : Option P
  subject : SecuritySubjectContext
  pool : WordPool
  openStatus : Ntstatus

structure ObHandle where
  handle : ℕ
  object : ℕ
  grantedAccess : AccessMask

structure CallResult where
  status : Ntstatus
  object : Option ℕ := none
  handle : Option ObHandle := none

namespace ObState

variable {P : Type} [DecidableEq P] (s : ObState P)

def setHeader (o : ℕ) (header : ObjectHeader) : ObState P :=
  { s with headers := update s.headers o (some header) }

def modifyHeader (o : ℕ) (f : ObjectHeader → ObjectHeader) : ObState P :=
  match s.headers o with
  | none => s
  | some header => s.setHeader o (f header)

def modifyType (objectType : ℕ) (f : ObjectType → ObjectType) : ObState P :=
  { s with types := update s.types objectType (f (s.types objectType)) }

def setTable (id : Option P) (table : HandleTable) : ObState P :=
  { s with tables := update s.tables id (some table) }

def setDirectory (o : ℕ) (directory : ObjectDirectory) : ObState P :=
  { s with directories := update s.directories o (some directory) }

def hasOpenProcedure (o : ℕ) : Bool :=
  match s.headers o with
  | none => false
  | some header => (s.types header.typePtr).hasOpenProcedure

def obReferenceObject (o : ℕ) : ObState P :=
  s.modifyHeader o fun header => { header with pointerCount := header.pointerCount + 1 }

/-- A pointer read as an `isize`. -/
def pointerAsIsize (address : ℕ) : ℤ := if address < 2 ^ 63 then address else (address : ℤ) - 2 ^ 64

/-- `obp_defer_object_deletion`: the link to the next object overwrites the handle count. -/
def obpDeferObjectDeletion (o : ℕ) : ObState P :=
  { s.modifyHeader o fun header =>
      { header with handleCountOrNextToFree := pointerAsIsize (s.reaperList.headD 0) } with
    reaperList := o :: s.reaperList }

/-- `obf_dereference_object`. -/
def obDereferenceObject (o : ℕ) : ObState P :=
  match s.headers o with
  | none => s
  | some header =>
    if header.pointerCount < header.handleCountOrNextToFree then s
    else
      let newCount := header.pointerCount - 1
      let s := s.setHeader o { header with pointerCount := newCount }
      if newCount = 0 then s.obpDeferObjectDeletion o else s

/-- `handle_count += n` and `total_number_of_handles += n`. -/
def addHandles (o : ℕ) (n : ℤ) : ObState P :=
  match s.headers o with
  | none => s
  | some header =>
    (s.setHeader o { header with handleCountOrNextToFree := header.handleCountOrNextToFree + n }).modifyType
      header.typePtr fun t => { t with totalNumberOfHandles := t.totalNumberOfHandles + n }

def obpObjattrsToHandleFlags (attributes : BitVec 32) : BitVec 32 :=
  let flags := if attributes &&& objInherit ≠ 0 then handleFlagInherit else 0
  if attributes &&& objProtectClose ≠ 0 then flags ||| handleFlagProtectFromClose else flags

def tableFor (kernelHandle : Bool) (process : Option P) : Option (Option P × HandleTable) :=
  if kernelHandle then (s.tables none).map fun table => (none, table)
  else process.bind fun p => (s.tables (some p)).map fun table => (some p, table)

def isKernelHandle (handle : ℕ) : Bool := handle % 2 = 1

inductive HandleOutcome where
  | full
  | refused (status : Ntstatus)
  | made (handle : ℕ)

/-- The shared steps of insertion, open and duplication: a reference for the handle, its entry, the
counters and the open procedure. If no handle is made, the caller releases the reference. -/
def obpMakeHandle (c : Caller P) (id : Option P) (table : HandleTable) (object : ℕ) (access : AccessMask)
    (handleFlags : BitVec 32) : HandleOutcome × ObState P :=
  let s := s.obReferenceObject object
  let (h, table) := exCreateHandleEx c.pool.blocks table object access handleFlags
  let s := s.setTable id table
  if h = invalidHandleValue then (.full, s)
  else
    let s := s.addHandles object 1
    if s.hasOpenProcedure object ∧ c.openStatus ≠ statusSuccess then
      let s := s.addHandles object (-1)
      (.refused c.openStatus, s.setTable id (exDestroyHandle table h).2)
    else (.made h, s)

def obpReleaseHandle (object : ℕ) : ObState P := (s.addHandles object (-1)).obDereferenceObject object

/-- `NtClose`. The close procedure changes no modelled state. -/
def ntClose (process : Option P) (handle : ℕ) : Ntstatus × ObState P :=
  if handle = 0 ∨ 2 ^ 63 ≤ handle then (statusInvalidHandle, s)
  else
    match s.tableFor (isKernelHandle handle) process with
    | none => (statusInvalidHandle, s)
    | some (id, table) =>
      match exMapHandleToPointerFull table handle with
      | none => (statusInvalidHandle, s)
      | some (object, _, handleAttrs) =>
        if handleAttrs &&& handleFlagProtectFromClose ≠ 0 then (statusHandleNotClosable, s)
        else
          match exDestroyHandle table handle with
          | (false, table) => (statusInvalidHandle, s.setTable id table)
          | (true, table) => (statusSuccess, (s.setTable id table).obpReleaseHandle object)

/-- What the checks read of an `ACCESS_STATE`. -/
structure AccessState where
  subjectSecurityContext : SecuritySubjectContext
  previouslyGrantedAccess : AccessMask

/-- `obp_check_object_access`: whether access is allowed, and the granted access. -/
def obpCheckObjectAccess (header : ObjectHeader) (accessState : AccessState) (desiredAccess : AccessMask) :
    Bool × AccessMask :=
  let objectType := s.types header.typePtr
  match header.securityDescriptor with
  | none => if objectType.securityRequired then (false, 0) else (true, desiredAccess)
  | some sd =>
    seAccessCheck (some sd) (some accessState.subjectSecurityContext) desiredAccess
      accessState.previouslyGrantedAccess (some objectType.genericMapping)

/-- The access check of an open: the granted access, unless denied. Kernel mode, and objects that
need no descriptor, get what they ask for. -/
def openAccess (header : ObjectHeader) (accessState : AccessState) (desiredAccess : AccessMask) (userMode : Bool) :
    Option AccessMask :=
  if userMode && (header.securityDescriptor.isSome || (s.types header.typePtr).securityRequired) then
    let (allowed, granted) := s.obpCheckObjectAccess header accessState desiredAccess
    if allowed then some granted else none
  else some desiredAccess

/-- `ob_open_object_by_pointer`. Without an access state of the caller, a new one is made. -/
def obOpenObjectByPointer (c : Caller P) (object : ℕ) (attributes : BitVec 32) (passedAccessState : Option AccessState)
    (desiredAccess : AccessMask) (objectType : Option ℕ) (userMode : Bool) : CallResult × ObState P :=
  match s.headers object with
  | none => (⟨statusInvalidHandle, none, none⟩, s)
  | some header =>
    if objectType.any (· ≠ header.typePtr) then (⟨statusObjectTypeMismatch, none, none⟩, s)
    else
      match s.openAccess header (passedAccessState.getD ⟨c.subject, 0⟩) desiredAccess userMode with
      | none => (⟨statusAccessDenied, none, none⟩, s)
      | some grantedAccess =>
        let kernelHandle : Bool := attributes &&& objKernelHandle ≠ 0
        let table := s.tableFor kernelHandle c.process
        let table := if table.isNone && !userMode then s.tableFor true c.process else table
        match table with
        | none => (⟨statusInsufficientResources, none, none⟩, (s.obReferenceObject object).obDereferenceObject object)
        | some (id, table) =>
          match s.obpMakeHandle c id table object grantedAccess (obpObjattrsToHandleFlags attributes) with
          | (.full, s) => (⟨statusInsufficientResources, none, none⟩, s.obDereferenceObject object)
          | (.refused status, s) => (⟨status, none, none⟩, s.obDereferenceObject object)
          | (.made h, s) =>
            (⟨statusSuccess, none, some ⟨if kernelHandle then h ||| 1 else h, object, grantedAccess⟩⟩, s)

/-- `ob_open_object_by_name`, once `obp_lookup_object_name` arrived at `found`. -/
def obOpenObjectByName (c : Caller P) (found : ℕ) (attributes : BitVec 32) (passedAccessState : Option AccessState)
    (desiredAccess : AccessMask) (objectType : Option ℕ) (userMode : Bool) : CallResult × ObState P :=
  let accessState := passedAccessState.getD ⟨c.subject, 0⟩
  s.obOpenObjectByPointer c found attributes (some accessState) desiredAccess objectType userMode

/-- `ob_duplicate_object`; without a process, the handle table is that of the current one. -/
def obDuplicateObject (c : Caller P) (sourceProcess targetProcess : Option P) (sourceHandle : ℕ)
    (desiredAccess : AccessMask) (handleAttributes options : BitVec 32) : CallResult × ObState P :=
  let kernelHandle := isKernelHandle sourceHandle
  match s.tableFor kernelHandle (sourceProcess.or c.process) with
  | none => (⟨statusInvalidHandle, none, none⟩, s)
  | some (sourceId, sourceTable) =>
    match exMapHandleToPointerFull sourceTable sourceHandle with
    | none => (⟨statusInvalidHandle, none, none⟩, s)
    | some (object, sourceAccess, sourceAttributes) =>
      let newAccess := if options &&& duplicateSameAccess ≠ 0 then sourceAccess else desiredAccess
      let newAttributes :=
        if options &&& duplicateSameAttributes ≠ 0 then sourceAttributes
        else obpObjattrsToHandleFlags (handleAttributes &&& objHandleAttributes)
      match s.tableFor kernelHandle (targetProcess.or c.process) with
      | none => (⟨statusInsufficientResources, none, none⟩, s)
      | some (targetId, targetTable) =>
        match s.obpMakeHandle c targetId targetTable object newAccess newAttributes with
        | (.full, s) => (⟨statusInsufficientResources, none, none⟩, s.obDereferenceObject object)
        | (.refused status, s) => (⟨status, none, none⟩, s.obDereferenceObject object)
        | (.made h, s) =>
          let result : CallResult :=
            ⟨statusSuccess, none, some ⟨if kernelHandle then h ||| 1 else h, object, newAccess⟩⟩
          if options &&& duplicateCloseSource ≠ 0 then
            match s.tables sourceId with
            | none => (result, s)
            | some sourceTable =>
              match exDestroyHandle sourceTable sourceHandle with
              | (false, table) => (result, s.setTable sourceId table)
              | (true, table) => (result, (s.setTable sourceId table).obpReleaseHandle object)
          else (result, s)

/-- An address the pool can give for the body of an object: in the kernel's half, aligned
and not in use. -/
def Allocatable (address : ℕ) : Prop :=
  2 ^ 63 ≤ address ∧ address < 2 ^ 64 ∧ address % 8 = 0 ∧ (s.headers address).isNone

instance (address : ℕ) : Decidable (s.Allocatable address) := inferInstanceAs (Decidable (_ ∧ _))

/-- The pool in `ob_create_object`: the address of the body, and memory for the name and the create
information. -/
structure ObjectPool where
  body : Option ℕ
  name : Bool
  createInfo : Bool

/-- The name info of a new object: `none` for an object without a name. -/
def newNameInfo (pool : ObjectPool) (attributes : ObjectAttributes) : Option UnicodeString :=
  match attributes.objectName with
  | none => none
  | some name => if name.length = 0 then none else some (if pool.name then name else {})

/-- `ob_create_object`. The body of a directory starts with empty chains. -/
def obCreateObject (objectType : ℕ) (objectAttributes : Option ObjectAttributes) (pool : ObjectPool) :
    CallResult × ObState P :=
  let attributes := (objectAttributes.map (·.attributes)).getD 0
  if attributes &&& (s.types objectType).invalidAttributes ≠ 0 then (⟨statusInvalidParameter, none, none⟩, s)
  else
    match pool.body with
    | none => (⟨statusInsufficientResources, none, none⟩, s)
    | some body =>
      if ¬ s.Allocatable body then (⟨statusInsufficientResources, none, none⟩, s)
      else if (objectAttributes.bind (·.objectName)).any (fun name => (name.buffer.getD []).contains 0x5C#16) then
        (⟨statusObjectNameInvalid, none, none⟩, s)
      else
        let header : ObjectHeader :=
          { typePtr := objectType
            nameInfo := objectAttributes.bind (newNameInfo pool)
            objectCreateInfo := objectAttributes.bind fun a =>
              if pool.createInfo then some ⟨a.attributes, a.rootDirectory⟩ else none }
        let s := s.setHeader body header
        let newDirectory : Option ObjectDirectory := if objectType = s.directoryType then some {} else none
        let s := { s with directories := update s.directories body newDirectory }
        let s := s.modifyType objectType fun t => { t with totalNumberOfObjects := t.totalNumberOfObjects + 1 }
        (⟨statusSuccess, some body, none⟩, s)

/-- `create_root_directory`, and the store of its result. -/
def createRootDirectory (pool : ObjectPool) : CallResult × ObState P :=
  match s.obCreateObject s.directoryType (some ⟨0, none, objPermanent ||| objCaseInsensitive⟩) pool with
  | (⟨status, some o, handle⟩, s) => (⟨status, some o, handle⟩, { s with rootDirectory := o })
  | (result, s) => (result, s)

inductive Placement where
  | unnamed
  | refused (status : Ntstatus)
  | existing (object : ℕ)
  | inserted (parent : ℕ) (directory : ObjectDirectory)

def createAttributes (header : ObjectHeader) : BitVec 32 := (header.objectCreateInfo.map (·.attributes)).getD 0

def parentDirectory (header : ObjectHeader) : ℕ :=
  match header.objectCreateInfo with
  | none => s.rootDirectory
  | some info => if info.rootDirectory ≠ 0 then info.rootDirectory else s.rootDirectory

/-- The namespace part of `ob_insert_object`. It faults where the parent is no directory. -/
def placeObject (object : ℕ) (header : ObjectHeader) (entryAllocated : Bool) : Option Placement :=
  match header.nameInfo with
  | none => some .unnamed
  | some name =>
    if name.length = 0 then some .unnamed
    else
      let parent := s.parentDirectory header
      if parent = 0 then some (.refused statusObjectPathNotFound)
      else
        match s.directories parent with
        | none => none
        | some directory =>
          let attributes := createAttributes header
          let context := obpLookupEntryDirectory s.headers s.upcaseTable directory name attributes
          match context.object with
          | some existing =>
            if attributes &&& objOpenif ≠ 0 then some (.existing existing)
            else some (.refused statusObjectNameCollision)
          | none =>
            match if entryAllocated then obpInsertEntryDirectory directory context object else none with
            | none => some (.refused statusInsufficientResources)
            | some directory => some (.inserted parent directory)

def obpRemoveNamespaceEntry (parent : ℕ) (object : ℕ) (attributes : BitVec 32) : ObState P :=
  match s.directories parent, (s.headers object).bind ObjectHeader.nameInfo with
  | some directory, some name =>
    let context := obpLookupEntryDirectory s.headers s.upcaseTable directory name attributes
    match if context.object.isSome then obpDeleteEntryDirectory directory context else none with
    | none => s
    | some directory => s.setDirectory parent directory
  | _, _ => s

def rollback (parent : Option ℕ) (object : ℕ) (attributes : BitVec 32) : ObState P :=
  match parent with
  | none => s
  | some parent => s.obpRemoveNamespaceEntry parent object attributes

/-- The security descriptor of a new object; `assigned` is what `se_assign_security` gives. -/
def assignSecurity (object : ℕ) (assigned : Option SecurityDescriptor) : ObState P :=
  s.modifyHeader object fun header =>
    if header.securityDescriptor.isNone && (s.types header.typePtr).securityRequired then
      { header with securityDescriptor := assigned }
    else header

/-- `OBJECT_CREATE_INFORMATION` is freed. -/
def freeCreateInfo (object : ℕ) : ObState P :=
  s.modifyHeader object fun header => { header with objectCreateInfo := none }

/-- The end of `ob_insert_object`. Where the caller asks for a handle and not for the
object, the reference of the creator goes. -/
def finishInsert (created target : ℕ) (finalStatus : Ntstatus) (wantObject wantHandle : Bool) (handle : Option ObHandle) :
    CallResult × ObState P :=
  let s := s.freeCreateInfo created
  (⟨finalStatus, if wantObject then some target else none, handle⟩,
    if wantHandle && !wantObject then s.obDereferenceObject target else s)

/-- The handle table of `ob_insert_object`: that of the kernel stands in where there is
none and no object is returned. -/
def insertTable (c : Caller P) (attributes : BitVec 32) (wantObject : Bool) : Option (Bool × Option P × HandleTable) :=
  let kernelHandle : Bool := attributes &&& objKernelHandle ≠ 0
  match s.tableFor kernelHandle c.process with
  | some table => some (kernelHandle, table)
  | none => if kernelHandle || !wantObject then (s.tableFor true c.process).map fun table => (true, table) else none

/-- `ob_insert_object` from the handle on, for the object created or found; `parent` is the
directory. -/
def insertHandle (c : Caller P) (created target : ℕ) (parent : Option ℕ) (attributes : BitVec 32)
    (desiredAccess : AccessMask) (finalStatus : Ntstatus) (wantObject wantHandle : Bool) : CallResult × ObState P :=
  if !wantHandle then s.finishInsert created target finalStatus wantObject wantHandle none
  else
    match s.insertTable c attributes wantObject with
    | none =>
      (⟨statusInsufficientResources, none, none⟩, (s.rollback parent target attributes).obDereferenceObject target)
    | some (kernelHandle, id, table) =>
      match s.obpMakeHandle c id table target desiredAccess (obpObjattrsToHandleFlags attributes) with
      | (.full, s) =>
        (⟨statusInsufficientResources, none, none⟩, (s.rollback parent target attributes).obDereferenceObject target)
      | (.refused status, s) =>
        (⟨status, none, none⟩, (s.obDereferenceObject target).rollback parent target attributes)
      | (.made h, s) =>
        s.finishInsert created target finalStatus wantObject wantHandle
          (some ⟨if kernelHandle then h ||| 1 else h, target, desiredAccess⟩)

def obInsertObject (c : Caller P) (object : ℕ) (desiredAccess : AccessMask) (wantObject wantHandle : Bool)
    (entryAllocated : Bool) (assigned : Option SecurityDescriptor) : CallResult × ObState P :=
  match s.headers object with
  | none => (⟨statusInvalidParameter, none, none⟩, s)
  | some header =>
    let attributes := createAttributes header
    match s.placeObject object header entryAllocated with
    | none => (⟨statusInvalidParameter, none, none⟩, s)
    | some (.refused status) => (⟨status, none, none⟩, s.obDereferenceObject object)
    | some (.existing existing) =>
      let s := (s.freeCreateInfo object).obDereferenceObject object
      s.insertHandle c object existing none attributes desiredAccess statusObjectNameExists wantObject wantHandle
    | some (.inserted parent directory) =>
      let s := (s.setDirectory parent directory).assignSecurity object assigned
      s.insertHandle c object object (some parent) attributes desiredAccess statusSuccess wantObject wantHandle
    | some .unnamed =>
      let s := s.assignSecurity object assigned
      s.insertHandle c object object none attributes desiredAccess statusSuccess wantObject wantHandle

def insertObjectIntoDirectory (parent object : ℕ) (entryAllocated : Bool) : Ntstatus × ObState P :=
  match s.directories parent, (s.headers object).bind ObjectHeader.nameInfo with
  | some directory, some name =>
    let context := obpLookupEntryDirectory s.headers s.upcaseTable directory name objCaseInsensitive
    if context.object.isSome then (statusObjectNameCollision, s)
    else
      match if entryAllocated then obpInsertEntryDirectory directory context object else none with
      | none => (statusInsufficientResources, s)
      | some directory => (statusSuccess, s.setDirectory parent directory)
  | _, _ => (statusInvalidParameter, s)

/-- `obp_delete_object`: the object is freed, its entry in a directory is not looked for. -/
def obpDeleteObject (o : ℕ) : ObState P :=
  match s.headers o with
  | none => s
  | some header =>
    let s := s.modifyType header.typePtr fun t => { t with totalNumberOfObjects := t.totalNumberOfObjects - 1 }
    { s with
      headers := update s.headers o none
      directories := update s.directories o none }

def obpReapObject : ObState P :=
  s.reaperList.foldl obpDeleteObject { s with reaperList := [] }

def createTable (id : Option P) (block : WordBlock) : ObState P :=
  if (s.tables id).isNone then s.setTable id (exCreateHandleTable block.entries) else s

def nlsSetTables (upcase : UpcaseTable) : ObState P := { s with upcaseTable := some upcase }

end ObState

end XenOS.Ob
