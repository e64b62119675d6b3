import XenOS.Ob.Objects
import XenOS.General.Run

/-! Calls of the object manager, in any order and from any process. -/

namespace XenOS.Ob

open General Ex

/-- A call. -/
inductive ObOp (P : Type) where
  | createTable (id : Option P) (block : WordBlock)
  | createRootDirectory (pool : ObState.ObjectPool)
  | createObject (objectType : ℕ) (objectAttributes : Option ObjectAttributes) (pool : ObState.ObjectPool)
  | insertObject (c : Caller P) (object : ℕ) (desiredAccess : Se.AccessMask) (wantObject wantHandle : Bool)
      (entryAllocated : Bool) (assigned : Option Se.SecurityDescriptor)
  | insertIntoDirectory (parent object : ℕ) (entryAllocated : Bool)
  | openByName (c : Caller P) (found : ℕ) (attributes : BitVec 32) (accessState : Option ObState.AccessState)
      (desiredAccess : Se.AccessMask) (objectType : Option ℕ) (userMode : Bool)
  | openByPointer (c : Caller P) (object : ℕ) (attributes : BitVec 32) (accessState : Option ObState.AccessState)
      (desiredAccess : Se.AccessMask) (objectType : Option ℕ) (userMode : Bool)
  | duplicate (c : Caller P) (sourceProcess targetProcess : Option P) (sourceHandle : ℕ)
      (desiredAccess : Se.AccessMask) (handleAttributes options : BitVec 32)
  | close (process : Option P) (handle : ℕ)
  | reference (object : ℕ)
  | dereference (object : ℕ)
  | reap
  | setTables (upcase : UpcaseTable)

namespace ObState

variable {P : Type} [DecidableEq P] (s : ObState P)

def call : ObOp P → CallResult × ObState P
  | .createTable id block => (⟨statusSuccess, none, none⟩, s.createTable id block)
  | .createRootDirectory pool => s.createRootDirectory pool
  | .createObject objectType objectAttributes pool => s.obCreateObject objectType objectAttributes pool
  | .insertObject c object desiredAccess wantObject wantHandle entryAllocated assigned =>
    s.obInsertObject c object desiredAccess wantObject wantHandle entryAllocated assigned
  | .insertIntoDirectory parent object entryAllocated =>
    let (status, s) := s.insertObjectIntoDirectory parent object entryAllocated
    (⟨status, none, none⟩, s)
  | .openByName c found attributes accessState desiredAccess objectType userMode =>
    s.obOpenObjectByName c found attributes accessState desiredAccess objectType userMode
  | .openByPointer c object attributes accessState desiredAccess objectType userMode =>
    s.obOpenObjectByPointer c object attributes accessState desiredAccess objectType userMode
  | .duplicate c sourceProcess targetProcess sourceHandle desiredAccess handleAttributes options =>
    s.obDuplicateObject c sourceProcess targetProcess sourceHandle desiredAccess handleAttributes options
  | .close process handle =>
    let (status, s) := s.ntClose process handle
    (⟨status, none, none⟩, s)
  | .reference object => (⟨statusSuccess, none, none⟩, s.obReferenceObject object)
  | .dereference object => (⟨statusSuccess, none, none⟩, s.obDereferenceObject object)
  | .reap => (⟨statusSuccess, none, none⟩, s.obpReapObject)
  | .setTables upcase => (⟨statusSuccess, none, none⟩, s.nlsSetTables upcase)

def step (op : ObOp P) : ObState P := (s.call op).2

def start (types : ℕ → ObjectType) (directoryType : ℕ) : ObState P where
  headers _ := none
  types := types
  directories _ := none
  rootDirectory := 0
  directoryType := directoryType
  tables _ := none
  reaperList := []
  upcaseTable := none

end ObState

end XenOS.Ob
