import XenOS.Se.AccessCheck
import Mathlib.Data.Int.Notation

/-! The data of the object manager: names, headers, types and directories. An object is
named by the address of its body; address 0 is the null pointer. -/

namespace XenOS.Ob

abbrev Ntstatus := BitVec 32

def statusSuccess : Ntstatus := 0x00000000#32
def statusObjectNameExists : Ntstatus := 0x40000000#32
def statusInvalidHandle : Ntstatus := 0xC0000008#32
def statusInvalidParameter : Ntstatus := 0xC000000D#32
def statusAccessDenied : Ntstatus := 0xC0000022#32
def statusObjectTypeMismatch : Ntstatus := 0xC0000024#32
def statusObjectNameInvalid : Ntstatus := 0xC0000033#32
def statusObjectNameCollision : Ntstatus := 0xC0000035#32
def statusObjectPathNotFound : Ntstatus := 0xC000003A#32
def statusInsufficientResources : Ntstatus := 0xC000009A#32
def statusHandleNotClosable : Ntstatus := 0xC0000235#32

def objProtectClose : BitVec 32 := 0x00000001#32
def objInherit : BitVec 32 := 0x00000002#32
def objPermanent : BitVec 32 := 0x00000010#32
def objCaseInsensitive : BitVec 32 := 0x00000040#32
def objOpenif : BitVec 32 := 0x00000080#32
def objKernelHandle : BitVec 32 := 0x00000200#32

def objHandleAttributes : BitVec 32 := objInherit ||| objProtectClose

def handleFlagInherit : BitVec 32 := 0x00000001#32
def handleFlagProtectFromClose : BitVec 32 := 0x00000002#32

def duplicateCloseSource : BitVec 32 := 0x00000001#32
def duplicateSameAccess : BitVec 32 := 0x00000002#32
def duplicateSameAttributes : BitVec 32 := 0x00000004#32

/-- A UTF-16 code unit. -/
abbrev WChar := BitVec 16

/-- `UNICODE_STRING`: a null buffer, or its characters. -/
structure UnicodeString where
  buffer : Option (List WChar) := none
  deriving DecidableEq

/-- `length / 2`. -/
def UnicodeString.length (name : UnicodeString) : ℕ := (name.buffer.getD []).length

/-- The upcase table of `unicode.nls`. -/
abbrev UpcaseTable := WChar → WChar

/-- `OBJECT_ATTRIBUTES`; the root directory is the pointer that insertion takes it for. -/
structure ObjectAttributes where
  rootDirectory : ℕ
  objectName : Option UnicodeString
  attributes : BitVec 32

structure ObjectCreateInformation where
  attributes : BitVec 32
  rootDirectory : ℕ

/-- `OBJECT_HEADER` with its optional name info. The handle count shares its word with
the link of the list of objects to delete. -/
structure ObjectHeader where
  pointerCount : ℤ := 1
  handleCountOrNextToFree : ℤ := 0
  securityDescriptor : Option Se.SecurityDescriptor := none
  typePtr : ℕ
  nameInfo : Option UnicodeString := none
  objectCreateInfo : Option ObjectCreateInformation := none

/-- `OBJECT_TYPE` and what its `type_info` says. -/
structure ObjectType where
  totalNumberOfObjects : ℤ := 0
  totalNumberOfHandles : ℤ := 0
  invalidAttributes : BitVec 32 := 0
  genericMapping : Se.GenericMapping := ⟨0, 0, 0, 0⟩
  securityRequired : Bool := false
  hasOpenProcedure : Bool := false

structure ObjectDirectoryEntry where
  object : ℕ
  hashValue : BitVec 32
  deriving DecidableEq

def obpHashTableSize : ℕ := 37

/-- `OBJECT_DIRECTORY`: the chain of every bucket. -/
structure ObjectDirectory where
  hashBuckets : ℕ → List ObjectDirectoryEntry := fun _ => []

end XenOS.Ob
