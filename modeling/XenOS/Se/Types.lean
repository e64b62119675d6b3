import Mathlib.Tactic.Common

/-! The data of the security reference monitor: identifiers, access masks, access control
lists, security descriptors and tokens. A null pointer is `none`; a list that is iterated
is what its iterator yields. -/

namespace XenOS.Se

/-- `SID`; the count of the sub-authorities is the length of their list. -/
structure Sid where
  revision : BitVec 8
  identifierAuthority : List (BitVec 8)
  subAuthority : List (BitVec 32)
  deriving DecidableEq

structure Luid where
  lowPart : BitVec 32
  highPart : BitVec 32
  deriving DecidableEq

structure LuidAndAttributes where
  luid : Luid
  attributes : BitVec 32
  deriving DecidableEq

structure SidAndAttributes where
  sid : Option Sid
  attributes : BitVec 32
  deriving DecidableEq

abbrev AccessMask := BitVec 32

def genericRead : AccessMask := 0x80000000#32
def genericWrite : AccessMask := 0x40000000#32
def genericExecute : AccessMask := 0x20000000#32
def genericAll : AccessMask := 0x10000000#32
def delete : AccessMask := 0x00010000#32
def readControl : AccessMask := 0x00020000#32
def writeDac : AccessMask := 0x00040000#32
def writeOwner : AccessMask := 0x00080000#32
def accessSystemSecurity : AccessMask := 0x01000000#32

structure GenericMapping where
  genericRead : AccessMask
  genericWrite : AccessMask
  genericExecute : AccessMask
  genericAll : AccessMask

def seGroupEnabled : BitVec 32 := 0x00000004#32
def seGroupUseForDenyOnly : BitVec 32 := 0x00000010#32
def sePrivilegeEnabled : BitVec 32 := 0x00000002#32

def seSecurityLuid : Luid := ⟨8, 0⟩
def seTakeOwnershipLuid : Luid := ⟨9, 0⟩
def seBackupLuid : Luid := ⟨17, 0⟩
def seRestoreLuid : Luid := ⟨18, 0⟩
def seChangeNotifyLuid : Luid := ⟨23, 0⟩
def seImpersonateLuid : Luid := ⟨29, 0⟩

def accessAllowedAceType : BitVec 8 := 0x00#8
def accessDeniedAceType : BitVec 8 := 0x01#8
def systemAuditAceType : BitVec 8 := 0x02#8
def systemMandatoryLabelAceType : BitVec 8 := 0x11#8

structure Ace where
  aceType : BitVec 8
  aceFlags : BitVec 8
  mask : AccessMask
  sid : Sid
  deriving DecidableEq

/-- `ACL`, as the entries that its iterator yields. -/
structure Acl where
  aces : List Ace

def seDaclPresent : BitVec 16 := 0x0004#16
def seSaclPresent : BitVec 16 := 0x0010#16

structure SecurityDescriptor where
  control : BitVec 16
  owner : Option Sid
  group : Option Sid
  sacl : Option Acl
  dacl : Option Acl

def securityMandatoryMediumRid : BitVec 32 := 0x2000#32

def systemMandatoryLabelNoWriteUp : AccessMask := 0x1#32
def systemMandatoryLabelNoReadUp : AccessMask := 0x2#32
def systemMandatoryLabelNoExecuteUp : AccessMask := 0x4#32

/-- `rtl_get_rid`: the last sub-authority. -/
def rtlGetRid (sid : Sid) : BitVec 32 := sid.subAuthority.getLast?.getD 0

/-- The level that `sep_create_token` caches for an integrity SID. -/
def integrityLevelOf : Option Sid → BitVec 32
  | some sid => rtlGetRid sid
  | none => securityMandatoryMediumRid

/-- `TOKEN`. The restricted SIDs have a count beside the pointer; the cached integrity level is as
creation leaves it. -/
structure Token where
  tokenFlags : BitVec 32
  userSid : Option Sid
  groups : List SidAndAttributes
  restrictedSidCount : ℕ
  restrictedSids : Option (List SidAndAttributes)
  privileges : List LuidAndAttributes
  owner : Option Sid
  primaryGroup : Option Sid
  defaultDacl : Option Acl
  integrityLevelSid : Option Sid
  integrityLevelIndex : BitVec 32
  integrity_cached : integrityLevelIndex = integrityLevelOf integrityLevelSid

def tokenHasTraversePrivilege : BitVec 32 := 0x0001#32
def tokenHasBackupPrivilege : BitVec 32 := 0x0002#32
def tokenHasRestorePrivilege : BitVec 32 := 0x0004#32
def tokenHasAdminGroup : BitVec 32 := 0x0008#32
def tokenIsRestricted : BitVec 32 := 0x0010#32
def tokenSandboxInert : BitVec 32 := 0x0040#32
def tokenHasImpersonatePrivilege : BitVec 32 := 0x0080#32
def tokenIsFiltered : BitVec 32 := 0x0800#32

def Token.isRestricted (token : Token) : Bool :=
  token.tokenFlags &&& tokenIsRestricted ≠ 0 || 0 < token.restrictedSidCount

structure SecuritySubjectContext where
  clientToken : Option Token
  primaryToken : Option Token

end XenOS.Se
