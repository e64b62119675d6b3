import XenOS.Se.Types

/-! The access check. Every function follows the source branch by branch; auditing does not
influence the result (`se_examine_sacl` reports nothing) and is left out. -/

namespace XenOS.Se

/-- One block of `rtl_map_generic_mask`. -/
def mapRight (generic specific mask : AccessMask) : AccessMask :=
  if mask &&& generic ≠ 0 then (mask &&& ~~~generic) ||| specific else mask

def rtlMapGenericMask (accessMask : AccessMask) (genericMapping : GenericMapping) : AccessMask :=
  let mask := mapRight genericRead genericMapping.genericRead accessMask
  let mask := mapRight genericWrite genericMapping.genericWrite mask
  let mask := mapRight genericExecute genericMapping.genericExecute mask
  mapRight genericAll genericMapping.genericAll mask

def mapMask (genericMapping : Option GenericMapping) (mask : AccessMask) : AccessMask :=
  match genericMapping with
  | none => mask
  | some genericMapping => rtlMapGenericMask mask genericMapping

/-- `rtl_equal_sid`, null pointers included. -/
def rtlEqualSid : Option Sid → Option Sid → Bool
  | some sid1, some sid2 => sid1.revision = sid2.revision ∧ sid1.subAuthority.length = sid2.subAuthority.length ∧
      sid1.identifierAuthority = sid2.identifierAuthority ∧ sid1.subAuthority = sid2.subAuthority
  | _, _ => false

def sepSidInToken (sidArray : Option (List SidAndAttributes)) (sidCount : ℕ) (sid : Option Sid) (denyOnly : Bool) : Bool :=
  match sidArray with
  | none => false
  | some entries => (entries.take sidCount).any fun entry =>
      (if denyOnly then entry.attributes &&& seGroupUseForDenyOnly ≠ 0
        else entry.attributes &&& seGroupEnabled ≠ 0 && entry.attributes &&& seGroupUseForDenyOnly = 0) &&
      rtlEqualSid entry.sid sid

/-- `sep_token_has_privilege`: the first entry with the LUID decides. -/
def sepTokenHasPrivilege (privileges : List LuidAndAttributes) (privilegeLuid : Luid) : Bool :=
  match privileges.find? fun p => p.luid = privilegeLuid with
  | none => false
  | some p => p.attributes &&& sePrivilegeEnabled ≠ 0

def sepIsTokenOwner (token : Token) (ownerSid : Option Sid) : Bool :=
  rtlEqualSid token.userSid ownerSid || rtlEqualSid token.owner ownerSid

def sepSidMatchesTokenEx (token : Token) (sid : Option Sid) (useRestricted : Bool) : Bool :=
  if useRestricted then sepSidInToken token.restrictedSids token.restrictedSidCount sid false
  else rtlEqualSid token.userSid sid || sepSidInToken (some token.groups) token.groups.length sid false

def aceGetSid (ace : Ace) : Option Sid :=
  if ace.aceType = accessAllowedAceType ∨ ace.aceType = accessDeniedAceType ∨ ace.aceType = systemAuditAceType ∨
    ace.aceType = systemMandatoryLabelAceType then some ace.sid else none

def aceGetMask (ace : Ace) : AccessMask :=
  if ace.aceType = accessAllowedAceType ∨ ace.aceType = accessDeniedAceType ∨ ace.aceType = systemAuditAceType ∨
    ace.aceType = systemMandatoryLabelAceType then ace.mask else 0

/-- `sep_check_dacl_access`: the result and what has been granted. -/
def sepCheckDaclAccess (token : Token) (genericMapping : Option GenericMapping) (useRestricted : Bool) :
    List Ace → AccessMask → AccessMask → Bool × AccessMask
  | [], remaining, granted => (remaining = 0#32, granted)
  | ace :: aces, remaining, granted =>
    if ace.aceType = accessDeniedAceType then
      if sepSidMatchesTokenEx token (aceGetSid ace) useRestricted && remaining &&& aceGetMask ace ≠ 0#32 then
        (false, granted)
      else sepCheckDaclAccess token genericMapping useRestricted aces remaining granted
    else if ace.aceType = accessAllowedAceType then
      if sepSidMatchesTokenEx token (aceGetSid ace) useRestricted then
        let aceMask := mapMask genericMapping (aceGetMask ace)
        let granted := granted ||| (aceMask &&& remaining)
        let remaining := remaining &&& ~~~aceMask
        if remaining = 0#32 then (true, granted)
        else sepCheckDaclAccess token genericMapping useRestricted aces remaining granted
      else sepCheckDaclAccess token genericMapping useRestricted aces remaining granted
    else sepCheckDaclAccess token genericMapping useRestricted aces remaining granted

namespace SecurityDescriptor

/-- `sd_get_dacl_ptr`. -/
def daclPtr (sd : SecurityDescriptor) : Option Acl := if sd.control &&& seDaclPresent = 0 then none else sd.dacl

/-- `sd_get_sacl_ptr`. -/
def saclPtr (sd : SecurityDescriptor) : Option Acl := if sd.control &&& seSaclPresent = 0 then none else sd.sacl

end SecurityDescriptor

/-- `sep_get_object_integrity`: the level and the policy. -/
def sepGetObjectIntegrity (sd : SecurityDescriptor) : BitVec 32 × AccessMask :=
  match sd.saclPtr with
  | none => (securityMandatoryMediumRid, systemMandatoryLabelNoWriteUp)
  | some sacl =>
    match sacl.aces.find? fun ace => ace.aceType = systemMandatoryLabelAceType with
    | none => (securityMandatoryMediumRid, systemMandatoryLabelNoWriteUp)
    | some ace => (rtlGetRid ace.sid, ace.mask)

/-- The rights that each mandatory policy withholds. -/
def writeOperations : AccessMask := writeDac ||| writeOwner ||| delete ||| 0x0002#32 ||| 0x0004#32 ||| 0x0100#32
def readOperations : AccessMask := readControl ||| 0x0001#32 ||| 0x0080#32
def executeOperations : AccessMask := 0x0020#32

def sepMandatoryAccessCheck (sd : SecurityDescriptor) (token : Token) (desiredAccess : AccessMask) : Bool :=
  let (objectIntegrity, policy) := sepGetObjectIntegrity sd
  if objectIntegrity ≤ token.integrityLevelIndex then true
  else if policy &&& systemMandatoryLabelNoWriteUp ≠ 0 ∧ desiredAccess &&& writeOperations ≠ 0 then false
  else if policy &&& systemMandatoryLabelNoReadUp ≠ 0 ∧ desiredAccess &&& readOperations ≠ 0 then false
  else if policy &&& systemMandatoryLabelNoExecuteUp ≠ 0 ∧ desiredAccess &&& executeOperations ≠ 0 then false
  else true

structure Progress where
  remaining : AccessMask
  granted : AccessMask

def Progress.take (p : Progress) (right : AccessMask) : Progress :=
  if p.remaining &&& right ≠ 0 then ⟨p.remaining &&& ~~~right, p.granted ||| right⟩ else p

/-- Steps 2 and 3 of `sep_access_check`: the take-ownership privilege, and the rights of
the owner. -/
def takePrivileges (sd : SecurityDescriptor) (token : Token) (p : Progress) : Progress :=
  let p := if sepTokenHasPrivilege token.privileges seTakeOwnershipLuid then p.take writeOwner else p
  if sd.owner.isSome && sepIsTokenOwner token sd.owner then (p.take readControl).take writeDac else p

/-- Steps 4 to 6 of `sep_access_check`: the DACL, for a restricted token once more with its
restricted SIDs and all of the desired access. -/
def checkDacl (sd : SecurityDescriptor) (token : Token) (desiredAccess : AccessMask)
    (genericMapping : Option GenericMapping) (p : Progress) : Bool × AccessMask :=
  if p.remaining = 0#32 then (true, p.granted)
  else match sd.daclPtr with
  | none => (true, p.granted ||| p.remaining)
  | some dacl =>
    let (normalResult, granted) := sepCheckDaclAccess token genericMapping false dacl.aces p.remaining p.granted
    if !normalResult then (false, granted)
    else if token.isRestricted && 0 < token.restrictedSidCount then
      let (restrictedResult, restrictedGranted) :=
        sepCheckDaclAccess token genericMapping true dacl.aces desiredAccess 0#32
      if !restrictedResult then (false, granted) else (true, granted &&& restrictedGranted)
    else (true, granted)

/-- `sep_access_check`: the result and the granted access. -/
def sepAccessCheck (sd : SecurityDescriptor) (token : Token) (desiredAccess grantedAccess : AccessMask)
    (genericMapping : Option GenericMapping) : Bool × AccessMask :=
  if !sepMandatoryAccessCheck sd token desiredAccess then (false, grantedAccess)
  else if desiredAccess &&& accessSystemSecurity ≠ 0 then
    if sepTokenHasPrivilege token.privileges seSecurityLuid then
      checkDacl sd token desiredAccess genericMapping
        (takePrivileges sd token ((Progress.mk desiredAccess grantedAccess).take accessSystemSecurity))
    else (false, grantedAccess)
  else checkDacl sd token desiredAccess genericMapping (takePrivileges sd token ⟨desiredAccess, grantedAccess⟩)

def seGetEffectiveToken (subjectContext : SecuritySubjectContext) : Option Token :=
  subjectContext.clientToken.or subjectContext.primaryToken

/-- `se_access_check`: the result and the granted access. The status is success exactly
when the result is true. -/
def seAccessCheck (securityDescriptor : Option SecurityDescriptor) (subjectContext : Option SecuritySubjectContext)
    (desiredAccess previouslyGrantedAccess : AccessMask) (genericMapping : Option GenericMapping) : Bool × AccessMask :=
  match securityDescriptor, subjectContext.bind seGetEffectiveToken with
  | some sd, some token =>
    let remainingAccess := mapMask genericMapping desiredAccess &&& ~~~previouslyGrantedAccess
    if remainingAccess = 0#32 then (true, previouslyGrantedAccess)
    else sepAccessCheck sd token remainingAccess previouslyGrantedAccess genericMapping
  | _, _ => (false, 0)

end XenOS.Se
