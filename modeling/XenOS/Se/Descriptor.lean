import XenOS.Se.Acl

/-! Security descriptors as bytes (`se/sd.rs`): the revision, at offset 2 the control flags, then
64-bit pointers (owner 8, group 16, SACL 24, DACL 32) or, self-relative, 32-bit offsets (owner 4,
group 8, SACL 12, DACL 16). Null is 0. -/

namespace XenOS.Se

open General

namespace Layout

def sizeofSecurityDescriptor : ℕ := 40
def sizeofSecurityDescriptorRelative : ℕ := 20

def securityDescriptorRevision : BitVec 8 := 1#8

def seSelfRelative : BitVec 16 := 0x8000#16

def ownerSecurityInformation : BitVec 32 := 0x1#32
def groupSecurityInformation : BitVec 32 := 0x2#32
def daclSecurityInformation : BitVec 32 := 0x4#32
def saclSecurityInformation : BitVec 32 := 0x8#32

inductive NtStatus where
  | success
  | bufferTooSmall
  | invalidSecurityDescr
  deriving DecidableEq

def sdControl (m : Ram) (sd : ℕ) : BitVec 16 := BitVec.ofNat 16 (m.u16 (sd + 2))

def isSelfRelative (m : Ram) (sd : ℕ) : Bool := sdControl m sd &&& seSelfRelative ≠ 0

def hasDacl (m : Ram) (sd : ℕ) : Bool := sdControl m sd &&& seDaclPresent ≠ 0

def hasSacl (m : Ram) (sd : ℕ) : Bool := sdControl m sd &&& seSaclPresent ≠ 0

def sdPtr (m : Ram) (sd absolute relative : ℕ) : ℕ :=
  if isSelfRelative m sd then
    if m.u32 (sd + relative) ≠ 0 then sd + m.u32 (sd + relative) else 0
  else m.u64 (sd + absolute)

def sdGetOwnerPtr (m : Ram) (sd : ℕ) : ℕ := sdPtr m sd 8 4

def sdGetGroupPtr (m : Ram) (sd : ℕ) : ℕ := sdPtr m sd 16 8

def sdGetSaclPtr (m : Ram) (sd : ℕ) : ℕ := if hasSacl m sd then sdPtr m sd 24 12 else 0

def sdGetDaclPtr (m : Ram) (sd : ℕ) : ℕ := if hasDacl m sd then sdPtr m sd 32 16 else 0

def rtlLengthSecurityDescriptor (m : Ram) (sd : ℕ) : ℕ :=
  let length := if isSelfRelative m sd then sizeofSecurityDescriptorRelative else sizeofSecurityDescriptor
  let owner := sdGetOwnerPtr m sd
  let length := if owner ≠ 0 then length + rtlLengthSid m owner else length
  let group := sdGetGroupPtr m sd
  let length := if group ≠ 0 then length + rtlLengthSid m group else length
  let length :=
    if hasDacl m sd then
      let dacl := sdGetDaclPtr m sd
      if dacl ≠ 0 then length + aclSize m dacl else length
    else length
  let length :=
    if hasSacl m sd then
      let sacl := sdGetSaclPtr m sd
      if sacl ≠ 0 then length + aclSize m sacl else length
    else length
  length % 2 ^ 32

/-- The check of a SID or an ACL of the descriptor. The sum of 32 bits wraps, as without overflow checks. -/
def validRelativePart (m : Ram) (sd sdLength offset : ℕ) (valid : Ram → ℕ → Bool) (size : Ram → ℕ → ℕ) : Bool :=
  if sdLength ≤ offset then false
  else if !valid m (sd + offset) then false
  else if sdLength < (offset + size m (sd + offset)) % 2 ^ 32 then false
  else true

def rtlValidRelativeSecurityDescriptor (m : Ram) (sd sdLength : ℕ) (requiredInfo : BitVec 32) : Bool :=
  if sd = 0 then false
  else if sdLength < sizeofSecurityDescriptorRelative then false
  else if m.byte sd ≠ securityDescriptorRevision then false
  else if !isSelfRelative m sd then false
  else
    let owner := m.u32 (sd + 4)
    let group := m.u32 (sd + 8)
    let sacl := m.u32 (sd + 12)
    let dacl := m.u32 (sd + 16)
    (if owner ≠ 0 then validRelativePart m sd sdLength owner rtlValidSid rtlLengthSid
      else requiredInfo &&& ownerSecurityInformation = 0) &&
    (if group ≠ 0 then validRelativePart m sd sdLength group rtlValidSid rtlLengthSid
      else requiredInfo &&& groupSecurityInformation = 0) &&
    (if dacl ≠ 0 then validRelativePart m sd sdLength dacl rtlValidAcl aclSize
      else requiredInfo &&& daclSecurityInformation = 0 || hasDacl m sd) &&
    (if sacl ≠ 0 then validRelativePart m sd sdLength sacl rtlValidAcl aclSize
      else requiredInfo &&& saclSecurityInformation = 0 || hasSacl m sd)

def rtlValidSecurityDescriptor (m : Ram) (sd : ℕ) : Bool :=
  if sd = 0 then false
  else if m.byte sd ≠ securityDescriptorRevision then false
  else if isSelfRelative m sd then rtlValidRelativeSecurityDescriptor m sd sizeofSecurityDescriptorRelative 0
  else if m.u64 (sd + 8) ≠ 0 ∧ rtlValidSid m (m.u64 (sd + 8)) = false then false
  else if m.u64 (sd + 16) ≠ 0 ∧ rtlValidSid m (m.u64 (sd + 16)) = false then false
  else if hasDacl m sd = true ∧ m.u64 (sd + 32) ≠ 0 ∧ rtlValidAcl m (m.u64 (sd + 32)) = false then false
  else if hasSacl m sd = true ∧ m.u64 (sd + 24) ≠ 0 ∧ rtlValidAcl m (m.u64 (sd + 24)) = false then false
  else true

def seValidSecurityDescriptor (m : Ram) (length sd : ℕ) : Bool :=
  if sd = 0 ∨ length < sizeofSecurityDescriptorRelative then false
  else if !isSelfRelative m sd then false
  else rtlValidRelativeSecurityDescriptor m sd length 0

def copyPart (size : Ram → ℕ → ℕ) (m : Ram) (dest field offset part : ℕ) : Ram × ℕ :=
  if part = 0 then (m, offset)
  else
    let m := m.write (dest + field) (leBytes 4 offset)
    let length := size m part
    (m.write (dest + offset) (m.read part length), offset + length)

def writeRelativeHeader (m : Ram) (sd dest : ℕ) : Ram :=
  let m := m.write dest [m.byte sd]
  let m := m.write (dest + 1) [0]
  let m := m.write (dest + 2) (leBytes 2 (sdControl m sd ||| seSelfRelative).toNat)
  let m := m.write (dest + 4) (leBytes 4 0)
  let m := m.write (dest + 8) (leBytes 4 0)
  let m := m.write (dest + 12) (leBytes 4 0)
  m.write (dest + 16) (leBytes 4 0)

def rtlMakeSelfRelativeSd (m : Ram) (sd dest bufferLength : ℕ) : NtStatus × ℕ × Ram :=
  let requiredLength := rtlLengthSecurityDescriptor m sd
  if sd = 0 then (.invalidSecurityDescr, bufferLength, m)
  else if bufferLength < requiredLength then (.bufferTooSmall, requiredLength, m)
  else if dest = 0 then (.invalidSecurityDescr, bufferLength, m)
  else
    let m := writeRelativeHeader m sd dest
    let (m, offset) := copyPart rtlLengthSid m dest 4 sizeofSecurityDescriptorRelative (sdGetOwnerPtr m sd)
    let (m, offset) := copyPart rtlLengthSid m dest 8 offset (sdGetGroupPtr m sd)
    let (m, offset) :=
      if hasSacl m sd then copyPart aclSize m dest 12 offset (sdGetSaclPtr m sd) else (m, offset)
    let (m, _) :=
      if hasDacl m sd then copyPart aclSize m dest 16 offset (sdGetDaclPtr m sd) else (m, offset)
    (.success, requiredLength, m)

/-- The status, what is stored in `captured_sd` (if anything), and the memory; `buffer` is the
block from the pool, 0 if there is none. -/
def seCaptureSecurityDescriptor (m : Ram) (sd buffer : ℕ) : NtStatus × Option ℕ × Ram :=
  if sd = 0 then (.success, some 0, m)
  else if !rtlValidSecurityDescriptor m sd then (.invalidSecurityDescr, none, m)
  else if buffer = 0 then (.invalidSecurityDescr, none, m)
  else
    match rtlMakeSelfRelativeSd m sd buffer (rtlLengthSecurityDescriptor m sd) with
    | (.success, _, m) => (.success, some buffer, m)
    | (status, _, m) => (status, some 0, m)

end Layout

end XenOS.Se
