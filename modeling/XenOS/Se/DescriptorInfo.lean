import XenOS.Se.Descriptor

/-! Reading and replacing parts of a security descriptor (`se/sd.rs`). A mask selects the
components; both functions build a self-relative descriptor, in the caller's buffer or in a block
that replaces the old one. -/

namespace XenOS.Se

open General

namespace Layout

def seOwnerDefaulted : BitVec 16 := 0x1#16
def seGroupDefaulted : BitVec 16 := 0x2#16
def seDaclDefaulted : BitVec 16 := 0x8#16
def seSaclDefaulted : BitVec 16 := 0x20#16

inductive InfoStatus where
  | success
  | bufferTooSmall
  | invalidParameter
  | noMemory
  deriving DecidableEq

def selects (info component : BitVec 32) : Bool := info &&& component ≠ 0

/-- A cleared header of which `n` bytes are zeroed, with the revision and no flag but `SE_SELF_RELATIVE`. -/
def startRelative (m : Ram) (dest n : ℕ) : Ram :=
  let m := m.write dest (List.replicate n 0)
  let m := m.write dest [securityDescriptorRevision]
  m.write (dest + 2) (leBytes 2 seSelfRelative.toNat)

/-- `(*sd).control |= bits`. -/
def orControl (m : Ram) (sd : ℕ) (bits : BitVec 16) : Ram :=
  m.write (sd + 2) (leBytes 2 (sdControl m sd ||| bits).toNat)

def addSize (size : Ram → ℕ → ℕ) (m : Ram) (part sum : ℕ) : ℕ := if part ≠ 0 then sum + size m part else sum

section Query
variable (m : Ram) (info : BitVec 32) (sd : ℕ)

def queryOwner : ℕ := if selects info ownerSecurityInformation then sdGetOwnerPtr m sd else 0

def queryGroup : ℕ := if selects info groupSecurityInformation then sdGetGroupPtr m sd else 0

def queryDacl : ℕ := if selects info daclSecurityInformation && hasDacl m sd then sdGetDaclPtr m sd else 0

def querySacl : ℕ := if selects info saclSecurityInformation && hasSacl m sd then sdGetSaclPtr m sd else 0

/-- `required_size`. -/
def queryRequiredSize : ℕ :=
  addSize aclSize m (querySacl m info sd)
    (addSize aclSize m (queryDacl m info sd)
      (addSize rtlLengthSid m (queryGroup m info sd)
        (addSize rtlLengthSid m (queryOwner m info sd) sizeofSecurityDescriptorRelative)))

end Query

/-- The status, what is written to the length, and the memory. `none` is a null pointer, and
`objectSd` is what `object_sd` points to. -/
def seQuerySecurityDescriptorInfo (m : Ram) (info : Option (BitVec 32)) (dest : ℕ) (length objectSd : Option ℕ) :
    InfoStatus × Option ℕ × Ram :=
  match info, length, objectSd with
  | some info, some length, some sd =>
    if sd = 0 then (.bufferTooSmall, some sizeofSecurityDescriptorRelative, m)
    else
      let owner := queryOwner m info sd
      let group := queryGroup m info sd
      let dacl := queryDacl m info sd
      let sacl := querySacl m info sd
      let required := queryRequiredSize m info sd % 2 ^ 32
      if length < required then (.bufferTooSmall, some required, m)
      else if dest = 0 then (.bufferTooSmall, some required, m)
      else
        let m := startRelative m dest sizeofSecurityDescriptorRelative
        let (m, offset) := copyPart rtlLengthSid m dest 4 sizeofSecurityDescriptorRelative owner
        let (m, offset) := copyPart rtlLengthSid m dest 8 offset group
        let (m, offset) :=
          if selects info daclSecurityInformation then
            let m := orControl m dest (sdControl m sd &&& (seDaclPresent ||| seDaclDefaulted))
            copyPart aclSize m dest 16 offset dacl
          else (m, offset)
        let (m, _) :=
          if selects info saclSecurityInformation then
            let m := orControl m dest (sdControl m sd &&& (seSaclPresent ||| seSaclDefaulted))
            copyPart aclSize m dest 12 offset sacl
          else (m, offset)
        (.success, some required, m)
  | _, _, _ => (.invalidParameter, length, m)

section Set
variable (m : Ram) (info : BitVec 32) (modificationSd oldSd : ℕ)

/-- The new owner or group: of the modification, else of the old descriptor. -/
def chooseSid (component : BitVec 32) (get : Ram → ℕ → ℕ) : ℕ :=
  if selects info component then get m modificationSd
  else if oldSd ≠ 0 then get m oldSd
  else 0

/-- The new list and whether it is marked as present. A selected list that the modification does
not have becomes an explicit null list. -/
def chooseAcl (component : BitVec 32) (has : Ram → ℕ → Bool) (get : Ram → ℕ → ℕ) : ℕ × Bool :=
  if selects info component then
    if has m modificationSd then (get m modificationSd, true) else (0, true)
  else if oldSd ≠ 0 ∧ has m oldSd then (get m oldSd, true)
  else (0, false)

def newOwner : ℕ := chooseSid m info modificationSd oldSd ownerSecurityInformation sdGetOwnerPtr

def newGroup : ℕ := chooseSid m info modificationSd oldSd groupSecurityInformation sdGetGroupPtr

def newDacl : ℕ × Bool := chooseAcl m info modificationSd oldSd daclSecurityInformation hasDacl sdGetDaclPtr

def newSacl : ℕ × Bool := chooseAcl m info modificationSd oldSd saclSecurityInformation hasSacl sdGetSaclPtr

def newSize : ℕ :=
  let dacl := newDacl m info modificationSd oldSd
  let sacl := newSacl m info modificationSd oldSd
  let size := addSize rtlLengthSid m (newOwner m info modificationSd oldSd) sizeofSecurityDescriptorRelative
  let size := addSize rtlLengthSid m (newGroup m info modificationSd oldSd) size
  let size := if dacl.2 then addSize aclSize m dacl.1 size else size
  if sacl.2 then addSize aclSize m sacl.1 size else size

end Set

structure SetResult where
  status : InfoStatus
  objectSd : Option ℕ
  freed : List ℕ
  ram : Ram

/-- `alloc` gives a block of the size, 0 if there is none; `objectSd` is what `object_sd` points to,
`none` a null pointer. -/
def seSetSecurityDescriptorInfoEx (m : Ram) (alloc : ℕ → ℕ) (info : Option (BitVec 32)) (modificationSd : ℕ)
    (objectSd : Option ℕ) : SetResult :=
  match info, objectSd with
  | some info, some oldSd =>
    if modificationSd = 0 then ⟨.invalidParameter, objectSd, [], m⟩
    else
      let owner := newOwner m info modificationSd oldSd
      let group := newGroup m info modificationSd oldSd
      let dacl := newDacl m info modificationSd oldSd
      let sacl := newSacl m info modificationSd oldSd
      let size := newSize m info modificationSd oldSd
      let buffer := alloc size
      if buffer = 0 then ⟨.noMemory, objectSd, [], m⟩
      else
        let m := startRelative m buffer size
        let (m, offset) := copyPart rtlLengthSid m buffer 4 sizeofSecurityDescriptorRelative owner
        let (m, offset) := copyPart rtlLengthSid m buffer 8 offset group
        let (m, offset) :=
          if sacl.2 then copyPart aclSize (orControl m buffer seSaclPresent) buffer 12 offset sacl.1
          else (m, offset)
        let (m, _) :=
          if dacl.2 then copyPart aclSize (orControl m buffer seDaclPresent) buffer 16 offset dacl.1
          else (m, offset)
        ⟨.success, some buffer, if oldSd ≠ 0 then [oldSd] else [], m⟩
  | _, _ => ⟨.invalidParameter, objectSd, [], m⟩

end Layout

end XenOS.Se
