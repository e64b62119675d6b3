import XenOS.General.Ram
import XenOS.Se.Types

/-! Access control lists as bytes (`se/acl.rs`): a header with revision, size (offset 2) and number
of entries (offset 4), then entries of a header (type, flags, size), the mask at offset 4 and the
SID at offset 8, each where the size before it says. -/

namespace XenOS.Se

open General

def Sid.bytes (sid : Sid) : List (BitVec 8) :=
  sid.revision :: BitVec.ofNat 8 sid.subAuthority.length ::
    (sid.identifierAuthority ++ sid.subAuthority.flatMap fun v => leBytes 4 v.toNat)

namespace Layout

def sizeofAcl : ℕ := 8
def sizeofAceHeader : ℕ := 4
def sizeofAccessMask : ℕ := 4
def sizeofUlong : ℕ := 4

def aclRevision : ℕ := 2
def aclRevisionDs : ℕ := 4

def sidRevision : BitVec 8 := 1#8
def sidMinSize : ℕ := 8
def maxSubAuthorities : ℕ := 15

def subAuthorityCount (m : Ram) (sid : ℕ) : ℕ := (m.byte (sid + 1)).toNat

def rtlValidSid (m : Ram) (sid : ℕ) : Bool :=
  if m.byte sid ≠ sidRevision then false
  else if maxSubAuthorities < subAuthorityCount m sid then false
  else true

def rtlLengthSid (m : Ram) (sid : ℕ) : ℕ := sidMinSize + subAuthorityCount m sid * 4

def sidAt (m : Ram) (sid : ℕ) : Sid where
  revision := m.byte sid
  identifierAuthority := m.read (sid + 2) 6
  subAuthority := (List.range (subAuthorityCount m sid)).map fun i => BitVec.ofNat 32 (m.u32 (sid + sidMinSize + 4 * i))

def aclSize (m : Ram) (acl : ℕ) : ℕ := m.u16 (acl + 2)
def aceCount (m : Ram) (acl : ℕ) : ℕ := m.u16 (acl + 4)
def aceSize (m : Ram) (ace : ℕ) : ℕ := m.u16 (ace + 2)

/-- The loop of `rtl_valid_acl` over the entries. -/
def validAces (m : Ram) (aclEnd : ℕ) : ℕ → ℕ → Bool
  | 0, _ => true
  | count + 1, ace =>
    if aclEnd < ace + sizeofAceHeader then false
    else if aceSize m ace < sizeofAceHeader then false
    else if aclEnd < ace + aceSize m ace then false
    else validAces m aclEnd count (ace + aceSize m ace)

def rtlValidAcl (m : Ram) (acl : ℕ) : Bool :=
  if (m.byte acl).toNat < aclRevision ∨ aclRevisionDs < (m.byte acl).toNat then false
  else if aclSize m acl < sizeofAcl then false
  else validAces m (acl + aclSize m acl) (aceCount m acl) (acl + sizeofAcl)

/-- `none` is `STATUS_INVALID_ACL`. The revision and the length are cut to their fields. -/
def rtlCreateAcl (m : Ram) (acl : ℕ) (aclLength requested : BitVec 32) : Option Ram :=
  if aclLength.toNat < sizeofAcl then none
  else
    let revision := requested.toNat % 256
    if revision < aclRevision ∨ aclRevisionDs < revision then none
    else
      some (((((m.write acl (leBytes 1 revision)).write (acl + 1) (leBytes 1 0)).write (acl + 2)
        (leBytes 2 aclLength.toNat)).write (acl + 4) (leBytes 2 0)).write (acl + 6) (leBytes 2 0))

/-- The loop of `rtl_first_free_ace`: where it ends, or `none` past the end of the list. -/
def skipAces (m : Ram) (aclEnd : ℕ) : ℕ → ℕ → Option ℕ
  | 0, ace => if aclEnd < ace then none else some ace
  | count + 1, ace => if aclEnd ≤ ace then none else skipAces m aclEnd count (ace + aceSize m ace)

def rtlFirstFreeAce (m : Ram) (acl : ℕ) : Option ℕ :=
  skipAces m (acl + aclSize m acl) (aceCount m acl) (acl + sizeofAcl)

/-- The loop of `rtl_get_ace`, with the entries still to skip. -/
def getAce (m : Ram) (aclEnd : ℕ) : ℕ → ℕ → Option ℕ
  | 0, ace => if aclEnd ≤ ace then none else some ace
  | skip + 1, ace => if aclEnd ≤ ace then none else getAce m aclEnd skip (ace + aceSize m ace)

def rtlGetAce (m : Ram) (acl aceIndex : ℕ) : Option ℕ :=
  if aceCount m acl ≤ aceIndex then none
  else getAce m (acl + aclSize m acl) aceIndex (acl + sizeofAcl)

structure AceIterator where
  current : ℕ
  stop : ℕ
  remaining : ℕ

namespace AceIterator

def new (m : Ram) (acl : ℕ) : AceIterator := ⟨acl + sizeofAcl, acl + aclSize m acl, aceCount m acl⟩

def next (m : Ram) (it : AceIterator) : Option (ℕ × AceIterator) :=
  if it.remaining = 0 ∨ it.stop ≤ it.current then none
  else if it.stop < it.current + aceSize m it.current then none
  else some (it.current, { it with current := it.current + aceSize m it.current, remaining := it.remaining - 1 })

/-- What the iterator yields until it stops; it takes no more steps than entries remain. -/
def collect (m : Ram) : ℕ → AceIterator → List ℕ
  | 0, _ => []
  | fuel + 1, it =>
    match it.next m with
    | none => []
    | some (ace, it) => ace :: collect m fuel it

def toList (m : Ram) (it : AceIterator) : List ℕ := collect m (it.remaining + 1) it

end AceIterator

def hasSid (aceType : BitVec 8) : Bool :=
  aceType = accessAllowedAceType ∨ aceType = accessDeniedAceType ∨ aceType = systemAuditAceType ∨
    aceType = systemMandatoryLabelAceType

/-- `none` is a null pointer. -/
def aceGetSid (m : Ram) (ace : ℕ) : Option ℕ := if hasSid (m.byte ace) then some (ace + 8) else none

def aceGetMask (m : Ram) (ace : ℕ) : AccessMask :=
  if hasSid (m.byte ace) then BitVec.ofNat 32 (m.u32 (ace + 4)) else 0

/-- The entry at the address, as its accessors see it. -/
def aceAt (m : Ram) (ace : ℕ) : Option Ace :=
  (aceGetSid m ace).map fun sid => ⟨m.byte ace, m.byte (ace + 1), aceGetMask m ace, sidAt m sid⟩

def aceSizeForSid (m : Ram) (sid : ℕ) : ℕ :=
  (sizeofAceHeader + sizeofAccessMask + rtlLengthSid m sid - sizeofUlong) % 2 ^ 16

def writeAceHeader (m : Ram) (ace : ℕ) (aceType : BitVec 8) (aceFlags accessMask : BitVec 32) (size : ℕ) : Ram :=
  let m := m.write ace [aceType]
  let m := m.write (ace + 1) [aceFlags.truncate 8]
  let m := m.write (ace + 2) (leBytes 2 size)
  m.write (ace + 4) (leBytes 4 accessMask.toNat)

def writeAce (m : Ram) (ace : ℕ) (aceType : BitVec 8) (aceFlags accessMask : BitVec 32) (sid size : ℕ) : Ram :=
  let m := writeAceHeader m ace aceType aceFlags accessMask size
  m.write (ace + 8) (m.read sid (rtlLengthSid m sid))

/-- The body that the two functions below share. `none` is `STATUS_INVALID_ACL`. -/
def addAce (m : Ram) (acl : ℕ) (aceType : BitVec 8) (aceRevision aceFlags accessMask : BitVec 32) (sid : ℕ) :
    Option Ram :=
  if !rtlValidSid m sid then none
  else
    let size := aceSizeForSid m sid
    if size = 0 then none
    else
      match rtlFirstFreeAce m acl with
      | none => none
      | some firstFree =>
        if acl + aclSize m acl < firstFree + size then none
        else
          let m := writeAce m firstFree aceType aceFlags accessMask sid size
          let m := if (m.byte acl).toNat < aceRevision.toNat % 256 then
              m.write acl (leBytes 1 (aceRevision.toNat % 256)) else m
          some (m.write (acl + 4) (leBytes 2 (aceCount m acl + 1)))

def rtlAddAccessAllowedAceEx (m : Ram) (acl : ℕ) (aceRevision aceFlags accessMask : BitVec 32) (sid : ℕ) : Option Ram :=
  addAce m acl accessAllowedAceType aceRevision aceFlags accessMask sid

def rtlAddAccessDeniedAceEx (m : Ram) (acl : ℕ) (aceRevision aceFlags accessMask : BitVec 32) (sid : ℕ) : Option Ram :=
  addAce m acl accessDeniedAceType aceRevision aceFlags accessMask sid

end Layout

end XenOS.Se
