import XenOS.Se.AclRuns
import XenOS.Se.Descriptor

/-! What the validation of a self-relative descriptor reads, and what an access check reads after
it. Headers are read before the sizes they give are compared with the length, and an entry may be
shorter than its mask and SID. -/

namespace XenOS.Se

open General Nat
open List (forall_mem_append forall_mem_cons map_map mem_map mem_range mem_singleton not_mem_nil)

namespace Layout

/-- A run of bytes. -/
structure Span where
  start : ℕ
  length : ℕ
  deriving DecidableEq

def Span.Within (r s : Span) : Prop := s.start ≤ r.start ∧ r.start + r.length ≤ s.start + s.length

def rtlValidSidReads (m : Ram) (sid : ℕ) : List Span :=
  ⟨sid, 1⟩ :: if m.byte sid ≠ sidRevision then [] else [⟨sid + 1, 1⟩]

def rtlLengthSidReads (sid : ℕ) : List Span := [⟨sid + 1, 1⟩]

/-- The reads of the loop of `rtl_valid_acl`: the size of an entry whose header ends in the list. -/
def validAcesReads (m : Ram) (aclEnd : ℕ) : ℕ → ℕ → List Span
  | 0, _ => []
  | count + 1, ace =>
    if aclEnd < ace + sizeofAceHeader then []
    else ⟨ace + 2, 2⟩ ::
      if aceSize m ace < sizeofAceHeader then []
      else if aclEnd < ace + aceSize m ace then []
      else validAcesReads m aclEnd count (ace + aceSize m ace)

def rtlValidAclReads (m : Ram) (acl : ℕ) : List Span :=
  ⟨acl, 1⟩ ::
    if (m.byte acl).toNat < aclRevision ∨ aclRevisionDs < (m.byte acl).toNat then []
    else ⟨acl + 2, 2⟩ ::
      if aclSize m acl < sizeofAcl then []
      else ⟨acl + 4, 2⟩ :: validAcesReads m (acl + aclSize m acl) (aceCount m acl) (acl + sizeofAcl)

def aclSizeReads (acl : ℕ) : List Span := [⟨acl + 2, 2⟩]

def relativePartReads (m : Ram) (sd sdLength field : ℕ) (valid : Ram → ℕ → Bool) (validReads : Ram → ℕ → List Span)
    (sizeReads : ℕ → List Span) (absentReads : List Span) : List Span :=
  let offset := m.u32 (sd + field)
  ⟨sd + field, 4⟩ ::
    if offset = 0 then absentReads
    else if sdLength ≤ offset then []
    else validReads m (sd + offset) ++ if !valid m (sd + offset) then [] else sizeReads (sd + offset)

section Parts
variable (m : Ram) (sd sdLength : ℕ) (requiredInfo : BitVec 32)

/-! The four checks of `rtl_valid_relative_security_descriptor`. -/

def validOwner : Bool :=
  if m.u32 (sd + 4) ≠ 0 then validRelativePart m sd sdLength (m.u32 (sd + 4)) rtlValidSid rtlLengthSid
  else requiredInfo &&& ownerSecurityInformation = 0

def validGroup : Bool :=
  if m.u32 (sd + 8) ≠ 0 then validRelativePart m sd sdLength (m.u32 (sd + 8)) rtlValidSid rtlLengthSid
  else requiredInfo &&& groupSecurityInformation = 0

def validDacl : Bool :=
  if m.u32 (sd + 16) ≠ 0 then validRelativePart m sd sdLength (m.u32 (sd + 16)) rtlValidAcl aclSize
  else requiredInfo &&& daclSecurityInformation = 0 || hasDacl m sd

def validSacl : Bool :=
  if m.u32 (sd + 12) ≠ 0 then validRelativePart m sd sdLength (m.u32 (sd + 12)) rtlValidAcl aclSize
  else requiredInfo &&& saclSecurityInformation = 0 || hasSacl m sd

def sidPartReads (field : ℕ) : List Span :=
  relativePartReads m sd sdLength field rtlValidSid rtlValidSidReads rtlLengthSidReads []

/-- Where the list is required and absent, the control flags are read once more. -/
def aclPartReads (field : ℕ) (info : BitVec 32) : List Span :=
  relativePartReads m sd sdLength field rtlValidAcl rtlValidAclReads aclSizeReads
    (if requiredInfo &&& info = 0 then [] else [⟨sd + 2, 2⟩])

def rtlValidRelativeSecurityDescriptorReads : List Span :=
  if sd = 0 then []
  else if sdLength < sizeofSecurityDescriptorRelative then []
  else ⟨sd, 1⟩ ::
    if m.byte sd ≠ securityDescriptorRevision then []
    else ⟨sd + 2, 2⟩ ::
      if !isSelfRelative m sd then []
      else sidPartReads m sd sdLength 4 ++
        if !validOwner m sd sdLength requiredInfo then []
        else sidPartReads m sd sdLength 8 ++
          if !validGroup m sd sdLength requiredInfo then []
          else aclPartReads m sd sdLength requiredInfo 16 daclSecurityInformation ++
            if !validDacl m sd sdLength requiredInfo then []
            else aclPartReads m sd sdLength requiredInfo 12 saclSecurityInformation

end Parts

namespace AceIterator

def visited (m : Ram) : ℕ → AceIterator → List ℕ
  | 0, _ => []
  | fuel + 1, it =>
    if it.remaining = 0 ∨ it.stop ≤ it.current then []
    else it.current ::
      match it.next m with
      | none => []
      | some (_, it) => visited m fuel it

end AceIterator

def headerReads (m : Ram) (acl : ℕ) : List (ℕ × Span) :=
  let it := AceIterator.new m acl
  (it.visited m (it.remaining + 1)).map fun ace => (ace, ⟨ace, sizeofAceHeader⟩)

/-- The mask of an entry and its SID. -/
def typedReads (m : Ram) (ace : ℕ) : List (ℕ × Span) :=
  [(ace, ⟨ace + 4, sizeofAccessMask⟩), (ace, ⟨ace + 8, rtlLengthSid m (ace + 8)⟩)]

/-- What `sep_check_dacl_access` reads of the entries, for a token with which it walks over all of them. -/
def sepCheckDaclAccessReads (m : Ram) (dacl : ℕ) : List (ℕ × Span) :=
  headerReads m dacl ++ ((AceIterator.new m dacl).toList m).flatMap fun ace =>
    if m.byte ace = accessDeniedAceType ∨ m.byte ace = accessAllowedAceType then typedReads m ace else []

/-- What `sep_get_object_integrity` reads of the entries: the first label has a mask and a SID. -/
def sepGetObjectIntegrityReads (m : Ram) (sacl : ℕ) : List (ℕ × Span) :=
  headerReads m sacl ++
    match ((AceIterator.new m sacl).toList m).find? fun ace => m.byte ace = systemMandatoryLabelAceType with
    | none => []
    | some ace => typedReads m ace

def accessReads (m : Ram) (sd : ℕ) : List (ℕ × Span) :=
  (if sdGetDaclPtr m sd = 0 then [] else sepCheckDaclAccessReads m (sdGetDaclPtr m sd)) ++
    if sdGetSaclPtr m sd = 0 then [] else sepGetObjectIntegrityReads m (sdGetSaclPtr m sd)

/-- A component ends in the buffer. -/
def PartInside (size : Ram → ℕ → ℕ) (m : Ram) (sd sdLength field : ℕ) : Prop :=
  m.u32 (sd + field) ≠ 0 → m.u32 (sd + field) + size m (sd + m.u32 (sd + field)) ≤ sdLength

/-- The components lie in the buffer, and what an access check reads of an entry lies in the
entry and in the buffer. -/
structure SafeToEvaluate (m : Ram) (sd sdLength : ℕ) : Prop where
  owner : PartInside rtlLengthSid m sd sdLength 4
  group : PartInside rtlLengthSid m sd sdLength 8
  dacl : PartInside aclSize m sd sdLength 16
  sacl : PartInside aclSize m sd sdLength 12
  entries : ∀ x ∈ accessReads m sd, x.2.Within ⟨x.1, aceSize m x.1⟩ ∧ x.2.Within ⟨sd, sdLength⟩

def ValidatesSafely (m : Ram) (sd sdLength : ℕ) (requiredInfo : BitVec 32) : Prop :=
  (∀ r ∈ rtlValidRelativeSecurityDescriptorReads m sd sdLength requiredInfo, r.Within ⟨sd, sdLength⟩) ∧
    (rtlValidRelativeSecurityDescriptor m sd sdLength requiredInfo = true → SafeToEvaluate m sd sdLength)

def entryAt (m : Ram) : ℕ → ℕ → ℕ
  | ace, 0 => ace
  | ace, i + 1 => entryAt m (ace + aceSize m ace) i

def EntryFits (m : Ram) (aclEnd ace : ℕ) : Prop :=
  ace + sizeofAceHeader ≤ aclEnd ∧ sizeofAceHeader ≤ aceSize m ace ∧ ace + aceSize m ace ≤ aclEnd

def SidHeaderFits (m : Ram) (sd sdLength offset : ℕ) : Prop :=
  offset < sdLength → m.byte (sd + offset) = sidRevision → offset + 2 ≤ sdLength

/-- The headers of a list with the right revision, and of its entries up to the first that does
not fit into the list, are in the buffer. -/
def AclHeadersFit (m : Ram) (sd sdLength offset : ℕ) : Prop :=
  let acl := sd + offset
  offset < sdLength → aclRevision ≤ (m.byte acl).toNat → (m.byte acl).toNat ≤ aclRevisionDs →
    offset + 4 ≤ sdLength ∧ (sizeofAcl ≤ aclSize m acl → offset + 6 ≤ sdLength ∧
      ∀ i < aceCount m acl,
        (∀ j < i, EntryFits m (acl + aclSize m acl) (entryAt m (acl + sizeofAcl) j)) →
        entryAt m (acl + sizeofAcl) i + sizeofAceHeader ≤ acl + aclSize m acl →
        entryAt m (acl + sizeofAcl) i + sizeofAceHeader ≤ sd + sdLength)

structure Opens (m : Ram) (sd sdLength : ℕ) : Prop where
  nonnull : sd ≠ 0
  length : sizeofSecurityDescriptorRelative ≤ sdLength
  revision : m.byte sd = securityDescriptorRevision
  selfRelative : isSelfRelative m sd = true

def HeadersFit (m : Ram) (sd sdLength : ℕ) (requiredInfo : BitVec 32) : Prop :=
  Opens m sd sdLength →
    (m.u32 (sd + 4) ≠ 0 → SidHeaderFits m sd sdLength (m.u32 (sd + 4))) ∧
    (validOwner m sd sdLength requiredInfo = true →
      (m.u32 (sd + 8) ≠ 0 → SidHeaderFits m sd sdLength (m.u32 (sd + 8))) ∧
      (validGroup m sd sdLength requiredInfo = true →
        (m.u32 (sd + 16) ≠ 0 → AclHeadersFit m sd sdLength (m.u32 (sd + 16))) ∧
        (validDacl m sd sdLength requiredInfo = true →
          m.u32 (sd + 12) ≠ 0 → AclHeadersFit m sd sdLength (m.u32 (sd + 12)))))

/-- No check refuses. -/
structure Passes (m : Ram) (sd sdLength : ℕ) (requiredInfo : BitVec 32) : Prop where
  opens : Opens m sd sdLength
  owner : validOwner m sd sdLength requiredInfo = true
  group : validGroup m sd sdLength requiredInfo = true
  dacl : validDacl m sd sdLength requiredInfo = true
  sacl : validSacl m sd sdLength requiredInfo = true

def EndFits (size : Ram → ℕ → ℕ) (m : Ram) (sd field : ℕ) : Prop :=
  m.u32 (sd + field) ≠ 0 → m.u32 (sd + field) + size m (sd + m.u32 (sd + field)) < 2 ^ 32

def HasRoom (m : Ram) (ace : ℕ) : Prop := 16 + 4 * subAuthorityCount m (ace + 8) ≤ aceSize m ace

/-- The ends do not wrap, and the evaluated entries have room: those of the DACL that allow or deny,
and the first label of the SACL. -/
structure Roomy (m : Ram) (sd : ℕ) : Prop where
  owner : EndFits rtlLengthSid m sd 4
  group : EndFits rtlLengthSid m sd 8
  dacl : EndFits aclSize m sd 16
  sacl : EndFits aclSize m sd 12
  entries : sdGetDaclPtr m sd ≠ 0 → ∀ i < aceCount m (sdGetDaclPtr m sd),
    let ace := entryAt m (sdGetDaclPtr m sd + sizeofAcl) i
    m.byte ace = accessDeniedAceType ∨ m.byte ace = accessAllowedAceType → HasRoom m ace
  label : sdGetSaclPtr m sd ≠ 0 → ∀ i < aceCount m (sdGetSaclPtr m sd),
    let ace := entryAt m (sdGetSaclPtr m sd + sizeofAcl)
    m.byte (ace i) = systemMandatoryLabelAceType → (∀ j < i, m.byte (ace j) ≠ systemMandatoryLabelAceType) →
      HasRoom m (ace i)

section Walks
variable {m : Ram} {sd sdLength stop count ace : ℕ}

theorem validAces_iff : validAces m stop count ace = true ↔ ∀ i < count, EntryFits m stop (entryAt m ace i) := by
  induction count generalizing ace with
  | zero => simp [validAces]
  | succ count ih =>
    rw [forall_lt_succ_left]
    simp only [validAces, entryAt, EntryFits]
    split
    · simp
      omega
    split
    · simp
      omega
    split
    · simp
      omega
    next h₁ h₂ h₃ =>
    constructor
    · intro h
      exact ⟨⟨by omega, by omega, by omega⟩, ih.1 h⟩
    · intro h
      exact ih.2 h.2

theorem validAcesReads_within (hace : sd ≤ ace) :
    (∀ r ∈ validAcesReads m stop count ace, r.Within ⟨sd, sdLength⟩) ↔
      ∀ i < count, (∀ j < i, EntryFits m stop (entryAt m ace j)) → entryAt m ace i + sizeofAceHeader ≤ stop →
        entryAt m ace i + sizeofAceHeader ≤ sd + sdLength := by
  have hheader : sizeofAceHeader = 4 := rfl
  induction count generalizing ace with
  | zero => simp [validAcesReads]
  | succ count ih =>
    rw [forall_lt_succ_left]
    have hnext : ∀ i, (∀ j < i + 1, EntryFits m stop (entryAt m ace j)) ↔
        EntryFits m stop ace ∧ ∀ j < i, EntryFits m stop (entryAt m (ace + aceSize m ace) j) := by
      intro i
      rw [forall_lt_succ_left]
      rfl
    simp only [validAcesReads, hnext, entryAt]
    split
    next h =>
      have hno : ¬ EntryFits m stop ace := fun hfits => absurd hfits.1 (by omega)
      simp [hno]
      omega
    next hfirst =>
    rw [forall_mem_cons]
    apply and_congr
    · simp only [Span.Within, not_lt_zero, false_implies, implies_true, true_implies]
      omega
    · split
      next h =>
        have hno : ¬ EntryFits m stop ace := fun hfits => absurd hfits.2.1 (by omega)
        simp [hno]
      split
      next h =>
        have hno : ¬ EntryFits m stop ace := fun hfits => absurd hfits.2.2 (by omega)
        simp [hno]
      next h₂ h₃ =>
      have hfits : EntryFits m stop ace := ⟨by omega, by omega, by omega⟩
      apply (ih (by omega)).trans
      simp [hfits]

theorem visited_eq {fuel : ℕ} (h : ∀ i < count, EntryFits m stop (entryAt m ace i)) (hfuel : count < fuel) :
    AceIterator.visited m fuel ⟨ace, stop, count⟩ = (List.range count).map (entryAt m ace) ∧
      AceIterator.collect m fuel ⟨ace, stop, count⟩ = (List.range count).map (entryAt m ace) := by
  have hheader : sizeofAceHeader = 4 := rfl
  induction count generalizing ace fuel with
  | zero =>
    obtain ⟨fuel, rfl⟩ := Nat.exists_eq_succ_of_ne_zero (Nat.pos_iff_ne_zero.1 hfuel)
    simp [AceIterator.visited, AceIterator.collect, AceIterator.next]
  | succ count ih =>
    obtain ⟨fuel, rfl⟩ := Nat.exists_eq_succ_of_ne_zero (Nat.pos_iff_ne_zero.1 (Nat.zero_lt_of_lt hfuel))
    rw [Nat.forall_lt_succ_left] at h
    obtain ⟨⟨hend, hsize, hinside⟩, hrest⟩ := h
    simp only [entryAt] at hend hsize hinside hrest
    obtain ⟨hvisited, hcollect⟩ := ih hrest (Nat.lt_of_succ_lt_succ hfuel)
    have hnext : AceIterator.next m ⟨ace, stop, count + 1⟩ = some (ace, ⟨ace + aceSize m ace, stop, count⟩) := by
      rw [AceIterator.next, if_neg (by simp only; omega), if_neg (by simp only; omega)]
      rfl
    rw [AceIterator.visited, if_neg (by simp only; omega), AceIterator.collect, hnext, List.range_succ_eq_map]
    simp only [List.map_cons, map_map, hvisited, hcollect]
    exact ⟨rfl, rfl⟩

end Walks

section Checks
variable {m : Ram} {sd sdLength offset field : ℕ} {requiredInfo info : BitVec 32}

theorem rtlValidSidReads_within (hoffset : offset < sdLength) :
    (∀ r ∈ rtlValidSidReads m (sd + offset), r.Within ⟨sd, sdLength⟩) ↔ SidHeaderFits m sd sdLength offset := by
  simp only [rtlValidSidReads, SidHeaderFits, hoffset, true_implies, forall_mem_cons, Span.Within]
  split
  next h => simp [h]; omega
  next h =>
  rw [not_not] at h
  simp only [h, forall_mem_cons, not_mem_nil, false_implies, implies_true, and_true, true_implies]
  omega

theorem rtlValidAclReads_within (hoffset : offset < sdLength) :
    (∀ r ∈ rtlValidAclReads m (sd + offset), r.Within ⟨sd, sdLength⟩) ↔ AclHeadersFit m sd sdLength offset := by
  simp only [rtlValidAclReads, AclHeadersFit, hoffset, true_implies, forall_mem_cons]
  rw [and_iff_right (show Span.Within ⟨sd + offset, 1⟩ ⟨sd, sdLength⟩ from ⟨Nat.le_add_right _ _, by simp only; omega⟩)]
  split
  next hrevision =>
    simp only [not_mem_nil, false_implies, implies_true, true_iff]
    intro hlow hhigh
    omega
  next hrevision =>
  have hlow : aclRevision ≤ (m.byte (sd + offset)).toNat := by omega
  have hhigh : (m.byte (sd + offset)).toNat ≤ aclRevisionDs := by omega
  simp only [hlow, hhigh, true_implies, forall_mem_cons]
  apply and_congr
  · simp only [Span.Within]
    omega
  split
  next hsize => simp [Nat.not_le.2 hsize]
  next hsize =>
  simp only [Nat.le_of_not_lt hsize, true_implies, forall_mem_cons]
  apply and_congr
  · simp only [Span.Within]
    omega
  · exact validAcesReads_within (by omega)

theorem relativePartReads_within {valid : Ram → ℕ → Bool} {validReads : Ram → ℕ → List Span} {sizeReads : ℕ → List Span}
    {absentReads : List Span} {Fits : Prop} (hfield : field + 4 ≤ sdLength)
    (habsent : ∀ r ∈ absentReads, r.Within ⟨sd, sdLength⟩)
    (hout : sdLength ≤ m.u32 (sd + field) → Fits)
    (hvalid : m.u32 (sd + field) < sdLength →
      ((∀ r ∈ validReads m (sd + m.u32 (sd + field)), r.Within ⟨sd, sdLength⟩) ↔ Fits))
    (hsize : valid m (sd + m.u32 (sd + field)) = true →
      ∀ r ∈ sizeReads (sd + m.u32 (sd + field)), r ∈ validReads m (sd + m.u32 (sd + field))) :
    (∀ r ∈ relativePartReads m sd sdLength field valid validReads sizeReads absentReads, r.Within ⟨sd, sdLength⟩) ↔
      (m.u32 (sd + field) ≠ 0 → Fits) := by
  simp only [relativePartReads, forall_mem_cons]
  rw [and_iff_right (show Span.Within ⟨sd + field, 4⟩ ⟨sd, sdLength⟩ from ⟨le_add_right _ _, by simp only; omega⟩)]
  split
  next hzero =>
    simp only [hzero, ne_eq, not_true_eq_false, false_implies, iff_true]
    exact habsent
  next hne =>
  simp only [ne_eq, hne, not_false_eq_true, true_implies]
  split
  next hlength =>
    simp only [not_mem_nil, false_implies, implies_true, true_iff]
    exact hout hlength
  next hlength =>
  rw [forall_mem_append, ← hvalid (by omega), and_iff_left_iff_imp]
  intro hreads
  cases h : valid m (sd + m.u32 (sd + field)) with
  | false => simp
  | true =>
    intro r hr
    exact hreads r (hsize h r hr)

theorem sidPartReads_within (hfield : field + 4 ≤ sdLength) :
    (∀ r ∈ sidPartReads m sd sdLength field, r.Within ⟨sd, sdLength⟩) ↔
      (m.u32 (sd + field) ≠ 0 → SidHeaderFits m sd sdLength (m.u32 (sd + field))) := by
  apply relativePartReads_within hfield (by simp)
  · intro hlength hlt
    omega
  · exact rtlValidSidReads_within
  · intro hvalid r hr
    have hrevision : ¬ m.byte (sd + m.u32 (sd + field)) ≠ sidRevision := by
      intro hne
      simp [rtlValidSid, hne] at hvalid
    rw [rtlLengthSidReads, mem_singleton] at hr
    simp [rtlValidSidReads, hrevision, hr]

theorem aclPartReads_within (hlength : 20 ≤ sdLength) (hfield : field + 4 ≤ 20) :
    (∀ r ∈ aclPartReads m sd sdLength requiredInfo field info, r.Within ⟨sd, sdLength⟩) ↔
      (m.u32 (sd + field) ≠ 0 → AclHeadersFit m sd sdLength (m.u32 (sd + field))) := by
  apply relativePartReads_within (by omega)
  · split
    · simp
    · simp only [mem_singleton, forall_eq, Span.Within]
      omega
  · intro hlength hlt
    omega
  · exact rtlValidAclReads_within
  · intro hvalid r hr
    rw [aclSizeReads, mem_singleton] at hr
    rw [rtlValidAcl] at hvalid
    split at hvalid
    · cases hvalid
    next hrevision => simp [rtlValidAclReads, hrevision, hr]

theorem opens_iff : Opens m sd sdLength ↔ sd ≠ 0 ∧ sizeofSecurityDescriptorRelative ≤ sdLength ∧
    m.byte sd = securityDescriptorRevision ∧ isSelfRelative m sd = true :=
  ⟨fun h => ⟨h.nonnull, h.length, h.revision, h.selfRelative⟩, fun ⟨h₁, h₂, h₃, h₄⟩ => ⟨h₁, h₂, h₃, h₄⟩⟩

theorem guarded_within {ok : Bool} {first rest : List Span} {P Q : Prop}
    (hfirst : (∀ r ∈ first, r.Within ⟨sd, sdLength⟩) ↔ P) (hrest : (∀ r ∈ rest, r.Within ⟨sd, sdLength⟩) ↔ Q) :
    (∀ r ∈ first ++ (if !ok then [] else rest), r.Within ⟨sd, sdLength⟩) ↔ P ∧ (ok = true → Q) := by
  rw [forall_mem_append, hfirst]
  cases ok with
  | false => simp
  | true => simpa using fun _ => hrest

theorem reads_within_iff :
    (∀ r ∈ rtlValidRelativeSecurityDescriptorReads m sd sdLength requiredInfo, r.Within ⟨sd, sdLength⟩) ↔
      HeadersFit m sd sdLength requiredInfo := by
  have hmin : sizeofSecurityDescriptorRelative = 20 := rfl
  simp only [rtlValidRelativeSecurityDescriptorReads, HeadersFit, opens_iff]
  split
  next h => simp [h]
  next hsd =>
  split
  next h => simp [Nat.not_le.2 h]
  next hlength =>
  rw [forall_mem_cons,
    and_iff_right (show Span.Within ⟨sd, 1⟩ ⟨sd, sdLength⟩ from ⟨Nat.le_refl _, by simp only; omega⟩)]
  split
  next h => simp [h]
  next hrevision =>
  rw [forall_mem_cons,
    and_iff_right (show Span.Within ⟨sd + 2, 2⟩ ⟨sd, sdLength⟩ from ⟨Nat.le_add_right _ _, by simp only; omega⟩)]
  rw [not_not] at hrevision
  split
  next h =>
    rw [Bool.not_eq_true'] at h
    simp [h]
  next hself =>
  rw [Bool.not_eq_true, Bool.not_eq_false'] at hself
  simp only [ne_eq, hsd, not_false_eq_true, Nat.le_of_not_lt hlength, hrevision, hself, and_self, true_implies]
  apply guarded_within (sidPartReads_within (by omega))
  apply guarded_within (sidPartReads_within (by omega))
  apply guarded_within (aclPartReads_within (by omega) (by omega))
  exact aclPartReads_within (by omega) (by omega)

theorem accepted_iff : rtlValidRelativeSecurityDescriptor m sd sdLength requiredInfo = true ↔
    Passes m sd sdLength requiredInfo := by
  have hpasses : Passes m sd sdLength requiredInfo ↔ Opens m sd sdLength ∧
      validOwner m sd sdLength requiredInfo = true ∧ validGroup m sd sdLength requiredInfo = true ∧
      validDacl m sd sdLength requiredInfo = true ∧ validSacl m sd sdLength requiredInfo = true :=
    ⟨fun h => ⟨h.opens, h.owner, h.group, h.dacl, h.sacl⟩, fun ⟨h₁, h₂, h₃, h₄, h₅⟩ => ⟨h₁, h₂, h₃, h₄, h₅⟩⟩
  rw [hpasses, opens_iff, rtlValidRelativeSecurityDescriptor]
  split
  next h => simp [h]
  next hsd =>
  split
  next h => simp [Nat.not_le.2 h]
  next hlength =>
  split
  next h => simp [h]
  next hrevision =>
  rw [not_not] at hrevision
  split
  next h =>
    rw [Bool.not_eq_true'] at h
    simp [h]
  next hself =>
  rw [Bool.not_eq_true, Bool.not_eq_false'] at hself
  simp only [Bool.and_eq_true, ne_eq, hsd, not_false_eq_true, Nat.le_of_not_lt hlength, hrevision, hself, and_self,
    true_and, and_assoc]
  exact Iff.rfl

end Checks

section Access
variable {m : Ram} {sd sdLength offset field : ℕ} {requiredInfo : BitVec 32}

/-- A component that a check accepts ends in the buffer, exactly if its end does not wrap. -/
theorem part_inside_iff {valid : Ram → ℕ → Bool} {size : Ram → ℕ → ℕ} {absent : Bool} (hlength : sdLength < 2 ^ 32)
    (h : (if m.u32 (sd + field) ≠ 0 then validRelativePart m sd sdLength (m.u32 (sd + field)) valid size
      else absent) = true) :
    PartInside size m sd sdLength field ↔ EndFits size m sd field := by
  apply forall_congr'
  intro hne
  rw [if_pos hne, validRelativePart] at h
  split at h
  · cases h
  split at h
  · cases h
  split at h
  · cases h
  next hend =>
  constructor
  · intro hinside
    omega
  · intro hfits
    rw [mod_eq_of_lt hfits] at hend
    omega

theorem valid_of_part {valid : Ram → ℕ → Bool} {size : Ram → ℕ → ℕ} {absent : Bool} (hne : m.u32 (sd + field) ≠ 0)
    (h : (if m.u32 (sd + field) ≠ 0 then validRelativePart m sd sdLength (m.u32 (sd + field)) valid size
      else absent) = true) : valid m (sd + m.u32 (sd + field)) = true := by
  rw [if_pos hne, validRelativePart] at h
  split at h
  · cases h
  split at h
  · cases h
  next hvalid => simpa using hvalid

theorem entries_of_valid {acl : ℕ} (h : rtlValidAcl m acl = true) :
    ∀ i < aceCount m acl, EntryFits m (acl + aclSize m acl) (entryAt m (acl + sizeofAcl) i) := by
  rw [rtlValidAcl] at h
  split at h
  · cases h
  split at h
  · cases h
  exact validAces_iff.1 h

theorem toList_of_valid {acl : ℕ} (h : rtlValidAcl m acl = true) :
    (AceIterator.new m acl).toList m = (List.range (aceCount m acl)).map (entryAt m (acl + sizeofAcl)) :=
  (visited_eq (entries_of_valid h) (lt_succ_self _)).2

def AccessInside (m : Ram) (sd sdLength : ℕ) (x : ℕ × Span) : Prop :=
  x.2.Within ⟨x.1, aceSize m x.1⟩ ∧ x.2.Within ⟨sd, sdLength⟩

theorem entry_inside {acl i : ℕ} (h : rtlValidAcl m acl = true) (hi : i < aceCount m acl) (hacl : sd ≤ acl)
    (hend : acl + aclSize m acl ≤ sd + sdLength) :
    sd ≤ entryAt m (acl + sizeofAcl) i ∧ sizeofAceHeader ≤ aceSize m (entryAt m (acl + sizeofAcl) i) ∧
      entryAt m (acl + sizeofAcl) i + aceSize m (entryAt m (acl + sizeofAcl) i) ≤ sd + sdLength := by
  have hge : ∀ ace i, ace ≤ entryAt m ace i := by
    intro ace i
    induction i generalizing ace with
    | zero => exact Nat.le_refl _
    | succ i ih => exact Nat.le_trans (Nat.le_add_right _ _) (ih _)
  obtain ⟨-, hsize, hinside⟩ := entries_of_valid h i hi
  have := hge (acl + sizeofAcl) i
  exact ⟨by omega, hsize, by omega⟩

theorem headerReads_inside {acl : ℕ} (h : rtlValidAcl m acl = true) (hacl : sd ≤ acl)
    (hend : acl + aclSize m acl ≤ sd + sdLength) : ∀ x ∈ headerReads m acl, AccessInside m sd sdLength x := by
  intro x hx
  have hvisited := (visited_eq (entries_of_valid h) (lt_succ_self _)).1
  simp only [headerReads, AceIterator.new] at hx
  rw [hvisited] at hx
  simp only [map_map, mem_map, mem_range, Function.comp] at hx
  obtain ⟨i, hi, rfl⟩ := hx
  obtain ⟨hlow, hsize, hhigh⟩ := entry_inside h hi hacl hend
  simp only [AccessInside, Span.Within]
  omega

theorem typedReads_inside {ace : ℕ} (hlow : sd ≤ ace) (hhigh : ace + aceSize m ace ≤ sd + sdLength) :
    (∀ x ∈ typedReads m ace, AccessInside m sd sdLength x) ↔ HasRoom m ace := by
  have hmask : sizeofAccessMask = 4 := rfl
  have hsid : sidMinSize = 8 := rfl
  simp only [typedReads, forall_mem_cons, not_mem_nil, false_implies, implies_true, and_true, AccessInside,
    Span.Within, HasRoom, rtlLengthSid]
  omega

theorem sepCheckDaclAccessReads_inside {dacl : ℕ} (h : rtlValidAcl m dacl = true) (hacl : sd ≤ dacl)
    (hend : dacl + aclSize m dacl ≤ sd + sdLength) :
    (∀ x ∈ sepCheckDaclAccessReads m dacl, AccessInside m sd sdLength x) ↔
      ∀ i < aceCount m dacl, m.byte (entryAt m (dacl + sizeofAcl) i) = accessDeniedAceType ∨
        m.byte (entryAt m (dacl + sizeofAcl) i) = accessAllowedAceType → HasRoom m (entryAt m (dacl + sizeofAcl) i) := by
  rw [sepCheckDaclAccessReads, forall_mem_append, and_iff_right (headerReads_inside h hacl hend),
    toList_of_valid h]
  simp only [List.mem_flatMap, mem_map, mem_range, exists_exists_and_eq_and]
  constructor
  · intro hreads i hi htype
    obtain ⟨hlow, -, hhigh⟩ := entry_inside h hi hacl hend
    apply (typedReads_inside hlow hhigh).1
    intro x hx
    exact hreads x ⟨i, hi, by rw [if_pos htype]; exact hx⟩
  · rintro hroom x ⟨i, hi, hx⟩
    obtain ⟨hlow, -, hhigh⟩ := entry_inside h hi hacl hend
    split at hx
    next htype => exact (typedReads_inside hlow hhigh).2 (hroom i hi htype) x hx
    · cases hx

theorem find?_range_map {p : ℕ → Bool} {f : ℕ → ℕ} {n x : ℕ} :
    ((List.range n).map f).find? p = some x ↔ ∃ i < n, p (f i) = true ∧ (∀ j < i, p (f j) = false) ∧ f i = x := by
  simp only [List.find?_map, Option.map_eq_some_iff, List.find?_range_eq_some, Function.comp, mem_range,
    Bool.not_eq_true']
  constructor
  · rintro ⟨i, ⟨hp, hi, hbefore⟩, hx⟩
    exact ⟨i, hi, hp, hbefore, hx⟩
  · rintro ⟨i, hi, hp, hbefore, hx⟩
    exact ⟨i, ⟨hp, hi, hbefore⟩, hx⟩

theorem sepGetObjectIntegrityReads_inside {sacl : ℕ} (h : rtlValidAcl m sacl = true) (hacl : sd ≤ sacl)
    (hend : sacl + aclSize m sacl ≤ sd + sdLength) :
    (∀ x ∈ sepGetObjectIntegrityReads m sacl, AccessInside m sd sdLength x) ↔
      ∀ i < aceCount m sacl, m.byte (entryAt m (sacl + sizeofAcl) i) = systemMandatoryLabelAceType →
        (∀ j < i, m.byte (entryAt m (sacl + sizeofAcl) j) ≠ systemMandatoryLabelAceType) →
          HasRoom m (entryAt m (sacl + sizeofAcl) i) := by
  rw [sepGetObjectIntegrityReads, forall_mem_append, and_iff_right (headerReads_inside h hacl hend),
    toList_of_valid h]
  constructor
  · intro hreads i hi htype hfirst
    obtain ⟨hlow, -, hhigh⟩ := entry_inside h hi hacl hend
    apply (typedReads_inside hlow hhigh).1
    have hfind := find?_range_map (p := fun ace => decide (m.byte ace = systemMandatoryLabelAceType)).2
      ⟨i, hi, decide_eq_true htype, fun j hj => decide_eq_false (hfirst j hj), rfl⟩
    rw [hfind] at hreads
    exact hreads
  · intro hroom
    split
    · simp
    next ace hfind =>
    obtain ⟨i, hi, htype, hfirst, rfl⟩ := find?_range_map.1 hfind
    obtain ⟨hlow, -, hhigh⟩ := entry_inside h hi hacl hend
    exact (typedReads_inside hlow hhigh).2
      (hroom i hi (of_decide_eq_true htype) fun j hj => of_decide_eq_false (hfirst j hj))

theorem Passes.safe_iff (h : Passes m sd sdLength requiredInfo) (hlength : sdLength < 2 ^ 32) :
    SafeToEvaluate m sd sdLength ↔ Roomy m sd := by
  have howner := part_inside_iff hlength h.owner
  have hgroup := part_inside_iff hlength h.group
  have hdacl := part_inside_iff hlength h.dacl
  have hsacl := part_inside_iff hlength h.sacl
  have hptr : ∀ absolute relative, sdPtr m sd absolute relative ≠ 0 →
      m.u32 (sd + relative) ≠ 0 ∧ sdPtr m sd absolute relative = sd + m.u32 (sd + relative) := by
    intro absolute relative hp
    rw [sdPtr, h.opens.selfRelative, if_pos rfl] at hp ⊢
    split at hp
    next hne => exact ⟨hne, if_pos hne⟩
    · exact absurd rfl hp
  have hdaclPtr : sdGetDaclPtr m sd ≠ 0 → m.u32 (sd + 16) ≠ 0 ∧ sdGetDaclPtr m sd = sd + m.u32 (sd + 16) := by
    rw [sdGetDaclPtr]
    split
    · exact hptr 32 16
    · exact fun hp => absurd rfl hp
  have hsaclPtr : sdGetSaclPtr m sd ≠ 0 → m.u32 (sd + 12) ≠ 0 ∧ sdGetSaclPtr m sd = sd + m.u32 (sd + 12) := by
    rw [sdGetSaclPtr]
    split
    · exact hptr 24 12
    · exact fun hp => absurd rfl hp
  have hdaclReads : PartInside aclSize m sd sdLength 16 → sdGetDaclPtr m sd ≠ 0 →
      rtlValidAcl m (sdGetDaclPtr m sd) = true ∧ sd ≤ sdGetDaclPtr m sd ∧
        sdGetDaclPtr m sd + aclSize m (sdGetDaclPtr m sd) ≤ sd + sdLength := by
    intro hinside hp
    obtain ⟨hne, heq⟩ := hdaclPtr hp
    have := hinside hne
    rw [heq]
    exact ⟨valid_of_part hne h.dacl, le_add_right _ _, by omega⟩
  have hsaclReads : PartInside aclSize m sd sdLength 12 → sdGetSaclPtr m sd ≠ 0 →
      rtlValidAcl m (sdGetSaclPtr m sd) = true ∧ sd ≤ sdGetSaclPtr m sd ∧
        sdGetSaclPtr m sd + aclSize m (sdGetSaclPtr m sd) ≤ sd + sdLength := by
    intro hinside hp
    obtain ⟨hne, heq⟩ := hsaclPtr hp
    have := hinside hne
    rw [heq]
    exact ⟨valid_of_part hne h.sacl, le_add_right _ _, by omega⟩
  have hreads : (∀ x ∈ accessReads m sd, AccessInside m sd sdLength x) ↔
      (sdGetDaclPtr m sd ≠ 0 → ∀ x ∈ sepCheckDaclAccessReads m (sdGetDaclPtr m sd), AccessInside m sd sdLength x) ∧
        (sdGetSaclPtr m sd ≠ 0 → ∀ x ∈ sepGetObjectIntegrityReads m (sdGetSaclPtr m sd), AccessInside m sd sdLength x) := by
    rw [accessReads, forall_mem_append]
    apply and_congr <;> split <;> simp [*]
  constructor
  · intro hsafe
    obtain ⟨hd, hs⟩ := hreads.1 hsafe.entries
    refine ⟨howner.1 hsafe.owner, hgroup.1 hsafe.group, hdacl.1 hsafe.dacl, hsacl.1 hsafe.sacl, ?_, ?_⟩
    · intro hp
      obtain ⟨hvalid, hlow, hend⟩ := hdaclReads hsafe.dacl hp
      exact (sepCheckDaclAccessReads_inside hvalid hlow hend).1 (hd hp)
    · intro hp
      obtain ⟨hvalid, hlow, hend⟩ := hsaclReads hsafe.sacl hp
      exact (sepGetObjectIntegrityReads_inside hvalid hlow hend).1 (hs hp)
  · intro hroomy
    have hd := hdacl.2 hroomy.dacl
    have hs := hsacl.2 hroomy.sacl
    refine ⟨howner.2 hroomy.owner, hgroup.2 hroomy.group, hd, hs, hreads.2 ⟨?_, ?_⟩⟩
    · intro hp
      obtain ⟨hvalid, hlow, hend⟩ := hdaclReads hd hp
      exact (sepCheckDaclAccessReads_inside hvalid hlow hend).2 (hroomy.entries hp)
    · intro hp
      obtain ⟨hvalid, hlow, hend⟩ := hsaclReads hs hp
      exact (sepGetObjectIntegrityReads_inside hvalid hlow hend).2 (hroomy.label hp)

end Access

/-- Validation reads the buffer only and accepts what is safe, exactly if the headers it comes to
are in the buffer and, unless refused, no end wraps and the evaluated entries have room. -/
theorem validatesSafely_iff (m : Ram) (sd : ℕ) (sdLength requiredInfo : BitVec 32) :
    ValidatesSafely m sd sdLength.toNat requiredInfo ↔ HeadersFit m sd sdLength.toNat requiredInfo ∧
      (Passes m sd sdLength.toNat requiredInfo → Roomy m sd) := by
  apply and_congr reads_within_iff
  rw [accepted_iff]
  apply forall_congr'
  intro h
  exact h.safe_iff sdLength.isLt

/-- At 0x1000 a descriptor of 32 bytes, whose DACL has one entry that allows and only its header. -/
def bareAce : Ram :=
  ⟨fun a => ([1, 0, 4, 0x80, 0, 0, 0, 0, 0, 0, 0, 0, 0, 0, 0, 0, 20, 0, 0, 0,
    2, 0, 12, 0, 1, 0, 0, 0, 0, 0, 4, 0] : List (BitVec 8)).getD (a - 0x1000) 0, []⟩

/-- It is accepted, and its mask lies behind the buffer. -/
theorem bareAce_accepted : ¬ ValidatesSafely bareAce 0x1000 32 0#32 := by
  rintro ⟨-, hsafe⟩
  have haccepted : rtlValidRelativeSecurityDescriptor bareAce 0x1000 32 0#32 = true := by decide
  have hread : (0x101C, (⟨0x1020, 4⟩ : Span)) ∈ accessReads bareAce 0x1000 := by decide
  have hend := ((hsafe haccepted).entries _ hread).2.2
  exact absurd hend (by decide)

end Layout

end XenOS.Se
