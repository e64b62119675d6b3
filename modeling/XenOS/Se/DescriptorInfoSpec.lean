import XenOS.Se.DescriptorInfo
import XenOS.Se.DescriptorSpec
import XenOS.Se.ValidRelative

/-! Replacing parts of a security descriptor. Of the new control flags only `SE_SELF_RELATIVE` and
the two present bits are kept, and a selected list that the modification lacks becomes a null list.
-/

namespace XenOS.Se

open General List Ram

namespace Layout

/-! ### Building a self-relative descriptor -/

/-- A self-relative descriptor under construction: the control so far, and the component copied for
each field. -/
structure Built (m₀ m : Ram) (dest limit offset : ℕ) (control : BitVec 16) (parts : ℕ → Option (List (BitVec 8))) : Prop where
  within : Within m₀ m dest limit
  least : 20 ≤ offset
  control_eq : sdControl m dest = control
  part : ∀ field ∈ [4, 8, 12, 16], PartAt m dest field offset (parts field)

section Building
variable {m₀ m : Ram} {dest limit offset field n : ℕ} {control bits : BitVec 16}
variable {parts : ℕ → Option (List (BitVec 8))} {size : Ram → ℕ → ℕ}

theorem sdControl_write (m : Ram) (sd : ℕ) (control : BitVec 16) :
    sdControl (m.write (sd + 2) (leBytes 2 control.toNat)) sd = control := by
  have hlt : control.toNat < 256 ^ 2 := control.isLt
  rw [sdControl, Ram.u16, read_write_of_length (by simp), leNat_leBytes hlt]
  simp

theorem sdControl_congr {m m' : Ram} {sd : ℕ} (h : ∀ i < 4, m'.byte (sd + i) = m.byte (sd + i)) :
    sdControl m' sd = sdControl m sd := by
  rw [sdControl, sdControl, Ram.u16, Ram.u16]
  congr 2
  apply read_congr
  intro i hi
  rw [Nat.add_assoc]
  exact h _ (by omega)

theorem built_start (hn : 20 ≤ n) (hlimit : n ≤ limit) :
    Built m (startRelative m dest n) dest limit 20 seSelfRelative fun _ => none := by
  have hzero : Within m (m.write (dest + 0) (replicate n 0)) dest limit :=
    Within.refl.write (by simp; omega)
  have hrevision : Within m ((m.write (dest + 0) (replicate n 0)).write (dest + 0) [securityDescriptorRevision]) dest limit :=
    hzero.write (by simp; omega)
  refine ⟨hrevision.write (by simp; omega), Nat.le_refl _, sdControl_write _ _ _, ?_⟩
  intro field hfield
  have hle : 4 ≤ field ∧ field ≤ 16 := by
    simp only [mem_cons, not_mem_nil, or_false] at hfield
    omega
  have hread : (startRelative m dest n).read (dest + field) 4 = replicate 4 0 := by
    rw [startRelative, read_write_of_disjoint (by simp; omega), read_write_of_disjoint (by simp; omega)]
    apply ext_getElem?
    intro i
    by_cases hi : i < 4
    · rw [getElem?_read hi, Nat.add_assoc, byte_write_self (by simp; omega), getD_eq_getElem?_getD,
        getElem?_replicate, getElem?_replicate, if_pos (by omega), if_pos hi]
      rfl
    · rw [getElem?_eq_none (by simp; omega), getElem?_eq_none (by simp; omega)]
  show Ram.u32 _ _ = 0
  rw [Ram.u32, hread]
  rfl

section
variable (h : Built m₀ m dest limit offset control parts)
include h

theorem Built.orControl (hlimit : 20 ≤ limit) :
    Built m₀ (orControl m dest bits) dest limit offset (control ||| bits) parts := by
  refine ⟨h.within.write (by simp; omega), h.least, ?_, ?_⟩
  · rw [Layout.orControl, sdControl_write, h.control_eq]
  · intro field hfield
    have hle : 4 ≤ field := by
      simp only [mem_cons, not_mem_nil, or_false] at hfield
      omega
    have hframe : ∀ i, 4 ≤ i → (Layout.orControl m dest bits).byte (dest + i) = m.byte (dest + i) := by
      intro i hi
      exact byte_write_of_lt (by simp; omega)
    have hread : ∀ k l, 4 ≤ k → (Layout.orControl m dest bits).read (dest + k) l = m.read (dest + k) l := by
      intro k l hk
      apply read_congr
      intro i hi
      rw [Nat.add_assoc]
      exact hframe _ (by omega)
    have hpart := h.part field hfield
    cases hbytes : parts field with
    | none =>
      rw [hbytes] at hpart
      show Ram.u32 _ _ = 0
      rw [Ram.u32, hread field 4 hle]
      exact hpart
    | some bs =>
      rw [hbytes] at hpart
      obtain ⟨o, hge, hend, hoffset, hsame⟩ := hpart
      refine ⟨o, hge, hend, ?_, ?_⟩
      · rw [Ram.u32, hread field 4 hle]
        exact hoffset
      · rw [hread o _ (by omega)]
        exact hsame

theorem Built.copy (part : ℕ) (hfield : field ∈ [4, 8, 12, 16])
    (hnone : parts field = none) (hsize : Measures size) (hlimit : limit < 2 ^ 32)
    (hpart : part ≠ 0 → 8 ≤ size m₀ part ∧ Apart dest limit part (size m₀ part))
    (hfits : offset + partLength size m₀ part ≤ limit) :
    ∃ m', copyPart size m dest field offset part = (m', offset + partLength size m₀ part) ∧
      Built m₀ m' dest limit (offset + partLength size m₀ part) control
        (Function.update parts field (partBytes size m₀ part)) := by
  have hfields : field = 4 ∨ field = 8 ∨ field = 12 ∨ field = 16 := by
    simpa only [mem_cons, not_mem_nil, or_false] using hfield
  have hleast := h.least
  have hzero : m.u32 (dest + field) = 0 := by
    have := h.part field hfield
    rwa [hnone] at this
  obtain ⟨m', hcopy, hin, hframe, hnew⟩ := copyPart_spec field offset part hsize h.within (by omega) h.least hzero hlimit
    hpart hfits
  refine ⟨m', hcopy, hin, by omega, ?_, ?_⟩
  · rw [← h.control_eq]
    apply sdControl_congr
    intro i hi
    exact hframe i (by omega) (by omega)
  · intro other hother
    by_cases heq : other = field
    · subst heq
      rw [Function.update_self]
      exact hnew
    · rw [Function.update_of_ne heq]
      have hothers : other = 4 ∨ other = 8 ∨ other = 12 ∨ other = 16 := by
        simpa only [mem_cons, not_mem_nil, or_false] using hother
      exact ((h.part other hother).frame hframe (by omega) (by omega) (by omega) h.least).mono (Nat.le_add_right _ _)

theorem Built.copyAcl (present : Bool) (bits : BitVec 16) (part : ℕ)
    (hfield : field ∈ [4, 8, 12, 16]) (hnone : parts field = none) (hlimit : limit < 2 ^ 32)
    (habsent : present = false → part = 0)
    (hpart : part ≠ 0 → 8 ≤ aclSize m₀ part ∧ Apart dest limit part (aclSize m₀ part))
    (hfits : offset + partLength aclSize m₀ part ≤ limit) :
    ∃ m', (if present then copyPart aclSize (Layout.orControl m dest bits) dest field offset part else (m, offset)) =
        (m', offset + partLength aclSize m₀ part) ∧
      Built m₀ m' dest limit (offset + partLength aclSize m₀ part) (if present then control ||| bits else control)
        (Function.update parts field (partBytes aclSize m₀ part)) := by
  have hleast := h.least
  cases present with
  | true => exact (h.orControl (by omega)).copy part hfield hnone measures_aclSize hlimit hpart hfits
  | false =>
    have hzero := habsent rfl
    subst hzero
    refine ⟨m, rfl, ?_⟩
    have hsame : Function.update parts field (partBytes aclSize m₀ 0) = parts := by
      rw [← hnone.trans (show none = partBytes aclSize m₀ 0 from rfl)]
      exact Function.update_eq_self _ _
    rw [hsame]
    exact h

end

end Building

/-! ### What a descriptor says -/

def ownerOf (m : Ram) (sd : ℕ) : Option (List (BitVec 8)) :=
  if sd = 0 then none else partBytes rtlLengthSid m (sdGetOwnerPtr m sd)

def groupOf (m : Ram) (sd : ℕ) : Option (List (BitVec 8)) :=
  if sd = 0 then none else partBytes rtlLengthSid m (sdGetGroupPtr m sd)

def daclOf (m : Ram) (sd : ℕ) : Bool × Option (List (BitVec 8)) :=
  if sd = 0 then (false, none) else (hasDacl m sd, partBytes aclSize m (sdGetDaclPtr m sd))

def saclOf (m : Ram) (sd : ℕ) : Bool × Option (List (BitVec 8)) :=
  if sd = 0 then (false, none) else (hasSacl m sd, partBytes aclSize m (sdGetSaclPtr m sd))

def flagsOf (m : Ram) (sd : ℕ) (mask : BitVec 16) : BitVec 16 := if sd = 0 then 0 else sdControl m sd &&& mask

structure Holds (m₀ m : Ram) (dest limit : ℕ) (control : BitVec 16) (owner group sacl dacl : ℕ) : Prop where
  within : Within m₀ m dest limit
  control_eq : sdControl m dest = control
  owner : PartAt m dest 4 limit (partBytes rtlLengthSid m₀ owner)
  group : PartAt m dest 8 limit (partBytes rtlLengthSid m₀ group)
  sacl : PartAt m dest 12 limit (partBytes aclSize m₀ sacl)
  dacl : PartAt m dest 16 limit (partBytes aclSize m₀ dacl)

section Says
variable {m₀ m : Ram} {dest limit owner group sacl dacl : ℕ} {control : BitVec 16}

section
variable (h : Holds m₀ m dest limit control owner group sacl dacl)
include h

theorem Holds.ptr (hself : control &&& seSelfRelative ≠ 0)
    (absolute relative : ℕ) : sdPtr m dest absolute relative = relPtr m dest relative := by
  have hrelative : isSelfRelative m dest = true := by
    rw [isSelfRelative, h.control_eq]
    exact decide_eq_true hself
  rw [sdPtr, hrelative]
  rfl

theorem Holds.ownerOf_eq (hself : control &&& seSelfRelative ≠ 0)
    (hdest : dest ≠ 0) : ownerOf m dest = partBytes rtlLengthSid m₀ owner := by
  rw [ownerOf, if_neg hdest, sdGetOwnerPtr, h.ptr hself]
  exact h.owner.bytes measures_rtlLengthSid fun _ => rtlLengthSid_ge _ _

theorem Holds.groupOf_eq (hself : control &&& seSelfRelative ≠ 0)
    (hdest : dest ≠ 0) : groupOf m dest = partBytes rtlLengthSid m₀ group := by
  rw [groupOf, if_neg hdest, sdGetGroupPtr, h.ptr hself]
  exact h.group.bytes measures_rtlLengthSid fun _ => rtlLengthSid_ge _ _

theorem Holds.daclOf_eq (hself : control &&& seSelfRelative ≠ 0)
    (hdest : dest ≠ 0) (hdacl : dacl ≠ 0 → 8 ≤ aclSize m₀ dacl) (habsent : control &&& seDaclPresent = 0 → dacl = 0) :
    daclOf m dest = (decide (control &&& seDaclPresent ≠ 0), partBytes aclSize m₀ dacl) := by
  have hbytes := h.dacl.bytes measures_aclSize hdacl
  rw [daclOf, if_neg hdest, sdGetDaclPtr, hasDacl, h.control_eq, h.ptr hself]
  by_cases hpresent : control &&& seDaclPresent = 0
  · simp [hpresent, habsent hpresent, partBytes]
  · rw [decide_eq_true hpresent, if_pos rfl, hbytes]

theorem Holds.saclOf_eq (hself : control &&& seSelfRelative ≠ 0)
    (hdest : dest ≠ 0) (hsacl : sacl ≠ 0 → 8 ≤ aclSize m₀ sacl) (habsent : control &&& seSaclPresent = 0 → sacl = 0) :
    saclOf m dest = (decide (control &&& seSaclPresent ≠ 0), partBytes aclSize m₀ sacl) := by
  have hbytes := h.sacl.bytes measures_aclSize hsacl
  rw [saclOf, if_neg hdest, sdGetSaclPtr, hasSacl, h.control_eq, h.ptr hself]
  by_cases hpresent : control &&& seSaclPresent = 0
  · simp [hpresent, habsent hpresent, partBytes]
  · rw [decide_eq_true hpresent, if_pos rfl, hbytes]

end

end Says

/-! ### The new descriptor -/

section Set
variable {m : Ram} {alloc : ℕ → ℕ} {info : BitVec 32} {modificationSd oldSd dest size : ℕ}

/-- The new block meets no component that is copied, and a list is at least its header. -/
structure Fresh (m : Ram) (info : BitVec 32) (modificationSd oldSd dest size : ℕ) : Prop where
  owner : newOwner m info modificationSd oldSd ≠ 0 →
    Apart dest size (newOwner m info modificationSd oldSd) (rtlLengthSid m (newOwner m info modificationSd oldSd))
  group : newGroup m info modificationSd oldSd ≠ 0 →
    Apart dest size (newGroup m info modificationSd oldSd) (rtlLengthSid m (newGroup m info modificationSd oldSd))
  dacl : (newDacl m info modificationSd oldSd).1 ≠ 0 → 8 ≤ aclSize m (newDacl m info modificationSd oldSd).1 ∧
    Apart dest size (newDacl m info modificationSd oldSd).1 (aclSize m (newDacl m info modificationSd oldSd).1)
  sacl : (newSacl m info modificationSd oldSd).1 ≠ 0 → 8 ≤ aclSize m (newSacl m info modificationSd oldSd).1 ∧
    Apart dest size (newSacl m info modificationSd oldSd).1 (aclSize m (newSacl m info modificationSd oldSd).1)

theorem addSize_eq (size : Ram → ℕ → ℕ) (m : Ram) (part sum : ℕ) : addSize size m part sum = sum + partLength size m part := by
  by_cases h : part = 0 <;> simp [addSize, partLength, h]

theorem chooseAcl_absent {component : BitVec 32} {has : Ram → ℕ → Bool} {get : Ram → ℕ → ℕ}
    (h : (chooseAcl m info modificationSd oldSd component has get).2 = false) :
    (chooseAcl m info modificationSd oldSd component has get).1 = 0 := by
  unfold chooseAcl at h ⊢
  split at h
  · split at h <;> cases h
  next hselect =>
  rw [if_neg hselect]
  split at h
  · cases h
  next hold => rw [if_neg hold]

theorem newSize_eq : newSize m info modificationSd oldSd =
    20 + partLength rtlLengthSid m (newOwner m info modificationSd oldSd) +
      partLength rtlLengthSid m (newGroup m info modificationSd oldSd) +
      partLength aclSize m (newDacl m info modificationSd oldSd).1 +
      partLength aclSize m (newSacl m info modificationSd oldSd).1 := by
  have hacl : ∀ (c : ℕ × Bool) n, (c.2 = false → c.1 = 0) →
      (if c.2 then n + partLength aclSize m c.1 else n) = n + partLength aclSize m c.1 := by
    intro c n habsent
    cases h : c.2 with
    | true => rfl
    | false => simp [partLength, habsent h]
  simp only [newSize, addSize_eq]
  rw [hacl (newDacl m info modificationSd oldSd) _ chooseAcl_absent,
    hacl (newSacl m info modificationSd oldSd) _ chooseAcl_absent]
  rfl

theorem newSize_lt : newSize m info modificationSd oldSd < 2 ^ 32 := by
  have howner := partLength_lt (rtlLengthSid_lt m) (newOwner m info modificationSd oldSd)
  have hgroup := partLength_lt (rtlLengthSid_lt m) (newGroup m info modificationSd oldSd)
  have hdacl := partLength_lt (aclSize_lt m) (newDacl m info modificationSd oldSd).1
  have hsacl := partLength_lt (aclSize_lt m) (newSacl m info modificationSd oldSd).1
  rw [newSize_eq]
  omega

def newControl (m : Ram) (info : BitVec 32) (modificationSd oldSd : ℕ) : BitVec 16 :=
  let control := if (newSacl m info modificationSd oldSd).2 then seSelfRelative ||| seSaclPresent else seSelfRelative
  if (newDacl m info modificationSd oldSd).2 then control ||| seDaclPresent else control

theorem seSetSecurityDescriptorInfoEx_spec (hmodification : modificationSd ≠ 0)
    (hbuffer : alloc (newSize m info modificationSd oldSd) ≠ 0)
    (hfresh : Fresh m info modificationSd oldSd (alloc (newSize m info modificationSd oldSd))
      (newSize m info modificationSd oldSd)) :
    ∃ m', seSetSecurityDescriptorInfoEx m alloc (some info) modificationSd (some oldSd) =
        ⟨.success, some (alloc (newSize m info modificationSd oldSd)), if oldSd ≠ 0 then [oldSd] else [], m'⟩ ∧
      Holds m m' (alloc (newSize m info modificationSd oldSd)) (newSize m info modificationSd oldSd)
        (newControl m info modificationSd oldSd) (newOwner m info modificationSd oldSd)
        (newGroup m info modificationSd oldSd) (newSacl m info modificationSd oldSd).1
        (newDacl m info modificationSd oldSd).1 := by
  have hsize : newSize m info modificationSd oldSd = _ := newSize_eq
  have hlimit : newSize m info modificationSd oldSd < 2 ^ 32 := newSize_lt
  generalize hlength : newSize m info modificationSd oldSd = length at *
  generalize hblock : alloc length = buffer at *
  have h₀ : Built m (startRelative m buffer length) buffer length 20 seSelfRelative fun _ => none :=
    built_start (by omega) (Nat.le_refl _)
  obtain ⟨m₁, hcopy₁, h₁⟩ := h₀.copy (newOwner m info modificationSd oldSd) (show 4 ∈ _ by decide) rfl
    measures_rtlLengthSid hlimit (fun hp => ⟨rtlLengthSid_ge _ _, hfresh.owner hp⟩) (by omega)
  obtain ⟨m₂, hcopy₂, h₂⟩ := h₁.copy (newGroup m info modificationSd oldSd) (show 8 ∈ _ by decide) rfl
    measures_rtlLengthSid hlimit (fun hp => ⟨rtlLengthSid_ge _ _, hfresh.group hp⟩) (by omega)
  obtain ⟨m₃, hcopy₃, h₃⟩ := h₂.copyAcl (newSacl m info modificationSd oldSd).2 seSaclPresent
    (newSacl m info modificationSd oldSd).1 (show 12 ∈ _ by decide) rfl hlimit chooseAcl_absent hfresh.sacl (by omega)
  obtain ⟨m₄, hcopy₄, h₄⟩ := h₃.copyAcl (newDacl m info modificationSd oldSd).2 seDaclPresent
    (newDacl m info modificationSd oldSd).1 (show 16 ∈ _ by decide) rfl hlimit chooseAcl_absent hfresh.dacl (by omega)
  refine ⟨m₄, ?_, h₄.within, h₄.control_eq, ?_, ?_, ?_, ?_⟩
  · simp only [seSetSecurityDescriptorInfoEx, if_neg hmodification, hlength, hblock, if_neg hbuffer,
      sizeofSecurityDescriptorRelative, hcopy₁, hcopy₂, hcopy₃, hcopy₄]
  · exact (h₄.part 4 (by decide)).mono (by omega)
  · exact (h₄.part 8 (by decide)).mono (by omega)
  · exact (h₄.part 12 (by decide)).mono (by omega)
  · exact (h₄.part 16 (by decide)).mono (by omega)

end Set

/-! ### Query -/

section Query
variable {m : Ram} {info : BitVec 32} {sd dest limit length : ℕ}

/-- The buffer meets neither the control nor a component that is copied, and a list is at least its header. -/
structure QueryFresh (m : Ram) (info : BitVec 32) (sd dest limit : ℕ) : Prop where
  header : Apart dest limit sd 4
  owner : queryOwner m info sd ≠ 0 → Apart dest limit (queryOwner m info sd) (rtlLengthSid m (queryOwner m info sd))
  group : queryGroup m info sd ≠ 0 → Apart dest limit (queryGroup m info sd) (rtlLengthSid m (queryGroup m info sd))
  dacl : queryDacl m info sd ≠ 0 →
    8 ≤ aclSize m (queryDacl m info sd) ∧ Apart dest limit (queryDacl m info sd) (aclSize m (queryDacl m info sd))
  sacl : querySacl m info sd ≠ 0 →
    8 ≤ aclSize m (querySacl m info sd) ∧ Apart dest limit (querySacl m info sd) (aclSize m (querySacl m info sd))

def queryControl (m : Ram) (info : BitVec 32) (sd : ℕ) : BitVec 16 :=
  let control :=
    if selects info daclSecurityInformation then
      seSelfRelative ||| (sdControl m sd &&& (seDaclPresent ||| seDaclDefaulted))
    else seSelfRelative
  if selects info saclSecurityInformation then
    control ||| (sdControl m sd &&& (seSaclPresent ||| seSaclDefaulted))
  else control

theorem queryRequiredSize_eq : queryRequiredSize m info sd =
    20 + partLength rtlLengthSid m (queryOwner m info sd) + partLength rtlLengthSid m (queryGroup m info sd) +
      partLength aclSize m (queryDacl m info sd) + partLength aclSize m (querySacl m info sd) := by
  simp only [queryRequiredSize, addSize_eq]
  rfl

theorem queryRequiredSize_lt : queryRequiredSize m info sd < 2 ^ 32 := by
  have howner := partLength_lt (rtlLengthSid_lt m) (queryOwner m info sd)
  have hgroup := partLength_lt (rtlLengthSid_lt m) (queryGroup m info sd)
  have hdacl := partLength_lt (aclSize_lt m) (queryDacl m info sd)
  have hsacl := partLength_lt (aclSize_lt m) (querySacl m info sd)
  rw [queryRequiredSize_eq]
  omega

theorem seQuerySecurityDescriptorInfo_spec (hsd : sd ≠ 0) (hdest : dest ≠ 0) (hlength : queryRequiredSize m info sd ≤ length)
    (hfresh : QueryFresh m info sd dest (queryRequiredSize m info sd)) :
    ∃ m', seQuerySecurityDescriptorInfo m (some info) dest (some length) (some sd) =
        (.success, some (queryRequiredSize m info sd), m') ∧
      Holds m m' dest (queryRequiredSize m info sd) (queryControl m info sd) (queryOwner m info sd)
        (queryGroup m info sd) (querySacl m info sd) (queryDacl m info sd) := by
  have hsize : queryRequiredSize m info sd = _ := queryRequiredSize_eq
  have hlimit : queryRequiredSize m info sd < 2 ^ 32 := queryRequiredSize_lt
  generalize hrequired : queryRequiredSize m info sd = required at *
  have hcontrol : ∀ m', Within m m' dest required → sdControl m' sd = sdControl m sd := by
    intro m' hm'
    apply sdControl_congr
    intro i hi
    apply hm'.outside
    rcases hfresh.header with h | h <;> omega
  have h₀ : Built m (startRelative m dest 20) dest required 20 seSelfRelative fun _ => none :=
    built_start (Nat.le_refl _) (by omega)
  obtain ⟨m₁, hcopy₁, h₁⟩ := h₀.copy (queryOwner m info sd) (show 4 ∈ _ by decide) rfl measures_rtlLengthSid hlimit
    (fun hp => ⟨rtlLengthSid_ge _ _, hfresh.owner hp⟩) (by omega)
  obtain ⟨m₂, hcopy₂, h₂⟩ := h₁.copy (queryGroup m info sd) (show 8 ∈ _ by decide) rfl measures_rtlLengthSid hlimit
    (fun hp => ⟨rtlLengthSid_ge _ _, hfresh.group hp⟩) (by omega)
  obtain ⟨m₃, hcopy₃, h₃⟩ := h₂.copyAcl (selects info daclSecurityInformation)
    (sdControl m sd &&& (seDaclPresent ||| seDaclDefaulted)) (queryDacl m info sd) (show 16 ∈ _ by decide) rfl hlimit
    (fun h => by simp [queryDacl, h]) hfresh.dacl (by omega)
  obtain ⟨m₄, hcopy₄, h₄⟩ := h₃.copyAcl (selects info saclSecurityInformation)
    (sdControl m sd &&& (seSaclPresent ||| seSaclDefaulted)) (querySacl m info sd) (show 12 ∈ _ by decide) rfl hlimit
    (fun h => by simp [querySacl, h]) hfresh.sacl (by omega)
  refine ⟨m₄, ?_, h₄.within, h₄.control_eq, ?_, ?_, ?_, ?_⟩
  · have hle : ¬ length < required := by omega
    simp only [seQuerySecurityDescriptorInfo, if_neg hsd, hrequired, Nat.mod_eq_of_lt hlimit, if_neg hle, if_neg hdest,
      sizeofSecurityDescriptorRelative, hcopy₁, hcopy₂, hcontrol m₂ h₂.within, hcopy₃, hcontrol m₃ h₃.within, hcopy₄]
  · exact (h₄.part 4 (by decide)).mono (by omega)
  · exact (h₄.part 8 (by decide)).mono (by omega)
  · exact (h₄.part 12 (by decide)).mono (by omega)
  · exact (h₄.part 16 (by decide)).mono (by omega)

theorem queryControl_bits (m : Ram) (info : BitVec 32) (sd : ℕ) : queryControl m info sd &&& seSelfRelative ≠ 0 ∧
    (selects info daclSecurityInformation = true →
      queryControl m info sd &&& seDaclPresent = sdControl m sd &&& seDaclPresent) ∧
    (selects info saclSecurityInformation = true →
      queryControl m info sd &&& seSaclPresent = sdControl m sd &&& seSaclPresent) := by
  have hsplit : ∀ a b c d : BitVec 16, (a ||| (b &&& c)) &&& d = (a &&& d) ||| (b &&& (c &&& d)) := by
    intro a b c d
    rw [BitVec.and_or_distrib_right, BitVec.and_assoc]
  have hdd : (seDaclPresent ||| seDaclDefaulted) &&& seDaclPresent = seDaclPresent := rfl
  have hss : (seSaclPresent ||| seSaclDefaulted) &&& seSaclPresent = seSaclPresent := rfl
  have hds : (seDaclPresent ||| seDaclDefaulted) &&& seSaclPresent = 0 := rfl
  have hsd : (seSaclPresent ||| seSaclDefaulted) &&& seDaclPresent = 0 := rfl
  have hdr : (seDaclPresent ||| seDaclDefaulted) &&& seSelfRelative = 0 := rfl
  have hsr : (seSaclPresent ||| seSaclDefaulted) &&& seSelfRelative = 0 := rfl
  have hr : seSelfRelative &&& seSelfRelative ≠ 0 := by decide
  have hrd : seSelfRelative &&& seDaclPresent = 0 := rfl
  have hrs : seSelfRelative &&& seSaclPresent = 0 := rfl
  have hor : ∀ a : BitVec 16, a ||| 0 = a := fun a => BitVec.or_zero
  have hro : ∀ a : BitVec 16, 0 ||| a = a := fun a => BitVec.zero_or
  have hand : ∀ a : BitVec 16, a &&& 0 = 0 := fun a => BitVec.and_zero
  unfold queryControl
  cases selects info daclSecurityInformation <;> cases selects info saclSecurityInformation <;>
    simp only [if_true, if_false, Bool.false_eq_true, false_implies, true_implies, hsplit, hdd, hss, hds, hsd, hdr, hsr,
      hrd, hrs, hor, hro, hand, hr, ne_eq, not_false_eq_true, and_self]

structure Answers (m : Ram) (info : BitVec 32) (sd : ℕ) (m' : Ram) (dest : ℕ) : Prop where
  owner : selects info ownerSecurityInformation = true → ownerOf m' dest = ownerOf m sd
  group : selects info groupSecurityInformation = true → groupOf m' dest = groupOf m sd
  dacl : selects info daclSecurityInformation = true → daclOf m' dest = daclOf m sd
  sacl : selects info saclSecurityInformation = true → saclOf m' dest = saclOf m sd

theorem Holds.answers {m' : Ram} (h : Holds m m' dest limit (queryControl m info sd) (queryOwner m info sd)
    (queryGroup m info sd) (querySacl m info sd) (queryDacl m info sd)) (hsd : sd ≠ 0) (hdest : dest ≠ 0)
    (hfresh : QueryFresh m info sd dest limit) : Answers m info sd m' dest := by
  obtain ⟨hself, hdacl, hsacl⟩ := queryControl_bits m info sd
  refine ⟨?_, ?_, ?_, ?_⟩
  · intro hselect
    rw [h.ownerOf_eq hself hdest, ownerOf, if_neg hsd, queryOwner, if_pos hselect]
  · intro hselect
    rw [h.groupOf_eq hself hdest, groupOf, if_neg hsd, queryGroup, if_pos hselect]
  · intro hselect
    have hptr : queryDacl m info sd = sdGetDaclPtr m sd := by
      cases hhas : hasDacl m sd <;> simp [queryDacl, sdGetDaclPtr, hselect, hhas]
    have habsent : queryControl m info sd &&& seDaclPresent = 0 → queryDacl m info sd = 0 := by
      intro hzero
      have hhas : hasDacl m sd = false := decide_eq_false (by rw [← hdacl hselect]; exact not_not.2 hzero)
      simp [queryDacl, hhas]
    rw [h.daclOf_eq hself hdest (fun hp => (hfresh.dacl hp).1) habsent, hdacl hselect, hptr, daclOf, if_neg hsd]
    rfl
  · intro hselect
    have hptr : querySacl m info sd = sdGetSaclPtr m sd := by
      cases hhas : hasSacl m sd <;> simp [querySacl, sdGetSaclPtr, hselect, hhas]
    have habsent : queryControl m info sd &&& seSaclPresent = 0 → querySacl m info sd = 0 := by
      intro hzero
      have hhas : hasSacl m sd = false := decide_eq_false (by rw [← hsacl hselect]; exact not_not.2 hzero)
      simp [querySacl, hhas]
    rw [h.saclOf_eq hself hdest (fun hp => (hfresh.sacl hp).1) habsent, hsacl hselect, hptr, saclOf, if_neg hsd]
    rfl

end Query

/-! ### Replacing parts -/

/-- After a success queries answer with the selected components of the modification and the others
of the old descriptor with their flags, all inside the new block. -/
structure ReplacesParts (m : Ram) (info : BitVec 32) (modificationSd oldSd : ℕ) (m' : Ram) (new size : ℕ) : Prop where
  queried : ∀ (query : BitVec 32) (dest length : ℕ), dest ≠ 0 → queryRequiredSize m' query new ≤ length →
    Apart dest (queryRequiredSize m' query new) new size →
    ∃ m'', seQuerySecurityDescriptorInfo m' (some query) dest (some length) (some new) =
        (.success, some (queryRequiredSize m' query new), m'') ∧
      (selects query ownerSecurityInformation = true → selects info ownerSecurityInformation = true →
        ownerOf m'' dest = ownerOf m modificationSd) ∧
      (selects query groupSecurityInformation = true → selects info groupSecurityInformation = true →
        groupOf m'' dest = groupOf m modificationSd) ∧
      (selects query daclSecurityInformation = true → selects info daclSecurityInformation = true →
        daclOf m'' dest = daclOf m modificationSd) ∧
      (selects query saclSecurityInformation = true → selects info saclSecurityInformation = true →
        saclOf m'' dest = saclOf m modificationSd)
  owner : selects info ownerSecurityInformation = false →
    ownerOf m' new = ownerOf m oldSd ∧ flagsOf m' new seOwnerDefaulted = flagsOf m oldSd seOwnerDefaulted
  group : selects info groupSecurityInformation = false →
    groupOf m' new = groupOf m oldSd ∧ flagsOf m' new seGroupDefaulted = flagsOf m oldSd seGroupDefaulted
  dacl : selects info daclSecurityInformation = false → daclOf m' new = daclOf m oldSd ∧
    flagsOf m' new (seDaclPresent ||| seDaclDefaulted) = flagsOf m oldSd (seDaclPresent ||| seDaclDefaulted)
  sacl : selects info saclSecurityInformation = false → saclOf m' new = saclOf m oldSd ∧
    flagsOf m' new (seSaclPresent ||| seSaclDefaulted) = flagsOf m oldSd (seSaclPresent ||| seSaclDefaulted)
  inside : PartInside rtlLengthSid m' new size 4 ∧ PartInside rtlLengthSid m' new size 8 ∧
    PartInside aclSize m' new size 12 ∧ PartInside aclSize m' new size 16

def SetsSelected (m : Ram) (alloc : ℕ → ℕ) (info : Option (BitVec 32)) (modificationSd : ℕ) (objectSd : Option ℕ) : Prop :=
  let r := seSetSecurityDescriptorInfoEx m alloc info modificationSd objectSd
  (r.status ≠ .success → r.objectSd = objectSd ∧ r.freed = [] ∧ r.ram = m) ∧
    (r.status = .success → ∃ mask oldSd new, info = some mask ∧ objectSd = some oldSd ∧ r.objectSd = some new ∧
      ReplacesParts m mask modificationSd oldSd r.ram new (newSize m mask modificationSd oldSd))

/-- No flag of an unselected component but the presence of a list is set, and a selected list is
present in the modification. -/
structure KeepsFlags (m : Ram) (info : BitVec 32) (modificationSd oldSd : ℕ) : Prop where
  owner : selects info ownerSecurityInformation = false → flagsOf m oldSd seOwnerDefaulted = 0
  group : selects info groupSecurityInformation = false → flagsOf m oldSd seGroupDefaulted = 0
  dacl : selects info daclSecurityInformation = false → flagsOf m oldSd seDaclDefaulted = 0
  sacl : selects info saclSecurityInformation = false → flagsOf m oldSd seSaclDefaulted = 0
  newDacl : selects info daclSecurityInformation = true → hasDacl m modificationSd = true
  newSacl : selects info saclSecurityInformation = true → hasSacl m modificationSd = true

section Replace
variable {m m' : Ram} {info : BitVec 32} {modificationSd oldSd new size : ℕ}

theorem newControl_bits : newControl m info modificationSd oldSd &&& seSelfRelative ≠ 0 ∧
    newControl m info modificationSd oldSd &&& seOwnerDefaulted = 0 ∧
    newControl m info modificationSd oldSd &&& seGroupDefaulted = 0 ∧
    (newControl m info modificationSd oldSd &&& (seDaclPresent ||| seDaclDefaulted) =
      if (newDacl m info modificationSd oldSd).2 then seDaclPresent else 0) ∧
    (newControl m info modificationSd oldSd &&& (seSaclPresent ||| seSaclDefaulted) =
      if (newSacl m info modificationSd oldSd).2 then seSaclPresent else 0) := by
  unfold newControl
  cases (newDacl m info modificationSd oldSd).2 <;> cases (newSacl m info modificationSd oldSd).2 <;> decide

theorem newControl_present (m : Ram) (info : BitVec 32) (modificationSd oldSd : ℕ) : (newControl m info modificationSd oldSd &&& seDaclPresent = 0 ↔
      (newDacl m info modificationSd oldSd).2 = false) ∧
    (newControl m info modificationSd oldSd &&& seSaclPresent = 0 ↔
      (newSacl m info modificationSd oldSd).2 = false) := by
  unfold newControl
  cases (newDacl m info modificationSd oldSd).2 <;> cases (newSacl m info modificationSd oldSd).2 <;> decide

section Holding
variable (h : Holds m m' new size (newControl m info modificationSd oldSd) (newOwner m info modificationSd oldSd)
  (newGroup m info modificationSd oldSd) (newSacl m info modificationSd oldSd).1 (newDacl m info modificationSd oldSd).1)
include h

theorem newDaclOf_eq (hnew : new ≠ 0) (hfresh : Fresh m info modificationSd oldSd new size) :
    daclOf m' new = ((newDacl m info modificationSd oldSd).2, partBytes aclSize m (newDacl m info modificationSd oldSd).1) := by
  have hpresent := (newControl_present m info modificationSd oldSd).1
  rw [h.daclOf_eq newControl_bits.1 hnew (fun hp => (hfresh.dacl hp).1) fun hz => chooseAcl_absent (hpresent.1 hz)]
  simp only [ne_eq, hpresent, Bool.not_eq_false, Bool.decide_eq_true]

theorem newSaclOf_eq (hnew : new ≠ 0) (hfresh : Fresh m info modificationSd oldSd new size) :
    saclOf m' new = ((newSacl m info modificationSd oldSd).2, partBytes aclSize m (newSacl m info modificationSd oldSd).1) := by
  have hpresent := (newControl_present m info modificationSd oldSd).2
  rw [h.saclOf_eq newControl_bits.1 hnew (fun hp => (hfresh.sacl hp).1) fun hz => chooseAcl_absent (hpresent.1 hz)]
  simp only [ne_eq, hpresent, Bool.not_eq_false, Bool.decide_eq_true]

end Holding

theorem PartAt.inside {length field part : ℕ} {size : Ram → ℕ → ℕ} {dest : ℕ}
    (h : PartAt m' dest field length (partBytes size m part)) (hsize : Measures size) (hge : part ≠ 0 → 8 ≤ size m part) :
    PartInside size m' dest length field ∧ (relPtr m' dest field ≠ 0 → 8 ≤ size m' (relPtr m' dest field) ∧
      dest ≤ relPtr m' dest field ∧ relPtr m' dest field + size m' (relPtr m' dest field) ≤ dest + length) := by
  rcases h.cases with ⟨hp, hzero⟩ | ⟨hp, hoffset, hend, hbytes⟩
  · refine ⟨fun hne => absurd hzero hne, ?_⟩
    intro hne
    exact absurd (if_neg (not_not.2 hzero)) hne
  · have hptr : relPtr m' dest field = dest + m'.u32 (dest + field) := if_pos (by omega)
    have hlength := hsize m m' part _ (hge hp) hbytes
    have hpart := hge hp
    rw [hptr, PartInside, hlength]
    exact ⟨fun _ => hend, fun _ => ⟨hpart, Nat.le_add_right _ _, by omega⟩⟩

/-! A list, by the flag that marks it and the getter. -/

variable {component : BitVec 32} {has : Ram → ℕ → Bool} {get : Ram → ℕ → ℕ}

theorem chooseAcl_kept (hget : ∀ m sd, has m sd = false → get m sd = 0)
    (hselect : selects info component = false) :
    ((chooseAcl m info modificationSd oldSd component has get).2,
        partBytes aclSize m (chooseAcl m info modificationSd oldSd component has get).1) =
      if oldSd = 0 then (false, none) else (has m oldSd, partBytes aclSize m (get m oldSd)) := by
  rw [chooseAcl, hselect, if_neg Bool.false_ne_true]
  by_cases hold : oldSd = 0
  · simp [hold, partBytes]
  cases hhas : has m oldSd with
  | true => simp [hold]
  | false => simp [hold, hget m oldSd hhas]

theorem chooseAcl_selected (hmodification : modificationSd ≠ 0)
    (hselect : selects info component = true) :
    ((chooseAcl m info modificationSd oldSd component has get).2,
        partBytes aclSize m (chooseAcl m info modificationSd oldSd component has get).1) =
      (if modificationSd = 0 then (false, none) else (has m modificationSd, partBytes aclSize m (get m modificationSd))) ↔
      has m modificationSd = true := by
  rw [chooseAcl, if_pos hselect, if_neg hmodification]
  cases has m modificationSd with
  | true => simp
  | false => simp

theorem and_twoPow_cases (c : BitVec 16) (i : ℕ) : c &&& BitVec.twoPow 16 i = 0 ∨ c &&& BitVec.twoPow 16 i = BitVec.twoPow 16 i := by
  rw [BitVec.and_twoPow]
  split
  · exact Or.inr rfl
  · exact Or.inl rfl

theorem flags_kept_iff {present defaulted : BitVec 16} {i : ℕ} (hbit : present = BitVec.twoPow 16 i)
    (hdisjoint : present &&& defaulted = 0)
    (hhas : ∀ m sd, has m sd = decide (sdControl m sd &&& present ≠ 0))
    (hselect : selects info component = false) :
    (if (chooseAcl m info modificationSd oldSd component has get).2 then present else 0) =
        flagsOf m oldSd (present ||| defaulted) ↔ flagsOf m oldSd defaulted = 0 := by
  have hpresent : (if (chooseAcl m info modificationSd oldSd component has get).2 then present else 0) =
      flagsOf m oldSd present := by
    rw [chooseAcl, hselect, if_neg Bool.false_ne_true, flagsOf]
    by_cases hold : oldSd = 0
    · simp [hold]
    rcases and_twoPow_cases (sdControl m oldSd) i with hzero | hset
    · rw [← hbit] at hzero
      simp [hold, hhas, hzero]
    · rw [← hbit] at hset
      by_cases hne : present = 0
      · simp [hold, hne]
      · have hmarked : oldSd ≠ 0 ∧ has m oldSd = true := ⟨hold, by rw [hhas, hset]; exact decide_eq_true hne⟩
        rw [if_pos hmarked, if_neg hold, hset]
        exact if_pos rfl
  have hsum : flagsOf m oldSd (present ||| defaulted) = flagsOf m oldSd present ||| flagsOf m oldSd defaulted := by
    unfold flagsOf
    split
    · rfl
    · exact BitVec.and_or_distrib_left
  have hzero : flagsOf m oldSd present &&& defaulted = 0 := by
    unfold flagsOf
    split
    · exact BitVec.zero_and
    · rw [BitVec.and_assoc, hdisjoint]
      exact BitVec.and_zero
  have hself : flagsOf m oldSd defaulted &&& defaulted = flagsOf m oldSd defaulted := by
    unfold flagsOf
    split
    · exact BitVec.zero_and
    · rw [BitVec.and_assoc, BitVec.and_self]
  rw [hpresent, hsum]
  constructor
  · intro h
    have hand := congrArg (fun c => c &&& defaulted) h
    simp only [BitVec.and_or_distrib_right, hzero, hself] at hand
    exact (hand.trans BitVec.zero_or).symm
  · intro h
    rw [h]
    exact (BitVec.or_zero).symm

theorem Apart.sub {a n b k p l : ℕ} (h : Apart a n b k) (hlow : b ≤ p) (hend : p + l ≤ b + k) : Apart a n p l := by
  rw [Apart] at h ⊢
  omega

section Replacing
variable (h : Holds m m' new size (newControl m info modificationSd oldSd) (newOwner m info modificationSd oldSd)
  (newGroup m info modificationSd oldSd) (newSacl m info modificationSd oldSd).1 (newDacl m info modificationSd oldSd).1)
variable (hnew : new ≠ 0) (hfresh : Fresh m info modificationSd oldSd new size)
include h hfresh

theorem queryFresh_new {query : BitVec 32} {dest limit : ℕ} (hsize : 20 ≤ size) (hapart : Apart dest limit new size) :
    QueryFresh m' query new dest limit := by
  have hptr := h.ptr newControl_bits.1
  have howner := (h.owner.inside measures_rtlLengthSid fun _ => rtlLengthSid_ge _ _).2
  have hgroup := (h.group.inside measures_rtlLengthSid fun _ => rtlLengthSid_ge _ _).2
  have hsacl := (h.sacl.inside measures_aclSize fun hp => (hfresh.sacl hp).1).2
  have hdacl := (h.dacl.inside measures_aclSize fun hp => (hfresh.dacl hp).1).2
  have hptrs : (queryOwner m' query new ≠ 0 → queryOwner m' query new = relPtr m' new 4) ∧
      (queryGroup m' query new ≠ 0 → queryGroup m' query new = relPtr m' new 8) ∧
      (querySacl m' query new ≠ 0 → querySacl m' query new = relPtr m' new 12) ∧
      (queryDacl m' query new ≠ 0 → queryDacl m' query new = relPtr m' new 16) := by
    simp only [queryOwner, queryGroup, querySacl, queryDacl, sdGetOwnerPtr, sdGetGroupPtr, sdGetSaclPtr, sdGetDaclPtr, hptr]
    grind
  obtain ⟨hptr₄, hptr₈, hptr₁₂, hptr₁₆⟩ := hptrs
  refine ⟨hapart.sub (Nat.le_refl _) (by omega), ?_, ?_, ?_, ?_⟩
  · intro hp
    have hq := hptr₄ hp
    rw [hq] at hp ⊢
    exact hapart.sub (howner hp).2.1 (howner hp).2.2
  · intro hp
    have hq := hptr₈ hp
    rw [hq] at hp ⊢
    exact hapart.sub (hgroup hp).2.1 (hgroup hp).2.2
  · intro hp
    have hq := hptr₁₆ hp
    rw [hq] at hp ⊢
    exact ⟨(hdacl hp).1, hapart.sub (hdacl hp).2.1 (hdacl hp).2.2⟩
  · intro hp
    have hq := hptr₁₂ hp
    rw [hq] at hp ⊢
    exact ⟨(hsacl hp).1, hapart.sub (hsacl hp).2.1 (hsacl hp).2.2⟩

include hnew

theorem query_new (query : BitVec 32) {dest length : ℕ} (hsize : 20 ≤ size) (hdest : dest ≠ 0)
    (hlength : queryRequiredSize m' query new ≤ length) (hapart : Apart dest (queryRequiredSize m' query new) new size) :
    ∃ m'', seQuerySecurityDescriptorInfo m' (some query) dest (some length) (some new) =
        (.success, some (queryRequiredSize m' query new), m'') ∧ Answers m' query new m'' dest := by
  have hquery : QueryFresh m' query new dest (queryRequiredSize m' query new) := queryFresh_new h hfresh hsize hapart
  obtain ⟨m'', heq, hholds⟩ := seQuerySecurityDescriptorInfo_spec hnew hdest hlength hquery
  exact ⟨m'', heq, hholds.answers hnew hdest hquery⟩

theorem replacesParts_iff (hmodification : modificationSd ≠ 0) (hsize : 20 ≤ size) :
    ReplacesParts m info modificationSd oldSd m' new size ↔ KeepsFlags m info modificationSd oldSd := by
  have hself := @newControl_bits m info modificationSd oldSd
  obtain ⟨hrelative, hownerFlag, hgroupFlag, hdaclFlags, hsaclFlags⟩ := hself
  have hflags : ∀ mask, flagsOf m' new mask = newControl m info modificationSd oldSd &&& mask := by
    intro mask
    rw [flagsOf, if_neg hnew, h.control_eq]
  have howner := h.ownerOf_eq hrelative hnew
  have hgroup := h.groupOf_eq hrelative hnew
  have hdacl := newDaclOf_eq h hnew hfresh
  have hsacl := newSaclOf_eq h hnew hfresh
  have hdaclKept : selects info daclSecurityInformation = false →
      ((if (newDacl m info modificationSd oldSd).2 then seDaclPresent else 0) =
        flagsOf m oldSd (seDaclPresent ||| seDaclDefaulted) ↔ flagsOf m oldSd seDaclDefaulted = 0) :=
    flags_kept_iff (i := 2) rfl rfl fun _ _ => rfl
  have hsaclKept : selects info saclSecurityInformation = false →
      ((if (newSacl m info modificationSd oldSd).2 then seSaclPresent else 0) =
        flagsOf m oldSd (seSaclPresent ||| seSaclDefaulted) ↔ flagsOf m oldSd seSaclDefaulted = 0) :=
    flags_kept_iff (i := 4) rfl rfl fun _ _ => rfl
  constructor
  · intro hreplaces
    have hselected : ∀ query, ∃ m'' dest, Answers m' query new m'' dest ∧
        (selects query daclSecurityInformation = true → selects info daclSecurityInformation = true →
          daclOf m'' dest = daclOf m modificationSd) ∧
        (selects query saclSecurityInformation = true → selects info saclSecurityInformation = true →
          saclOf m'' dest = saclOf m modificationSd) := by
      intro query
      have hapart : Apart (new + size) (queryRequiredSize m' query new) new size := Or.inr (Nat.le_refl _)
      obtain ⟨m'', heq, -, -, hd, hs⟩ := hreplaces.queried query (new + size) _ (by omega) (Nat.le_refl _) hapart
      obtain ⟨m₂, heq₂, hanswers⟩ := query_new h hnew hfresh query hsize (by omega) (Nat.le_refl _) hapart
      rw [heq, Prod.mk.injEq, Prod.mk.injEq] at heq₂
      rw [← heq₂.2.2] at hanswers
      exact ⟨m'', _, hanswers, hd, hs⟩
    refine ⟨?_, ?_, ?_, ?_, ?_, ?_⟩
    · intro hselect
      rw [← (hreplaces.owner hselect).2, hflags, hownerFlag]
    · intro hselect
      rw [← (hreplaces.group hselect).2, hflags, hgroupFlag]
    · intro hselect
      have hold := (hreplaces.dacl hselect).2
      rw [hflags, hdaclFlags] at hold
      exact (hdaclKept hselect).1 hold
    · intro hselect
      have hold := (hreplaces.sacl hselect).2
      rw [hflags, hsaclFlags] at hold
      exact (hsaclKept hselect).1 hold
    · intro hselect
      obtain ⟨m'', dest, hanswers, hd, -⟩ := hselected daclSecurityInformation
      exact (chooseAcl_selected hmodification hselect).1 (hdacl.symm.trans ((hanswers.dacl rfl).symm.trans (hd rfl hselect)))
    · intro hselect
      obtain ⟨m'', dest, hanswers, -, hs⟩ := hselected saclSecurityInformation
      exact (chooseAcl_selected hmodification hselect).1 (hsacl.symm.trans ((hanswers.sacl rfl).symm.trans (hs rfl hselect)))
  · intro hkeeps
    refine ⟨?_, ?_, ?_, ?_, ?_, ?_⟩
    · intro query dest length hdest hlength hapart
      obtain ⟨m'', heq, hanswers⟩ := query_new h hnew hfresh query hsize hdest hlength hapart
      refine ⟨m'', heq, ?_, ?_, ?_, ?_⟩
      · intro hquery hselect
        rw [hanswers.owner hquery, howner, newOwner, chooseSid, if_pos hselect, ownerOf, if_neg hmodification]
      · intro hquery hselect
        rw [hanswers.group hquery, hgroup, newGroup, chooseSid, if_pos hselect, groupOf, if_neg hmodification]
      · intro hquery hselect
        rw [hanswers.dacl hquery, hdacl]
        exact (chooseAcl_selected hmodification hselect).2 (hkeeps.newDacl hselect)
      · intro hquery hselect
        rw [hanswers.sacl hquery, hsacl]
        exact (chooseAcl_selected hmodification hselect).2 (hkeeps.newSacl hselect)
    · intro hselect
      rw [hflags, hownerFlag, hkeeps.owner hselect, howner, newOwner, chooseSid, hselect, ownerOf]
      by_cases hold : oldSd = 0 <;> simp [hold, partBytes]
    · intro hselect
      rw [hflags, hgroupFlag, hkeeps.group hselect, hgroup, newGroup, chooseSid, hselect, groupOf]
      by_cases hold : oldSd = 0 <;> simp [hold, partBytes]
    · intro hselect
      rw [hflags, hdaclFlags, hdacl]
      exact ⟨chooseAcl_kept (fun m sd hn => by simp [sdGetDaclPtr, hn]) hselect,
        (hdaclKept hselect).2 (hkeeps.dacl hselect)⟩
    · intro hselect
      rw [hflags, hsaclFlags, hsacl]
      exact ⟨chooseAcl_kept (fun m sd hn => by simp [sdGetSaclPtr, hn]) hselect,
        (hsaclKept hselect).2 (hkeeps.sacl hselect)⟩
    · exact ⟨(h.owner.inside measures_rtlLengthSid fun _ => rtlLengthSid_ge _ _).1,
        (h.group.inside measures_rtlLengthSid fun _ => rtlLengthSid_ge _ _).1,
        (h.sacl.inside measures_aclSize fun hp => (hfresh.sacl hp).1).1,
        (h.dacl.inside measures_aclSize fun hp => (hfresh.dacl hp).1).1⟩

end Replacing

/-- A call that succeeds replaces the selected parts and keeps the rest, exactly if no flag is lost; one
that fails changes nothing. -/
theorem setsSelected_iff {alloc : ℕ → ℕ} {info : Option (BitVec 32)} {objectSd : Option ℕ}
    (hfresh : ∀ mask oldSd, info = some mask → objectSd = some oldSd → alloc (newSize m mask modificationSd oldSd) ≠ 0 →
      Fresh m mask modificationSd oldSd (alloc (newSize m mask modificationSd oldSd)) (newSize m mask modificationSd oldSd)) :
    SetsSelected m alloc info modificationSd objectSd ↔
      ∀ mask oldSd, info = some mask → objectSd = some oldSd → modificationSd ≠ 0 →
        alloc (newSize m mask modificationSd oldSd) ≠ 0 → KeepsFlags m mask modificationSd oldSd := by
  have hfails : ∀ r : SetResult, seSetSecurityDescriptorInfoEx m alloc info modificationSd objectSd = r →
      r.status ≠ .success → r.objectSd = objectSd → r.freed = [] → r.ram = m →
      SetsSelected m alloc info modificationSd objectSd := by
    intro r hr hstatus hobject hfreed hram
    unfold SetsSelected
    rw [hr]
    exact ⟨fun _ => ⟨hobject, hfreed, hram⟩, fun hs => absurd hs hstatus⟩
  cases info with
  | none =>
    exact iff_of_true (hfails _ rfl (by simp [seSetSecurityDescriptorInfoEx]) rfl rfl rfl) fun _ _ hi => by cases hi
  | some mask =>
  cases objectSd with
  | none =>
    exact iff_of_true (hfails _ rfl (by simp [seSetSecurityDescriptorInfoEx]) rfl rfl rfl) fun _ _ _ ho => by cases ho
  | some oldSd =>
  by_cases hmodification : modificationSd = 0
  · refine iff_of_true (hfails ⟨.invalidParameter, some oldSd, [], m⟩ ?_ (by simp) rfl rfl rfl) ?_
    · rw [seSetSecurityDescriptorInfoEx, if_pos hmodification]
    · intro _ _ _ _ hm
      exact absurd hmodification hm
  by_cases hbuffer : alloc (newSize m mask modificationSd oldSd) = 0
  · refine iff_of_true (hfails ⟨.noMemory, some oldSd, [], m⟩ ?_ (by simp) rfl rfl rfl) ?_
    · simp only [seSetSecurityDescriptorInfoEx, if_neg hmodification, if_pos hbuffer]
    · intro mask' oldSd' hi ho _ ha
      cases hi
      cases ho
      exact absurd hbuffer ha
  have hfresh' := hfresh mask oldSd rfl rfl hbuffer
  obtain ⟨m', hset, hholds⟩ := seSetSecurityDescriptorInfoEx_spec hmodification hbuffer hfresh'
  have hsize : 20 ≤ newSize m mask modificationSd oldSd := by
    rw [newSize_eq]
    omega
  have hiff := replacesParts_iff hholds hbuffer hfresh' hmodification hsize
  unfold SetsSelected
  rw [hset]
  constructor
  · rintro ⟨-, hreplaces⟩ mask' oldSd' hi ho _ _
    obtain ⟨mask₁, oldSd₁, new, hi₁, ho₁, hn, hparts⟩ := hreplaces rfl
    cases hi
    cases ho
    cases hi₁
    cases ho₁
    cases hn
    exact hiff.1 hparts
  · intro hkeeps
    exact ⟨fun hs => absurd rfl hs, fun _ => ⟨mask, oldSd, _, rfl, rfl, rfl,
      hiff.2 (hkeeps mask oldSd rfl rfl hmodification hbuffer)⟩⟩

/-- An old self-relative descriptor at 0x1000 with the control, and at 0x2000 a modification
whose owner is the SID S-1-5-18. -/
def ownerChange (control : BitVec 16) : Ram :=
  ((((⟨fun _ => 0, []⟩ : Ram).write 0x1002 (leBytes 2 control.toNat)).write 0x2002 (leBytes 2 0x8000)).write 0x2004
    (leBytes 4 20)).write 0x2014 [1, 1, 0, 0, 0, 0, 0, 5, 18, 0, 0, 0]

theorem fresh_ownerChange (control : BitVec 16) (h : control = 0x8004#16 ∨ control = 0x800C#16) :
    Fresh (ownerChange control) 1#32 0x2000 0x1000 0x3000 32 := by
  rcases h with rfl | rfl <;>
    exact ⟨fun _ => Or.inr (by decide), fun h => absurd (by decide) h, fun h => absurd (by decide) h, fun h => absurd (by decide) h⟩

/-- The owner is replaced, and the null DACL stays. -/
theorem setsSelected_owner : SetsSelected (ownerChange 0x8004#16) (fun _ => 0x3000) (some 1#32) 0x2000 (some 0x1000) :=
  (setsSelected_iff fun mask oldSd hi ho _ => by
    cases hi
    cases ho
    exact fresh_ownerChange _ (Or.inl rfl)).2 fun mask oldSd hi ho _ _ => by
    cases hi
    cases ho
    exact ⟨fun h => absurd h (by decide), fun _ => by decide, fun _ => by decide, fun _ => by decide,
      fun h => absurd h (by decide), fun h => absurd h (by decide)⟩

/-- A DACL by default is no longer one when the owner is set. -/
theorem owner_clears_defaulted :
    ¬ SetsSelected (ownerChange 0x800C#16) (fun _ => 0x3000) (some 1#32) 0x2000 (some 0x1000) := by
  intro hsets
  obtain ⟨mask, oldSd, new, hi, ho, hn, hparts⟩ := hsets.2 (by decide)
  cases hi
  cases ho
  have hnew : some 0x3000 = some new := hn
  cases hnew
  have hflags := (hparts.dacl (by decide)).2
  exact absurd hflags (by decide)

end Replace

end Layout

end XenOS.Se
