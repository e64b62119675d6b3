import XenOS.Se.AclRuns
import XenOS.Se.Descriptor

/-! The self-relative copy of a security descriptor: it stays inside a buffer of the reported length
and has the components of the original. Validation without a length takes the header's size for it,
so it accepts only a copy without components. -/

namespace XenOS.Se

open General Ram Nat

namespace Layout

def partBytes (size : Ram → ℕ → ℕ) (m : Ram) (part : ℕ) : Option (List (BitVec 8)) :=
  if part = 0 then none else some (m.read part (size m part))

/-- What a descriptor says, in either form. -/
structure Components where
  control : BitVec 16
  owner : Option (List (BitVec 8))
  group : Option (List (BitVec 8))
  sacl : Option (List (BitVec 8))
  dacl : Option (List (BitVec 8))

def components (m : Ram) (sd : ℕ) : Components where
  control := sdControl m sd
  owner := partBytes rtlLengthSid m (sdGetOwnerPtr m sd)
  group := partBytes rtlLengthSid m (sdGetGroupPtr m sd)
  sacl := partBytes aclSize m (sdGetSaclPtr m sd)
  dacl := partBytes aclSize m (sdGetDaclPtr m sd)

def Components.selfRelative (c : Components) : Components := { c with control := c.control ||| seSelfRelative }

/-- Two ranges do not meet. -/
def Apart (a n b k : ℕ) : Prop := a + n ≤ b ∨ b + k ≤ a

def headerSize (m : Ram) (sd : ℕ) : ℕ :=
  if isSelfRelative m sd then sizeofSecurityDescriptorRelative else sizeofSecurityDescriptor

/-- A buffer of the required length at `dest` meets neither the descriptor nor a component. -/
structure Separate (m : Ram) (sd dest : ℕ) : Prop where
  nonnull : dest ≠ 0
  header : Apart dest (rtlLengthSecurityDescriptor m sd) sd (headerSize m sd)
  owner : sdGetOwnerPtr m sd ≠ 0 →
    Apart dest (rtlLengthSecurityDescriptor m sd) (sdGetOwnerPtr m sd) (rtlLengthSid m (sdGetOwnerPtr m sd))
  group : sdGetGroupPtr m sd ≠ 0 →
    Apart dest (rtlLengthSecurityDescriptor m sd) (sdGetGroupPtr m sd) (rtlLengthSid m (sdGetGroupPtr m sd))
  sacl : sdGetSaclPtr m sd ≠ 0 →
    Apart dest (rtlLengthSecurityDescriptor m sd) (sdGetSaclPtr m sd) (aclSize m (sdGetSaclPtr m sd))
  dacl : sdGetDaclPtr m sd ≠ 0 →
    Apart dest (rtlLengthSecurityDescriptor m sd) (sdGetDaclPtr m sd) (aclSize m (sdGetDaclPtr m sd))

def Measures (size : Ram → ℕ → ℕ) : Prop :=
  ∀ m m' p p', 8 ≤ size m p → (∀ i < size m p, m'.byte (p' + i) = m.byte (p + i)) → size m' p' = size m p

theorem measures_rtlLengthSid : Measures rtlLengthSid := fun m m' p p' _ h => by
  rw [rtlLengthSid, rtlLengthSid, subAuthorityCount_congr h]

theorem measures_aclSize : Measures aclSize := fun m m' p p' hge h => by
  rw [aclSize, aclSize, Ram.u16, Ram.u16]
  congr 1
  refine read_congr fun i hi => ?_
  rw [add_assoc, add_assoc]
  exact h _ (by omega)

theorem rtlValidSid_congr {m m' : Ram} {p p' : ℕ} (h : ∀ i < rtlLengthSid m p, m'.byte (p' + i) = m.byte (p + i)) :
    rtlValidSid m' p' = rtlValidSid m p := by
  have hge := rtlLengthSid_ge m p
  have hfirst : m'.byte p' = m.byte p := h 0 (by omega)
  rw [rtlValidSid, rtlValidSid, hfirst, subAuthorityCount_congr h]

theorem validAces_congr {m m' : Ram} {p p' stop count k : ℕ} (h : ∀ i < stop, m'.byte (p' + i) = m.byte (p + i))
    (hvalid : validAces m (p + stop) count (p + k) = true) : validAces m' (p' + stop) count (p' + k) = true := by
  induction count generalizing k with
  | zero => rfl
  | succ count ih =>
    have hhead : sizeofAceHeader = 4 := rfl
    rw [validAces] at hvalid ⊢
    split at hvalid
    · cases hvalid
    next hfits =>
    have hsize : aceSize m' (p' + k) = aceSize m (p + k) := by
      rw [aceSize, aceSize, Ram.u16, Ram.u16]
      congr 1
      refine read_congr fun i hi => ?_
      rw [add_assoc, add_assoc, add_assoc, add_assoc]
      exact h _ (by omega)
    split at hvalid
    · cases hvalid
    next hmin =>
    split at hvalid
    · cases hvalid
    next hend =>
    rw [hsize, if_neg (by omega), if_neg hmin, if_neg (by omega), add_assoc]
    rw [add_assoc] at hvalid
    exact ih hvalid

theorem aclSize_ge_of_valid {m : Ram} {p : ℕ} (h : rtlValidAcl m p = true) : 8 ≤ aclSize m p := by
  by_contra hn
  have hshort : aclSize m p < sizeofAcl := Nat.lt_of_not_le hn
  simp only [rtlValidAcl, if_pos hshort] at h
  split at h <;> cases h

theorem rtlValidAcl_congr {m m' : Ram} {p p' : ℕ} (h : ∀ i < aclSize m p, m'.byte (p' + i) = m.byte (p + i))
    (hvalid : rtlValidAcl m p = true) : rtlValidAcl m' p' = true := by
  have hge := aclSize_ge_of_valid hvalid
  have hsize := measures_aclSize m m' p p' hge h
  have hfirst : m'.byte p' = m.byte p := h 0 (by omega)
  have hcount : aceCount m' p' = aceCount m p := by
    rw [aceCount, aceCount, Ram.u16, Ram.u16]
    congr 1
    refine read_congr fun i hi => ?_
    rw [add_assoc, add_assoc]
    exact h _ (by omega)
  rw [rtlValidAcl] at hvalid ⊢
  rw [hfirst, hsize, hcount]
  split at hvalid
  · cases hvalid
  next hrevision =>
  split at hvalid
  · cases hvalid
  next hmin =>
  rw [if_neg hrevision, if_neg hmin]
  exact validAces_congr h hvalid

section Getters
variable {m m' : Ram} {sd : ℕ}

theorem headerSize_ge (m : Ram) (sd : ℕ) : 20 ≤ headerSize m sd := by
  unfold headerSize sizeofSecurityDescriptorRelative sizeofSecurityDescriptor
  split <;> omega

theorem getters_congr (h : ∀ i < headerSize m sd, m'.byte (sd + i) = m.byte (sd + i)) :
    sdControl m' sd = sdControl m sd ∧ sdGetOwnerPtr m' sd = sdGetOwnerPtr m sd ∧
      sdGetGroupPtr m' sd = sdGetGroupPtr m sd ∧ sdGetSaclPtr m' sd = sdGetSaclPtr m sd ∧
      sdGetDaclPtr m' sd = sdGetDaclPtr m sd := by
  have hge := headerSize_ge m sd
  have hread : ∀ k n, k + n ≤ headerSize m sd → m'.read (sd + k) n = m.read (sd + k) n := fun k n hk =>
    read_congr fun i hi => by
      rw [add_assoc]
      exact h _ (by omega)
  have hcontrol : sdControl m' sd = sdControl m sd := by
    rw [sdControl, sdControl, Ram.u16, Ram.u16, hread 2 2 (by omega)]
  have hself : isSelfRelative m' sd = isSelfRelative m sd := by
    rw [isSelfRelative, isSelfRelative, hcontrol]
  have hptr : ∀ absolute relative, absolute + 8 ≤ 40 → relative + 4 ≤ 20 →
      sdPtr m' sd absolute relative = sdPtr m sd absolute relative := by
    intro absolute relative habs hrel
    rw [sdPtr, sdPtr, hself]
    split
    · rw [Ram.u32, Ram.u32, hread relative 4 (by omega)]
    next hn =>
      have hsize : headerSize m sd = 40 := if_neg hn
      rw [u64, u64, hread absolute 8 (by omega)]
  have hsacl : hasSacl m' sd = hasSacl m sd := by rw [hasSacl, hasSacl, hcontrol]
  have hdacl : hasDacl m' sd = hasDacl m sd := by rw [hasDacl, hasDacl, hcontrol]
  refine ⟨hcontrol, hptr 8 4 (by omega) (by omega), hptr 16 8 (by omega) (by omega), ?_, ?_⟩
  · rw [sdGetSaclPtr, sdGetSaclPtr, hsacl, hptr 24 12 (by omega) (by omega)]
  · rw [sdGetDaclPtr, sdGetDaclPtr, hdacl, hptr 32 16 (by omega) (by omega)]

end Getters

def partLength (size : Ram → ℕ → ℕ) (m : Ram) (part : ℕ) : ℕ := if part = 0 then 0 else size m part

/-- A field of a self-relative header names a component, which ends before `limit`. -/
def PartAt (m : Ram) (dest field limit : ℕ) : Option (List (BitVec 8)) → Prop
  | none => m.u32 (dest + field) = 0
  | some bs => ∃ offset, 20 ≤ offset ∧ offset + bs.length ≤ limit ∧ m.u32 (dest + field) = offset ∧
      m.read (dest + offset) bs.length = bs

structure Within (m₀ m : Ram) (dest limit : ℕ) : Prop where
  outside : ∀ i, i < dest ∨ dest + limit ≤ i → m.byte i = m₀.byte i
  written : ∀ i ∈ m.written, i ∈ m₀.written ∨ (dest ≤ i ∧ i < dest + limit)

section Copy
variable {m₀ m m' : Ram} {dest limit field n : ℕ} {bs : List (BitVec 8)} {size : Ram → ℕ → ℕ}

theorem Within.refl : Within m m dest limit := ⟨fun _ _ => rfl, fun _ h => Or.inl h⟩

theorem Within.write (h : Within m₀ m dest limit) (hn : n + bs.length ≤ limit) :
    Within m₀ (m.write (dest + n) bs) dest limit where
  outside i hi := (byte_write_of_lt (by omega)).trans (h.outside i hi)
  written i hi := by
    rcases mem_written_write.1 hi with hi | hi
    · exact Or.inr ⟨by omega, by omega⟩
    · exact h.written i hi

theorem u32_frame {field' : ℕ} (hm : ∀ i < limit, i < field' ∨ field' + 4 ≤ i → m'.byte (dest + i) = m.byte (dest + i))
    (hfields : field + 4 ≤ field' ∨ field' + 4 ≤ field) (hfield : field + 4 ≤ limit) :
    m'.u32 (dest + field) = m.u32 (dest + field) := by
  rw [Ram.u32, Ram.u32]
  congr 1
  refine read_congr fun i hi => ?_
  rw [add_assoc]
  exact hm _ (by omega) (by omega)

theorem PartAt.frame {field' : ℕ} {part : Option (List (BitVec 8))} (h : PartAt m dest field limit part)
    (hm : ∀ i < limit, i < field' ∨ field' + 4 ≤ i → m'.byte (dest + i) = m.byte (dest + i))
    (hfields : field + 4 ≤ field' ∨ field' + 4 ≤ field) (hfield : field + 4 ≤ 20) (hfield' : field' + 4 ≤ 20)
    (hlimit : 20 ≤ limit) : PartAt m' dest field limit part := by
  have hread : m'.u32 (dest + field) = m.u32 (dest + field) := u32_frame hm hfields (by omega)
  cases part with
  | none => exact hread.trans h
  | some bs =>
    obtain ⟨offset, hge, hend, hoffset, hbytes⟩ := h
    refine ⟨offset, hge, hend, hread.trans hoffset, ?_⟩
    rw [← hbytes]
    simp only [length_read]
    refine read_congr fun i hi => ?_
    rw [add_assoc]
    exact hm _ (by omega) (by omega)

theorem PartAt.mono {limit' : ℕ} {part : Option (List (BitVec 8))} (h : PartAt m dest field limit part)
    (hle : limit ≤ limit') : PartAt m dest field limit' part := by
  cases part with
  | none => exact h
  | some bs =>
    obtain ⟨offset, hge, hend, hrest⟩ := h
    exact ⟨offset, hge, by omega, hrest⟩

theorem copyPart_spec (field offset part : ℕ) (hsize : Measures size) (hin : Within m₀ m dest limit) (hfield : field + 4 ≤ 20)
    (hoffset : 20 ≤ offset) (hzero : m.u32 (dest + field) = 0) (hlimit : limit < 2 ^ 32)
    (hpart : part ≠ 0 → 8 ≤ size m₀ part ∧ Apart dest limit part (size m₀ part))
    (hfits : offset + partLength size m₀ part ≤ limit) :
    ∃ m', copyPart size m dest field offset part = (m', offset + partLength size m₀ part) ∧
      Within m₀ m' dest limit ∧
      (∀ i < offset, i < field ∨ field + 4 ≤ i → m'.byte (dest + i) = m.byte (dest + i)) ∧
      PartAt m' dest field (offset + partLength size m₀ part) (partBytes size m₀ part) := by
  by_cases hp : part = 0
  · refine ⟨m, ?_, hin, fun _ _ _ => rfl, ?_⟩
    · simp [copyPart, partLength, hp]
    · simpa [PartAt, partBytes, hp] using hzero
  obtain ⟨hge, hapart⟩ := hpart hp
  have hlength : partLength size m₀ part = size m₀ part := if_neg hp
  rw [hlength] at hfits ⊢
  obtain ⟨mo, hmo⟩ : ∃ mo, mo = m.write (dest + field) (leBytes 4 offset) := ⟨_, rfl⟩
  have hino : Within m₀ mo dest limit := hmo ▸ hin.write (by simp; omega)
  have hsame : ∀ i < size m₀ part, mo.byte (part + i) = m₀.byte (part + i) := fun i hi => by
    rcases hapart with hbefore | hbehind
    · exact hino.outside _ (by omega)
    · exact hino.outside _ (by omega)
  have hsizeo : size mo part = size m₀ part := hsize m₀ mo part part hge hsame
  have hreado : mo.read part (size m₀ part) = m₀.read part (size m₀ part) := read_congr hsame
  refine ⟨mo.write (dest + offset) (m₀.read part (size m₀ part)), ?_, hino.write (by simpa using hfits), ?_, ?_⟩
  · simp only [copyPart, if_neg hp, ← hmo, hsizeo, hreado]
  · intro i hi hout
    rw [byte_write_of_lt (by omega), hmo, byte_write_of_lt (by simp; omega)]
  · simp only [partBytes, if_neg hp, PartAt, length_read]
    refine ⟨offset, hoffset, Nat.le_refl _, ?_, read_write_of_length length_read⟩
    have hbound : offset < 256 ^ 4 := by
      show offset < 2 ^ 32
      omega
    rw [Ram.u32, read_write_of_disjoint (by omega), hmo, read_write_of_length (by simp), leNat_leBytes hbound]

end Copy

structure ValidParts (m : Ram) (sd : ℕ) : Prop where
  owner : sdGetOwnerPtr m sd ≠ 0 → rtlValidSid m (sdGetOwnerPtr m sd) = true
  group : sdGetGroupPtr m sd ≠ 0 → rtlValidSid m (sdGetGroupPtr m sd) = true
  sacl : sdGetSaclPtr m sd ≠ 0 → rtlValidAcl m (sdGetSaclPtr m sd) = true
  dacl : sdGetDaclPtr m sd ≠ 0 → rtlValidAcl m (sdGetDaclPtr m sd) = true

structure CopyAt (m : Ram) (dest length : ℕ) (m₀ : Ram) (sd : ℕ) : Prop where
  revision : m.byte dest = m₀.byte sd
  control : sdControl m dest = sdControl m₀ sd ||| seSelfRelative
  owner : PartAt m dest 4 length (partBytes rtlLengthSid m₀ (sdGetOwnerPtr m₀ sd))
  group : PartAt m dest 8 length (partBytes rtlLengthSid m₀ (sdGetGroupPtr m₀ sd))
  sacl : PartAt m dest 12 length (partBytes aclSize m₀ (sdGetSaclPtr m₀ sd))
  dacl : PartAt m dest 16 length (partBytes aclSize m₀ (sdGetDaclPtr m₀ sd))

section Make
variable {m : Ram} {sd dest : ℕ}

theorem rtlLengthSid_lt (m : Ram) (sid : ℕ) : rtlLengthSid m sid < 2 ^ 16 := by
  have := (m.byte (sid + 1)).isLt
  simp only [rtlLengthSid, sidMinSize, subAuthorityCount]
  omega

theorem partLength_lt {size : Ram → ℕ → ℕ} (h : ∀ p, size m p < 2 ^ 16) (p : ℕ) : partLength size m p < 2 ^ 16 := by
  unfold partLength
  split
  · omega
  · exact h p

theorem rtlLengthSecurityDescriptor_eq (m : Ram) (sd : ℕ) : rtlLengthSecurityDescriptor m sd =
      headerSize m sd + partLength rtlLengthSid m (sdGetOwnerPtr m sd) + partLength rtlLengthSid m (sdGetGroupPtr m sd) +
        partLength aclSize m (sdGetSaclPtr m sd) + partLength aclSize m (sdGetDaclPtr m sd) ∧
    rtlLengthSecurityDescriptor m sd < 2 ^ 32 := by
  have howner := partLength_lt (rtlLengthSid_lt m) (sdGetOwnerPtr m sd)
  have hgroup := partLength_lt (rtlLengthSid_lt m) (sdGetGroupPtr m sd)
  have hsacl := partLength_lt (aclSize_lt m) (sdGetSaclPtr m sd)
  have hdacl := partLength_lt (aclSize_lt m) (sdGetDaclPtr m sd)
  have hheader : headerSize m sd ≤ 40 := by
    unfold headerSize sizeofSecurityDescriptorRelative sizeofSecurityDescriptor
    split <;> omega
  have hadd : ∀ (size : Ram → ℕ → ℕ) n p, (if p ≠ 0 then n + size m p else n) = n + partLength size m p := by
    intro size n p
    by_cases hp : p = 0 <;> simp [partLength, hp]
  have haclAdd : ∀ n p (present : Bool), (present = false → p = 0) →
      (if present then n + partLength aclSize m p else n) = n + partLength aclSize m p := by
    intro n p present hnone
    cases present with
    | true => rfl
    | false => simp [partLength, hnone rfl]
  have hsum : rtlLengthSecurityDescriptor m sd =
      (headerSize m sd + partLength rtlLengthSid m (sdGetOwnerPtr m sd) + partLength rtlLengthSid m (sdGetGroupPtr m sd) +
        partLength aclSize m (sdGetDaclPtr m sd) + partLength aclSize m (sdGetSaclPtr m sd)) % 2 ^ 32 := by
    simp only [rtlLengthSecurityDescriptor, hadd]
    rw [haclAdd _ (sdGetDaclPtr m sd) _ fun hn => by simp [sdGetDaclPtr, hn],
      haclAdd _ (sdGetSaclPtr m sd) _ fun hn => by simp [sdGetSaclPtr, hn]]
    rfl
  omega

theorem writeRelativeHeader_spec {limit : ℕ} (hlimit : 20 ≤ limit) (hapart : Apart dest limit sd (headerSize m sd)) :
    Within m (writeRelativeHeader m sd dest) dest limit ∧ (writeRelativeHeader m sd dest).byte dest = m.byte sd ∧
      (writeRelativeHeader m sd dest).u16 (dest + 2) = (sdControl m sd ||| seSelfRelative).toNat ∧
      ∀ field, field = 4 ∨ field = 8 ∨ field = 12 ∨ field = 16 →
        (writeRelativeHeader m sd dest).u32 (dest + field) = 0 := by
  have hge := headerSize_ge m sd
  obtain ⟨m₁, hm₁⟩ : ∃ m₁, m₁ = (m.write dest [m.byte sd]).write (dest + 1) [0] := ⟨_, rfl⟩
  have hwithin₁ : Within m m₁ dest limit := by
    have h₀ : Within m (m.write (dest + 0) [m.byte sd]) dest limit := Within.refl.write (by simp; omega)
    exact hm₁ ▸ h₀.write (by simp; omega)
  have hcontrol : sdControl m₁ sd = sdControl m sd := by
    rw [sdControl, sdControl, Ram.u16, Ram.u16]
    congr 2
    refine read_congr fun i hi => hwithin₁.outside _ ?_
    rcases hapart with hbefore | hbehind
    · exact Or.inr (by omega)
    · exact Or.inl (by omega)
  have heq : writeRelativeHeader m sd dest =
      (((((m₁.write (dest + 2) (leBytes 2 (sdControl m sd ||| seSelfRelative).toNat)).write (dest + 4) (leBytes 4 0)).write
        (dest + 8) (leBytes 4 0)).write (dest + 12) (leBytes 4 0)).write (dest + 16) (leBytes 4 0)) := by
    rw [← hcontrol, hm₁]
    rfl
  rw [heq]
  have hzero : leNat (leBytes 4 0) = 0 := rfl
  have hlt : (sdControl m sd ||| seSelfRelative).toNat < 256 ^ 2 := (sdControl m sd ||| seSelfRelative).isLt
  refine ⟨((((hwithin₁.write (by simp; omega)).write (by simp; omega)).write (by simp; omega)).write
    (by simp; omega)).write (by simp; omega), ?_, ?_, ?_⟩
  · have hself : (m.write dest [m.byte sd]).byte (dest + 0) = _ := byte_write_self (by simp)
    rw [add_zero] at hself
    rw [byte_write_of_lt (by omega), byte_write_of_lt (by omega), byte_write_of_lt (by omega),
      byte_write_of_lt (by omega), byte_write_of_lt (by omega), hm₁, byte_write_of_lt (by omega), hself]
    rfl
  · rw [Ram.u16, read_write_of_disjoint (by omega), read_write_of_disjoint (by omega),
      read_write_of_disjoint (by omega), read_write_of_disjoint (by omega), read_write_of_length (by simp),
      leNat_leBytes hlt]
  · rintro field (rfl | rfl | rfl | rfl)
    · rw [Ram.u32, read_write_of_disjoint (by simp), read_write_of_disjoint (by simp),
        read_write_of_disjoint (by simp), read_write_of_length (by simp), hzero]
    · rw [Ram.u32, read_write_of_disjoint (by simp), read_write_of_disjoint (by simp),
        read_write_of_length (by simp), hzero]
    · rw [Ram.u32, read_write_of_disjoint (by simp), read_write_of_length (by simp), hzero]
    · rw [Ram.u32, read_write_of_length (by simp), hzero]

theorem copyPart_sacl {offset : ℕ} : (if hasSacl m sd then copyPart aclSize m dest 12 offset (sdGetSaclPtr m sd)
    else (m, offset)) = copyPart aclSize m dest 12 offset (sdGetSaclPtr m sd) := by
  cases h : hasSacl m sd <;> simp [copyPart, sdGetSaclPtr, h]

theorem copyPart_dacl {offset : ℕ} : (if hasDacl m sd then copyPart aclSize m dest 16 offset (sdGetDaclPtr m sd)
    else (m, offset)) = copyPart aclSize m dest 16 offset (sdGetDaclPtr m sd) := by
  cases h : hasDacl m sd <;> simp [copyPart, sdGetDaclPtr, h]

theorem rtlMakeSelfRelativeSd_spec (hsd : sd ≠ 0) (hvalid : ValidParts m sd) (hsep : Separate m sd dest) :
    ∃ m', rtlMakeSelfRelativeSd m sd dest (rtlLengthSecurityDescriptor m sd) =
        (.success, rtlLengthSecurityDescriptor m sd, m') ∧
      Within m m' dest (rtlLengthSecurityDescriptor m sd) ∧
      CopyAt m' dest (rtlLengthSecurityDescriptor m sd) m sd := by
  obtain ⟨hsum, hlt⟩ := rtlLengthSecurityDescriptor_eq m sd
  have hge := headerSize_ge m sd
  obtain ⟨limit, hlimit⟩ : ∃ limit, limit = rtlLengthSecurityDescriptor m sd := ⟨_, rfl⟩
  have hheader := hsep.header
  have howner := hsep.owner
  have hgroup := hsep.group
  have hsacl := hsep.sacl
  have hdacl := hsep.dacl
  rw [← hlimit] at hsum hlt hheader howner hgroup hsacl hdacl ⊢
  -- the header stays out of reach of the copies, so the pointers are read as they were
  have hptrs : ∀ m', Within m m' dest limit → sdControl m' sd = sdControl m sd ∧
      sdGetOwnerPtr m' sd = sdGetOwnerPtr m sd ∧ sdGetGroupPtr m' sd = sdGetGroupPtr m sd ∧
      sdGetSaclPtr m' sd = sdGetSaclPtr m sd ∧ sdGetDaclPtr m' sd = sdGetDaclPtr m sd := fun m' hm' =>
    getters_congr fun i hi => hm'.outside _ (by rcases hheader with h | h <;> omega)
  obtain ⟨hin₀, hrevision, hcontrol, hzero⟩ := writeRelativeHeader_spec (show 20 ≤ limit by omega) hheader
  obtain ⟨o₁, ho₁⟩ : ∃ o₁, o₁ = 20 + partLength rtlLengthSid m (sdGetOwnerPtr m sd) := ⟨_, rfl⟩
  obtain ⟨o₂, ho₂⟩ : ∃ o₂, o₂ = o₁ + partLength rtlLengthSid m (sdGetGroupPtr m sd) := ⟨_, rfl⟩
  obtain ⟨o₃, ho₃⟩ : ∃ o₃, o₃ = o₂ + partLength aclSize m (sdGetSaclPtr m sd) := ⟨_, rfl⟩
  obtain ⟨m₁, hcopy₁, hin₁, hframe₁, hpart₁⟩ := copyPart_spec 4 20 (sdGetOwnerPtr m sd) measures_rtlLengthSid hin₀
    (by omega) (by omega) (hzero 4 (by omega)) hlt (fun hp => ⟨rtlLengthSid_ge _ _, howner hp⟩) (by omega)
  rw [← ho₁] at hcopy₁ hpart₁
  have hzero₁ : ∀ field, field = 8 ∨ field = 12 ∨ field = 16 → m₁.u32 (dest + field) = 0 := fun field hf =>
    (u32_frame hframe₁ (by omega) (by omega)).trans (hzero field (by omega))
  obtain ⟨m₂, hcopy₂, hin₂, hframe₂, hpart₂⟩ := copyPart_spec 8 o₁ (sdGetGroupPtr m sd) measures_rtlLengthSid hin₁
    (by omega) (by omega) (hzero₁ 8 (by omega)) hlt (fun hp => ⟨rtlLengthSid_ge _ _, hgroup hp⟩) (by omega)
  rw [← ho₂] at hcopy₂ hpart₂
  have hzero₂ : ∀ field, field = 12 ∨ field = 16 → m₂.u32 (dest + field) = 0 := fun field hf =>
    (u32_frame hframe₂ (by omega) (by omega)).trans (hzero₁ field (by omega))
  obtain ⟨m₃, hcopy₃, hin₃, hframe₃, hpart₃⟩ := copyPart_spec 12 o₂ (sdGetSaclPtr m sd) measures_aclSize hin₂
    (by omega) (by omega) (hzero₂ 12 (by omega)) hlt
    (fun hp => ⟨aclSize_ge_of_valid (hvalid.sacl hp), hsacl hp⟩) (by omega)
  rw [← ho₃] at hcopy₃ hpart₃
  obtain ⟨m₄, hcopy₄, hin₄, hframe₄, hpart₄⟩ := copyPart_spec 16 o₃ (sdGetDaclPtr m sd) measures_aclSize hin₃
    (by omega) (by omega) ((u32_frame hframe₃ (by omega) (by omega)).trans (hzero₂ 16 (by omega))) hlt
    (fun hp => ⟨aclSize_ge_of_valid (hvalid.dacl hp), hdacl hp⟩) (by omega)
  -- bytes of the header that no copy touches
  have hkeep : ∀ i < 4, m₄.byte (dest + i) = (writeRelativeHeader m sd dest).byte (dest + i) := fun i hi => by
    rw [hframe₄ i (by omega) (by omega), hframe₃ i (by omega) (by omega), hframe₂ i (by omega) (by omega),
      hframe₁ i (by omega) (by omega)]
  have howner₂ := hpart₁.frame hframe₂ (by omega) (by omega) (by omega) (by omega)
  have howner₃ := howner₂.frame (fun i hi => hframe₃ i (by omega)) (by omega) (by omega) (by omega) (by omega)
  have howner₄ := howner₃.frame (fun i hi => hframe₄ i (by omega)) (by omega) (by omega) (by omega) (by omega)
  have hgroup₃ := hpart₂.frame hframe₃ (by omega) (by omega) (by omega) (by omega)
  have hgroup₄ := hgroup₃.frame (fun i hi => hframe₄ i (by omega)) (by omega) (by omega) (by omega) (by omega)
  have hsacl₄ := hpart₃.frame hframe₄ (by omega) (by omega) (by omega) (by omega)
  refine ⟨m₄, ?_, hin₄,
    { revision := (hkeep 0 (by omega)).trans hrevision
      control := ?_
      owner := howner₄.mono (by omega)
      group := hgroup₄.mono (by omega)
      sacl := hsacl₄.mono (by omega)
      dacl := hpart₄.mono (by omega) }⟩
  · have hguard₃ : (if hasSacl m₂ sd then copyPart aclSize m₂ dest 12 o₂ (sdGetSaclPtr m₂ sd) else (m₂, o₂)) =
        (m₃, o₃) := by
      rw [copyPart_sacl, (hptrs _ hin₂).2.2.2.1, hcopy₃]
    have hguard₄ : (if hasDacl m₃ sd then copyPart aclSize m₃ dest 16 o₃ (sdGetDaclPtr m₃ sd) else (m₃, o₃)) =
        (m₄, o₃ + partLength aclSize m (sdGetDaclPtr m sd)) := by
      rw [copyPart_dacl, (hptrs _ hin₃).2.2.2.2, hcopy₄]
    simp only [rtlMakeSelfRelativeSd, if_neg hsd, ← hlimit, Nat.lt_irrefl, if_false, if_neg hsep.nonnull,
      sizeofSecurityDescriptorRelative, (hptrs _ hin₀).2.1, hcopy₁, (hptrs _ hin₁).2.2.1, hcopy₂, hguard₃, hguard₄]
  · have hu16 : m₄.u16 (dest + 2) = (sdControl m sd ||| seSelfRelative).toNat := by
      rw [← hcontrol, Ram.u16, Ram.u16]
      congr 1
      refine read_congr fun i hi => ?_
      rw [Nat.add_assoc]
      exact hkeep _ (by omega)
    rw [sdControl, hu16]
    simp

end Make

def relPtr (m : Ram) (dest field : ℕ) : ℕ :=
  if m.u32 (dest + field) ≠ 0 then dest + m.u32 (dest + field) else 0

section Copies
variable {m m' : Ram} {sd dest length field part : ℕ} {size : Ram → ℕ → ℕ} {valid : Ram → ℕ → Bool}

theorem selfRelative_bits (c : BitVec 16) : (c ||| seSelfRelative) &&& seSelfRelative ≠ 0#16 ∧
    (c ||| seSelfRelative) &&& seSaclPresent = c &&& seSaclPresent ∧
    (c ||| seSelfRelative) &&& seDaclPresent = c &&& seDaclPresent := by
  refine ⟨fun h => ?_, ?_, ?_⟩
  · have := congrArg (fun v => v.getLsbD 15) h
    simp [seSelfRelative] at this
  · rw [BitVec.and_or_distrib_right, show seSelfRelative &&& seSaclPresent = 0#16 from rfl, BitVec.or_zero]
  · rw [BitVec.and_or_distrib_right, show seSelfRelative &&& seDaclPresent = 0#16 from rfl, BitVec.or_zero]

theorem CopyAt.flags (h : CopyAt m' dest length m sd) : isSelfRelative m' dest = true ∧
    hasSacl m' dest = hasSacl m sd ∧ hasDacl m' dest = hasDacl m sd := by
  obtain ⟨hself, hsacl, hdacl⟩ := selfRelative_bits (sdControl m sd)
  rw [isSelfRelative, hasSacl, hasSacl, hasDacl, hasDacl, h.control, hsacl, hdacl]
  exact ⟨decide_eq_true hself, rfl, rfl⟩

theorem CopyAt.ptrs (h : CopyAt m' dest length m sd) : sdGetOwnerPtr m' dest = relPtr m' dest 4 ∧
    sdGetGroupPtr m' dest = relPtr m' dest 8 ∧ sdGetSaclPtr m' dest = relPtr m' dest 12 ∧
    sdGetDaclPtr m' dest = relPtr m' dest 16 := by
  obtain ⟨hself, hsacl, hdacl⟩ := h.flags
  have hptr : ∀ absolute relative, sdPtr m' dest absolute relative = relPtr m' dest relative := fun absolute relative =>
    if_pos hself
  refine ⟨hptr 8 4, hptr 16 8, ?_, ?_⟩
  · cases hs : hasSacl m sd with
    | true => rw [sdGetSaclPtr, hsacl, hs, if_pos rfl, hptr]
    | false =>
      have hzero := h.sacl
      simp only [sdGetSaclPtr, hs, Bool.false_eq_true, if_false, partBytes, if_true, PartAt] at hzero
      simp [sdGetSaclPtr, hsacl, hs, relPtr, hzero]
  · cases hd : hasDacl m sd with
    | true => rw [sdGetDaclPtr, hdacl, hd, if_pos rfl, hptr]
    | false =>
      have hzero := h.dacl
      simp only [sdGetDaclPtr, hd, Bool.false_eq_true, if_false, partBytes, if_true, PartAt] at hzero
      simp [sdGetDaclPtr, hdacl, hd, relPtr, hzero]

theorem PartAt.cases (h : PartAt m' dest field length (partBytes size m part)) :
    (part = 0 ∧ m'.u32 (dest + field) = 0) ∨ (part ≠ 0 ∧ 20 ≤ m'.u32 (dest + field) ∧
      m'.u32 (dest + field) + size m part ≤ length ∧
      ∀ i < size m part, m'.byte (dest + m'.u32 (dest + field) + i) = m.byte (part + i)) := by
  by_cases hp : part = 0
  · rw [partBytes, if_pos hp] at h
    exact Or.inl ⟨hp, h⟩
  · rw [partBytes, if_neg hp] at h
    obtain ⟨offset, hge, hend, hoffset, hbytes⟩ := h
    rw [length_read] at hend hbytes
    refine Or.inr ⟨hp, hoffset ▸ hge, hoffset ▸ hend, fun i hi => ?_⟩
    rw [hoffset]
    exact byte_of_read hbytes hi

theorem PartAt.bytes (h : PartAt m' dest field length (partBytes size m part)) (hsize : Measures size)
    (hge : part ≠ 0 → 8 ≤ size m part) : partBytes size m' (relPtr m' dest field) = partBytes size m part := by
  rcases h.cases with ⟨hp, hzero⟩ | ⟨hp, hoffset, -, hbytes⟩
  · simp [partBytes, relPtr, hp, hzero]
  · have hne : m'.u32 (dest + field) ≠ 0 := by omega
    have hptr : relPtr m' dest field = dest + m'.u32 (dest + field) := if_pos hne
    have hlength := hsize m m' part _ (hge hp) hbytes
    rw [hptr, partBytes, partBytes, if_neg hp, if_neg (by omega), hlength, read_congr hbytes]

theorem CopyAt.components (h : CopyAt m' dest length m sd) (hvalid : ValidParts m sd) :
    components m' dest = (components m sd).selfRelative := by
  obtain ⟨howner, hgroup, hsacl, hdacl⟩ := h.ptrs
  simp only [Layout.components, Components.selfRelative, Components.mk.injEq, howner, hgroup, hsacl, hdacl]
  exact ⟨h.control, h.owner.bytes measures_rtlLengthSid fun _ => rtlLengthSid_ge _ _,
    h.group.bytes measures_rtlLengthSid fun _ => rtlLengthSid_ge _ _,
    h.sacl.bytes measures_aclSize fun hp => aclSize_ge_of_valid (hvalid.sacl hp),
    h.dacl.bytes measures_aclSize fun hp => aclSize_ge_of_valid (hvalid.dacl hp)⟩

theorem PartAt.accepted (h : PartAt m' dest field length (partBytes size m part)) (hsize : Measures size)
    (hge : part ≠ 0 → 8 ≤ size m part)
    (hcongr : ∀ p', (∀ i < size m part, m'.byte (p' + i) = m.byte (part + i)) → valid m part = true → valid m' p' = true)
    (hvalid : part ≠ 0 → valid m part = true) (hlength : length < 2 ^ 32) {absent : Bool} (habsent : absent = true) :
    (if m'.u32 (dest + field) ≠ 0 then validRelativePart m' dest length (m'.u32 (dest + field)) valid size
      else absent) = true := by
  rcases h.cases with ⟨hp, hzero⟩ | ⟨hp, hoffset, hend, hbytes⟩
  · simpa [hzero] using habsent
  · have hsize' := hsize m m' part _ (hge hp) hbytes
    have hpart := hge hp
    rw [if_pos (by omega), validRelativePart, if_neg (by omega), hcongr _ hbytes (hvalid hp), hsize',
      if_neg (by simp), if_neg (by omega)]

theorem PartAt.accepted_header (valid : Ram → ℕ → Bool) (h : PartAt m' dest field length (partBytes size m part)) {absent : Bool}
    (habsent : absent = true) :
    (if m'.u32 (dest + field) ≠ 0 then
      validRelativePart m' dest sizeofSecurityDescriptorRelative (m'.u32 (dest + field)) valid size
      else absent) = true ↔ part = 0 := by
  have hmin : sizeofSecurityDescriptorRelative = 20 := rfl
  rcases h.cases with ⟨hp, hzero⟩ | ⟨hp, hoffset, -, -⟩
  · simp [hzero, habsent, hp]
  · rw [if_pos (by omega), validRelativePart, if_pos (by omega)]
    simp [hp]

theorem CopyAt.seValid (h : CopyAt m' dest length m sd) (hdest : dest ≠ 0) (hvalid : ValidParts m sd)
    (hrevision : m.byte sd = securityDescriptorRevision) (hmin : 20 ≤ length) (hlength : length < 2 ^ 32) :
    seValidSecurityDescriptor m' length dest = true := by
  have hself := h.flags.1
  have hheader : ¬ length < sizeofSecurityDescriptorRelative := by
    unfold sizeofSecurityDescriptorRelative
    omega
  rw [seValidSecurityDescriptor, if_neg (by tauto), hself, if_neg (by simp), rtlValidRelativeSecurityDescriptor,
    if_neg hdest, if_neg hheader, if_neg (by rw [h.revision, hrevision]; simp), hself, if_neg (by simp)]
  simp only [Bool.and_eq_true]
  refine ⟨⟨⟨?_, ?_⟩, ?_⟩, ?_⟩
  · exact h.owner.accepted measures_rtlLengthSid (fun _ => rtlLengthSid_ge _ _)
      (fun p' hb hv => (rtlValidSid_congr hb).trans hv) hvalid.owner hlength (by decide)
  · exact h.group.accepted measures_rtlLengthSid (fun _ => rtlLengthSid_ge _ _)
      (fun p' hb hv => (rtlValidSid_congr hb).trans hv) hvalid.group hlength (by decide)
  · exact h.dacl.accepted measures_aclSize (fun hp => aclSize_ge_of_valid (hvalid.dacl hp))
      (fun p' hb hv => rtlValidAcl_congr hb hv) hvalid.dacl hlength rfl
  · exact h.sacl.accepted measures_aclSize (fun hp => aclSize_ge_of_valid (hvalid.sacl hp))
      (fun p' hb hv => rtlValidAcl_congr hb hv) hvalid.sacl hlength rfl

/-- No component is there. -/
def Bare (m : Ram) (sd : ℕ) : Prop :=
  sdGetOwnerPtr m sd = 0 ∧ sdGetGroupPtr m sd = 0 ∧ sdGetSaclPtr m sd = 0 ∧ sdGetDaclPtr m sd = 0

theorem CopyAt.rtlValid_iff (h : CopyAt m' dest length m sd) (hdest : dest ≠ 0) (hrevision : m.byte sd = securityDescriptorRevision) :
    rtlValidSecurityDescriptor m' dest = true ↔ Bare m sd := by
  have hself := h.flags.1
  have hrev : ¬ m'.byte dest ≠ securityDescriptorRevision := by
    rw [h.revision, hrevision]
    simp
  rw [rtlValidSecurityDescriptor, if_neg hdest, if_neg hrev, if_pos hself, rtlValidRelativeSecurityDescriptor,
    if_neg hdest, if_neg (Nat.lt_irrefl _), if_neg hrev, hself, if_neg (by simp)]
  simp only [Bool.and_eq_true, Bare]
  have howner := h.owner.accepted_header rtlValidSid
    (show decide ((0 : BitVec 32) &&& ownerSecurityInformation = 0) = true by decide)
  have hgroup := h.group.accepted_header rtlValidSid
    (show decide ((0 : BitVec 32) &&& groupSecurityInformation = 0) = true by decide)
  have hdacl := h.dacl.accepted_header rtlValidAcl
    (show (decide ((0 : BitVec 32) &&& daclSecurityInformation = 0) || hasDacl m' dest) = true from rfl)
  have hsacl := h.sacl.accepted_header rtlValidAcl
    (show (decide ((0 : BitVec 32) &&& saclSecurityInformation = 0) || hasSacl m' dest) = true from rfl)
  rw [howner, hgroup, hdacl, hsacl]
  exact ⟨fun ⟨⟨⟨ho, hg⟩, hd⟩, hs⟩ => ⟨ho, hg, hs, hd⟩, fun ⟨ho, hg, hs, hd⟩ => ⟨⟨⟨ho, hg⟩, hd⟩, hs⟩⟩

end Copies

section Capture
variable {m m' : Ram} {sd dest buffer length : ℕ}

theorem parts_of_valid (habsolute : isSelfRelative m sd = false) (hvalid : rtlValidSecurityDescriptor m sd = true) :
    sd ≠ 0 ∧ m.byte sd = securityDescriptorRevision ∧ ValidParts m sd := by
  have hptr : ∀ absolute relative, sdPtr m sd absolute relative = m.u64 (sd + absolute) := fun absolute relative => by
    rw [sdPtr, habsolute]
    rfl
  rw [rtlValidSecurityDescriptor, habsolute] at hvalid
  split at hvalid
  · cases hvalid
  next hsd =>
  split at hvalid
  · cases hvalid
  next hrevision =>
  rw [if_neg (by simp)] at hvalid
  split at hvalid
  · cases hvalid
  next howner =>
  split at hvalid
  · cases hvalid
  next hgroup =>
  split at hvalid
  · cases hvalid
  next hdacl =>
  split at hvalid
  · cases hvalid
  next hsacl =>
  refine ⟨hsd, by simpa using hrevision, ⟨fun hp => ?_, fun hp => ?_, fun hp => ?_, fun hp => ?_⟩⟩
  · rw [sdGetOwnerPtr, hptr] at hp ⊢
    simpa [hp] using howner
  · rw [sdGetGroupPtr, hptr] at hp ⊢
    simpa [hp] using hgroup
  · cases hs : hasSacl m sd with
    | false => simp [sdGetSaclPtr, hs] at hp
    | true =>
      rw [sdGetSaclPtr, hs, if_pos rfl, hptr] at hp ⊢
      simpa [hs, hp] using hsacl
  · cases hd : hasDacl m sd with
    | false => simp [sdGetDaclPtr, hd] at hp
    | true =>
      rw [sdGetDaclPtr, hd, if_pos rfl, hptr] at hp ⊢
      simpa [hd, hp] using hdacl

theorem seCaptureSecurityDescriptor_spec (hsd : sd ≠ 0) (haccepted : rtlValidSecurityDescriptor m sd = true)
    (hvalid : ValidParts m sd) (hsep : Separate m sd buffer) :
    ∃ m', seCaptureSecurityDescriptor m sd buffer = (.success, some buffer, m') ∧
      CopyAt m' buffer (rtlLengthSecurityDescriptor m sd) m sd := by
  obtain ⟨m', hmake, -, hcopy⟩ := rtlMakeSelfRelativeSd_spec hsd hvalid hsep
  refine ⟨m', ?_, hcopy⟩
  rw [seCaptureSecurityDescriptor, if_neg hsd, haccepted, if_neg (by simp), if_neg hsep.nonnull, hmake]

def Captures (m : Ram) (sd : ℕ) : Prop :=
  ∀ buffer, Separate m sd buffer → ∃ m', seCaptureSecurityDescriptor m sd buffer = (.success, some buffer, m') ∧
    components m' buffer = (components m sd).selfRelative

/-- The conversion into a buffer of the reported length keeps the components, both validations
accept it, and captures of it and of the descriptor keep them too. -/
def KeepsDescriptor (m : Ram) (sd dest : ℕ) : Prop :=
  ∃ m', rtlMakeSelfRelativeSd m sd dest (rtlLengthSecurityDescriptor m sd) =
      (.success, rtlLengthSecurityDescriptor m sd, m') ∧
    (∀ a ∈ m'.written, a ∈ m.written ∨ (dest ≤ a ∧ a < dest + rtlLengthSecurityDescriptor m sd)) ∧
    components m' dest = (components m sd).selfRelative ∧
    rtlValidSecurityDescriptor m' dest = true ∧
    seValidSecurityDescriptor m' (rtlLengthSecurityDescriptor m sd) dest = true ∧
    Captures m' dest ∧
    ∀ buffer, Separate m sd buffer → ∃ m₁, seCaptureSecurityDescriptor m sd buffer = (.success, some buffer, m₁) ∧
      components m₁ buffer = (components m sd).selfRelative ∧ Captures m₁ buffer

theorem CopyAt.captures (h : CopyAt m' dest length m sd) (hdest : dest ≠ 0)
    (hrevision : m.byte sd = securityDescriptorRevision) (hbare : Bare m sd) : Captures m' dest := by
  obtain ⟨howner, hgroup, hsacl, hdacl⟩ := h.ptrs
  have hzero : ∀ {size : Ram → ℕ → ℕ} {field part : ℕ}, PartAt m' dest field length (partBytes size m part) →
      part = 0 → relPtr m' dest field = 0 := by
    intro size field part hpart hp
    rcases hpart.cases with ⟨-, hz⟩ | ⟨hne, -⟩
    · simp [relPtr, hz]
    · exact absurd hp hne
  have hvalid : ValidParts m' dest :=
    { owner := fun hp => absurd (howner.trans (hzero h.owner hbare.1)) hp
      group := fun hp => absurd (hgroup.trans (hzero h.group hbare.2.1)) hp
      sacl := fun hp => absurd (hsacl.trans (hzero h.sacl hbare.2.2.1)) hp
      dacl := fun hp => absurd (hdacl.trans (hzero h.dacl hbare.2.2.2)) hp }
  intro buffer hsep
  obtain ⟨m₁, hcapture, hcopy⟩ :=
    seCaptureSecurityDescriptor_spec hdest ((h.rtlValid_iff hdest hrevision).2 hbare) hvalid hsep
  exact ⟨m₁, hcapture, hcopy.components hvalid⟩

/-- A valid absolute descriptor is kept exactly if it has no components. -/
theorem keepsDescriptor_iff (habsolute : isSelfRelative m sd = false)
    (haccepted : rtlValidSecurityDescriptor m sd = true) (hsep : Separate m sd dest) :
    KeepsDescriptor m sd dest ↔ Bare m sd := by
  obtain ⟨hsd, hrevision, hvalid⟩ := parts_of_valid habsolute haccepted
  obtain ⟨m', hmake, hwithin, hcopy⟩ := rtlMakeSelfRelativeSd_spec hsd hvalid hsep
  constructor
  · rintro ⟨m₁, hmake₁, -, -, haccepted₁, -⟩
    rw [hmake, Prod.mk.injEq, Prod.mk.injEq] at hmake₁
    rw [← hmake₁.2.2] at haccepted₁
    exact (hcopy.rtlValid_iff hsep.nonnull hrevision).1 haccepted₁
  · intro hbare
    obtain ⟨hsum, hlt⟩ := rtlLengthSecurityDescriptor_eq m sd
    have hge := headerSize_ge m sd
    refine ⟨m', hmake, hwithin.written, hcopy.components hvalid, (hcopy.rtlValid_iff hsep.nonnull hrevision).2 hbare,
      hcopy.seValid hsep.nonnull hvalid hrevision (by omega) hlt, hcopy.captures hsep.nonnull hrevision hbare, ?_⟩
    intro buffer hbuffer
    obtain ⟨m₁, hcapture, hcopy₁⟩ := seCaptureSecurityDescriptor_spec hsd haccepted hvalid hbuffer
    exact ⟨m₁, hcapture, hcopy₁.components hvalid, hcopy₁.captures hbuffer.nonnull hrevision hbare⟩

def ownedBy (owner : ℕ) : Ram :=
  (((⟨fun _ => 0, []⟩ : Ram).write 0x1000 [1]).write 0x1008 (leBytes 8 owner)).write 0x1100
    [1, 1, 0, 0, 0, 0, 0, 5, 18, 0, 0, 0]

theorem separate_ownedBy (owner : ℕ) (h : owner = 0 ∨ owner = 0x1100) : Separate (ownedBy owner) 0x1000 0x2000 := by
  rcases h with rfl | rfl
  · exact ⟨by decide, Or.inr (by decide), fun h => absurd (by decide) h, fun h => absurd (by decide) h,
      fun h => absurd (by decide) h, fun h => absurd (by decide) h⟩
  · exact ⟨by decide, Or.inr (by decide), fun _ => Or.inr (by decide), fun h => absurd (by decide) h,
      fun h => absurd (by decide) h, fun h => absurd (by decide) h⟩

/-- A descriptor without components is kept. -/
theorem keepsDescriptor_bare : KeepsDescriptor (ownedBy 0) 0x1000 0x2000 :=
  (keepsDescriptor_iff (by decide) (by decide) (separate_ownedBy 0 (Or.inl rfl))).2
    ⟨by decide, by decide, by decide, by decide⟩

/-- With an owner the result of the conversion is not accepted. -/
theorem owner_not_kept : ¬ KeepsDescriptor (ownedBy 0x1100) 0x1000 0x2000 := by
  rintro ⟨m', hmake, -, -, haccepted, -⟩
  have hvalid : rtlValidSecurityDescriptor
      (rtlMakeSelfRelativeSd (ownedBy 0x1100) 0x1000 0x2000 (rtlLengthSecurityDescriptor (ownedBy 0x1100) 0x1000)).2.2
      0x2000 = true := by
    rw [hmake]
    exact haccepted
  exact absurd hvalid (by decide)

end Capture

end Layout

end XenOS.Se
