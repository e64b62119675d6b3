import XenOS.Boot.Relocations
import XenOS.General.FieldSums

/-! What the base relocations of an image change. The fields of a well-formed directory lie apart
from it and from each other, so that each is moved once. -/

namespace XenOS.Boot

open General List Field Winload Option

structure RelocationBlock where
  blockRva : ℕ
  entries : List ℕ

/-- The block at `offset`. -/
def blockAt (f : ℕ → UInt8) (offset : ℕ) : RelocationBlock :=
  ⟨leValue f offset 4, (range' 0 ((leValue f (offset + 4) 4 - 8) / 2)).map fun i => leValue f (offset + 8 + i * 2) 2⟩

inductive Tiled (f : ℕ → UInt8) (endOffset : ℕ) : ℕ → List RelocationBlock → Prop where
  | done : Tiled f endOffset endOffset []
  | block {offset : ℕ} {blocks : List RelocationBlock} (hsize : 8 ≤ leValue f (offset + 4) 4)
      (hend : offset + leValue f (offset + 4) 4 ≤ endOffset) (hrest : Tiled f endOffset (offset + leValue f (offset + 4) 4) blocks) :
      Tiled f endOffset offset (blockAt f offset :: blocks)

def listed (blocks : List RelocationBlock) : List (ℕ × ℕ) := blocks.flatMap fun b => b.entries.map (b.blockRva, ·)

def fieldOf (p : ℕ × ℕ) : Option Field :=
  if relocType p.2 = imageRelBasedDir64 then some ⟨p.1 + relocOffset p.2, 8⟩
  else if relocType p.2 = imageRelBasedHighlow then some ⟨p.1 + relocOffset p.2, 4⟩
  else none

def fields (blocks : List RelocationBlock) : List Field := (listed blocks).filterMap fieldOf

def Known (isPe32 : Bool) (entry : ℕ) : Prop :=
  relocType entry = imageRelBasedAbsolute ∨ relocType entry = imageRelBasedDir64 ∨ relocType entry = imageRelBasedHighlow ∧ isPe32 = true

/-- The directory lies in the image and is tiled by blocks of known entries, whose fields lie in it,
apart from the directory and each other. -/
structure WellFormed (pe : PeHeaders) (image : ImageBytes) (dir : DataDirectory) (blocks : List RelocationBlock) : Prop where
  entry : pe.dataDirectory imageDirectoryEntryBasereloc = .ok dir
  present : dir.isPresent = true
  inside : dir.virtualAddress + dir.size ≤ image.size
  tiled : Tiled image.byte (dir.virtualAddress + dir.size) dir.virtualAddress blocks
  known : ∀ p ∈ listed blocks, Known pe.isPe32 p.2
  within : ∀ a ∈ fields blocks, a.off + a.width ≤ image.size
  outside : ∀ a ∈ fields blocks, a.Apart ⟨dir.virtualAddress, dir.size⟩
  apart : (fields blocks).Pairwise Apart

inductive Meets (image : ImageBytes) (endOffset : ℕ) : ℕ → ℕ → Prop where
  | here {offset : ℕ} (hend : offset + 8 ≤ endOffset) (hsize : offset + 8 ≤ image.size) : Meets image endOffset offset offset
  | next {offset o : ℕ} (hend : offset + 8 ≤ endOffset) (hsize : offset + 8 ≤ image.size) (hblock : 8 ≤ leValue image.byte (offset + 4) 4)
      (hrest : Meets image endOffset (offset + leValue image.byte (offset + 4) 4) o) : Meets image endOffset offset o

/-- Some block reaches past the directory, or lists an entry of an unknown type or a field that is not in the image. -/
def Malformed (pe : PeHeaders) (image : ImageBytes) (dir : DataDirectory) : Prop :=
  ∃ offset, Meets image (dir.virtualAddress + dir.size) dir.virtualAddress offset ∧
    (dir.virtualAddress + dir.size < offset + leValue image.byte (offset + 4) 4 ∨
      ∃ entry ∈ (blockAt image.byte offset).entries, ¬ Known pe.isPe32 entry ∨
        ∃ a, fieldOf ((blockAt image.byte offset).blockRva, entry) = some a ∧ image.size < a.off + a.width)

/-- The number is added to the fields and nothing else is changed; a second number is added to the first, and its negation undoes it. -/
def Exact {E : Type} (apply : ImageBytes → BitVec 64 → Relocating E ImageBytes) (as : List Field) (image : ImageBytes) (d e : BitVec 64) :
    Prop :=
  ∃ once twice : ImageBytes, apply image d = .ok once ∧ once.size = image.size ∧ Sums d.toNat as image.byte once.byte ∧
    apply once e = .ok twice ∧ apply image (d + e) = .ok twice ∧ apply once (-d) = .ok image

structure RelocatesRight (pe : PeHeaders) (image : ImageBytes) (d e : BitVec 64) : Prop where
  exact : ∀ dir blocks, WellFormed pe image dir blocks → Exact (applyRelocations pe) (fields blocks) image d e
  loaded : pe.isPe32 = false → ∀ dir blocks, WellFormed pe image dir blocks → Exact (relocateLoaded pe) (fields blocks) image d e
  same : ∀ dir blocks, WellFormed pe image dir blocks → (∀ p ∈ listed blocks, relocType p.2 = imageRelBasedDir64) →
    ∀ moved, applyRelocations pe image d = .ok moved ↔ relocateLoaded pe image d = .ok moved
  refused : d ≠ 0 → ∀ dir, pe.dataDirectory imageDirectoryEntryBasereloc = .ok dir → dir.isPresent = true → Malformed pe image dir →
    (∃ e, applyRelocations pe image d = .error (.error e)) ∧ ∃ e, relocateLoaded pe image d = .error (.error e)

/-- What the code takes the number in a field for. -/
def asSigned (width value : ℕ) : ℤ := if width = 8 then (BitVec.ofNat 64 value).toInt else value

/-- The address of an entry's field is of 32 bits, and the sum of the field and the number is a signed number of 64 bits. -/
def EntryFits (d : BitVec 64) (f : ℕ → UInt8) (p : ℕ × ℕ) : Prop :=
  p.1 + relocOffset p.2 < 2 ^ 32 ∧
    ∀ a, fieldOf p = some a → -2 ^ 63 ≤ asSigned a.width (a.value f) + d.toInt ∧ asSigned a.width (a.value f) + d.toInt < 2 ^ 63

def Fits (blocks : List RelocationBlock) (f : ℕ → UInt8) (d : BitVec 64) : Prop := d = 0 ∨ ∀ p ∈ listed blocks, EntryFits d f p

/-- No sum overflows. -/
def Spared (blocks : List RelocationBlock) (f : ℕ → UInt8) (d e : BitVec 64) : Prop :=
  Fits blocks f d ∧ Fits blocks (addAll d.toNat (fields blocks) f) e ∧ Fits blocks f (d + e) ∧
    Fits blocks (addAll d.toNat (fields blocks) f) (-d)

/-! ### One entry -/

section Sums
variable {d : BitVec 64} {value : ℕ}

theorem sum64_eq (h : -2 ^ 63 ≤ asSigned 8 value + d.toInt ∧ asSigned 8 value + d.toInt < 2 ^ 63) :
    sum64 d value = some ((value + d.toNat) % 256 ^ 8) := by
  have hsum : i64 ((BitVec.ofNat 64 value).toInt + d.toInt) = some ((BitVec.ofNat 64 value).toInt + d.toInt) := if_pos h
  have hpow : (256 : ℕ) ^ 8 = 2 ^ 64 := by norm_num
  rw [sum64, hsum, map_some, BitVec.ofInt_add, BitVec.ofInt_toInt, BitVec.ofInt_toInt, BitVec.toNat_add, BitVec.toNat_ofNat,
    Nat.mod_add_mod, hpow]

theorem sum64_eq_none (h : ¬ (-2 ^ 63 ≤ asSigned 8 value + d.toInt ∧ asSigned 8 value + d.toInt < 2 ^ 63)) : sum64 d value = none := by
  have hsum : i64 ((BitVec.ofNat 64 value).toInt + d.toInt) = none := if_neg h
  rw [sum64, hsum, map_none]

theorem sum32_eq (h : -2 ^ 63 ≤ asSigned 4 value + d.toInt ∧ asSigned 4 value + d.toInt < 2 ^ 63) :
    sum32 d value = some ((value + d.toNat) % 256 ^ 4) := by
  have hsum : i64 (value + d.toInt) = some (value + d.toInt) := if_pos h
  rw [sum32, hsum, map_some, BitVec.toNat_ofInt, BitVec.toInt_eq_toNat_cond]
  congr 1
  split_ifs <;> omega

theorem sum32_eq_none (h : ¬ (-2 ^ 63 ≤ asSigned 4 value + d.toInt ∧ asSigned 4 value + d.toInt < 2 ^ 63)) : sum32 d value = none := by
  have hsum : i64 (value + d.toInt) = none := if_neg h
  rw [sum32, hsum, map_none]

end Sums

variable {E : Type} {tooShort : E} {highlow : Bool} {d : BitVec 64} {image image' : ImageBytes} {p : ℕ × ℕ} {ps : List (ℕ × ℕ)} {a : Field}

def sumEntry (d : BitVec 64) (image : ImageBytes) (p : ℕ × ℕ) : ImageBytes :=
  match fieldOf p with
  | none => image
  | some a => { image with byte := a.addTo d.toNat image.byte }

theorem sumEntry_eq (h : fieldOf p = some a) : sumEntry d image p = { image with byte := a.addTo d.toNat image.byte } := by
  rw [sumEntry, h]

theorem sumEntry_eq_self (h : fieldOf p = none) : sumEntry d image p = image := by
  rw [sumEntry, h]

theorem relocateField_spec (tooShort : E) (d : BitVec 64) (sum : ℕ → Option ℕ) (hinside : a.off + a.width ≤ image.size) :
    (sum (a.value image.byte) = some ((a.value image.byte + d.toNat) % 256 ^ a.width) →
        relocateField tooShort image a.off a.width sum = .ok { image with byte := a.addTo d.toNat image.byte }) ∧
      (sum (a.value image.byte) = none → relocateField tooShort image a.off a.width sum = .error .panicked) := by
  have hread : image.read a.off a.width = some (a.value image.byte) := if_neg (Nat.not_lt.2 hinside)
  constructor
  · intro hsum
    rw [relocateField, if_pos hinside, hread]
    simp only [hsum]
    rfl
  · intro hsum
    rw [relocateField, if_pos hinside, hread]
    simp only [hsum]

section
variable (haddress : p.1 + relocOffset p.2 < 2 ^ 32)
include haddress

theorem entryFits_iff (h : fieldOf p = some a) {f : ℕ → UInt8} :
    EntryFits d f p ↔ -2 ^ 63 ≤ asSigned a.width (a.value f) + d.toInt ∧ asSigned a.width (a.value f) + d.toInt < 2 ^ 63 := by
  constructor
  · exact fun hfits => hfits.2 a h
  · intro hsum
    refine ⟨haddress, fun b hb => ?_⟩
    obtain rfl := some.inj (h.symm.trans hb)
    exact hsum

theorem relocateEntry_dir64 (htype : relocType p.2 = imageRelBasedDir64) :
    relocateEntry tooShort highlow d p.1 image p.2 = relocateField tooShort image (p.1 + relocOffset p.2) 8 (sum64 d) := by
  have hne : ¬ relocType p.2 = imageRelBasedAbsolute := by rw [htype]; decide
  rw [relocateEntry, if_neg (Nat.not_le.2 haddress), if_neg hne, if_pos htype]

theorem relocateEntry_highlow (htype : relocType p.2 = imageRelBasedHighlow)
    (hhighlow : highlow = true) :
    relocateEntry tooShort highlow d p.1 image p.2 = relocateField tooShort image (p.1 + relocOffset p.2) 4 (sum32 d) := by
  have hne : ¬ relocType p.2 = imageRelBasedAbsolute := by rw [htype]; decide
  have hne' : ¬ relocType p.2 = imageRelBasedDir64 := by rw [htype]; decide
  rw [relocateEntry, if_neg (Nat.not_le.2 haddress), if_neg hne, if_neg hne', if_pos ⟨htype, hhighlow⟩]

end

theorem relocateEntry_spec (tooShort : E) (d : BitVec 64) (hknown : Known highlow p.2)
    (hinside : ∀ a, fieldOf p = some a → a.off + a.width ≤ image.size) :
    (EntryFits d image.byte p → relocateEntry tooShort highlow d p.1 image p.2 = .ok (sumEntry d image p)) ∧
      (¬ EntryFits d image.byte p → relocateEntry tooShort highlow d p.1 image p.2 = .error .panicked) := by
  by_cases haddress : p.1 + relocOffset p.2 < 2 ^ 32
  · rcases hknown with htype | htype | ⟨htype, hhighlow⟩
    · have hfield : fieldOf p = none := by simp [fieldOf, htype, imageRelBasedAbsolute, imageRelBasedDir64, imageRelBasedHighlow]
      have hfits : EntryFits d image.byte p := ⟨haddress, fun a ha => by simp [hfield] at ha⟩
      refine ⟨fun _ => ?_, fun hnot => absurd hfits hnot⟩
      rw [relocateEntry, if_neg (Nat.not_le.2 haddress), if_pos htype, sumEntry_eq_self hfield]
    · have hfield : fieldOf p = some ⟨p.1 + relocOffset p.2, 8⟩ := if_pos htype
      obtain ⟨hok, hpanics⟩ := relocateField_spec tooShort d (sum64 d) (hinside _ hfield)
      rw [relocateEntry_dir64 haddress htype, sumEntry_eq hfield, entryFits_iff haddress hfield]
      exact ⟨fun hfits => hok (sum64_eq hfits), fun hnot => hpanics (sum64_eq_none hnot)⟩
    · have hfield : fieldOf p = some ⟨p.1 + relocOffset p.2, 4⟩ := by simp [fieldOf, htype, imageRelBasedDir64, imageRelBasedHighlow]
      obtain ⟨hok, hpanics⟩ := relocateField_spec tooShort d (sum32 d) (hinside _ hfield)
      rw [relocateEntry_highlow haddress htype hhighlow, sumEntry_eq hfield, entryFits_iff haddress hfield]
      exact ⟨fun hfits => hok (sum32_eq hfits), fun hnot => hpanics (sum32_eq_none hnot)⟩
  · refine ⟨fun hfits => absurd hfits.1 haddress, fun _ => ?_⟩
    rw [relocateEntry, if_pos (Nat.not_lt.1 haddress)]

/-! ### The entries of a directory -/

theorem sumEntry_size : (sumEntry d image p).size = image.size := by
  unfold sumEntry
  split <;> rfl

theorem sumEntry_byte {j : ℕ} (hj : ∀ a, fieldOf p = some a → ¬ a.Has j) : (sumEntry d image p).byte j = image.byte j := by
  cases hfield : fieldOf p with
  | none => rw [sumEntry_eq_self hfield]
  | some a =>
    rw [sumEntry_eq hfield]
    exact addTo_of_notHas (hj a hfield)

theorem entryFits_sumEntry {q : ℕ × ℕ} (hapart : ∀ a, fieldOf p = some a → ∀ b, fieldOf q = some b → a.Apart b) :
    EntryFits d (sumEntry d image p).byte q ↔ EntryFits d image.byte q := by
  cases hfield : fieldOf p with
  | none => rw [sumEntry_eq_self hfield]
  | some a =>
    rw [sumEntry_eq hfield]
    unfold EntryFits
    refine and_congr_right fun _ => forall_congr' fun b => imp_congr_right fun hb => ?_
    rw [value_addTo_of_apart (hapart a hfield b hb)]

structure Sound (highlow : Bool) (size : ℕ) (ps : List (ℕ × ℕ)) : Prop where
  known : ∀ p ∈ ps, Known highlow p.2
  within : ∀ p ∈ ps, ∀ a, fieldOf p = some a → a.off + a.width ≤ size
  apart : ps.Pairwise fun p q => ∀ a, fieldOf p = some a → ∀ b, fieldOf q = some b → a.Apart b

theorem Sound.tail {size : ℕ} (h : Sound highlow size (p :: ps)) : Sound highlow size ps :=
  ⟨fun q hq => h.known q (mem_cons_of_mem p hq), fun q hq => h.within q (mem_cons_of_mem p hq), (pairwise_cons.1 h.apart).2⟩

theorem foldlM_spec (hsound : Sound highlow image.size ps) :
    ((∀ p ∈ ps, EntryFits d image.byte p) →
        ps.foldlM (fun image p => relocateEntry tooShort highlow d p.1 image p.2) image =
          .ok { image with byte := addAll d.toNat (ps.filterMap fieldOf) image.byte }) ∧
      (¬ (∀ p ∈ ps, EntryFits d image.byte p) →
        ps.foldlM (fun image p => relocateEntry tooShort highlow d p.1 image p.2) image = .error .panicked) := by
  induction ps generalizing image with
  | nil => exact ⟨fun _ => rfl, fun hnot => absurd (fun p hp => absurd hp not_mem_nil) hnot⟩
  | cons p ps ih =>
    obtain ⟨hok, hpanics⟩ := relocateEntry_spec tooShort d (hsound.known p mem_cons_self) (hsound.within p mem_cons_self)
    have hkept : ∀ q ∈ ps, EntryFits d (sumEntry d image p).byte q ↔ EntryFits d image.byte q := fun q hq =>
      entryFits_sumEntry ((pairwise_cons.1 hsound.apart).1 q hq)
    have htail : Sound highlow (sumEntry d image p).size ps := by
      rw [sumEntry_size]
      exact hsound.tail
    obtain ⟨hrest, hstops⟩ := ih htail
    rw [foldlM_cons]
    by_cases hfits : EntryFits d image.byte p
    · rw [hok hfits]
      constructor
      · intro hall
        have hsum : { sumEntry d image p with byte := addAll d.toNat (ps.filterMap fieldOf) (sumEntry d image p).byte } =
            { image with byte := addAll d.toNat ((p :: ps).filterMap fieldOf) image.byte } := by
          cases hfield : fieldOf p with
          | none => rw [filterMap_cons_none hfield, sumEntry_eq_self hfield]
          | some a =>
            rw [filterMap_cons_some hfield, sumEntry_eq hfield]
            rfl
        rw [← hsum]
        exact hrest fun q hq => (hkept q hq).2 (hall q (mem_cons_of_mem p hq))
      · intro hnot
        refine hstops fun hall => hnot fun q hq => ?_
        rcases mem_cons.1 hq with rfl | hq
        · exact hfits
        · exact (hkept q hq).1 (hall q hq)
    · rw [hpanics hfits]
      exact ⟨fun hall => absurd (hall p mem_cons_self) hfits, fun _ => rfl⟩

/-! ### The walk over the directory -/

section Directory
variable {directory : Field} {f : ℕ → UInt8}

def Sits (highlow : Bool) (size : ℕ) (directory : Field) (p : ℕ × ℕ) : Prop :=
  Known highlow p.2 ∧ ∀ a, fieldOf p = some a → a.off + a.width ≤ size ∧ a.Apart directory

/-- The directory has the bytes of `f`. -/
def Shows (directory : Field) (f : ℕ → UInt8) (image : ImageBytes) : Prop := ∀ j, directory.Has j → image.byte j = f j

theorem Shows.sumEntry (hshows : Shows directory f image) (hsits : Sits highlow image.size directory p) : Shows directory f (sumEntry d image p) :=
  fun j hj => (sumEntry_byte fun a ha => (hsits.2 a ha).2.notHas hj).trans (hshows j hj)

theorem Shows.read (hshows : Shows directory f image) {off n : ℕ} (hlow : directory.off ≤ off)
    (hhigh : off + n ≤ directory.off + directory.width)
    (hsize : directory.off + directory.width ≤ image.size) : image.read off n = some (leValue f off n) := by
  have hin : ¬ image.size < off + n := by omega
  have hvalue : leValue image.byte off n = leValue f off n := leValue_congr fun j hj hj' => hshows j ⟨by omega, by omega⟩
  rw [ImageBytes.read, if_neg hin, hvalue]

theorem foldlM_shows (hsits : ∀ p ∈ ps, Sits highlow image.size directory p) (hshows : Shows directory f image)
    (h : ps.foldlM (fun image p => relocateEntry tooShort highlow d p.1 image p.2) image = .ok image') :
    image'.size = image.size ∧ Shows directory f image' := by
  induction ps generalizing image with
  | nil =>
    obtain rfl := Except.ok.inj h
    exact ⟨rfl, hshows⟩
  | cons p ps ih =>
    have hp := hsits p mem_cons_self
    obtain ⟨hok, hpanics⟩ := relocateEntry_spec tooShort d hp.1 fun a ha => (hp.2 a ha).1
    rw [foldlM_cons] at h
    by_cases hfits : EntryFits d image.byte p
    · rw [hok hfits] at h
      have hrest : ∀ q ∈ ps, Sits highlow (sumEntry d image p).size directory q := fun q hq => by
        rw [sumEntry_size]
        exact hsits q (mem_cons_of_mem p hq)
      obtain ⟨hsize, hafter⟩ := ih hrest (hshows.sumEntry hp) h
      exact ⟨hsize.trans sumEntry_size, hafter⟩
    · rw [hpanics hfits] at h
      cases h

theorem relocateEntries_eq {blockRva offset i n : ℕ} (hlow : directory.off ≤ offset)
    (hhigh : offset + 8 + (i + n) * 2 ≤ directory.off + directory.width) (hsize : directory.off + directory.width ≤ image.size)
    (hshows : Shows directory f image)
    (hsits : ∀ k ∈ range' i n, Sits highlow image.size directory (blockRva, leValue f (offset + 8 + k * 2) 2)) :
    relocateEntries tooShort highlow d blockRva offset i n image =
      ((range' i n).map fun k => (blockRva, leValue f (offset + 8 + k * 2) 2)).foldlM
        (fun image p => relocateEntry tooShort highlow d p.1 image p.2) image := by
  induction n generalizing i image with
  | zero => rfl
  | succ n ih =>
    have hread : image.read (offset + 8 + i * 2) 2 = some (leValue f (offset + 8 + i * 2) 2) := hshows.read (by omega) (by omega) hsize
    have hin : ¬ image.size < offset + 8 + i * 2 + 2 := by omega
    have hp := hsits i (by simp)
    obtain ⟨hok, hpanics⟩ := relocateEntry_spec tooShort d hp.1 fun a ha => (hp.2 a ha).1
    rw [relocateEntries, if_neg hin, hread, range'_succ, map_cons, foldlM_cons]
    by_cases hfits : EntryFits d image.byte (blockRva, leValue f (offset + 8 + i * 2) 2)
    · simp only [hok hfits]
      refine ih (by omega) ?_ (hshows.sumEntry hp) fun k hk => ?_
      · rw [sumEntry_size]
        exact hsize
      · rw [sumEntry_size]
        exact hsits k (by rw [range'_succ]; exact mem_cons_of_mem i hk)
    · simp only [hpanics hfits]
      rfl

variable (directory) in
theorem relocateBlocks_eq {offset : ℕ} {blocks : List RelocationBlock} (htiled : Tiled f (directory.off + directory.width) offset blocks)
    (hlow : directory.off ≤ offset) (hsize : directory.off + directory.width ≤ image.size) (hshows : Shows directory f image)
    (hsits : ∀ p ∈ listed blocks, Sits highlow image.size directory p) :
    relocateBlocks tooShort highlow d (directory.off + directory.width) offset image =
      (listed blocks).foldlM (fun image p => relocateEntry tooShort highlow d p.1 image p.2) image := by
  induction htiled generalizing image with
  | done =>
    rw [relocateBlocks, dif_neg (by omega)]
    rfl
  | @block offset blocks hblock hend hrest ih =>
    have hrva : image.read offset 4 = some (leValue f offset 4) := hshows.read hlow (by omega) hsize
    have hlength : image.read (offset + 4) 4 = some (leValue f (offset + 4) 4) := hshows.read (by omega) (by omega) hsize
    have hlisted : listed (blockAt f offset :: blocks) =
        ((range' 0 ((leValue f (offset + 4) 4 - 8) / 2)).map fun k => (leValue f offset 4, leValue f (offset + 8 + k * 2) 2)) ++
          listed blocks := by
      simp [listed, blockAt, Function.comp_def]
    have hentries : relocateEntries tooShort highlow d (leValue f offset 4) offset 0 ((leValue f (offset + 4) 4 - 8) / 2) image =
        ((range' 0 ((leValue f (offset + 4) 4 - 8) / 2)).map fun k => (leValue f offset 4, leValue f (offset + 8 + k * 2) 2)).foldlM
          (fun image p => relocateEntry tooShort highlow d p.1 image p.2) image :=
      relocateEntries_eq hlow (by omega) hsize hshows fun k hk =>
        hsits _ (by rw [hlisted]; exact mem_append_left _ (mem_map_of_mem hk))
    rw [relocateBlocks, dif_pos ⟨by omega, by omega⟩, hrva, hlength]
    simp only
    rw [dif_neg (by omega), hentries, hlisted, foldlM_append]
    cases hout : ((range' 0 ((leValue f (offset + 4) 4 - 8) / 2)).map fun k => (leValue f offset 4, leValue f (offset + 8 + k * 2) 2)).foldlM
        (fun image p => relocateEntry tooShort highlow d p.1 image p.2) image with
    | error stop => rfl
    | ok after =>
      obtain ⟨hafter, hkept⟩ := foldlM_shows (fun p hp => hsits p (by rw [hlisted]; exact mem_append_left _ hp)) hshows hout
      refine ih (by omega) ?_ hkept fun p hp => ?_
      · rw [hafter]
        exact hsize
      · rw [hafter]
        exact hsits p (by rw [hlisted]; exact mem_append_right _ hp)

end Directory

/-! ### Well-formed images -/

variable {pe : PeHeaders} {dir : DataDirectory} {blocks : List RelocationBlock} {e : BitVec 64}

def moved (blocks : List RelocationBlock) (image : ImageBytes) (d : BitVec 64) : ImageBytes :=
  { image with byte := addAll d.toNat (fields blocks) image.byte }

theorem Known.of_pe {isPe32 : Bool} {entry : ℕ} (h : Known isPe32 entry) : Known true entry := by
  rcases h with h | h | ⟨h, -⟩
  · exact Or.inl h
  · exact Or.inr (Or.inl h)
  · exact Or.inr (Or.inr ⟨h, rfl⟩)

theorem width_of_field (h : a ∈ fields blocks) : a.width = 8 ∨ a.width = 4 := by
  obtain ⟨p, -, hp⟩ := mem_filterMap.1 h
  unfold fieldOf at hp
  split_ifs at hp
  · exact Or.inl (by rw [← some.inj hp])
  · exact Or.inr (by rw [← some.inj hp])

variable {offset : ℕ}

theorem Tiled.congr {f g : ℕ → UInt8} {endOffset : ℕ} (hfg : ∀ j, offset ≤ j → j < endOffset → f j = g j)
    (h : Tiled f endOffset offset blocks) : Tiled g endOffset offset blocks := by
  induction h with
  | done => exact Tiled.done
  | @block offset blocks hsize hend hrest ih =>
    have hlength : leValue f (offset + 4) 4 = leValue g (offset + 4) 4 := leValue_congr fun j hlow hhigh => hfg j (by omega) (by omega)
    have hblock : blockAt f offset = blockAt g offset := by
      unfold blockAt
      rw [hlength, leValue_congr fun j hlow hhigh => hfg j (by omega) (by omega)]
      congr 1
      refine map_congr_left fun k hk => leValue_congr fun j hlow hhigh => ?_
      have hk' : k < (leValue g (offset + 4) 4 - 8) / 2 := by simpa using hk
      exact hfg j (by omega) (by omega)
    rw [hblock]
    refine Tiled.block (by omega) (by omega) ?_
    rw [← hlength]
    exact ih fun j hlow hhigh => hfg j (by omega) hhigh

namespace WellFormed

variable (h : WellFormed pe image dir blocks)
include h

theorem sound (hknown : ∀ p ∈ listed blocks, Known highlow p.2) : Sound highlow image.size (listed blocks) :=
  ⟨hknown, fun p hp a ha => h.within a (mem_filterMap.2 ⟨p, hp, ha⟩), pairwise_filterMap.1 h.apart⟩

theorem moved : WellFormed pe (moved blocks image d) dir blocks := by
  refine ⟨h.entry, h.present, h.inside, h.tiled.congr fun j hlow hhigh => ?_, h.known, h.within, h.outside, h.apart⟩
  exact (addAll_of_notHas fun a ha => (h.outside a ha).notHas ⟨hlow, hhigh⟩).symm

theorem sums (d : BitVec 64) : Sums d.toNat (fields blocks) image.byte (Boot.moved blocks image d).byte := addAll_sums h.apart

theorem relocateBlocks_spec (tooShort : E) (d : BitVec 64) (hknown : ∀ p ∈ listed blocks, Known highlow p.2) :
    ((∀ p ∈ listed blocks, EntryFits d image.byte p) →
        relocateBlocks tooShort highlow d (dir.virtualAddress + dir.size) dir.virtualAddress image = .ok (Boot.moved blocks image d)) ∧
      (¬ (∀ p ∈ listed blocks, EntryFits d image.byte p) →
        relocateBlocks tooShort highlow d (dir.virtualAddress + dir.size) dir.virtualAddress image = .error .panicked) := by
  have hwalk : relocateBlocks tooShort highlow d (dir.virtualAddress + dir.size) dir.virtualAddress image =
      (listed blocks).foldlM (fun image p => relocateEntry tooShort highlow d p.1 image p.2) image :=
    relocateBlocks_eq ⟨dir.virtualAddress, dir.size⟩ h.tiled (Nat.le_refl _) h.inside (fun _ _ => rfl) fun p hp =>
      ⟨hknown p hp, fun a ha => ⟨h.within a (mem_filterMap.2 ⟨p, hp, ha⟩), h.outside a (mem_filterMap.2 ⟨p, hp, ha⟩)⟩⟩
  rw [hwalk]
  exact foldlM_spec (h.sound hknown)

theorem moved_zero : Boot.moved blocks image 0 = image := by
  have hbyte : (Boot.moved blocks image 0).byte = image.byte := (h.sums 0).unique (Sums.zero image.byte)
  exact congrArg (ImageBytes.mk image.size) hbyte

theorem moved_moved (d e : BitVec 64) : Boot.moved blocks (Boot.moved blocks image d) e = Boot.moved blocks image (d + e) := by
  have hmod : ∀ a ∈ fields blocks, d.toNat + e.toNat ≡ (d + e).toNat [MOD 256 ^ a.width] := by
    intro a ha
    rw [BitVec.toNat_add]
    rcases width_of_field ha with hwidth | hwidth <;> rw [hwidth] <;> unfold Nat.ModEq <;> omega
  have hbyte : (Boot.moved blocks (Boot.moved blocks image d) e).byte = (Boot.moved blocks image (d + e)).byte :=
    (((h.sums d).trans (h.moved.sums e)).congr hmod).unique (h.sums (d + e))
  exact congrArg (ImageBytes.mk image.size) hbyte

end WellFormed

/-- What both copies do to well-formed images: they move it, or panic where a sum overflows. -/
def Moves (apply : ImageBytes → BitVec 64 → Relocating E ImageBytes) (pe : PeHeaders) (dir : DataDirectory) (blocks : List RelocationBlock) :
    Prop :=
  ∀ image d, WellFormed pe image dir blocks → (Fits blocks image.byte d → apply image d = .ok (moved blocks image d)) ∧
    (¬ Fits blocks image.byte d → apply image d = .error .panicked)

variable {apply : ImageBytes → BitVec 64 → Relocating E ImageBytes}

theorem Moves.fits (hmoves : Moves apply pe dir blocks) (h : WellFormed pe image dir blocks)
    (hok : apply image d = .ok image') : Fits blocks image.byte d ∧ image' = moved blocks image d := by
  by_cases hfits : Fits blocks image.byte d
  · exact ⟨hfits, Except.ok.inj (hok.symm.trans ((hmoves image d h).1 hfits))⟩
  · have hstop := hok.symm.trans ((hmoves image d h).2 hfits)
    cases hstop

theorem Moves.exact_iff (hmoves : Moves apply pe dir blocks) (h : WellFormed pe image dir blocks) :
    Exact apply (fields blocks) image d e ↔ Spared blocks image.byte d e := by
  constructor
  · rintro ⟨once, twice, honce, -, -, htwice, hsum, hback⟩
    obtain ⟨hfits, rfl⟩ := hmoves.fits h honce
    exact ⟨hfits, (hmoves.fits h.moved htwice).1, (hmoves.fits h hsum).1, (hmoves.fits h.moved hback).1⟩
  · rintro ⟨hd, he, hde, hback⟩
    refine ⟨moved blocks image d, moved blocks (moved blocks image d) e, (hmoves image d h).1 hd, rfl, h.sums d,
      (hmoves _ e h.moved).1 he, ?_, ?_⟩
    · rw [h.moved_moved]
      exact (hmoves image (d + e) h).1 hde
    · have hzero : moved blocks (moved blocks image d) (-d) = image := by
        rw [h.moved_moved, BitVec.add_right_neg]
        exact h.moved_zero
      rw [(hmoves _ (-d) h.moved).1 hback, hzero]

theorem dataDirectories_eq (h : pe.dataDirectory imageDirectoryEntryBasereloc = .ok dir) :
    (dataDirectories pe)[imageDirectoryEntryBasereloc]? = some dir := by
  have hlt : imageDirectoryEntryBasereloc < pe.numberOfRvaAndSizes := by
    by_contra hle
    have hbeyond := pe.beyond imageDirectoryEntryBasereloc (Nat.not_lt.1 hle)
    rw [h] at hbeyond
    cases hbeyond
  rw [dataDirectories, getElem?_map, getElem?_range hlt, map_some, h]

theorem applyRelocations_eq (hd : d ≠ 0) (hentry : pe.dataDirectory imageDirectoryEntryBasereloc = .ok dir) (hpresent : dir.isPresent = true) :
    applyRelocations pe image d = relocateBlocks .bufferTooSmall true d (dir.virtualAddress + dir.size) dir.virtualAddress image := by
  rw [applyRelocations, if_neg hd, hentry]
  exact if_neg (not_not.2 hpresent)

theorem relocateLoaded_eq (hd : d ≠ 0) (hentry : pe.dataDirectory imageDirectoryEntryBasereloc = .ok dir) (hpresent : dir.isPresent = true) :
    Winload.relocateLoaded pe image d = relocateBlocks .relocationFailed false d (dir.virtualAddress + dir.size) dir.virtualAddress image := by
  have hne : dir.virtualAddress ≠ 0 ∧ dir.size ≠ 0 := by simpa [DataDirectory.isPresent] using hpresent
  rw [Winload.relocateLoaded, if_neg hd, Winload.applyRelocations, dataDirectories_eq hentry]
  exact if_neg (not_or.2 hne)

theorem moves_of_walk (hzero : ∀ image, apply image 0 = .ok image)
    (hwalk : ∀ image d, d ≠ 0 → apply image d = relocateBlocks tooShort highlow d (dir.virtualAddress + dir.size) dir.virtualAddress image)
    (hknown : ∀ p ∈ listed blocks, Known highlow p.2) : Moves apply pe dir blocks := by
  intro image d h
  by_cases hd : d = 0
  · subst hd
    exact ⟨fun _ => by rw [hzero, h.moved_zero], fun hnot => absurd (Or.inl rfl) hnot⟩
  · obtain ⟨hok, hpanics⟩ := h.relocateBlocks_spec tooShort d hknown
    rw [hwalk image d hd]
    exact ⟨fun hfits => hok (hfits.resolve_left hd), fun hnot => hpanics fun hall => hnot (Or.inr hall)⟩

theorem moves_applyRelocations (h : WellFormed pe image dir blocks) : Moves (applyRelocations pe) pe dir blocks :=
  moves_of_walk (fun _ => if_pos rfl) (fun _ _ hd => applyRelocations_eq hd h.entry h.present) fun p hp => (h.known p hp).of_pe

theorem moves_relocateLoaded (h : WellFormed pe image dir blocks) (hknown : ∀ p ∈ listed blocks, Known false p.2) :
    Moves (relocateLoaded pe) pe dir blocks :=
  moves_of_walk (fun _ => if_pos rfl) (fun _ _ hd => relocateLoaded_eq hd h.entry h.present) hknown

/-! ### No image is refused -/

theorem relocateEntry_ne_error {blockRva entry : ℕ} (e : E) : relocateEntry tooShort highlow d blockRva image entry ≠ .error (.error e) := by
  have hfield : ∀ target n sum, relocateField tooShort image target n sum ≠ .error (.error e) := by
    intro target n sum hstop
    by_cases hin : target + n ≤ image.size
    · have hread : image.read target n = some (leValue image.byte target n) := if_neg (Nat.not_lt.2 hin)
      rw [relocateField, if_pos hin, hread] at hstop
      cases hsum : sum (leValue image.byte target n) <;> simp [hsum] at hstop
    · rw [relocateField, if_neg hin] at hstop
      cases hstop
  intro hstop
  unfold relocateEntry at hstop
  simp only at hstop
  split_ifs at hstop
  · cases hstop
  · exact hfield _ _ _ hstop
  · exact hfield _ _ _ hstop

theorem relocateEntries_ne_error {blockRva i n : ℕ} (e : E) :
    relocateEntries tooShort highlow d blockRva offset i n image ≠ .error (.error e) := by
  induction n generalizing i image with
  | zero =>
    intro hstop
    cases hstop
  | succ n ih =>
    intro hstop
    rw [relocateEntries] at hstop
    by_cases hin : image.size < offset + 8 + i * 2 + 2
    · rw [if_pos hin] at hstop
      cases hstop
    · have hread : image.read (offset + 8 + i * 2) 2 = some (leValue image.byte (offset + 8 + i * 2) 2) := if_neg hin
      rw [if_neg hin, hread] at hstop
      simp only at hstop
      cases hout : relocateEntry tooShort highlow d blockRva image (leValue image.byte (offset + 8 + i * 2) 2) with
      | error stop =>
        rw [hout] at hstop
        cases stop with
        | panicked => cases hstop
        | error e' => exact relocateEntry_ne_error e' hout
      | ok after =>
        rw [hout] at hstop
        exact ih hstop

theorem relocateBlocks_ne_error {endOffset : ℕ} (e : E) :
    relocateBlocks tooShort highlow d endOffset offset image ≠ .error (.error e) := by
  induction hn : endOffset - offset using Nat.strong_induction_on generalizing offset image with
  | _ n ih =>
    intro hstop
    rw [relocateBlocks] at hstop
    by_cases hin : offset + 8 ≤ endOffset ∧ offset + 8 ≤ image.size
    · have hrva : image.read offset 4 = some (leValue image.byte offset 4) := if_neg (by omega)
      have hlength : image.read (offset + 4) 4 = some (leValue image.byte (offset + 4) 4) := if_neg (by omega)
      rw [dif_pos hin, hrva, hlength] at hstop
      simp only at hstop
      by_cases hsmall : leValue image.byte (offset + 4) 4 < 8
      · rw [dif_pos hsmall] at hstop
        cases hstop
      · rw [dif_neg hsmall] at hstop
        cases hout : relocateEntries tooShort highlow d (leValue image.byte offset 4) offset 0 ((leValue image.byte (offset + 4) 4 - 8) / 2)
            image with
        | error stop =>
          rw [hout] at hstop
          cases stop with
          | panicked => cases hstop
          | error e' => exact relocateEntries_ne_error e' hout
        | ok after =>
          rw [hout] at hstop
          exact ih _ (by omega) rfl hstop
    · rw [dif_neg hin] at hstop
      cases hstop

/-- The copies relocate an image exactly if no sum overflows where it is well-formed, and unless the image is malformed. -/
theorem relocatesRight_iff : RelocatesRight pe image d e ↔
    (∀ dir blocks, WellFormed pe image dir blocks → Spared blocks image.byte d e) ∧
      (d ≠ 0 → ∀ dir, pe.dataDirectory imageDirectoryEntryBasereloc = .ok dir → dir.isPresent = true → ¬ Malformed pe image dir) := by
  constructor
  · intro h
    refine ⟨fun dir blocks hwell => ((moves_applyRelocations hwell).exact_iff hwell).1 (h.exact dir blocks hwell),
      fun hd dir hentry hpresent hmalformed => ?_⟩
    obtain ⟨⟨e', hstop⟩, -⟩ := h.refused hd dir hentry hpresent hmalformed
    rw [applyRelocations_eq hd hentry hpresent] at hstop
    exact relocateBlocks_ne_error e' hstop
  · rintro ⟨hspared, hsound⟩
    refine ⟨fun dir blocks hwell => ?_, fun hpe dir blocks hwell => ?_, fun dir blocks hwell htypes moved => ?_,
      fun hd dir hentry hpresent hmalformed => absurd hmalformed (hsound hd dir hentry hpresent)⟩
    · exact ((moves_applyRelocations hwell).exact_iff hwell).2 (hspared dir blocks hwell)
    · have hknown : ∀ p ∈ listed blocks, Known false p.2 := fun p hp => by
        rw [← hpe]
        exact hwell.known p hp
      exact ((moves_relocateLoaded hwell hknown).exact_iff hwell).2 (hspared dir blocks hwell)
    · have hpe := moves_applyRelocations hwell
      have hloaded := moves_relocateLoaded hwell fun p hp => Or.inr (Or.inl (htypes p hp))
      constructor
      · intro hok
        obtain ⟨hfits, rfl⟩ := hpe.fits hwell hok
        exact (hloaded image d hwell).1 hfits
      · intro hok
        obtain ⟨hfits, rfl⟩ := hloaded.fits hwell hok
        exact (hpe image d hwell).1 hfits

def highHeaders : PeHeaders where
  isPe32 := false
  numberOfRvaAndSizes := 16
  dataDirectory i :=
    if i < 16 then .ok (if i = imageDirectoryEntryBasereloc then ⟨16, 12⟩ else ⟨0, 0⟩) else .error (.dataDirectoryIndexOutOfBounds i 16)
  beyond _ hi := if_neg (Nat.not_lt.2 hi)

/-- An image with one block, which lists an entry of the type `IMAGE_REL_BASED_HIGH`. -/
def highImage : ImageBytes := ⟨28, fun j => if j = 20 then 12 else if j = 25 then 16 else 0⟩

/-- The entry is passed over. -/
theorem high_notRefused : ¬ RelocatesRight highHeaders highImage 1 1 := by
  intro h
  have hmalformed : Malformed highHeaders highImage ⟨16, 12⟩ := by
    refine ⟨16, Meets.here (by decide) (by decide), Or.inr ⟨4096, by decide, Or.inl ?_⟩⟩
    simp [Known, highHeaders, relocType, imageRelBasedAbsolute, imageRelBasedDir64]
  obtain ⟨⟨e, hstop⟩, -⟩ := h.refused (by decide) ⟨16, 12⟩ rfl rfl hmalformed
  rw [applyRelocations_eq (by decide) rfl rfl] at hstop
  exact relocateBlocks_ne_error e hstop

end XenOS.Boot
