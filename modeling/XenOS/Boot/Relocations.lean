import XenOS.General.Checked
import XenOS.General.LittleEndian

/-! Base relocation: `apply_relocations` of the `pe` crate and the copy in winload, which has no
fields of 32 bits. An overflow panics. -/

namespace XenOS.Boot

open General

structure ImageBytes where
  size : ℕ
  byte : ℕ → UInt8

namespace ImageBytes

/-- `read_u16`, `read_u32` and `read_u64` for 2, 4 and 8 bytes. -/
def read (image : ImageBytes) (off n : ℕ) : Option ℕ :=
  if image.size < off + n then none else some (leValue image.byte off n)

def write (image : ImageBytes) (off n v : ℕ) : ImageBytes := { image with byte := leWrite image.byte off n v }

end ImageBytes

inductive PeError where
  | bufferTooSmall
  | notPe32Plus
  | notPe32
  | dataDirectoryIndexOutOfBounds (index count : ℕ)

inductive LoadError where
  | relocationFailed

inductive RelocationStop (E : Type) where
  | panicked
  | error (e : E)

abbrev Relocating (E : Type) := Except (RelocationStop E)

/-- `IMAGE_DATA_DIRECTORY`. -/
structure DataDirectory where
  virtualAddress : ℕ
  size : ℕ

def DataDirectory.isPresent (dir : DataDirectory) : Bool := dir.virtualAddress != 0 && dir.size != 0

/-- The headers of an image as `PeImage` shows them. -/
structure PeHeaders where
  isPe32 : Bool
  numberOfRvaAndSizes : ℕ
  dataDirectory : ℕ → Except PeError DataDirectory
  beyond : ∀ i, numberOfRvaAndSizes ≤ i → dataDirectory i = .error (.dataDirectoryIndexOutOfBounds i numberOfRvaAndSizes)

def imageDirectoryEntryBasereloc : ℕ := 5
def imageRelBasedAbsolute : ℕ := 0
def imageRelBasedHighlow : ℕ := 3
def imageRelBasedDir64 : ℕ := 10

def relocType (entry : ℕ) : ℕ := entry / 2 ^ 12
def relocOffset (entry : ℕ) : ℕ := entry % 2 ^ 12

/-- `(value as i64 + delta) as u64`. -/
def sum64 (delta : BitVec 64) (value : ℕ) : Option ℕ := (i64 ((BitVec.ofNat 64 value).toInt + delta.toInt)).map fun x => (BitVec.ofInt 64 x).toNat

/-- `(value as i64 + delta) as u32` for a `value` of 32 bits. -/
def sum32 (delta : BitVec 64) (value : ℕ) : Option ℕ := (i64 (value + delta.toInt)).map fun x => (BitVec.ofInt 32 x).toNat

section Walk
variable {E : Type} (tooShort : E) (highlow : Bool) (delta : BitVec 64)

/-- Relocate the field of `n` bytes at `target`, unless it reaches past the image. -/
def relocateField (image : ImageBytes) (target n : ℕ) (sum : ℕ → Option ℕ) : Relocating E ImageBytes :=
  if target + n ≤ image.size then
    match image.read target n with
    | none => .error (.error tooShort)
    | some value =>
      match sum value with
      | none => .error .panicked
      | some new => .ok (image.write target n new)
  else .ok image

def relocateEntry (blockRva : ℕ) (image : ImageBytes) (entry : ℕ) : Relocating E ImageBytes :=
  let target := blockRva + relocOffset entry
  if 2 ^ 32 ≤ target then .error .panicked
  else if relocType entry = imageRelBasedAbsolute then .ok image
  else if relocType entry = imageRelBasedDir64 then relocateField tooShort image target 8 (sum64 delta)
  else if relocType entry = imageRelBasedHighlow ∧ highlow then relocateField tooShort image target 4 (sum32 delta)
  else .ok image

/-- The `n` entries from the `i`th on of the block at `offset`. -/
def relocateEntries (blockRva offset : ℕ) : (i n : ℕ) → ImageBytes → Relocating E ImageBytes
  | _, 0, image => .ok image
  | i, n + 1, image =>
    if image.size < offset + 8 + i * 2 + 2 then .ok image
    else
      match image.read (offset + 8 + i * 2) 2 with
      | none => .error (.error tooShort)
      | some entry => do
        let image ← relocateEntry tooShort highlow delta blockRva image entry
        relocateEntries blockRva offset (i + 1) n image

def relocateBlocks (endOffset offset : ℕ) (image : ImageBytes) : Relocating E ImageBytes :=
  if _h : offset + 8 ≤ endOffset ∧ offset + 8 ≤ image.size then
    match image.read offset 4, image.read (offset + 4) 4 with
    | some blockRva, some blockSize =>
      if _h8 : blockSize < 8 then .ok image
      else
        match relocateEntries tooShort highlow delta blockRva offset 0 ((blockSize - 8) / 2) image with
        | .error stop => .error stop
        | .ok image => relocateBlocks endOffset (offset + blockSize) image
    | _, _ => .error (.error tooShort)
  else .ok image
termination_by endOffset - offset

end Walk

/-- `apply_relocations` of the `pe` crate. -/
def applyRelocations (pe : PeHeaders) (image : ImageBytes) (delta : BitVec 64) : Relocating PeError ImageBytes :=
  if delta = 0 then .ok image
  else
    match pe.dataDirectory imageDirectoryEntryBasereloc with
    | .error e => .error (.error e)
    | .ok dir =>
      if ¬ dir.isPresent then .ok image
      else relocateBlocks .bufferTooSmall true delta (dir.virtualAddress + dir.size) dir.virtualAddress image

namespace Winload

/-- The directories that `parse_pe_headers` collects. -/
def dataDirectories (pe : PeHeaders) : List DataDirectory :=
  (List.range pe.numberOfRvaAndSizes).map fun i =>
    match pe.dataDirectory i with
    | .ok dir => dir
    | .error _ => ⟨0, 0⟩

/-- `apply_relocations` of winload. -/
def applyRelocations (dataDirectories : List DataDirectory) (image : ImageBytes) (delta : BitVec 64) : Relocating LoadError ImageBytes :=
  match dataDirectories[imageDirectoryEntryBasereloc]? with
  | none => .ok image
  | some dir =>
    if dir.virtualAddress = 0 ∨ dir.size = 0 then .ok image
    else relocateBlocks .relocationFailed false delta (dir.virtualAddress + dir.size) dir.virtualAddress image

/-- What `load_pe_image` does to an image that it moves by `delta`. -/
def relocateLoaded (pe : PeHeaders) (image : ImageBytes) (delta : BitVec 64) : Relocating LoadError ImageBytes :=
  if delta = 0 then .ok image else applyRelocations (dataDirectories pe) image delta

end Winload

end XenOS.Boot
