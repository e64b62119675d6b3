import Mathlib.Algebra.GroupWithZero.Nat
import XenOS.General.Bitmap
import XenOS.Mm.Types

/-! The paging files: the slots of each in a bitmap where a set bit is a free slot, and the pages
that are committed against them. An addition that overflows is none. -/

namespace XenOS.Mm

open General

def mmMaxPagingFiles : ℕ := 16

def mmMinPagefileSize : ℕ := 4096

def mmMaxPagefileSize : ℕ := 4 * 1024 * 1024

/-- `MMPAGING_FILE`; a null bitmap has no words. -/
structure MmpagingFile where
  size : ℕ
  minimumSize : ℕ
  maximumSize : ℕ
  freeSpace : ℕ
  usedSpace : ℕ
  peakUsage : ℕ
  bitmap : List (BitVec 64)
  nextHint : ℕ
  pageFileNumber : ℕ
  active : Bool
  extendable : Bool
  inMemory : Bool

namespace MmpagingFile

def new : MmpagingFile := ⟨0, 0, 0, 0, 0, 0, [], 0, 0, false, false, false⟩

def takeSlot (pf : MmpagingFile) (wordIdx bitIdx : ℕ) : MmpagingFile :=
  let used := fetchAdd pf.usedSpace 1
  { pf with
    bitmap := clearAt pf.bitmap wordIdx bitIdx
    freeSpace := fetchSub pf.freeSpace 1
    usedSpace := used
    peakUsage := if pf.peakUsage < used then used else pf.peakUsage
    nextHint := wordIdx * 64 + bitIdx + 1 }

def slotInWord (pf : MmpagingFile) (wordIdx : ℕ) : Option (ℕ × MmpagingFile) :=
  let word := pf.bitmap.getD wordIdx 0#64
  if word = 0#64 then none
  else
    let bitIdx := trailingZeros word
    let offset := wordIdx * 64 + bitIdx
    if pf.size ≤ offset then none else some (offset, pf.takeSlot wordIdx bitIdx)

def miAllocateSlotInPagefile (pf : MmpagingFile) : Option (ℕ × MmpagingFile) :=
  if pf.size = 0 ∨ pf.bitmap = [] then none
  else if pf.freeSpace = 0 then none
  else (List.range pf.bitmap.length).findSome? fun i => pf.slotInWord ((pf.nextHint / 64 + i) % pf.bitmap.length)

/-- `mi_free_pagefile_space`, on the file. -/
def freeSlot (pf : MmpagingFile) (offset : ℕ) : MmpagingFile :=
  if pf.active = false ∨ pf.bitmap = [] then pf
  else if pf.size ≤ offset then pf
  else
    { pf with
      bitmap := setAt pf.bitmap (offset / 64) (offset % 64)
      freeSpace := fetchAdd pf.freeSpace 1
      usedSpace := fetchSub pf.usedSpace 1
      nextHint := if offset < pf.nextHint then offset else pf.nextHint }

/-- All slots are free; the last word is masked. -/
def freshBitmap (minimumSize : ℕ) : List (BitVec 64) :=
  let bitmapWords := (minimumSize + 63) / 64
  let bitmap := List.replicate bitmapWords (BitVec.allOnes 64)
  let extraBits := minimumSize % 64
  if extraBits ≠ 0 then bitmap.set (bitmapWords - 1) (1#64 <<< extraBits - 1#64) else bitmap

/-- The file that `nt_create_paging_file` sets up. -/
def create (minimumSize maximumSize slotIdx : ℕ) (inMemory : Bool) : MmpagingFile where
  size := minimumSize
  minimumSize := minimumSize
  maximumSize := maximumSize
  freeSpace := minimumSize
  usedSpace := 0
  peakUsage := 0
  bitmap := freshBitmap minimumSize
  nextHint := 0
  pageFileNumber := slotIdx
  active := true
  extendable := minimumSize < maximumSize
  inMemory := inMemory

def growBitmap (bitmap : List (BitVec 64)) (newSize : ℕ) (pool : Bool) : Option (List (BitVec 64)) :=
  let newBitmapWords := (newSize + 63) / 64
  if bitmap.length < newBitmapWords then
    if pool then some (bitmap ++ List.replicate (newBitmapWords - bitmap.length) (BitVec.allOnes 64)) else none
  else some bitmap

/-- A turn of the loop of `mi_try_extend_pagefiles`: the extended file and the pages it got, or
nothing where the loop continues. -/
def extend (pf : MmpagingFile) (neededPages : ℕ) (pool : Bool) : Option (Option (MmpagingFile × ℕ)) :=
  if pf.active = false ∨ pf.extendable = false then some none
  else if pf.maximumSize ≤ pf.size then some none
  else
    let extendBy := max neededPages (pf.size / 4)
    if 2 ^ 64 ≤ pf.size + extendBy then none
    else
      let newSize := min (pf.size + extendBy) pf.maximumSize
      if newSize ≤ pf.size then some none
      else
        match growBitmap pf.bitmap newSize pool with
        | none => some none
        | some bitmap =>
          let added := newSize - pf.size
          some (some ({ pf with bitmap, size := newSize, freeSpace := fetchAdd pf.freeSpace added }, added))

end MmpagingFile

/-- The globals of the module. -/
structure Pagefiles where
  files : List MmpagingFile
  numberOfPagingFiles : ℕ
  pagefileSize : ℕ
  totalCommitLimit : ℕ
  totalCommittedPages : ℕ
  peakCommitment : ℕ

namespace Pagefiles

def init (ramLimit : ℕ) : Pagefiles := ⟨List.replicate mmMaxPagingFiles .new, 0, 0, ramLimit, 0, 0⟩

def ntCreatePagingFile (s : Pagefiles) (inMemory : Bool) (minimumSize maximumSize : ℕ) (pool : Bool) : Ntstatus × Pagefiles :=
  if minimumSize < mmMinPagefileSize then (.invalidParameter, s)
  else if maximumSize < minimumSize ∨ mmMaxPagefileSize < maximumSize then (.invalidParameter, s)
  else if mmMaxPagingFiles ≤ s.numberOfPagingFiles then (.noMemory, s)
  else
    match s.files.findIdx? fun pf => !pf.active with
    | none => (.noMemory, s)
    | some slotIdx =>
      if pool then
        (.success,
          { s with
            files := s.files.set slotIdx (.create minimumSize maximumSize slotIdx inMemory)
            numberOfPagingFiles := fetchAdd s.numberOfPagingFiles 1
            pagefileSize := fetchAdd s.pagefileSize minimumSize
            totalCommitLimit := fetchAdd s.totalCommitLimit minimumSize })
      else (.noMemory, s)

/-- `mi_allocate_pagefile_space`: the file and the slot. -/
def miAllocatePagefileSpace (s : Pagefiles) : Option ((ℕ × ℕ) × Pagefiles) :=
  if s.numberOfPagingFiles = 0 then none
  else (List.range s.numberOfPagingFiles).findSome? fun fileIdx =>
    match s.files[fileIdx]? with
    | none => none
    | some pf =>
      if pf.active then
        pf.miAllocateSlotInPagefile.map fun (offset, pf) => ((fileIdx, offset), { s with files := s.files.set fileIdx pf })
      else none

def miFreePagefileSpace (s : Pagefiles) (pagefileIndex offset : ℕ) : Pagefiles :=
  if mmMaxPagingFiles ≤ pagefileIndex then s else { s with files := s.files.modify pagefileIndex fun pf => pf.freeSlot offset }

/-- The loop of `mi_try_extend_pagefiles`, from the file with an index on. -/
def extendLoop (neededPages : ℕ) (pool : ℕ → Bool) : ℕ → List MmpagingFile → Option (Option (List MmpagingFile × ℕ))
  | _, [] => some none
  | i, pf :: files => do
    match ← pf.extend neededPages (pool i) with
    | some (pf, added) => return some (pf :: files, added)
    | none =>
      match ← extendLoop neededPages pool (i + 1) files with
      | some (files, added) => return some (pf :: files, added)
      | none => return none

def miTryExtendPagefiles (s : Pagefiles) (neededPages : ℕ) (pool : ℕ → Bool) : Option (Bool × Pagefiles) := do
  match ← extendLoop neededPages pool 0 s.files with
  | none => return (false, s)
  | some (files, added) =>
    return (true,
      { s with
        files
        pagefileSize := fetchAdd s.pagefileSize added
        totalCommitLimit := fetchAdd s.totalCommitLimit added })

/-- The loop of `mi_charge_commitment`; without other processors the exchange succeeds. -/
def chargeLoop (pages : ℕ) (pool : ℕ → ℕ → Bool) : ℕ → Pagefiles → Option (Bool × Pagefiles)
  | 0, _ => none
  | fuel + 1, s => do
    let newCommit := min (s.totalCommittedPages + pages) usizeMax
    if s.totalCommitLimit < newCommit then
      let (extended, s) ← s.miTryExtendPagefiles pages (pool fuel)
      if extended then chargeLoop pages pool fuel s else return (false, s)
    else
      return (true,
        { s with
          totalCommittedPages := newCommit
          peakCommitment := if s.peakCommitment < newCommit then newCommit else s.peakCommitment })

/-- What the files can still grow by. -/
def room (s : Pagefiles) : ℕ :=
  (s.files.map fun pf => if pf.active ∧ pf.extendable then pf.maximumSize - pf.size else 0).sum

/-- `mi_charge_commitment`; each turn but the last uses some of the room. -/
def miChargeCommitment (s : Pagefiles) (pages : ℕ) (pool : ℕ → ℕ → Bool) : Option (Bool × Pagefiles) :=
  if pages = 0 then some (true, s) else chargeLoop pages pool (s.room + 1) s

def miReturnCommitment (s : Pagefiles) (pages : ℕ) : Pagefiles :=
  if pages = 0 then s else { s with totalCommittedPages := fetchSub s.totalCommittedPages pages }

end Pagefiles

end XenOS.Mm
