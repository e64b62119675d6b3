import Mathlib.Tactic.Common

/-! Directories of the FAT32 driver: search, creation, update and deletion. Disk transfers and pool
allocations succeed, and sectors have 512 bytes, as the code assumes. Clusters are read as entries
of 32 bytes. -/

namespace XenOS.Fat

abbrev ShortName := Fin 11 → UInt8

inductive FatStatus where
  | invalidParameter
  | unsuccessful
  | objectNameNotFound
  | sharingViolation
  | directoryNotEmpty
  | diskFull
  | fileCorruptError
  | objectNameInvalid
  | objectPathNotFound
  | objectNameCollision
  deriving DecidableEq

/-- An entry of a directory; `times` are the stamps of its creation (with the date of the last access) and of the last write. -/
structure DirEntry where
  name : ShortName
  attr : BitVec 8
  times : ℕ × ℕ
  firstCluster : ℕ
  fileSize : ℕ

def attrVolumeId : BitVec 8 := 0x08
def attrDirectory : BitVec 8 := 0x10
def attrArchive : BitVec 8 := 0x20
def attrLongName : BitVec 8 := 0x0F

def fat32Bad : ℕ := 0x0FFFFFF7
def fat32EocMin : ℕ := 0x0FFFFFF8

def toUpper (c : UInt8) : UInt8 := if 97 ≤ c ∧ c ≤ 122 then c - 32 else c

def namesMatch (a b : ShortName) : Bool := decide (∀ i, toUpper (a i) = toUpper (b i))

namespace DirEntry

variable (e : DirEntry)

/-- The entry and those after it were never used. -/
def isEnd : Bool := e.name 0 == 0

def isFree : Bool := e.name 0 == 0 || e.name 0 == 0xE5

/-- An entry that the search does not pass over: neither deleted, nor of a long name, nor a volume label. -/
def shows : Bool := e.name 0 != 0xE5 && e.attr != attrLongName && e.attr &&& attrVolumeId == 0

def live : Bool := !e.isEnd && e.shows

/-- What `is_directory_empty` takes for `.` or `..`. -/
def dotLike : Bool := e.name 0 == 46 && (e.name 1 == 32 || e.name 1 == 46 && e.name 2 == 32)

end DirEntry

/-- A volume: the low 28 bits of the entries of its FAT, the entries of each cluster that is read as a part of a directory, and the time. -/
structure FatVolume where
  rootDirectoryCluster : ℕ
  clusterCount : ℕ
  entriesPerCluster : ℕ
  fat : ℕ → ℕ
  slots : ℕ → ℕ → DirEntry
  now : ℕ

/-- `FAT32_FCB`. -/
structure Fcb where
  firstCluster : ℕ
  fileSize : ℕ
  attributes : BitVec 8
  fileName : ShortName
  parentDirCluster : ℕ
  referenceCount : ℕ := 1
  isRootDirectory : Bool := false

def Fcb.isDirectory (fcb : Fcb) : Bool := fcb.attributes &&& attrDirectory != 0

/-- `is_valid_cluster`. -/
def ValidCluster (c : ℕ) : Prop := 2 ≤ c ∧ c < fat32Bad

instance (c : ℕ) : Decidable (ValidCluster c) := inferInstanceAs (Decidable (_ ∧ _))

/-- How a loop over the entries of a cluster ends. -/
inductive Scan where
  | ended
  | found (i : ℕ)
  | through

/-- The loop over `n` entries from the `i`th on: it stops at an entry that was never used, and at the first that is accepted. -/
def scan (accept : DirEntry → Bool) (entry : ℕ → DirEntry) (i : ℕ) : ℕ → Scan
  | 0 => .through
  | n + 1 => if (entry i).isEnd then .ended else if accept (entry i) then .found i else scan accept entry (i + 1) n

namespace FatVolume

variable (v : FatVolume)

def setFat (c value : ℕ) : FatVolume := { v with fat := Function.update v.fat c value }

def setSlot (c i : ℕ) (e : DirEntry) : FatVolume := { v with slots := Function.update v.slots c (Function.update (v.slots c) i e) }

def findAccepts (name : ShortName) (e : DirEntry) : Bool := e.shows && namesMatch e.name name

/-- The loop of `fat_find_file` over at most `fuel` clusters. -/
def findFrom (name : ShortName) : (fuel c : ℕ) → Option (Except FatStatus (ℕ × ℕ))
  | 0, _ => none
  | fuel + 1, c =>
    if ¬ ValidCluster c then some (.error .invalidParameter)
    else
      match scan (findAccepts name) (v.slots c) 0 v.entriesPerCluster with
      | .ended => some (.error .objectNameNotFound)
      | .found i => some (.ok (c, i))
      | .through => if ValidCluster (v.fat c) then findFrom name fuel (v.fat c) else some (.error .objectNameNotFound)

def fcbAt (dir : ℕ) (p : ℕ × ℕ) : Fcb where
  firstCluster := (v.slots p.1 p.2).firstCluster
  fileSize := (v.slots p.1 p.2).fileSize
  attributes := (v.slots p.1 p.2).attr
  fileName := (v.slots p.1 p.2).name
  parentDirCluster := dir

/-- `fat_find_file`; it does not end where there is no value. -/
def fatFindFile (dirCluster : ℕ) (name : ShortName) : Option (Except FatStatus Fcb) :=
  let searchCluster := if dirCluster = 0 then v.rootDirectoryCluster else dirCluster
  (v.findFrom name fat32Bad searchCluster).map fun found => found.map (v.fcbAt searchCluster)

def fatAllocateCluster : Except FatStatus (ℕ × FatVolume) :=
  match (List.range' 2 (min 0x0FFFFFF0 100000 - 2)).find? fun c => v.fat c == 0 with
  | none => .error .diskFull
  | some c => .ok (c, v.setFat c fat32EocMin)

def fatExtendChain (lastCluster : ℕ) : Except FatStatus (ℕ × FatVolume) := do
  let (c, v) ← v.fatAllocateCluster
  return (c, (v.setFat lastCluster c).setFat c fat32EocMin)

def findFreeDirectorySlot (dirCluster : ℕ) : Except FatStatus ((ℕ × ℕ) × FatVolume) :=
  if ¬ ValidCluster dirCluster then .error .unsuccessful
  else
    match (List.range v.entriesPerCluster).find? fun i => (v.slots dirCluster i).isFree with
    | some i => .ok ((dirCluster, i), v)
    | none => do
      let (c, v) ← v.fatExtendChain dirCluster
      return ((c, 0), v)

def createDirectoryEntryStruct (name : ShortName) (firstCluster fileSize : ℕ) (isDirectory : Bool) : DirEntry where
  name := name
  attr := if isDirectory then attrDirectory else attrArchive
  times := (v.now, v.now)
  firstCluster := firstCluster
  fileSize := if isDirectory then 0 else fileSize

def unused : DirEntry := ⟨fun _ => 0, 0, (0, 0), 0, 0⟩

/-- The names `.` and `..`. -/
def dotName (dots : ℕ) : ShortName := fun i => if i.val < dots then 46 else 32

def initializeDirectory (c parent : ℕ) : FatVolume :=
  { v with
    slots := Function.update v.slots c fun i =>
      if i = 0 then v.createDirectoryEntryStruct (dotName 1) c 0 true
      else if i = 1 then v.createDirectoryEntryStruct (dotName 2) parent 0 true
      else unused }

def fatCreateFile (parentDirCluster : ℕ) (name : ShortName) (isDirectory : Bool) : Except FatStatus (Fcb × FatVolume) := do
  let (slot, v) ← v.findFreeDirectorySlot parentDirCluster
  let (firstCluster, v) ←
    if isDirectory then do
      let (c, v) ← v.fatAllocateCluster
      pure (c, v.initializeDirectory c parentDirCluster)
    else pure (0, v)
  let v := v.setSlot slot.1 slot.2 (v.createDirectoryEntryStruct name firstCluster 0 isDirectory)
  return (⟨firstCluster, 0, if isDirectory then attrDirectory else attrArchive, name, parentDirCluster, 1, false⟩, v)

def updateAccepts (name : ShortName) (e : DirEntry) : Bool := e.name 0 != 0xE5 && e.attr != attrLongName && decide (∀ i, e.name i = name i)

def updated (fcb : Fcb) (e : DirEntry) : DirEntry :=
  { e with firstCluster := fcb.firstCluster, fileSize := if fcb.isDirectory then e.fileSize else fcb.fileSize, times := (e.times.1, v.now) }

def fatUpdateDirectoryEntry (fcb : Fcb) (parentDirCluster : ℕ) : Except FatStatus FatVolume :=
  if parentDirCluster < 2 then .error .invalidParameter
  else if ¬ ValidCluster parentDirCluster then .error .unsuccessful
  else
    match scan (updateAccepts fcb.fileName) (v.slots parentDirCluster) 0 v.entriesPerCluster with
    | .found i => .ok (v.setSlot parentDirCluster i (v.updated fcb (v.slots parentDirCluster i)))
    | _ => .error .objectNameNotFound

def isDirectoryEmpty (dirCluster : ℕ) : Bool :=
  ValidCluster dirCluster &&
  match scan (fun e => e.shows && !e.dotLike) (v.slots dirCluster) 0 v.entriesPerCluster with
  | .found _ => false
  | _ => true

/-- `fat_free_chain` with `n` turns left. -/
def fatFreeChain : (n c : ℕ) → FatVolume → Except FatStatus FatVolume
  | 0, _, _ => .error .fileCorruptError
  | n + 1, c, v =>
    if ¬ ValidCluster c then .ok v
    else if ¬ ValidCluster (v.fat c) then .ok (v.setFat c 0)
    else fatFreeChain n (v.fat c) (v.setFat c 0)

def deleteAccepts (name : ShortName) (e : DirEntry) : Bool := e.shows && decide (∀ i, e.name i = name i)

def deleted (e : DirEntry) : DirEntry := { e with name := Function.update e.name 0 0xE5 }

def markDirectoryEntryDeleted (dirCluster : ℕ) (name : ShortName) : Except FatStatus FatVolume :=
  if ¬ ValidCluster dirCluster then .error .unsuccessful
  else
    match scan (deleteAccepts name) (v.slots dirCluster) 0 v.entriesPerCluster with
    | .found i => .ok (v.setSlot dirCluster i (deleted (v.slots dirCluster i)))
    | _ => .error .objectNameNotFound

def fatDeleteFile (parentDirCluster : ℕ) (name : ShortName) (fcb : Fcb) : Except FatStatus FatVolume :=
  if 1 < fcb.referenceCount then .error .sharingViolation
  else if fcb.isDirectory ∧ ¬ fcb.isRootDirectory ∧ ¬ v.isDirectoryEmpty fcb.firstCluster then .error .directoryNotEmpty
  else
    (if 2 ≤ fcb.firstCluster then fatFreeChain 10000 fcb.firstCluster v else .ok v) >>= fun v =>
      v.markDirectoryEntryDeleted parentDirCluster name

end FatVolume

end XenOS.Fat
