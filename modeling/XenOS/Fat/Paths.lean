import XenOS.Fat.Directory

/-! Paths of the FAT32 driver: their components, the 8.3 names that the search makes of them, and the creation of a file by its path. -/

namespace XenOS.Fat

def backslash : UInt16 := 92

/-- The index of the last `c`. -/
def lastIndex {α : Type*} [DecidableEq α] (c : α) : List α → Option ℕ
  | [] => none
  | x :: xs =>
    match lastIndex c xs with
    | some i => some (i + 1)
    | none => if x = c then some 0 else none

/-- `split_path`, of a path of its length: at most 16 components. -/
def splitPath (path : List UInt16) : List (List UInt16) :=
  let path := if path.head? = some backslash then path.tail else path
  ((path.splitOnP fun c => c == backslash || c == 0).filter (· ≠ [])).take 16

def baseAndExt (name : List UInt8) : List UInt8 × List UInt8 :=
  match lastIndex 46 name with
  | some dot => (name.take dot, name.drop (dot + 1))
  | none => (name, [])

def padded (name : List UInt8 × List UInt8) : ShortName := fun i =>
  if i.val < 8 then (name.1.map toUpper).getD i 32 else (name.2.map toUpper).getD (i - 8) 32

def convertTo83Name (name : List UInt8) : Option ShortName :=
  if 8 < (baseAndExt name).1.length ∨ 3 < (baseAndExt name).2.length then none else some (padded (baseAndExt name))

def unicodeComponentTo83 (wide : List UInt16) : Option ShortName :=
  let read := (wide.takeWhile (· ≠ 0)).take 255
  if (∃ c ∈ read, ¬ c < 128) ∨ read = [] then none else convertTo83Name (read.map UInt16.toUInt8)

/-- What `FatCreate` leaves: an open file that was there, or a new one. -/
inductive Opened where
  | existing (fcb : Fcb)
  | created (fcb : Fcb) (v : FatVolume)

/-- The index of the last backslash, or 0. -/
def parentEnd (path : List UInt16) : ℕ := (lastIndex backslash path).getD 0

def createdName (chars : List UInt16) : ShortName := fun i =>
  ((chars.filter fun c => c < 128 ∧ c ≠ 0).map UInt16.toUInt8).getD i 32

namespace FatVolume

variable (v : FatVolume)

def rootFcb : Fcb := ⟨v.rootDirectoryCluster, 0, attrDirectory, fun i => if i.val = 0 then 92 else 32, 0, 1, true⟩

/-- The loop of `fat_find_file_by_path`. -/
def findComponents : List (List UInt16) → ℕ → Option (Except FatStatus Fcb)
  | [], _ => some (.error .objectNameNotFound)
  | component :: rest, current =>
    match unicodeComponentTo83 component with
    | none => some (.error .objectNameInvalid)
    | some name =>
      match v.fatFindFile current name with
      | none => none
      | some (.error status) => some (.error status)
      | some (.ok fcb) =>
        if rest = [] then some (.ok fcb)
        else if ¬ fcb.isDirectory ∨ fcb.firstCluster < 2 then some (.error .objectPathNotFound)
        else findComponents rest fcb.firstCluster

def fatFindFileByPath (path : List UInt16) : Option (Except FatStatus Fcb) :=
  if splitPath path = [] then some (.ok v.rootFcb) else v.findComponents (splitPath path) v.rootDirectoryCluster

/-- Where `FatCreate` puts a new file. -/
def parentCluster (path : List UInt16) : Option (Except FatStatus ℕ) :=
  if parentEnd path = 0 then some (.ok v.rootDirectoryCluster)
  else
    match v.fatFindFileByPath (path.take (parentEnd path)) with
    | none => none
    | some (.error _) => some (.error .objectPathNotFound)
    | some (.ok fcb) => some (.ok fcb.firstCluster)

def createByPath (path : List UInt16) : Option (Except FatStatus Opened) :=
  match v.parentCluster path with
  | none => none
  | some (.error status) => some (.error status)
  | some (.ok cluster) =>
    some ((v.fatCreateFile cluster (createdName (path.drop (parentEnd path + 1))) false).map fun r => .created r.1 r.2)

/-- The dispositions of the kernel's `NtCreateFile`. -/
def fileOpen : ℕ := 1
def fileCreate : ℕ := 2
def fileOpenIf : ℕ := 3

/-- `FatCreate` with a volume. It takes 1 for `FILE_CREATE`, and 0 for `FILE_OPEN`. -/
def fatCreate (createDisposition : ℕ) (path : List UInt16) : Option (Except FatStatus Opened) :=
  if path = [] then some (.ok (.existing v.rootFcb))
  else if 256 < path.length then some (.error .objectNameInvalid)
  else
    match v.fatFindFileByPath path with
    | none => none
    | some (.ok fcb) => some (if createDisposition = 1 then .error .objectNameCollision else .ok (.existing fcb))
    | some (.error status) =>
      if createDisposition = 1 ∧ status = .objectNameNotFound then v.createByPath path else some (.error .objectNameNotFound)

end FatVolume

end XenOS.Fat
