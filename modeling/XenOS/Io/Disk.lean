import XenOS.General.BigEndian

/-! A read or write of a partition on its way down: the partition manager translates the offset,
the disk driver builds the SCSI command. -/

namespace XenOS.Io

open General

abbrev Ntstatus := BitVec 32

def statusSuccess : Ntstatus := 0x00000000#32
def statusInvalidParameter : Ntstatus := 0xC000000D#32
def statusInsufficientResources : Ntstatus := 0xC000009A#32

/-- `status >= 0`. -/
def ntSuccess (status : Ntstatus) : Bool := decide (0 ≤ status.toInt)

/-- A disk, as `READ CAPACITY` reports it: `DISK_FDO_EXTENSION`. -/
structure Disk where
  sectorCount : ℕ
  sectorSize : ℕ

structure DiskGeometry where
  cylinders : ℕ
  tracksPerCylinder : ℕ
  sectorsPerTrack : ℕ
  bytesPerSector : ℕ

def diskFdoIoctlGetGeometry (disk : Disk) : DiskGeometry :=
  let sectorsPerTrack := 63
  let heads := 255
  { cylinders := disk.sectorCount / (sectorsPerTrack * heads)
    tracksPerCylinder := heads
    sectorsPerTrack := sectorsPerTrack
    bytesPerSector := disk.sectorSize }

/-- `u64` arithmetic. -/
def wrap64 (n : ℕ) : ℕ := n % 2 ^ 64

def readDiskGeometry (disk : Disk) : ℕ × ℕ :=
  let geometry := diskFdoIoctlGetGeometry disk
  (wrap64 (wrap64 (geometry.cylinders * geometry.tracksPerCylinder) * geometry.sectorsPerTrack), geometry.bytesPerSector)

/-- What the partition manager keeps of a disk: `PARTMGR_FILTER_EXTENSION`. -/
structure FilterExtension where
  sectorCount : ℕ
  sectorSize : ℕ

def filterExtension (disk : Disk) : FilterExtension :=
  let (sectorCount, sectorSize) := readDiskGeometry disk
  if sectorCount = 0 then { sectorCount := 0, sectorSize := 512 }
  else { sectorCount, sectorSize }

/-- `PARTMGR_PARTITION_EXTENSION`. -/
structure Partition where
  startingLba : ℕ
  sectorCount : ℕ

def partition0 (disk : Disk) : Partition where
  startingLba := 0
  sectorCount := (filterExtension disk).sectorCount

/-- `IRP_MJ_READ` or `IRP_MJ_WRITE`; `hasBuffer` of the IRP, `allocates` of the pool. -/
structure Request where
  isRead : Bool
  offset : BitVec 64
  length : BitVec 32
  hasBuffer : Bool := true
  allocates : Bool := true

/-- `SCSI_REQUEST_BLOCK`, with the command block as its sixteen bytes. -/
structure Srb where
  dataIn : Bool
  dataTransferLength : ℕ
  cdbLength : ℕ
  cdb : List ℕ
  deriving DecidableEq

structure Answer where
  returned : Ntstatus
  status : Ntstatus
  information : ℕ

/-- How a request ends, and the command that was sent. -/
structure Outcome where
  status : Ntstatus
  information : ℕ := 0
  command : Option Srb := none

def scsiopRead : ℕ := 0x28
def scsiopWrite : ℕ := 0x2A
def scsiopRead16 : ℕ := 0x88
def scsiopWrite16 : ℕ := 0x8A

def buildSrb (isRead : Bool) (length startLba sectorCount : ℕ) : Srb :=
  if startLba ≤ 0xFFFFFFFF ∧ sectorCount ≤ 0xFFFF then
    { dataIn := isRead
      dataTransferLength := length
      cdbLength := 10
      cdb := [if isRead then scsiopRead else scsiopWrite, 0] ++ toBytes 4 startLba ++ [0] ++ toBytes 2 sectorCount ++
        List.replicate 7 0 }
  else
    { dataIn := isRead
      dataTransferLength := length
      cdbLength := 16
      cdb := [if isRead then scsiopRead16 else scsiopWrite16, 0] ++ toBytes 8 startLba ++ toBytes 4 sectorCount ++ [0, 0] }

def scsiReadWriteInternal (lower : Srb → Answer) (byteOffset length : ℕ) (allocates : Bool) (sectorSize : ℕ) (isRead : Bool) :
    Outcome :=
  if length = 0 ∨ sectorSize = 0 then { status := statusInvalidParameter }
  else
    let startLba := byteOffset / sectorSize
    let sectorCount := (length + sectorSize - 1) % 2 ^ 32 / sectorSize
    if allocates then
      let srb := buildSrb isRead length startLba sectorCount
      let answer := lower srb
      let status := if ntSuccess answer.returned then answer.status else answer.returned
      { status
        information := if ntSuccess status then answer.information else 0
        command := some srb }
    else { status := statusInsufficientResources }

def diskFdoReadWrite (lower : Srb → Answer) (disk : Disk) (request : Request) : Outcome :=
  if request.length.toNat = 0 then { status := statusSuccess }
  else if request.hasBuffer then
    scsiReadWriteInternal lower request.offset.toNat request.length.toNat request.allocates disk.sectorSize request.isRead
  else { status := statusInvalidParameter }

def partmgrPdoReadWrite (lower : Srb → Answer) (disk : Disk) (partition : Partition) (request : Request) : Outcome :=
  let sectorSize := (filterExtension disk).sectorSize
  if request.offset.toInt < 0 then { status := statusInvalidParameter }
  else
    let partitionSizeBytes := wrap64 (partition.sectorCount * sectorSize)
    let requestEnd := wrap64 (request.offset.toNat + request.length.toNat)
    if partitionSizeBytes < requestEnd then { status := statusInvalidParameter }
    else
      let partitionStartBytes := wrap64 (partition.startingLba * sectorSize)
      let actualOffset := wrap64 (partitionStartBytes + request.offset.toNat)
      diskFdoReadWrite lower disk { request with offset := BitVec.ofNat 64 actualOffset }

structure Command where
  isRead : Bool
  lba : ℕ
  sectors : ℕ
  deriving DecidableEq

def decodeCdb (cdb : List ℕ) : Option Command :=
  let field (start length : ℕ) : ℕ := ofBytes ((cdb.drop start).take length)
  match cdb.head? with
  | some 0x28 => some { isRead := true, lba := field 2 4, sectors := field 7 2 }
  | some 0x2A => some { isRead := false, lba := field 2 4, sectors := field 7 2 }
  | some 0x88 => some { isRead := true, lba := field 2 8, sectors := field 10 4 }
  | some 0x8A => some { isRead := false, lba := field 2 8, sectors := field 10 4 }
  | _ => none

end XenOS.Io
