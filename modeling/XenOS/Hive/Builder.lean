import Mathlib.Algebra.Group.Int.Defs
import XenOS.General.LittleEndian

/-! The builder of registry hives. The hive is one growing buffer: a base block, then bins of a
multiple of 4096 bytes, each a header and cells back to back. A cell starts with its size, negative
while allocated, and is found by a first fit over all bins. An index out of range stops the builder,
as do an overflow and a loop without end. -/

namespace XenOS.Hive

open General

def hiveBaseBlockSize : ℕ := 4096

def defaultBinSize : ℕ := 4096

def binHeaderSize : ℕ := 32

def cellHeaderSize : ℕ := 4

def cellMinSize : ℕ := 8

def keyNodeHeaderSize : ℕ := 76

def keyValueHeaderSize : ℕ := 20

def u32Max : ℕ := 2 ^ 32 - 1

/-- The signatures as numbers: `hbin`, `lh`. -/
def binSignature : ℕ := 0x6e696268

def hashLeafSignature : ℕ := 0x686c

def keyHiveEntry : ℕ := 0x0004

def keyCompName : ℕ := 0x0020

def valueCompName : ℕ := 0x0001

def dataInOffset : ℕ := 0x80000000

/-- `(size + 7) & !7`. -/
def alignCellSize (size : ℕ) : ℕ := (size + 7) / 8 * 8

def nameBytes (name : List Char) : List UInt8 := name.flatMap String.utf8EncodeChar

def encodeUtf16 (name : List Char) : List ℕ :=
  name.flatMap fun c =>
    if c.toNat < 0x10000 then [c.toNat]
    else [0xd800 + (c.toNat - 0x10000) / 0x400, 0xdc00 + (c.toNat - 0x10000) % 0x400]

def computeNameHash (name : List Char) : ℕ := name.foldl (fun hash c => (hash * 37 + c.toUpper.toNat) % 2 ^ 32) 0

/-- The low `n` bytes of a number. -/
def toLeBytes (n v : ℕ) : List UInt8 := (List.range n).map fun i => UInt8.ofNat (v / 256 ^ i)

/-- UTF-16LE with a terminator. -/
def stringData (value : List Char) : List UInt8 := (encodeUtf16 value).flatMap (toLeBytes 2) ++ [0, 0]

structure HiveBuilder where
  data : ℕ → UInt8
  len : ℕ
  rootKeyOffset : ℕ
  sequenceNumber : ℕ

def signed32 (v : ℕ) : ℤ := if v < 2 ^ 31 then v else (v : ℤ) - 2 ^ 32

namespace HiveBuilder

def read (b : HiveBuilder) (offset n : ℕ) : Option ℕ := if offset + n ≤ b.len then some (leValue b.data offset n) else none

def readU16 (b : HiveBuilder) (offset : ℕ) : Option ℕ := b.read offset 2

def readU32 (b : HiveBuilder) (offset : ℕ) : Option ℕ := b.read offset 4

def readI32 (b : HiveBuilder) (offset : ℕ) : Option ℤ := (b.read offset 4).map signed32

def write (b : HiveBuilder) (offset n v : ℕ) : Option HiveBuilder :=
  if offset + n ≤ b.len then some { b with data := leWrite b.data offset n v } else none

def writeU32 (b : HiveBuilder) (offset v : ℕ) : Option HiveBuilder := b.write offset 4 v

def writeI32 (b : HiveBuilder) (offset : ℕ) (v : ℤ) : Option HiveBuilder := b.write offset 4 (v % 2 ^ 32).toNat

def writeFields (b : HiveBuilder) (offset : ℕ) : List (ℕ × ℕ) → Option HiveBuilder
  | [] => some b
  | (n, v) :: fields => do (← b.write offset n v).writeFields (offset + n) fields

def copyFromSlice (b : HiveBuilder) (offset : ℕ) (bytes : List UInt8) : Option HiveBuilder :=
  b.writeFields offset (bytes.map fun byte => (1, byte.toNat))

def searchCells (b : HiveBuilder) (requiredSize binEnd : ℕ) : ℕ → ℕ → Option (Option (ℕ × ℕ))
  | 0, _ => none
  | fuel + 1, offset =>
    if offset < binEnd ∧ offset + 4 ≤ b.len then do
      let size ← b.readI32 offset
      if size = 0 then return none
      else if 0 < size ∧ requiredSize ≤ size.natAbs then return some (offset, size.natAbs)
      else b.searchCells requiredSize binEnd fuel (offset + size.natAbs)
    else some none

def searchBins (b : HiveBuilder) (requiredSize : ℕ) : ℕ → ℕ → Option (Option (ℕ × ℕ))
  | 0, _ => none
  | fuel + 1, binOffset =>
    if binOffset < b.len then do
      if (← b.readU32 binOffset) ≠ binSignature then return none
      let binSize ← b.readU32 (binOffset + 8)
      match ← b.searchCells requiredSize (binOffset + binSize) (b.len + 1) (binOffset + binHeaderSize) with
      | some cell => return some cell
      | none => b.searchBins requiredSize fuel (binOffset + binSize)
    else some none

/-- The search of `allocate_cell`. -/
def findCell (b : HiveBuilder) (requiredSize : ℕ) : Option (Option (ℕ × ℕ)) :=
  b.searchBins requiredSize (b.len + 1) hiveBaseBlockSize

def resize (b : HiveBuilder) (len : ℕ) : HiveBuilder :=
  { b with data := fun j => if j < b.len then b.data j else 0, len := len }

def extendHive (b : HiveBuilder) (minSize : ℕ) : Option HiveBuilder := do
  let newBinSize := (minSize + defaultBinSize - 1) / defaultBinSize * defaultBinSize
  let binOffset := b.len
  let b := b.resize (b.len + newBinSize)
  let b ← b.writeU32 binOffset binSignature
  let b ← b.writeU32 (binOffset + 4) (binOffset - hiveBaseBlockSize)
  let b ← b.writeU32 (binOffset + 8) newBinSize
  let b ← b.writeI32 (binOffset + binHeaderSize) (newBinSize - binHeaderSize : ℕ)
  b.writeU32 40 (b.len - hiveBaseBlockSize)

def takeCell (b : HiveBuilder) (offset absSize requiredSize : ℕ) : Option HiveBuilder := do
  let remaining := absSize - requiredSize
  let b ← b.writeI32 offset (-(requiredSize : ℤ))
  if cellMinSize ≤ remaining then b.writeI32 (offset + requiredSize) remaining else some b

/-- The first argument bounds the recursion. -/
def allocateCell : ℕ → HiveBuilder → ℕ → Option (HiveBuilder × ℕ)
  | 0, _, _ => none
  | fuel + 1, b, dataSize => do
    let requiredSize := alignCellSize (cellHeaderSize + dataSize)
    match ← b.findCell requiredSize with
    | some (offset, absSize) => return (← b.takeCell offset absSize requiredSize, (offset - hiveBaseBlockSize) % 2 ^ 32)
    | none => allocateCell fuel (← b.extendHive requiredSize) dataSize

def freeCell (b : HiveBuilder) (cellOffset : ℕ) : Option HiveBuilder := do
  let size ← b.readI32 (hiveBaseBlockSize + cellOffset)
  if size = -2 ^ 31 then none
  else if size < 0 then b.writeI32 (hiveBaseBlockSize + cellOffset) (-size)
  else some b

def dataAbs (cellOffset : ℕ) : ℕ := hiveBaseBlockSize + cellOffset + cellHeaderSize

def keyNodeHeader (flags parent nameLength : ℕ) : List (ℕ × ℕ) :=
  [(2, 0x6b6e), (2, flags), (8, 0), (4, 0), (4, parent), (4, 0), (4, 0), (4, u32Max), (4, u32Max), (4, 0), (4, u32Max),
    (4, u32Max), (4, u32Max), (4, 0), (4, 0), (4, 0), (4, 0), (4, 0), (2, nameLength), (2, 0)]

def allocateKeyNode (fuel : ℕ) (b : HiveBuilder) (name : List Char) (parentOffset flags : ℕ) : Option (HiveBuilder × ℕ) := do
  let bytes := nameBytes name
  let (b, cellOffset) ← b.allocateCell fuel (keyNodeHeaderSize + bytes.length)
  let b ← b.writeFields (dataAbs cellOffset) (keyNodeHeader flags parentOffset bytes.length)
  let b ← b.copyFromSlice (dataAbs cellOffset + keyNodeHeaderSize) bytes
  return (b, cellOffset)

def createSubkeysList (fuel : ℕ) (b : HiveBuilder) (items : List (ℕ × ℕ)) : Option (HiveBuilder × ℕ) := do
  let (b, cellOffset) ← b.allocateCell fuel (4 + items.length * 8)
  let b ← b.writeFields (dataAbs cellOffset) [(2, hashLeafSignature), (2, items.length)]
  let b ← b.writeFields (dataAbs cellOffset + 4) (items.flatMap fun item => [(4, item.1), (4, item.2)])
  return (b, cellOffset)

def extendSubkeysList (fuel : ℕ) (b : HiveBuilder) (listOffset newKeyOffset nameHash : ℕ) : Option (HiveBuilder × ℕ) := do
  let listDataAbs := dataAbs listOffset
  let count ← b.readU16 (listDataAbs + 2)
  let items ← (List.range count).mapM fun i => do
    return (← b.readU32 (listDataAbs + 4 + i * 8), ← b.readU32 (listDataAbs + 4 + i * 8 + 4))
  let items := (items ++ [(newKeyOffset, nameHash)]).mergeSort fun item item' => item.2 ≤ item'.2
  (← b.freeCell listOffset).createSubkeysList fuel items

/-- An addition that would overflow stops the builder. -/
def checked (v : ℕ) : Option ℕ := if v < 2 ^ 32 then some v else none

def addSubkeyToParent (fuel : ℕ) (b : HiveBuilder) (parentOffset childOffset : ℕ) (childName : List Char) :
    Option HiveBuilder := do
  let parentDataAbs := dataAbs parentOffset
  let subkeysListOffset ← b.readU32 (parentDataAbs + 28)
  let subkeyCount ← b.readU32 (parentDataAbs + 20)
  let nameHash := computeNameHash childName
  let (b, listOffset) ←
    (if subkeysListOffset = u32Max then b.createSubkeysList fuel [(childOffset, nameHash)]
     else b.extendSubkeysList fuel subkeysListOffset childOffset nameHash)
  let b ← b.writeU32 (parentDataAbs + 28) listOffset
  let b ← b.writeU32 (parentDataAbs + 20) (← checked (subkeyCount + 1))
  let currentMax ← b.readU32 (parentDataAbs + 52)
  let nameLen ← checked ((nameBytes childName).length % 2 ^ 32 * 2)
  if currentMax < nameLen then b.writeU32 (parentDataAbs + 52) nameLen else some b

def createSubkey (fuel : ℕ) (b : HiveBuilder) (parent : ℕ) (name : List Char) : Option (HiveBuilder × ℕ) := do
  let (b, keyOffset) ← b.allocateKeyNode fuel name parent keyCompName
  return (← b.addSubkeyToParent fuel parent keyOffset name, keyOffset)

def keyValueHeader (nameLength dataSize dataOffset dataType flags : ℕ) : List (ℕ × ℕ) :=
  [(2, 0x6b76), (2, nameLength), (4, dataSize), (4, dataOffset), (4, dataType), (2, flags), (2, 0)]

/-- The data of a value: up to four bytes in the offset field, more in a cell of their own. -/
def storeData (fuel : ℕ) (b : HiveBuilder) (data : List UInt8) : Option (HiveBuilder × ℕ × ℕ) := do
  if data.length ≤ 4 then
    let dataOffsetValue := leValue (fun i => data.getD i 0) 0 data.length
    return (b, dataOffsetValue, data.length + dataInOffset)
  else
    let (b, dataCellOffset) ← b.allocateCell fuel data.length
    let b ← b.copyFromSlice (dataAbs dataCellOffset) data
    return (b, dataCellOffset, data.length % 2 ^ 32)

def allocateKeyValue (fuel : ℕ) (b : HiveBuilder) (name : List Char) (dataType : ℕ) (data : List UInt8) :
    Option (HiveBuilder × ℕ) := do
  let bytes := nameBytes name
  let (b, cellOffset) ← b.allocateCell fuel (keyValueHeaderSize + bytes.length)
  let (b, storedDataOffset, storedDataSize) ← b.storeData fuel data
  let flags := if bytes.all (· < 128) then valueCompName else 0
  let b ← b.writeFields (dataAbs cellOffset) (keyValueHeader bytes.length storedDataSize storedDataOffset dataType flags)
  let b ← b.copyFromSlice (dataAbs cellOffset + keyValueHeaderSize) bytes
  return (b, cellOffset)

def createValuesList (fuel : ℕ) (b : HiveBuilder) (valueOffsets : List ℕ) : Option (HiveBuilder × ℕ) := do
  let (b, cellOffset) ← b.allocateCell fuel (valueOffsets.length * 4)
  let b ← b.writeFields (dataAbs cellOffset) (valueOffsets.map fun offset => (4, offset))
  return (b, cellOffset)

def extendValuesList (fuel : ℕ) (b : HiveBuilder) (keyOffset listOffset newValueOffset : ℕ) : Option HiveBuilder := do
  let keyDataAbs := dataAbs keyOffset
  let count ← b.readU32 (keyDataAbs + 36)
  let offsets ← (List.range count).mapM fun i => b.readU32 (dataAbs listOffset + i * 4)
  let b ← b.freeCell listOffset
  let (b, newListOffset) ← b.createValuesList fuel (offsets ++ [newValueOffset])
  b.writeU32 (keyDataAbs + 40) newListOffset

def replaceValuesList (fuel : ℕ) (b : HiveBuilder) (keyOffset valuesListOffset valueOffset : ℕ) : Option HiveBuilder := do
  if valuesListOffset = u32Max then
    let (b, listOffset) ← b.createValuesList fuel [valueOffset]
    b.writeU32 (dataAbs keyOffset + 40) listOffset
  else b.extendValuesList fuel keyOffset valuesListOffset valueOffset

def addValueToKey (fuel : ℕ) (b : HiveBuilder) (keyOffset valueOffset : ℕ) : Option HiveBuilder := do
  let keyDataAbs := dataAbs keyOffset
  let valuesListOffset ← b.readU32 (keyDataAbs + 40)
  let valuesCount ← b.readU32 (keyDataAbs + 36)
  let b ← b.replaceValuesList fuel keyOffset valuesListOffset valueOffset
  b.writeU32 (keyDataAbs + 36) (← checked (valuesCount + 1))

def setValueInternal (fuel : ℕ) (b : HiveBuilder) (key : ℕ) (name : List Char) (dataType : ℕ) (data : List UInt8) :
    Option HiveBuilder := do
  let (b, valueOffset) ← b.allocateKeyValue fuel name dataType data
  b.addValueToKey fuel key valueOffset

def setDword (fuel : ℕ) (b : HiveBuilder) (key : ℕ) (name : List Char) (value : ℕ) : Option HiveBuilder :=
  b.setValueInternal fuel key name 4 (toLeBytes 4 value)

def setQword (fuel : ℕ) (b : HiveBuilder) (key : ℕ) (name : List Char) (value : ℕ) : Option HiveBuilder :=
  b.setValueInternal fuel key name 11 (toLeBytes 8 value)

def setString (fuel : ℕ) (b : HiveBuilder) (key : ℕ) (name value : List Char) : Option HiveBuilder :=
  b.setValueInternal fuel key name 1 (stringData value)

def setExpandString (fuel : ℕ) (b : HiveBuilder) (key : ℕ) (name value : List Char) : Option HiveBuilder :=
  b.setValueInternal fuel key name 2 (stringData value)

def setBinary (fuel : ℕ) (b : HiveBuilder) (key : ℕ) (name : List Char) (value : List UInt8) : Option HiveBuilder :=
  b.setValueInternal fuel key name 3 value

def setMultiString (fuel : ℕ) (b : HiveBuilder) (key : ℕ) (name : List Char) (values : List (List Char)) :
    Option HiveBuilder :=
  b.setValueInternal fuel key name 7 (values.flatMap stringData ++ [0, 0])

def setRaw (fuel : ℕ) (b : HiveBuilder) (key : ℕ) (name : List Char) (dataType : ℕ) (data : List UInt8) : Option HiveBuilder :=
  b.setValueInternal fuel key name dataType data

def initBaseBlock (b : HiveBuilder) (name : List Char) : Option HiveBuilder := do
  let b ← b.writeFields 0 [(4, 0x66676572), (4, b.sequenceNumber), (4, b.sequenceNumber), (8, 0), (4, 1), (4, 5), (4, 0), (4, 1),
    (4, 0), (4, defaultBinSize), (4, 1)]
  b.writeFields 48 (((encodeUtf16 name).take 31).map fun c => (2, c))

def initFirstBin (b : HiveBuilder) : Option HiveBuilder := do
  let b ← b.writeU32 hiveBaseBlockSize binSignature
  let b ← b.writeU32 (hiveBaseBlockSize + 4) 0
  let b ← b.writeU32 (hiveBaseBlockSize + 8) defaultBinSize
  b.writeI32 (hiveBaseBlockSize + binHeaderSize) (defaultBinSize - binHeaderSize : ℕ)

def createRootKey (fuel : ℕ) (b : HiveBuilder) (name : List Char) : Option HiveBuilder := do
  let (b, keyOffset) ← b.allocateKeyNode fuel name 0 (keyHiveEntry + keyCompName)
  ({ b with rootKeyOffset := keyOffset } : HiveBuilder).writeU32 36 keyOffset

def new (fuel : ℕ) (name : List Char) : Option HiveBuilder := do
  let b : HiveBuilder := ⟨fun _ => 0, hiveBaseBlockSize + defaultBinSize, 0, 1⟩
  let b ← b.initBaseBlock name
  let b ← b.initFirstBin
  b.createRootKey fuel name

end HiveBuilder

structure Session where
  builder : HiveBuilder
  keys : List ℕ

/-- The calls of a user, with the position of the handle among those returned. -/
inductive HiveOp where
  | createSubkey (parent : ℕ) (name : List Char)
  | setDword (key : ℕ) (name : List Char) (value : ℕ)
  | setQword (key : ℕ) (name : List Char) (value : ℕ)
  | setString (key : ℕ) (name value : List Char)
  | setExpandString (key : ℕ) (name value : List Char)
  | setBinary (key : ℕ) (name : List Char) (value : List UInt8)
  | setMultiString (key : ℕ) (name : List Char) (values : List (List Char))
  | setRaw (key : ℕ) (name : List Char) (dataType : ℕ) (data : List UInt8)

namespace Session

def new (fuel : ℕ) (name : List Char) : Option Session := do
  let b ← HiveBuilder.new fuel name
  return ⟨b, [b.rootKeyOffset]⟩

def withKey (s : Session) (key : ℕ) (set : ℕ → Option HiveBuilder) : Option Session := do
  return { s with builder := ← set (← s.keys[key]?) }

def step (fuel : ℕ) (s : Session) : HiveOp → Option Session
  | .createSubkey parent name => do
    let (b, key) ← s.builder.createSubkey fuel (← s.keys[parent]?) name
    return ⟨b, key :: s.keys⟩
  | .setDword key name value => s.withKey key fun k => s.builder.setDword fuel k name value
  | .setQword key name value => s.withKey key fun k => s.builder.setQword fuel k name value
  | .setString key name value => s.withKey key fun k => s.builder.setString fuel k name value
  | .setExpandString key name value => s.withKey key fun k => s.builder.setExpandString fuel k name value
  | .setBinary key name value => s.withKey key fun k => s.builder.setBinary fuel k name value
  | .setMultiString key name values => s.withKey key fun k => s.builder.setMultiString fuel k name values
  | .setRaw key name dataType data => s.withKey key fun k => s.builder.setRaw fuel k name dataType data

def Reachable (s : Session) : Prop :=
  ∃ fuel name ops s₀, new fuel name = some s₀ ∧ List.foldlM (step fuel) s₀ ops = some s

end Session

end XenOS.Hive
