import XenOS.Hive.Cells

/-! The reader of hives, over the bytes that the builder gives out. A result that is an error, and an
assertion that fails, are none. -/

namespace XenOS.Hive

open General

def indexLeafSignature : ℕ := 0x696c

def fastLeafSignature : ℕ := 0x666c

def indexRootSignature : ℕ := 0x6972

def keyNodeSignature : ℕ := 0x6b6e

def keyValueSignature : ℕ := 0x6b76

def bigDataSignature : ℕ := 0x6264

def bigDataSegmentSize : ℕ := 16344

inductive HiveString where
  | latin1 (bytes : List UInt8)
  | utf16le (bytes : List UInt8)

/-- `chunks_exact(2)` as numbers. -/
def pairs : List UInt8 → List ℕ
  | low :: high :: bytes => (low.toNat + 256 * high.toNat) :: pairs bytes
  | _ => []

def HiveString.units : HiveString → List ℕ
  | .latin1 bytes => bytes.map UInt8.toNat
  | .utf16le bytes => pairs bytes

/-- The table: ASCII, Latin-1 without the division sign, the Russian letters, and the full-width
Latin ones. Only two rows are no shift by 0x20. -/
def utf16ToUppercase (unit : ℕ) : ℕ :=
  if 0x61 ≤ unit ∧ unit ≤ 0x7a ∨ 0xe0 ≤ unit ∧ unit ≤ 0xfe ∧ unit ≠ 0xf7 ∨ 0x430 ≤ unit ∧ unit ≤ 0x44f ∨
      0xff41 ≤ unit ∧ unit ≤ 0xff5a then unit - 0x20
  else if unit = 0xff then 0x178
  else if unit = 0x451 then 0x401
  else unit

def cmpIter : List ℕ → List ℕ → Ordering
  | this :: these, other :: others =>
    if utf16ToUppercase this ≠ utf16ToUppercase other then compare (utf16ToUppercase this) (utf16ToUppercase other)
    else cmpIter these others
  | _ :: _, [] => .gt
  | [], _ :: _ => .lt
  | [], [] => .eq

def HiveString.eqStr (s : HiveString) (name : List Char) : Bool := cmpIter s.units (encodeUtf16 name) = .eq

/-- `utf16le_to_string`: up to the first zero, and surrogates are replaced one by one. -/
def utf16leToString (bytes : List UInt8) : List Char :=
  ((pairs bytes).takeWhile (· ≠ 0)).map fun unit => if 0xd800 ≤ unit ∧ unit < 0xe000 then Char.ofNat 0xfffd else Char.ofNat unit

namespace HiveBuilder

def cellRange (b : HiveBuilder) (dataOffset : ℕ) : Option (ℕ × ℕ) :=
  if dataOffset = u32Max then none
  else if b.len < hiveBaseBlockSize + dataOffset + cellHeaderSize then none
  else
    let size := b.cellSize (hiveBaseBlockSize + dataOffset)
    if 0 < size then none
    else if size.natAbs % 8 ≠ 0 then none
    else if size.natAbs < cellHeaderSize then none
    else if b.len < hiveBaseBlockSize + dataOffset + size.natAbs then none
    else some (dataAbs dataOffset, size.natAbs - cellHeaderSize)

def bytes (b : HiveBuilder) (start n : ℕ) : List UInt8 := (List.range n).map fun i => b.data (start + i)

/-- The data of its cell. -/
structure KeyNode where
  start : ℕ
  len : ℕ

def keyNode (b : HiveBuilder) (offset : ℕ) : Option KeyNode := do
  let (start, len) ← b.cellRange offset
  if len < keyNodeHeaderSize then none
  else if leValue b.data start 2 ≠ keyNodeSignature then none
  else some ⟨start, len⟩

def rootKeyNode (b : HiveBuilder) : Option KeyNode := b.keyNode (leValue b.data 36 4)

def keyName (b : HiveBuilder) (node : KeyNode) : Option HiveString :=
  let flags := leValue b.data (node.start + 2) 2
  let keyNameLength := leValue b.data (node.start + 72) 2
  if node.len < keyNodeHeaderSize + keyNameLength then none
  else
    let name := b.bytes (node.start + keyNodeHeaderSize) keyNameLength
    if flags / keyCompName % 2 = 1 then some (.latin1 name) else some (.utf16le name)

def leafItems (b : HiveBuilder) (start len count itemSize : ℕ) : Option (List ℕ) :=
  if len < 4 + count * itemSize then none else some ((List.range count).map fun i => leValue b.data (start + 4 + i * itemSize) 4)

def leaf (b : HiveBuilder) (start len : ℕ) : Option (List ℕ) :=
  if len < 4 then none
  else
    let signature := leValue b.data start 2
    let count := leValue b.data (start + 2) 2
    if signature = indexLeafSignature then b.leafItems start len count 4
    else if signature = fastLeafSignature ∨ signature = hashLeafSignature then b.leafItems start len count 8
    else none

def indexRootItems (b : HiveBuilder) (start count : ℕ) : List (Option ℕ) :=
  (List.range count).flatMap fun i =>
    match (do let (start, len) ← b.cellRange (leValue b.data (start + 4 + i * 4) 4); b.leaf start len) with
    | some offsets => offsets.map some
    | none => [none]

def subkeyItems (b : HiveBuilder) (node : KeyNode) : Option (List (Option ℕ)) :=
  let subkeysListOffset := leValue b.data (node.start + 28) 4
  if subkeysListOffset = u32Max then some []
  else do
    let (start, len) ← b.cellRange subkeysListOffset
    if len < 4 then none
    else
      let count := leValue b.data (start + 2) 2
      if leValue b.data start 2 = indexRootSignature then
        if len < 4 + count * 4 then none else some (b.indexRootItems start count)
      else return (← b.leaf start len).map some

def findSubkey (b : HiveBuilder) (name : List Char) : List (Option ℕ) → Option (Option KeyNode)
  | [] => some none
  | none :: _ => none
  | some offset :: items => do
    let subkey ← b.keyNode offset
    let subkeyName ← b.keyName subkey
    if subkeyName.eqStr name then return some subkey else b.findSubkey name items

def subkey (b : HiveBuilder) (node : KeyNode) (name : List Char) : Option (Option KeyNode) := do
  b.findSubkey name (← b.subkeyItems node)

/-- `subpath` on the components of a path: a call of `subkey` for each. -/
def subpath (b : HiveBuilder) (node : KeyNode) : List (List Char) → Option (Option KeyNode)
  | [] => some (some node)
  | name :: path => do
    match ← b.subkey node name with
    | some child => b.subpath child path
    | none => return none

structure KeyValue where
  start : ℕ
  len : ℕ

def keyValue (b : HiveBuilder) (offset : ℕ) : Option KeyValue := do
  let (start, len) ← b.cellRange offset
  if len < keyValueHeaderSize then none
  else if leValue b.data start 2 ≠ keyValueSignature then none
  else some ⟨start, len⟩

def valueItems (b : HiveBuilder) (node : KeyNode) : Option (List ℕ) :=
  let valuesListOffset := leValue b.data (node.start + 40) 4
  if valuesListOffset = u32Max then some []
  else do
    let (start, len) ← b.cellRange valuesListOffset
    let count := leValue b.data (node.start + 36) 4
    if len < count * 4 then none else return (List.range count).map fun i => leValue b.data (start + i * 4) 4

def values (b : HiveBuilder) (node : KeyNode) : Option (List KeyValue) := do (← b.valueItems node).mapM b.keyValue

def valueName (b : HiveBuilder) (value : KeyValue) : Option HiveString :=
  let nameLength := leValue b.data (value.start + 2) 2
  if nameLength = 0 then some (.latin1 [])
  else if value.len < keyValueHeaderSize + nameLength then none
  else
    let name := b.bytes (value.start + keyValueHeaderSize) nameLength
    if leValue b.data (value.start + 16) 2 % 2 = valueCompName then some (.latin1 name) else some (.utf16le name)

/-- The types have the numbers up to 11. -/
def dataType (b : HiveBuilder) (value : KeyValue) : Option ℕ :=
  let dataTypeCode := leValue b.data (value.start + 12) 4
  if dataTypeCode ≤ 11 then some dataTypeCode else none

def bigDataSlices (b : HiveBuilder) : List ℕ → ℕ → Option (List UInt8)
  | [], _ => some []
  | segment :: segments, bytesLeft =>
    if bytesLeft = 0 then some []
    else do
      let (start, len) ← b.cellRange segment
      let n := min bytesLeft bigDataSegmentSize
      if len < n then none else return b.bytes start n ++ (← b.bigDataSlices segments (bytesLeft - n))

def bigData (b : HiveBuilder) (dataSize start len : ℕ) : Option (List UInt8) :=
  if len < 8 then none
  else if leValue b.data start 2 ≠ bigDataSignature then none
  else
    let segmentCount := leValue b.data (start + 2) 2
    if segmentCount * bigDataSegmentSize < dataSize then none
    else do
      let (listStart, listLen) ← b.cellRange (leValue b.data (start + 4) 4)
      if listLen < segmentCount * 4 then none
      else b.bigDataSlices ((List.range segmentCount).map fun i => leValue b.data (listStart + i * 4) 4) dataSize

def valueData (b : HiveBuilder) (value : KeyValue) : Option (List UInt8) :=
  let dataSizeRaw := leValue b.data (value.start + 4) 4
  let dataSize := dataSizeRaw % dataInOffset
  if dataInOffset ≤ dataSizeRaw then
    if 4 < dataSize then none else some (b.bytes (value.start + 8) dataSize)
  else do
    let (start, len) ← b.cellRange (leValue b.data (value.start + 8) 4)
    if dataSize ≤ bigDataSegmentSize then
      if len < dataSize then none else return b.bytes start dataSize
    else b.bigData dataSize start len

def findValue (b : HiveBuilder) (name : List Char) : List ℕ → Option (Option KeyValue)
  | [] => some none
  | offset :: items => do
    let value ← b.keyValue offset
    let valueName ← b.valueName value
    if valueName.eqStr name then return some value else b.findValue name items

def value (b : HiveBuilder) (node : KeyNode) (name : List Char) : Option (Option KeyValue) := do
  b.findValue name (← b.valueItems node)

def computeChecksum (b : HiveBuilder) : ℕ :=
  let checksum := (List.range 127).foldl (fun checksum i => checksum ^^^ leValue b.data (i * 4) 4) 0
  if checksum = 0 then 1 else if checksum = u32Max then u32Max - 1 else checksum

def build (b : HiveBuilder) : Option HiveBuilder := do
  let sequenceNumber ← checked (b.sequenceNumber + 1)
  let b ← b.writeU32 4 sequenceNumber
  let b ← b.writeU32 8 sequenceNumber
  b.writeU32 508 b.computeChecksum

end HiveBuilder

end XenOS.Hive
