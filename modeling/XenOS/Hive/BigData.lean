import XenOS.Hive.Reader

/-! Values of a hive that are longer than a segment, read through an iterator over their segments. An
assertion that fails is none, an error a value of its own. -/

namespace XenOS.Hive

open General

/-- The variants of `HiveError` that a value's data can meet. -/
inductive HiveError where
  | invalidHeaderSize (offset expected actual : ℕ)
  | invalidTwoByteSignature (offset expected actual : ℕ)
  | invalidSizeField (offset expected actual : ℕ)
  | invalidDataSize (offset expected actual : ℕ)
  | unallocatedCell (offset size : ℕ)
  | invalidSizeFieldAlignment (offset size expectedAlignment : ℕ)
deriving DecidableEq

/-- A result, or a panic. -/
abbrev Outcome (α : Type) := ExceptT HiveError Option α

def Outcome.err {α : Type} (e : HiveError) : Outcome α := some (.error e)

/-- `Range<usize>`. -/
structure ByteRange where
  start : ℕ
  stop : ℕ
deriving DecidableEq

def ByteRange.len (r : ByteRange) : ℕ := r.stop - r.start

def byteSubrange (range : ByteRange) (byteCount : ℕ) : Option ByteRange :=
  if 2 ^ 64 ≤ range.start + byteCount then none
  else if range.stop < range.start + byteCount then none
  else some ⟨range.start, range.start + byteCount⟩

/-- `ok_or_else` on a range. -/
def okOrElse (range : Option ByteRange) (e : HiveError) : Outcome ByteRange :=
  match range with
  | some range => pure range
  | none => .err e

structure HiveData where
  data : List UInt8
  baseBlockSize : ℕ

namespace HiveData

def number (h : HiveData) (offset n : ℕ) : ℕ := leValue (fun i => h.data.getD i 0) offset n

def slice (h : HiveData) (range : ByteRange) : List UInt8 := (h.data.drop range.start).take range.len

/-- `cell_range_from_data`; a size of zero underflows. -/
def cellRangeFromData (h : HiveData) (dataOffset : ℕ) : Outcome ByteRange :=
  if dataOffset = u32Max then none
  else do
    let remainingRange : ByteRange := ⟨dataOffset, h.data.length⟩
    let headerRange ← okOrElse (byteSubrange remainingRange cellHeaderSize)
      (.invalidHeaderSize (h.baseBlockSize + dataOffset) cellHeaderSize remainingRange.len)
    let cellSize := h.number dataOffset 4
    if 0 < cellSize ∧ cellSize < 2 ^ 31 then .err (.unallocatedCell (h.baseBlockSize + dataOffset) cellSize)
    else
      let cellSize := (2 ^ 32 - cellSize) % 2 ^ 32
      if cellSize % 8 ≠ 0 then .err (.invalidSizeFieldAlignment (h.baseBlockSize + dataOffset) cellSize 8)
      else if cellSize < cellHeaderSize then none
      else
        let remainingRange : ByteRange := ⟨headerRange.stop, h.data.length⟩
        let cellDataSize := cellSize - cellHeaderSize
        okOrElse (byteSubrange remainingRange cellDataSize)
          (.invalidSizeField (h.baseBlockSize + dataOffset) cellDataSize remainingRange.len)

end HiveData

def bigDataHeaderSize : ℕ := 8

def bigDataListItemSize : ℕ := 4

structure BigDataSlices where
  hive : HiveData
  listItemsRange : ByteRange
  bytesLeft : ℕ

namespace BigDataSlices

def new (hive : HiveData) (dataSize dataSizeFieldOffset : ℕ) (headerCellRange : ByteRange) : Outcome BigDataSlices := do
  let headerRange ← okOrElse (byteSubrange headerCellRange bigDataHeaderSize)
    (.invalidHeaderSize (hive.baseBlockSize + headerCellRange.start) bigDataHeaderSize headerCellRange.len)
  let signature := hive.number headerRange.start 2
  if signature ≠ bigDataSignature then
    .err (.invalidTwoByteSignature (hive.baseBlockSize + headerRange.start) bigDataSignature signature)
  else
    let segmentCount := hive.number (headerRange.start + 2) 2
    let maxDataSize := segmentCount * bigDataSegmentSize
    if maxDataSize < dataSize then .err (.invalidSizeField dataSizeFieldOffset maxDataSize dataSize)
    else do
      let segmentListOffset := hive.number (headerRange.start + 4) 4
      let segmentListCellRange ← hive.cellRangeFromData segmentListOffset
      let listByteCount := segmentCount * bigDataListItemSize
      let listItemsRange ← okOrElse (byteSubrange segmentListCellRange listByteCount)
        (.invalidSizeField (hive.baseBlockSize + headerRange.start + 2) listByteCount segmentListCellRange.len)
      return ⟨hive, listItemsRange, dataSize⟩

def readSegment (it : BigDataSlices) (segmentOffset bytesToReturn : ℕ) : Outcome (List UInt8) := do
  let cellRange ← it.hive.cellRangeFromData segmentOffset
  let dataRange ← okOrElse (byteSubrange cellRange bytesToReturn)
    (.invalidDataSize (it.hive.baseBlockSize + cellRange.start) bytesToReturn cellRange.len)
  return it.hive.slice dataRange

/-- `Iterator::next`: the item, if there is one, and the iterator after it. -/
def next (it : BigDataSlices) : Option (Option (Except HiveError (List UInt8)) × BigDataSlices) :=
  let bytesToReturn := min it.bytesLeft bigDataSegmentSize
  if bytesToReturn = 0 then some (none, it)
  else match byteSubrange it.listItemsRange bigDataListItemSize with
    | none => some (none, it)
    | some itemRange => do
      let rest : BigDataSlices :=
        { it with
          listItemsRange := { it.listItemsRange with start := it.listItemsRange.start + bigDataListItemSize }
          bytesLeft := it.bytesLeft - bytesToReturn }
      let item ← it.readSegment (it.hive.number itemRange.start 4) bytesToReturn
      return (some item, rest)

def sizeHint (it : BigDataSlices) : ℕ := it.listItemsRange.len / bigDataListItemSize

/-- The iterator after some calls of `next`. -/
def after (it : BigDataSlices) : ℕ → Option BigDataSlices
  | 0 => some it
  | k + 1 => do (← it.next).2.after k

def items : ℕ → BigDataSlices → Option (List (Except HiveError (List UInt8)))
  | 0, _ => none
  | fuel + 1, it => do
    match ← it.next with
    | (none, _) => return []
    | (some item, it) => return item :: (← items fuel it)

def collect (it : BigDataSlices) : Option (List (Except HiveError (List UInt8))) := items (it.sizeHint + 1) it

def extendLoop : ℕ → List UInt8 → BigDataSlices → Outcome (List UInt8)
  | 0, _, _ => none
  | fuel + 1, data, it =>
    match it.next with
    | none => none
    | some (none, _) => pure data
    | some (some (.error e), _) => .err e
    | some (some (.ok slice), it) => extendLoop fuel (data ++ slice) it

/-- The branch of `KeyValueData::into_vec` for big data. -/
def intoVec (it : BigDataSlices) : Outcome (List UInt8) := extendLoop (it.sizeHint + 1) [] it

end BigDataSlices

inductive KeyValueData where
  | small (data : List UInt8)
  | big (iter : BigDataSlices)

structure ValueHeader where
  hive : HiveData
  headerStart : ℕ

namespace ValueHeader

def dataSizeRaw (v : ValueHeader) : ℕ := v.hive.number (v.headerStart + 4) 4

def dataSize (v : ValueHeader) : ℕ := v.dataSizeRaw % dataInOffset

def dataOffset (v : ValueHeader) : ℕ := v.hive.number (v.headerStart + 8) 4

/-- `KeyValue::data`. -/
def keyValueData (v : ValueHeader) : Outcome KeyValueData := do
  let sizeFieldOffset := v.hive.baseBlockSize + v.headerStart + 4
  if dataInOffset ≤ v.dataSizeRaw then
    if 4 < v.dataSize then .err (.invalidSizeField sizeFieldOffset 4 v.dataSize)
    else return .small (v.hive.slice ⟨v.headerStart + 8, v.headerStart + 8 + v.dataSize⟩)
  else if v.dataSize ≤ bigDataSegmentSize then
    let cellRange ← v.hive.cellRangeFromData v.dataOffset
    if cellRange.len < v.dataSize then
      .err (.invalidDataSize (v.hive.baseBlockSize + cellRange.start) v.dataSize cellRange.len)
    else return .small (v.hive.slice ⟨cellRange.start, cellRange.start + v.dataSize⟩)
  else
    let cellRange ← v.hive.cellRangeFromData v.dataOffset
    let iter ← BigDataSlices.new v.hive v.dataSize sizeFieldOffset cellRange
    return .big iter

def segmentCount (v : ValueHeader) : ℕ := v.hive.number (v.dataOffset + cellHeaderSize + 2) 2

end ValueHeader

end XenOS.Hive
