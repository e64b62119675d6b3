import XenOS.General.Checked
import XenOS.General.Ram

/-! The NLS file: `build_xnls_v1` of xtask writes it, `parse_xnls` of `rtl/nls.rs` reads it. A
pointer into the file is its offset. `none` is a panic of the reader or an error of the writer. -/

namespace XenOS.Rtl

open General

abbrev Ntstatus := BitVec 32
abbrev Bytes := List (BitVec 8)

def statusNlsParseError : Ntstatus := 0xC0000401
def statusNlsChunkMissing : Ntstatus := 0xC0000402
def statusNlsChunkInvalid : Ntstatus := 0xC0000403

def xnlsMagic : Bytes := [0x58, 0x4E, 0x4C, 0x53]
def xnlsVersion : ℕ := 1
def xnlsHeaderSize : ℕ := 48
def xnlsTocEntrySize : ℕ := 32
def chunkIdMeta : Bytes := [0x4D, 0x45, 0x54, 0x41]
def chunkIdUup1 : Bytes := [0x55, 0x55, 0x50, 0x31]
def chunkIdUlo1 : Bytes := [0x55, 0x4C, 0x4F, 0x31]
def chunkIdPrp1 : Bytes := [0x50, 0x52, 0x50, 0x31]
def bmpTableSize : ℕ := 65536 * 2
def bmpElemCount : ℕ := 65536
def bmpElemSize : ℕ := 2

def bytesAt (data : Bytes) (offset n : ℕ) : Bytes := (data.drop offset).take n

/-- `read_u16_le`, `read_u32_le` and `read_u64_le`, by the number of bytes. -/
def readLe (n : ℕ) (data : Bytes) (offset : ℕ) : ℕ :=
  if data.length < offset + n then 0 else leNat (bytesAt data offset n)

def readU16Le : Bytes → ℕ → ℕ := readLe 2
def readU32Le : Bytes → ℕ → ℕ := readLe 4
def readU64Le : Bytes → ℕ → ℕ := readLe 8

structure XnlsHeader where
  fileSize : ℕ
  tocOffset : ℕ
  chunkCount : ℕ
  tocEntrySize : ℕ

structure XnlsTocEntry where
  id : Bytes
  offset : ℕ
  length : ℕ
  flags : ℕ
  elemSize : ℕ
  elemCount : ℕ

inductive BmpTable where
  | upcase
  | lowcase
  | props
  deriving DecidableEq

abbrev XnlsTables := BmpTable → ℕ

def parseHeader (data : Bytes) : Except Ntstatus XnlsHeader :=
  if data.length < xnlsHeaderSize then .error statusNlsParseError
  else if bytesAt data 0 4 ≠ xnlsMagic then .error statusNlsParseError
  else if readU16Le data 0x04 ≠ xnlsVersion then .error statusNlsParseError
  else if readLe 1 data 0x06 ≠ 1 then .error statusNlsParseError
  else if readLe 1 data 0x07 ≠ xnlsHeaderSize then .error statusNlsParseError
  else if data.length < readU64Le data 0x08 then .error statusNlsParseError
  else if readU32Le data 0x1C ≠ xnlsTocEntrySize then .error statusNlsParseError
  else .ok ⟨readU64Le data 0x08, readU64Le data 0x10, readU32Le data 0x18, readU32Le data 0x1C⟩

def tocEntryAt (data : Bytes) (offset : ℕ) : XnlsTocEntry where
  id := bytesAt data offset 4
  offset := readU64Le data (offset + 0x04)
  length := readU64Le data (offset + 0x0C)
  flags := readU32Le data (offset + 0x14)
  elemSize := readU32Le data (offset + 0x18)
  elemCount := readU32Le data (offset + 0x1C)

def parseTocEntry (data : Bytes) (offset : ℕ) : Option (Except Ntstatus XnlsTocEntry) :=
  (unsigned 64 (offset + xnlsTocEntrySize)).map fun entryEnd =>
    if data.length < entryEnd then .error statusNlsParseError else .ok (tocEntryAt data offset)

def validateBmpChunk (entry : XnlsTocEntry) (data : Bytes) : Option (Except Ntstatus ℕ) :=
  if entry.elemSize ≠ bmpElemSize then some (.error statusNlsChunkInvalid)
  else if entry.elemCount ≠ bmpElemCount then some (.error statusNlsChunkInvalid)
  else if entry.length ≠ bmpTableSize then some (.error statusNlsChunkInvalid)
  else (unsigned 64 (entry.offset + entry.length)).map fun chunkEnd =>
    if data.length < chunkEnd then .error statusNlsChunkInvalid else .ok entry.offset

def tableOf (id : Bytes) : Option BmpTable :=
  if id = chunkIdUup1 then some .upcase
  else if id = chunkIdUlo1 then some .lowcase
  else if id = chunkIdPrp1 then some .props
  else none

/-- One round of the loop of `parse_xnls`, with the pointers found so far. -/
def parseEntry (data : Bytes) (tocStart i : ℕ) (found : BmpTable → Option ℕ) :
    Option (Except Ntstatus (BmpTable → Option ℕ)) :=
  match (unsigned 64 (tocStart + i * xnlsTocEntrySize)).bind (parseTocEntry data) with
  | none => none
  | some (.error status) => some (.error status)
  | some (.ok entry) =>
    match tableOf entry.id with
    | none => some (.ok found)
    | some table => (validateBmpChunk entry data).map fun result =>
        result.map fun offset => Function.update found table (some offset)

def parseEntries (data : Bytes) (tocStart : ℕ) :
    (i n : ℕ) → (BmpTable → Option ℕ) → Option (Except Ntstatus (BmpTable → Option ℕ))
  | _, 0, found => some (.ok found)
  | i, n + 1, found =>
    match parseEntry data tocStart i found with
    | none => none
    | some (.error status) => some (.error status)
    | some (.ok found) => parseEntries data tocStart (i + 1) n found

def requireTables (found : BmpTable → Option ℕ) : Except Ntstatus XnlsTables :=
  match found .upcase, found .lowcase, found .props with
  | some upcase, some lowcase, some props =>
    .ok fun
      | .upcase => upcase
      | .lowcase => lowcase
      | .props => props
  | _, _, _ => .error statusNlsChunkMissing

def parseXnls (data : Bytes) : Option (Except Ntstatus XnlsTables) :=
  match parseHeader data with
  | .error status => some (.error status)
  | .ok header =>
    (parseEntries data header.tocOffset 0 header.chunkCount fun _ => none).map fun result =>
      result.bind requireTables

structure Chunk where
  id : Bytes
  data : Bytes
  flags : ℕ
  elemSize : ℕ
  elemCount : ℕ
  offset : ℕ := 0
  length : ℕ := 0

def bmpLen : ℕ := 0x10000

/-- `(v + 7) & !7`. -/
def align8 (v : ℕ) : ℕ := (v + 7) / 8 * 8

def u16TableBytes (t : List (BitVec 16)) : Bytes := t.flatMap fun w => leBytes 2 w.toNat

/-- Give the chunks their offsets and lengths, from `cur` on. -/
def layout : ℕ → List Chunk → Option (List Chunk × ℕ)
  | cur, [] => some ([], cur)
  | cur, ch :: chunks =>
    (unsigned 64 (align8 cur + align8 ch.data.length)).bind fun next =>
      (layout next chunks).map fun rest =>
        ({ ch with offset := align8 cur, length := ch.data.length } :: rest.1, rest.2)

def Chunk.tocEntry (ch : Chunk) : Bytes :=
  ch.id ++ leBytes 8 ch.offset ++ leBytes 8 ch.length ++ leBytes 4 ch.flags ++ leBytes 4 ch.elemSize ++
    leBytes 4 ch.elemCount

/-- Zeros up to a length that is a multiple of 8. -/
def pad8 (out : Bytes) : Bytes := out ++ List.replicate (align8 out.length - out.length) 0

def writeChunk (out : Bytes) (ch : Chunk) : Option Bytes :=
  if ch.offset < out.length then none
  else some (pad8 (out ++ List.replicate (ch.offset - out.length) 0 ++ ch.data))

def headerXnls (fileSize tocOffset chunkCount tocEntrySize : ℕ) (ucdTag : Fin 4 → BitVec 8)
    (ucdRevision : BitVec 32) : Bytes :=
  xnlsMagic ++ leBytes 2 1 ++ leBytes 1 1 ++ leBytes 1 48 ++ leBytes 8 fileSize ++ leBytes 8 tocOffset ++
    leBytes 4 chunkCount ++ leBytes 4 tocEntrySize ++ List.ofFn ucdTag ++ leBytes 4 ucdRevision.toNat ++
    leBytes 4 0 ++ leBytes 4 0

def buildXnlsV1 (text : Bytes) (upper lower props : List (BitVec 16)) (ucdTag : Fin 4 → BitVec 8)
    (ucdRevision : BitVec 32) : Option Bytes :=
  if upper.length ≠ bmpLen ∨ lower.length ≠ bmpLen ∨ props.length ≠ bmpLen then none
  else
    let chunks : List Chunk :=
      [⟨chunkIdMeta, text, 0, 0, 0, 0, 0⟩, ⟨chunkIdUup1, u16TableBytes upper, 0, 2, bmpLen, 0, 0⟩,
        ⟨chunkIdUlo1, u16TableBytes lower, 0, 2, bmpLen, 0, 0⟩,
        ⟨chunkIdPrp1, u16TableBytes props, 0, 2, bmpLen, 0, 0⟩]
    (layout (align8 (48 + chunks.length * 32)) chunks).bind fun (chunks, fileSize) =>
      let toc := pad8 (List.replicate 48 0 ++ chunks.flatMap Chunk.tocEntry)
      (chunks.foldlM writeChunk toc).bind fun out =>
        if out.length ≠ fileSize then none
        else some (headerXnls fileSize 48 chunks.length 32 ucdTag ucdRevision ++ out.drop 48)

end XenOS.Rtl
