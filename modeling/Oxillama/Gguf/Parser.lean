/-
The parser of whole GGUF files (`oxillama-gguf/src/header.rs`, `parser.rs`).

`GgufFile.parse` reads the header, the metadata and the tensor infos, and
computes where the data section starts; `tensorData` then locates the bytes of
a tensor.

The recursion of `read_metadata_value` counts the nesting depth up to
`MAX_METADATA_ARRAY_DEPTH`; here it counts the levels that are left.  The reads
of one value, one metadata entry and one tensor info take the limits as
parameters: the streaming parser has copies of them with limits of its own.
-/
import Oxillama.Gguf.Reader
import Oxillama.Gguf.Store

namespace Oxillama

namespace Gguf

/-! ### Header -/

/-- `GgufHeader`. -/
structure GgufHeader where
  version : UInt32
  tensorCount : UInt64
  metadataKvCount : UInt64
  deriving DecidableEq, Repr

namespace GgufHeader

/-- `n` bytes of the header at the current offset. -/
def readField (data : List UInt8) (n : ℕ) : StateT ℕ GgufResult ℕ := do
  let pos ← get
  if data.length < pos + n then throw (.unexpectedEof pos)
  else
    set (pos + n)
    return fromLe ((data.drop pos).take n)

/-- A `u32` of the header. -/
def readU32 (data : List UInt8) : StateT ℕ GgufResult UInt32 := do
  return .ofNat (← readField data 4)

/-- `GgufHeader::read_count`. -/
def readCount (data : List UInt8) (version : UInt32) : StateT ℕ GgufResult UInt64 := do
  if version ≥ 3 then return .ofNat (← readField data 8)
  else return (← readU32 data).toUInt64

/-- `GgufHeader::parse`, on the offset it starts from. -/
def parse (data : List UInt8) : StateT ℕ GgufResult GgufHeader := do
  let magic ← readU32 data
  if magic ≠ ggufMagic then throw (.invalidMagic magic)
  else
    let version ← readU32 data
    if ¬ (1 ≤ version ∧ version ≤ 3) then throw (.unsupportedVersion version)
    else
      let tensorCount ← readCount data version
      let metadataKvCount ← readCount data version
      return { version, tensorCount, metadataKvCount }

end GgufHeader

/-! ### Metadata -/

namespace BinaryReader

/-- A string of a file of the given version. -/
def readStringVersioned (version : UInt32) : ReadM String :=
  if version ≥ 3 then readString else readStringV2

/-- A count or length field of a file of the given version. -/
def readCountVersioned (version : UInt32) : ReadM UInt64 := do
  if version ≥ 3 then readU64 else return (← readU32).toUInt64

/-- `read_metadata_value`, with `levels` levels left of which the outermost is
at depth 0. -/
def readMetadataValue (maxDepth : ℕ) (version : UInt32) : ℕ → GgufValueType → ReadM MetadataValue
  | 0, _ => throw (depthExceeded maxDepth)
  | levels + 1, valueType => do
    match valueType with
    | .uint8 => return .uint8 (← readU8)
    | .int8 => return .int8 (← readU8).toInt8
    | .uint16 => return .uint16 (← readU16)
    | .int16 => return .int16 (← readI16)
    | .uint32 => return .uint32 (← readU32)
    | .int32 => return .int32 (← readI32)
    | .float32 => return .float32 (← readF32)
    | .float64 => return .float64 (← readF64)
    | .bool => return .bool (← readBool)
    | .string => return .string (← readStringVersioned version)
    | .uint64 => return .uint64 (← readU64)
    | .int64 => return .int64 (← readI64)
    | .array =>
      let elemTypeId ← readU32
      let elemType ← okOr (.invalidMetadata "<array>" ("unknown array element type: " ++
        toString elemTypeId)) (GgufValueType.fromU32 elemTypeId)
      let count ← readCountVersioned version
      let rem ← remaining
      let minElemSize := minEncodedValueSize elemType version
      if count.toNat > rem / minElemSize then
        throw (countExceeded count.toNat rem minElemSize)
      else
        let elements ← iterM (fun elements => do
          return elements ++ [← readMetadataValue maxDepth version levels elemType])
          count.toNat []
        return .array elements

/-- One round of `parse_metadata`. -/
def readMetadataEntry (maxDepth : ℕ) (version : UInt32) (store : MetadataStore) :
    ReadM MetadataStore := do
  let key ← readStringVersioned version
  let valueTypeId ← readU32
  let valueType ← okOr (.invalidMetadata key ("unknown value type: " ++ toString valueTypeId))
    (GgufValueType.fromU32 valueTypeId)
  let value ← readMetadataValue maxDepth version (maxDepth + 1) valueType
  return store.insert key value

/-! ### Tensor infos -/

/-- A data offset of a file of the given version. -/
def readOffsetVersioned (version : UInt32) : ReadM UInt64 := do
  if version ≥ 2 then readU64 else return (← readU32).toUInt64

/-- One entry of the tensor-info section. -/
def readTensorInfo (maxDims : ℕ) (version : UInt32) : ReadM TensorInfo := do
  let name ← readStringVersioned version
  let nDims ← readU32
  if nDims = 0 ∨ nDims.toNat > maxDims then throw (badDims name nDims maxDims)
  else
    let dimensions ← iterM (fun dims => do return dims ++ [← readCountVersioned version])
      nDims.toNat []
    let typeId ← readU32
    let tensorType ← okOr (.unsupportedQuantType typeId) (GgufTensorType.fromU32 typeId)
    let offset ← readOffsetVersioned version
    return { name, nDims, dimensions, tensorType, offset }

end BinaryReader

namespace Parser

open BinaryReader

/-- `MAX_METADATA_ARRAY_DEPTH`. -/
def maxMetadataArrayDepth : ℕ := 8

/-- `MAX_TENSOR_DIMS`. -/
def maxTensorDims : ℕ := 4

/-- `MAX_GGUF_ALIGNMENT`. -/
def maxGgufAlignment : ℕ := 2 ^ 30

/-- `parse_metadata`. -/
def parseMetadata (header : GgufHeader) : ReadM MetadataStore :=
  iterM (readMetadataEntry maxMetadataArrayDepth header.version) header.metadataKvCount.toNat
    .new

/-- One round of `parse_tensor_infos`. -/
def parseTensorInfo (version : UInt32) (store : TensorStore) : ReadM TensorStore := do
  let info ← readTensorInfo maxTensorDims version
  liftM (store.tryInsert info)

/-- `parse_tensor_infos`. -/
def parseTensorInfos (header : GgufHeader) : ReadM TensorStore := do
  let store ← iterM (parseTensorInfo header.version) header.tensorCount.toNat .new
  if store.len ≠ header.tensorCount.toNat then
    throw (wrongTensorCount header.tensorCount.toNat store.len)
  else return store

end Parser

/-! ### Files -/

/-- `GgufFile`. -/
structure GgufFile where
  header : GgufHeader
  metadata : MetadataStore
  tensors : TensorStore
  alignment : ℕ

namespace GgufFile

open Oxillama.Gguf.Parser

/-- What `GgufFile::parse` does behind the header. -/
def parseBody (header : GgufHeader) : ReadM GgufFile := do
  let metadata ← parseMetadata header
  let alignment := alignmentOf metadata
  liftM (validateAlignment maxGgufAlignment alignment)
  let tensors ← parseTensorInfos header
  let position ← BinaryReader.position
  let dataOffset := alignUp position alignment
  return { header, metadata, tensors := tensors.setDataOffset dataOffset, alignment }

/-- `GgufFile::parse`. -/
def parse (data : List UInt8) : GgufResult GgufFile := do
  let (header, offset) ← GgufHeader.parse data 0
  let (file, _) ← parseBody header ⟨data, offset⟩
  return file

/-- `GgufFile::tensor_data_range`. -/
def tensorDataRange (file : GgufFile) (dataLen : ℕ) (name : String) : GgufResult (ℕ × ℕ) := do
  let info ← file.tensors.get name
  let baseOffset := file.tensors.dataSectionOffset
  let absOffset ← okOr (.unexpectedEof baseOffset) (checkedAdd baseOffset info.offset.toNat)
  let size ← info.tryDataSize
  let stop ← okOr (.unexpectedEof absOffset) (checkedAdd absOffset size)
  if stop > dataLen then .error (.unexpectedEof absOffset) else return (absOffset, size)

/-- `GgufFile::tensor_data`. -/
def tensorData (file : GgufFile) (data : List UInt8) (name : String) :
    GgufResult (List UInt8) := do
  let (start, len) ← file.tensorDataRange data.length name
  return (data.drop start).take len

end GgufFile

end Gguf

end Oxillama
