/-
The parser over any byte source (`oxillama-gguf/src/source.rs`,
`reader_core.rs`).

`Source` is the trait of the original: an exact read that may fail, the current
position, and a hint of how many bytes remain, which not every source has.
`SliceSource` is the source over a buffer in memory.
-/
import Oxillama.Lib.Bytes
import Oxillama.Gguf.Store

namespace Oxillama

namespace Gguf

/-! ### Sources -/

/-- `Source`. -/
class Source (S : Type) where
  /-- The error type of the source. -/
  Error : Type
  /-- The next `n` bytes, and the source behind them. -/
  readExact : S → ℕ → Except Error (List UInt8 × S)
  position : S → ℕ
  remainingHint : S → Option ℕ

/-- `SliceSource`. -/
structure SliceSource where
  data : List UInt8
  pos : ℕ

/-- `SliceError`. -/
inductive SliceError
  | unexpectedEof
  | invalidSeek

namespace SliceSource

/-- `SliceSource::new`. -/
def new (data : List UInt8) : SliceSource := ⟨data, 0⟩

/-- `SliceSource::read_exact`.  An overflow of the end and an end behind the data
are the same error. -/
def readExact (src : SliceSource) (n : ℕ) : Except SliceError (List UInt8 × SliceSource) :=
  let stop := src.pos + n
  if stop > src.data.length then .error .unexpectedEof
  else .ok ((src.data.drop src.pos).take n, { src with pos := stop })

instance : Source SliceSource where
  Error := SliceError
  readExact := readExact
  position src := src.pos
  remainingHint src := some (src.data.length - src.pos)

end SliceSource

namespace ReaderCore

/-- `MAX_METADATA_ARRAY_DEPTH`. -/
def maxMetadataArrayDepth : ℕ := 8

/-- `MAX_TENSOR_DIMS`. -/
def maxTensorDims : ℕ := 4

/-- `MAX_STRING_LEN_FALLBACK`. -/
def maxStringLenFallback : ℕ := 64 * 1024 * 1024

/-- `ARRAY_COUNT_HARD_CEILING`. -/
def arrayCountHardCeiling : ℕ := 64 * 1024 * 1024

/-- `MAX_GGUF_ALIGNMENT`. -/
def maxGgufAlignment : ℕ := 2 ^ 30

variable {S : Type} [Source S]

/-! ### Primitive reads -/

/-- `read_exact` of `n` bytes, any failure reported as the end of the file at
`offset`. -/
def readExactOr (offset n : ℕ) : StateT S GgufResult (List UInt8) := do
  match Source.readExact (← get) n with
  | .ok (buf, src) =>
    set src
    return buf
  | .error _ => throw (.unexpectedEof offset)

/-- A fixed-width little-endian read of `n` bytes. -/
def readLe (n : ℕ) : StateT S GgufResult ℕ := do
  let offset := Source.position (← get)
  return fromLe (← readExactOr offset n)

/-- `read_u8`. -/
def readU8 : StateT S GgufResult UInt8 := do return .ofNat (← readLe 1)

/-- `read_u16_le`. -/
def readU16 : StateT S GgufResult UInt16 := do return .ofNat (← readLe 2)

/-- `read_i16_le`. -/
def readI16 : StateT S GgufResult Int16 := do return (UInt16.ofNat (← readLe 2)).toInt16

/-- `read_u32_le`. -/
def readU32 : StateT S GgufResult UInt32 := do return .ofNat (← readLe 4)

/-- `read_i32_le`. -/
def readI32 : StateT S GgufResult Int32 := do return (UInt32.ofNat (← readLe 4)).toInt32

/-- `read_u64_le`. -/
def readU64 : StateT S GgufResult UInt64 := do return .ofNat (← readLe 8)

/-- `read_i64_le`. -/
def readI64 : StateT S GgufResult Int64 := do return (UInt64.ofNat (← readLe 8)).toInt64

/-- `read_f32_le`, as bits. -/
def readF32 : StateT S GgufResult UInt32 := do return .ofNat (← readLe 4)

/-- `read_f64_le`, as bits. -/
def readF64 : StateT S GgufResult UInt64 := do return .ofNat (← readLe 8)

/-- `read_bool`. -/
def readBool : StateT S GgufResult Bool := do return (← readU8) != 0

/-- `read_string_v3` and `read_string_v2`, behind a length of 8 or 4 bytes.  The
length is checked against the remaining bytes, or a fixed bound when the source
does not know them, before anything is read. -/
def readStringOf (n : ℕ) : StateT S GgufResult String := do
  let strOffset := Source.position (← get)
  let len ← readLe n
  let maxLen := (Source.remainingHint (← get)).getD maxStringLenFallback
  if len > maxLen then throw (.unexpectedEof strOffset)
  else
    let bytes ← readExactOr strOffset len
    okOr (.invalidString strOffset bytes) (decodeUtf8 bytes)

/-- `read_string_versioned`. -/
def readStringVersioned (version : UInt32) : StateT S GgufResult String :=
  if version ≥ 3 then readStringOf 8 else readStringOf 4

/-- `read_count`. -/
def readCount (version : UInt32) : StateT S GgufResult UInt64 := do
  if version ≥ 3 then readU64 else return (← readU32).toUInt64

/-! ### Header -/

/-- `RawHeader`. -/
structure RawHeader where
  version : UInt32
  tensorCount : UInt64
  metadataKvCount : UInt64

/-- `read_header`. -/
def readHeader : StateT S GgufResult RawHeader := do
  let magic ← readU32
  if magic ≠ ggufMagic then throw (.invalidMagic magic)
  else
    let version ← readU32
    if ¬ (1 ≤ version ∧ version ≤ 3) then throw (.unsupportedVersion version)
    else
      let tensorCount ← readCount version
      let metadataKvCount ← readCount version
      return { version, tensorCount, metadataKvCount }

/-! ### Metadata -/

/-- `read_metadata_value`, with `levels` levels left. -/
def readMetadataValue (version : UInt32) : ℕ → GgufValueType → StateT S GgufResult MetadataValue
  | 0, _ => throw (depthExceeded maxMetadataArrayDepth)
  | levels + 1, valueType => do
    match valueType with
    | .uint8 => return .uint8 (← readU8)
    | .int8 => return .int8 (← readU8).toInt8
    | .uint16 => return .uint16 (← readU16)
    | .int16 => return .int16 (← readI16)
    | .uint32 => return .uint32 (← readU32)
    | .int32 => return .int32 (← readI32)
    | .float32 => return .float32 (← readF32)
    | .float64 => return .float64 (← readF64)
    | .bool => return .bool (← readBool)
    | .string => return .string (← readStringVersioned version)
    | .uint64 => return .uint64 (← readU64)
    | .int64 => return .int64 (← readI64)
    | .array =>
      let elemTypeId ← readU32
      let elemType ← okOr (.invalidMetadata "<array>" ("unknown array element type: " ++
        toString elemTypeId)) (GgufValueType.fromU32 elemTypeId)
      let count ← readCount version
      let minElemSize := minEncodedValueSize elemType version
      -- a known length bounds the count exactly, an unknown one by a fixed ceiling
      match Source.remainingHint (← get) with
      | some remaining =>
        if count.toNat > remaining / minElemSize then
          throw (countExceeded count.toNat remaining minElemSize)
        else
          let elements ← iterM (fun elements => do
            return elements ++ [← readMetadataValue version levels elemType]) count.toNat []
          return .array elements
      | none =>
        if count.toNat > arrayCountHardCeiling then
          throw (.invalidMetadata "<array>" ("array count " ++ toString count ++
            " exceeds the hard ceiling of " ++ toString arrayCountHardCeiling ++
            " (stream length unknown)"))
        else
          let elements ← iterM (fun elements => do
            return elements ++ [← readMetadataValue version levels elemType]) count.toNat []
          return .array elements

/-- One round of `read_metadata_kv`. -/
def readMetadataEntry (version : UInt32) (store : MetadataStore) :
    StateT S GgufResult MetadataStore := do
  let key ← readStringVersioned version
  let valueTypeId ← readU32
  let valueType ← okOr (.invalidMetadata key ("unknown value type: " ++ toString valueTypeId))
    (GgufValueType.fromU32 valueTypeId)
  let value ← readMetadataValue version (maxMetadataArrayDepth + 1) valueType
  return store.insert key value

/-- `read_metadata_kv`. -/
def readMetadataKv (count : UInt64) (version : UInt32) : StateT S GgufResult MetadataStore :=
  iterM (readMetadataEntry version) count.toNat .new

/-! ### Tensor infos -/

/-- The offset field of a tensor info. -/
def readOffset (version : UInt32) : StateT S GgufResult UInt64 := do
  if version ≥ 2 then readU64 else return (← readU32).toUInt64

/-- One entry of the tensor-info section. -/
def readTensorInfo (version : UInt32) : StateT S GgufResult TensorInfo := do
  let name ← readStringVersioned version
  let nDims ← readU32
  if nDims = 0 ∨ nDims.toNat > maxTensorDims then throw (badDims name nDims maxTensorDims)
  else
    let dimensions ← iterM (fun dims => do return dims ++ [← readCount version]) nDims.toNat []
    let typeId ← readU32
    let tensorType ← okOr (.unsupportedQuantType typeId) (GgufTensorType.fromU32 typeId)
    let offset ← readOffset version
    return { name, nDims, dimensions, tensorType, offset }

/-- One round of `read_tensor_infos`. -/
def readTensorInfoInto (version : UInt32) (store : TensorStore) :
    StateT S GgufResult TensorStore := do
  let info ← readTensorInfo version
  liftM (store.tryInsert info)

/-- `read_tensor_infos`. -/
def readTensorInfos (count : UInt64) (version : UInt32) : StateT S GgufResult TensorStore := do
  let store ← iterM (readTensorInfoInto version) count.toNat .new
  if store.len ≠ count.toNat then throw (wrongTensorCount count.toNat store.len)
  else return store

/-! ### Files -/

/-- `ParsedGguf`. -/
structure ParsedGguf where
  version : UInt32
  tensorCount : UInt64
  metadataKvCount : UInt64
  metadata : MetadataStore
  tensors : TensorStore
  alignment : ℕ
  dataOffset : ℕ

/-- What `parse_gguf` does behind the header. -/
def parseBody (header : RawHeader) : StateT S GgufResult ParsedGguf := do
  let metadata ← readMetadataKv header.metadataKvCount header.version
  let alignment := alignmentOf metadata
  liftM (validateAlignment maxGgufAlignment alignment)
  let tensors ← readTensorInfos header.tensorCount header.version
  let src ← get
  let dataOffset := alignUp (Source.position src) alignment
  return {
    version := header.version
    tensorCount := header.tensorCount
    metadataKvCount := header.metadataKvCount
    metadata := metadata
    tensors := tensors.setDataOffset dataOffset
    alignment := alignment
    dataOffset := dataOffset }

/-- `parse_gguf`. -/
def parseGguf : StateT S GgufResult ParsedGguf := do parseBody (← readHeader)

end ReaderCore

end Gguf

end Oxillama
