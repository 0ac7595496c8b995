/-
Metadata values, tensor infos and the stores that hold them
(`oxillama-gguf/src/metadata.rs`, `tensor_info.rs`).

Floating-point values are carried as their bit patterns.  The maps of the
source are association lists without duplicate keys.  Sizes and offsets that
are computed are natural numbers, with the checked operations of the source
where it checks.

The last section holds the helpers of which each of the three parsers has its
own copy; the limits they use are parameters.
-/
import Mathlib.Algebra.Group.Nat.Defs
import Mathlib.Data.List.AList
import Oxillama.Lib.Decoder
import Oxillama.Lib.Usize
import Oxillama.Gguf.Types

namespace Oxillama

namespace Gguf

/-! ### Metadata -/

/-- `MetadataValue`. -/
inductive MetadataValue
  | uint8 (v : UInt8)
  | int8 (v : Int8)
  | uint16 (v : UInt16)
  | int16 (v : Int16)
  | uint32 (v : UInt32)
  | int32 (v : Int32)
  /-- The bits of an `f32`. -/
  | float32 (bits : UInt32)
  | bool (v : Bool)
  | string (v : String)
  | array (elements : List MetadataValue)
  | uint64 (v : UInt64)
  | int64 (v : Int64)
  /-- The bits of an `f64`. -/
  | float64 (bits : UInt64)

namespace MetadataValue

/-- The type of a value. -/
def valueType : MetadataValue → GgufValueType
  | .uint8 _ => .uint8
  | .int8 _ => .int8
  | .uint16 _ => .uint16
  | .int16 _ => .int16
  | .uint32 _ => .uint32
  | .int32 _ => .int32
  | .float32 _ => .float32
  | .bool _ => .bool
  | .string _ => .string
  | .array _ => .array
  | .uint64 _ => .uint64
  | .int64 _ => .int64
  | .float64 _ => .float64

/-- `MetadataValue::as_u64`. -/
def asU64 : MetadataValue → Option ℕ
  | .uint64 v => some v.toNat
  | .uint32 v => some v.toNat
  | .uint16 v => some v.toNat
  | .uint8 v => some v.toNat
  | _ => none

end MetadataValue

/-- `MetadataStore`. -/
structure MetadataStore where
  entries : AList fun _ : String => MetadataValue

namespace MetadataStore

/-- `MetadataStore::new`. -/
def new : MetadataStore := ⟨∅⟩

/-- `MetadataStore::insert`. -/
def insert (store : MetadataStore) (key : String) (value : MetadataValue) : MetadataStore :=
  ⟨store.entries.insert key value⟩

/-- `MetadataStore::get`. -/
def get (store : MetadataStore) (key : String) : Option MetadataValue :=
  store.entries.lookup key

end MetadataStore

/-! ### Tensors -/

/-- `TensorInfo`. -/
structure TensorInfo where
  name : String
  nDims : UInt32
  dimensions : List UInt64
  tensorType : GgufTensorType
  /-- Byte offset relative to the start of the data section. -/
  offset : UInt64
  deriving DecidableEq, Repr

namespace TensorInfo

/-- `TensorInfo::try_n_elements`. -/
def tryNElements (info : TensorInfo) : GgufResult ℕ :=
  if info.dimensions.isEmpty then .ok 0
  else info.dimensions.foldlM (fun acc d =>
    okOr (.integrityError info.name ("tensor dimensions " ++ toString info.dimensions ++
      " overflow u64 while computing element count")) (checkedMul acc d.toNat)) 1

/-- `TensorInfo::try_data_size`. -/
def tryDataSize (info : TensorInfo) : GgufResult ℕ := do
  let nElements ← info.tryNElements
  let blockSize := info.tensorType.blockSize
  if blockSize = 0 then .error (.integrityError info.name "tensor type has a zero block size")
  else
    let blockBytes := info.tensorType.blockBytes
    -- `div_ceil`
    let nBlocks := (nElements + blockSize - 1) / blockSize
    okOr (.integrityError info.name ("tensor data size overflow: " ++ toString nBlocks ++
      " blocks * " ++ toString blockBytes ++ " bytes/block")) (checkedMul nBlocks blockBytes)

end TensorInfo

/-- `TensorStore`. -/
structure TensorStore where
  infos : AList fun _ : String => TensorInfo
  dataSectionOffset : ℕ

namespace TensorStore

/-- `TensorStore::new`. -/
def new : TensorStore := ⟨∅, 0⟩

/-- `TensorStore::set_data_offset`. -/
def setDataOffset (store : TensorStore) (offset : ℕ) : TensorStore :=
  { store with dataSectionOffset := offset }

/-- `TensorStore::len`. -/
def len (store : TensorStore) : ℕ := store.infos.keys.length

/-- `TensorStore::try_insert`. -/
def tryInsert (store : TensorStore) (info : TensorInfo) : GgufResult TensorStore :=
  if info.name ∈ store.infos then
    .error (.integrityError info.name "duplicate tensor name in GGUF tensor-info section")
  else .ok { store with infos := store.infos.insert info.name info }

/-- `TensorStore::get`. -/
def get (store : TensorStore) (name : String) : GgufResult TensorInfo :=
  okOr (.tensorNotFound name) (store.infos.lookup name)

end TensorStore

/-! ### Helpers of every parser -/

/-- `min_encoded_value_size`: no value of a type takes fewer bytes. -/
def minEncodedValueSize (valueType : GgufValueType) (version : UInt32) : ℕ :=
  match valueType with
  | .uint8 | .int8 | .bool => 1
  | .uint16 | .int16 => 2
  | .uint32 | .int32 | .float32 => 4
  | .uint64 | .int64 | .float64 => 8
  | .string => if version ≥ 3 then 8 else 4
  | .array => if version ≥ 3 then 12 else 8

/-- `u64::is_power_of_two`. -/
def isPowerOfTwo (n : ℕ) : Bool := 2 ^ n.log2 == n

/-- `validate_alignment`, for the parser's largest alignment. -/
def validateAlignment (maxAlignment alignment : ℕ) : GgufResult Unit :=
  if alignment = 0 then .ok ()
  else if !isPowerOfTwo alignment || alignment > maxAlignment then
    .error (.invalidMetadata "general.alignment"
      ("alignment must be a power of two no greater than " ++ toString maxAlignment ++
        ", got " ++ toString alignment))
  else .ok ()

/-- The alignment a parser reads off the metadata: `general.alignment`, or the
default. -/
def alignmentOf (metadata : MetadataStore) : ℕ :=
  ((metadata.get "general.alignment").bind (·.asU64)).getD ggufDefaultAlignment

/-- `align_up`. -/
def alignUp (value alignment : ℕ) : ℕ :=
  if alignment = 0 then value
  else
    let rem := value % alignment
    if rem = 0 then value
    else saturatingAdd value (alignment - rem)

/-- The error for an array nested too deeply. -/
def depthExceeded (maxDepth : ℕ) : GgufError :=
  .invalidMetadata "<array>" ("array nesting depth exceeds the limit of " ++ toString maxDepth)

/-- The error for an array that claims more elements than fit. -/
def countExceeded (count remaining minElemSize : ℕ) : GgufError :=
  .invalidMetadata "<array>" ("array count " ++ toString count ++ " cannot fit in the " ++
    toString remaining ++ " bytes remaining (min " ++ toString minElemSize ++ " bytes/element)")

/-- The error for a tensor with a number of dimensions other than 1 to
`maxDims`. -/
def badDims (name : String) (nDims : UInt32) (maxDims : ℕ) : GgufError :=
  .integrityError name ("tensor declares " ++ toString nDims ++ " dimensions, expected 1..=" ++
    toString maxDims)

/-- The error for a tensor section with another number of tensors than the
header says. -/
def wrongTensorCount (expected parsed : ℕ) : GgufError :=
  .integrityError "<tensor_infos>" ("expected " ++ toString expected ++ " tensors, parsed " ++
    toString parsed)

end Gguf

end Oxillama
