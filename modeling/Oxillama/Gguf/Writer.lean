/-
The GGUF writer (`oxillama-gguf/src/writer.rs`).

`GgufWriter` collects metadata and tensors.  `writeTo` serializes tensors that
are held in memory; `intoDataWriter` writes everything in front of the tensor
data and hands out a `GgufTensorDataWriter`, to which the tensors are then
written one after the other.

A `&mut self` method that fails leaves the writer usable, with whatever it has
done so far; its state is there beside the error.  Byte counts and offsets are
natural numbers, with the checked operations of the source where it checks.
-/
import Oxillama.Lib.Bytes
import Oxillama.Lib.Decoder
import Oxillama.Gguf.Store

namespace Oxillama

namespace Gguf

/-! ### Sinks -/

/-- `std::io::Write`, with the texts of its errors. -/
class Write (W : Type) where
  writeAll : W → List UInt8 → Except String Unit × W
  flush : W → Except String Unit × W

/-- `Vec<u8>`. -/
instance : Write (List UInt8) where
  writeAll w bytes := (.ok (), w ++ bytes)
  flush w := (.ok (), w)

/-- Writing to a `&mut W`. -/
abbrev WriteM (W : Type) := ExceptT GgufError (StateM W)

/-- `io_write_err`. -/
def ioWriteErr (e : String) : GgufError := .writeError e

variable {W : Type} [Write W]

/-- `write_all`. -/
def writeAll (bytes : List UInt8) : WriteM W Unit := fun w =>
  let (result, w) := Write.writeAll w bytes
  (result.mapError ioWriteErr, w)

/-- `flush`. -/
def flush : WriteM W Unit := fun w =>
  let (result, w) := Write.flush w
  (result.mapError ioWriteErr, w)

/-! ### Values -/

/-- `alignment_padding`. -/
def alignmentPadding (offset alignment : ℕ) : ℕ :=
  if alignment = 0 then 0
  else
    let rem := offset % alignment
    if rem = 0 then 0 else alignment - rem

/-- The first `n` bytes of `ZERO_PAD`. -/
def zeroPad (n : ℕ) : List UInt8 := List.replicate n 0

/-- `write_header`. -/
def writeHeader (tensorCount metadataKvCount : ℕ) : WriteM W ℕ := do
  writeAll (toLe 4 ggufMagic.toNat)
  writeAll (toLe 4 3)
  writeAll (toLe 8 tensorCount)
  writeAll (toLe 8 metadataKvCount)
  return 24

/-- `write_string`. -/
def writeString (s : String) : WriteM W ℕ := do
  writeAll (toLe 8 (encodeUtf8 s).length)
  writeAll (encodeUtf8 s)
  return 8 + (encodeUtf8 s).length

/-- `metadata_value_type_id`. -/
def metadataValueTypeId (value : MetadataValue) : UInt32 := value.valueType.toU32

/-- `n` little-endian bytes of an integer, and their number. -/
def writeLe (n v : ℕ) : WriteM W ℕ := do
  writeAll (toLe n v)
  return n

/-- `write_array`, with the loop over the elements as `writeElements`. -/
def writeArrayWith (elements : List MetadataValue) (writeElements : WriteM W ℕ) :
    WriteM W ℕ := do
  let elemType :=
    match elements with
    | [] => GgufValueType.uint8.toU32
    | first :: _ => metadataValueTypeId first
  writeAll (toLe 4 elemType.toNat)
  writeAll (toLe 8 elements.length)
  return 4 + 8 + (← writeElements)

mutual

/-- `write_array_element`. -/
def writeArrayElement : MetadataValue → WriteM W ℕ
  | .uint8 v => writeLe 1 v.toNat
  | .int8 v => writeLe 1 v.toUInt8.toNat
  | .uint16 v => writeLe 2 v.toNat
  | .int16 v => writeLe 2 v.toUInt16.toNat
  | .uint32 v => writeLe 4 v.toNat
  | .int32 v => writeLe 4 v.toUInt32.toNat
  | .float32 bits => writeLe 4 bits.toNat
  | .bool v => do
    writeAll [if v then 1 else 0]
    return 1
  | .string s => writeString s
  | .uint64 v => writeLe 8 v.toNat
  | .int64 v => writeLe 8 v.toUInt64.toNat
  | .float64 bits => writeLe 8 bits.toNat
  | .array elements => writeArrayWith elements (writeElements elements)

/-- The loop of `write_array`. -/
def writeElements : List MetadataValue → WriteM W ℕ
  | [] => return 0
  | element :: elements => do return (← writeArrayElement element) + (← writeElements elements)

end

/-- `write_array`. -/
def writeArray (elements : List MetadataValue) : WriteM W ℕ :=
  writeArrayWith elements (writeElements elements)

/-- `write_metadata_value`. -/
def writeMetadataValue (value : MetadataValue) : WriteM W ℕ := do
  writeAll (toLe 4 (metadataValueTypeId value).toNat)
  match value with
  | .uint8 v => return 4 + (← writeLe 1 v.toNat)
  | .int8 v => return 4 + (← writeLe 1 v.toUInt8.toNat)
  | .uint16 v => return 4 + (← writeLe 2 v.toNat)
  | .int16 v => return 4 + (← writeLe 2 v.toUInt16.toNat)
  | .uint32 v => return 4 + (← writeLe 4 v.toNat)
  | .int32 v => return 4 + (← writeLe 4 v.toUInt32.toNat)
  | .float32 bits => return 4 + (← writeLe 4 bits.toNat)
  | .bool v =>
    writeAll [if v then 1 else 0]
    return 4 + 1
  | .string s => return 4 + (← writeString s)
  | .uint64 v => return 4 + (← writeLe 8 v.toNat)
  | .int64 v => return 4 + (← writeLe 8 v.toUInt64.toNat)
  | .float64 bits => return 4 + (← writeLe 8 bits.toNat)
  | .array elements => return 4 + (← writeArray elements)

/-! ### The sections in front of the tensor data -/

/-- `TensorMeta`. -/
structure TensorMeta where
  name : String
  dimensions : List UInt64
  tensorType : GgufTensorType
  dataSize : ℕ
  deriving DecidableEq, Repr

/-- `compute_tensor_data_size`. -/
def computeTensorDataSize (name : String) (dims : List UInt64) (tensorType : GgufTensorType) :
    GgufResult ℕ :=
  TensorInfo.tryDataSize {
    name := name
    nDims := .ofNat dims.length
    dimensions := dims
    tensorType := tensorType
    offset := 0 }

/-- The loop that computes the offset of every tensor in the data section. -/
def tensorOffsets : List TensorMeta → ℕ → List ℕ → GgufResult (List ℕ)
  | [], _, offsets => return offsets
  | tensor :: metas, dataOffset, offsets => do
    let offsets := offsets ++ [dataOffset]
    let dataOffset ← okOr (.integrityError tensor.name
      "cumulative tensor data offset overflows u64") (checkedAdd dataOffset tensor.dataSize)
    let padding := alignmentPadding dataOffset ggufDefaultAlignment
    tensorOffsets metas (saturatingAdd dataOffset padding) offsets

/-- One metadata entry. -/
def writeMetadataEntry (entry : String × MetadataValue) : WriteM W ℕ := do
  return (← writeString entry.1) + (← writeMetadataValue entry.2)

/-- One tensor info, with the offset of its tensor. -/
def writeTensorInfo (info : TensorMeta × ℕ) : WriteM W ℕ := do
  let n ← writeString info.1.name
  writeAll (toLe 4 info.1.dimensions.length)
  let n ← sumM (fun dim => writeLe 8 dim.toNat) info.1.dimensions (n + 4)
  writeAll (toLe 4 info.1.tensorType.toU32.toNat)
  writeAll (toLe 8 info.2)
  return n + 4 + 8

/-- `write_gguf_prelude`. -/
def writeGgufPrelude (metadata : List (String × MetadataValue)) (tensorMetas : List TensorMeta) :
    WriteM W Unit := do
  let offset ← writeHeader tensorMetas.length metadata.length
  let offset ← sumM writeMetadataEntry metadata offset
  let offsets ← (tensorOffsets tensorMetas 0 [] : GgufResult (List ℕ))
  let offset ← sumM writeTensorInfo (tensorMetas.zip offsets) offset
  let headerPad := alignmentPadding offset ggufDefaultAlignment
  if headerPad > 0 then writeAll (zeroPad headerPad)

/-! ### Tensor data -/

/-- `GgufTensorDataWriter`. -/
structure GgufTensorDataWriter (W : Type) where
  writer : W
  metas : List TensorMeta
  nextIndex : ℕ
  cumulativeOffset : ℕ

/-- A method on `&mut GgufTensorDataWriter`. -/
abbrev DataM (W : Type) := ExceptT GgufError (StateM (GgufTensorDataWriter W))

namespace GgufTensorDataWriter

/-- A write to `self.writer`. -/
def onWriter {α : Type} (p : WriteM W α) : DataM W α := fun s =>
  let (result, writer) := p s.writer
  (result, { s with writer := writer })

/-- `validate_next`. -/
def validateNext (s : GgufTensorDataWriter W) (name : String) : GgufResult ℕ :=
  match s.metas[s.nextIndex]? with
  | none => .error (.writeError ("write_tensor('" ++ name ++ "') called but all " ++
      toString s.metas.length ++ " declared tensor(s) were already written"))
  | some tensor =>
    if tensor.name ≠ name then
      .error (.writeError ("tensor write-order violation: expected '" ++ tensor.name ++
        "' next (position " ++ toString s.nextIndex ++ " of " ++ toString s.metas.length ++
        "), got '" ++ name ++ "'"))
    else .ok tensor.dataSize

/-- `advance_after_tensor`. -/
def advanceAfterTensor (written : ℕ) : DataM W Unit := do
  let s ← get
  let cumulativeOffset ← okOr (.writeError "cumulative tensor data offset overflows u64")
    (checkedAdd s.cumulativeOffset written)
  set { s with cumulativeOffset := cumulativeOffset, nextIndex := s.nextIndex + 1 }
  if s.nextIndex + 1 < s.metas.length then
    let pad := alignmentPadding cumulativeOffset ggufDefaultAlignment
    if pad > 0 then onWriter (writeAll (zeroPad pad))
    modify fun s => { s with cumulativeOffset := saturatingAdd s.cumulativeOffset pad }

/-- `write_tensor`. -/
def writeTensor (name : String) (data : List UInt8) : DataM W Unit := do
  let expectedSize ← (← get).validateNext name
  if data.length ≠ expectedSize then
    throw (.writeError ("tensor '" ++ name ++ "': data length " ++ toString data.length ++
      " does not match declared size " ++ toString expectedSize))
  else
    onWriter (writeAll data)
    advanceAfterTensor data.length

/-- The loop of `write_tensor_from_chunks`. -/
def writeChunks (name : String) (expectedSize : ℕ) : List (List UInt8) → ℕ → DataM W ℕ
  | [], written => return written
  | bytes :: chunks, written => do
    let newWritten ← okOr (.writeError ("tensor '" ++ name ++
      "': streamed byte count overflows u64")) (checkedAdd written bytes.length)
    if newWritten > expectedSize then
      throw (.writeError ("tensor '" ++ name ++ "': streamed " ++ toString newWritten ++
        " bytes so far, exceeding declared size " ++ toString expectedSize))
    else
      onWriter (writeAll bytes)
      writeChunks name expectedSize chunks newWritten

/-- `write_tensor_from_chunks`. -/
def writeTensorFromChunks (name : String) (chunks : List (List UInt8)) : DataM W Unit := do
  let expectedSize ← (← get).validateNext name
  let written ← writeChunks name expectedSize chunks 0
  if written ≠ expectedSize then
    throw (.writeError ("tensor '" ++ name ++ "': streamed " ++ toString written ++
      " bytes total, declared size is " ++ toString expectedSize))
  else advanceAfterTensor written

/-- `finish`: the inner writer. -/
def finish : DataM W W := do
  let s ← get
  if s.nextIndex ≠ s.metas.length then
    throw (.writeError ("finish() called with " ++ toString (s.metas.length - s.nextIndex) ++
      " of " ++ toString s.metas.length ++ " declared tensor(s) not yet written"))
  else
    onWriter flush
    return (← get).writer

end GgufTensorDataWriter

/-! ### Files -/

/-- `PendingTensor`. -/
structure PendingTensor where
  toMeta : TensorMeta
  data : List UInt8

/-- `GgufWriter`. -/
structure GgufWriter where
  metadata : List (String × MetadataValue)
  tensors : List PendingTensor
  tensorMetas : List TensorMeta

namespace GgufWriter

/-- `GgufWriter::new`. -/
def new : GgufWriter := ⟨[], [], []⟩

/-- `GgufWriter::add_metadata`. -/
def addMetadata (w : GgufWriter) (key : String) (value : MetadataValue) : GgufWriter :=
  { w with metadata := w.metadata ++ [(key, value)] }

/-- `GgufWriter::add_tensor`. -/
def addTensor (w : GgufWriter) (name : String) (dims : List UInt64) (tensorType : GgufTensorType)
    (data : List UInt8) : GgufWriter :=
  { w with tensors := w.tensors ++ [⟨⟨name, dims, tensorType, data.length⟩, data⟩] }

/-- `GgufWriter::declare_tensor`; an error leaves the writer as it was. -/
def declareTensor (w : GgufWriter) (name : String) (dims : List UInt64)
    (tensorType : GgufTensorType) : GgufResult GgufWriter := do
  let dataSize ← computeTensorDataSize name dims tensorType
  return { w with tensorMetas := w.tensorMetas ++ [⟨name, dims, tensorType, dataSize⟩] }

/-- `GgufWriter::write_to`.  The data writer borrows the sink. -/
def writeTo (w : GgufWriter) : WriteM W Unit := do
  if !w.tensorMetas.isEmpty then
    throw (.writeError ("write_to()/write_to_file() requires every tensor to be added via " ++
      "add_tensor(); this GgufWriter has tensor(s) declared via " ++
      "declare_tensor() instead — use into_data_writer()/into_file_data_writer() " ++
      "for those, or use add_tensor() consistently"))
  else
    let metas := w.tensors.map PendingTensor.toMeta
    writeGgufPrelude w.metadata metas
    let sink ← get
    let dataWriter : DataM W Unit := do
      w.tensors.forM fun tensor =>
        GgufTensorDataWriter.writeTensor tensor.toMeta.name tensor.data
      let _ ← GgufTensorDataWriter.finish
    let (result, s) := dataWriter ⟨sink, metas, 0, 0⟩
    set s.writer
    liftM result

/-- `GgufWriter::into_data_writer`, which takes the sink by value. -/
def intoDataWriter (w : GgufWriter) (writer : W) : GgufResult (GgufTensorDataWriter W) :=
  if !w.tensors.isEmpty then
    .error (.writeError ("into_data_writer()/into_file_data_writer() requires every tensor to be " ++
      "declared via declare_tensor(); this GgufWriter has tensor(s) added via " ++
      "add_tensor() instead — use write_to()/write_to_file() for those, or use " ++
      "declare_tensor() consistently"))
  else
    match (writeGgufPrelude w.metadata w.tensorMetas : WriteM W Unit) writer with
    | (.ok (), writer) => .ok ⟨writer, w.tensorMetas, 0, 0⟩
    | (.error e, _) => .error e

end GgufWriter

end Gguf

end Oxillama
