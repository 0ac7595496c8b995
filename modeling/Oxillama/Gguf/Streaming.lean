/-
The streaming parser (`oxillama-gguf/src/streaming.rs`).

`StreamingGgufParser.new` reads the header and the metadata and only skips over
the tensor infos, to find where the data section starts; `tensorInfos` reads
them later, one at a time, `intoFull` collects them into a `GgufFile`, and
`findTensor` and `tensorData` give access to a single one.
-/
import Oxillama.Gguf.Parser

namespace Oxillama

namespace Gguf

namespace Streaming

open BinaryReader

/-- `MAX_METADATA_ARRAY_DEPTH`. -/
def maxMetadataArrayDepth : ℕ := 8

/-- `MAX_TENSOR_DIMS`. -/
def maxTensorDims : ℕ := 4

/-- `MAX_GGUF_ALIGNMENT`. -/
def maxGgufAlignment : ℕ := 2 ^ 30

/-- `parse_metadata_streaming`. -/
def parseMetadataStreaming (header : GgufHeader) : ReadM MetadataStore :=
  iterM (readMetadataEntry maxMetadataArrayDepth header.version) header.metadataKvCount.toNat
    .new

/-- One round of `skip_tensor_infos`. -/
def skipTensorInfo (version : UInt32) : ReadM Unit := do
  let nameLen ← readCountVersioned version
  let rem ← remaining
  let pos ← position
  if nameLen.toNat > rem then throw (.unexpectedEof pos)
  else
    skip nameLen.toNat
    let nDims ← readU32
    if nDims = 0 ∨ nDims.toNat > maxTensorDims then
      throw (badDims "<tensor_infos>" nDims maxTensorDims)
    else
      skip (nDims.toNat * if version ≥ 3 then 8 else 4)
      -- the tensor type, then the offset
      skip 4
      skip (if version ≥ 2 then 8 else 4)

/-- `skip_tensor_infos`. -/
def skipTensorInfos (header : GgufHeader) : ReadM Unit :=
  iterM (fun _ => skipTensorInfo header.version) header.tensorCount.toNat ()

end Streaming

/-- `TensorInfoIter`. -/
structure TensorInfoIter where
  reader : BinaryReader
  remaining : ℕ
  version : UInt32
  dataOffset : ℕ

namespace TensorInfoIter

/-- `TensorInfoIter::parse_one`. -/
def parseOne (version : UInt32) : ReadM TensorInfo :=
  BinaryReader.readTensorInfo Streaming.maxTensorDims version

/-- `TensorInfoIter::next`: the next entry and the iterator behind it. -/
def next (it : TensorInfoIter) : Option (GgufResult (TensorInfo × TensorInfoIter)) :=
  if it.remaining = 0 then none
  else some (do
    let (info, reader) ← parseOne it.version it.reader
    return (info, { it with reader := reader, remaining := it.remaining - 1 }))

end TensorInfoIter

/-- `StreamingGgufParser`. -/
structure StreamingGgufParser where
  data : List UInt8
  header : GgufHeader
  metadata : MetadataStore
  alignment : ℕ
  /-- Byte offset where the tensor infos start. -/
  tensorInfoOffset : ℕ
  /-- Byte offset where the data section starts. -/
  dataSectionOffset : ℕ

namespace StreamingGgufParser

open Streaming

/-- What `StreamingGgufParser::new` does behind the header. -/
def newBody (data : List UInt8) (header : GgufHeader) : ReadM StreamingGgufParser := do
  let metadata ← parseMetadataStreaming header
  let alignment := alignmentOf metadata
  liftM (validateAlignment maxGgufAlignment alignment)
  let tensorInfoOffset ← BinaryReader.position
  skipTensorInfos header
  let position ← BinaryReader.position
  return {
    data := data
    header := header
    metadata := metadata
    alignment := alignment
    tensorInfoOffset := tensorInfoOffset
    dataSectionOffset := alignUp position alignment }

/-- `StreamingGgufParser::new`. -/
def new (data : List UInt8) : GgufResult StreamingGgufParser := do
  let (header, offset) ← GgufHeader.parse data 0
  let (parser, _) ← newBody data header ⟨data, offset⟩
  return parser

/-- `StreamingGgufParser::tensor_infos`. -/
def tensorInfos (p : StreamingGgufParser) : TensorInfoIter where
  reader := ⟨p.data, p.tensorInfoOffset⟩
  remaining := p.header.tensorCount.toNat
  version := p.header.version
  dataOffset := p.dataSectionOffset

/-- The loop of `into_full`: the entries an iterator still has, inserted one
after the other.  The iterator ends by itself after `n` entries. -/
def insertAll : ℕ → TensorInfoIter → TensorStore → GgufResult TensorStore
  | 0, _, tensors => .ok tensors
  | n + 1, it, tensors =>
    match it.next with
    | none => .ok tensors
    | some result => do
      let (info, it) ← result
      let tensors ← tensors.tryInsert info
      insertAll n it tensors

/-- `StreamingGgufParser::into_full`. -/
def intoFull (p : StreamingGgufParser) : GgufResult GgufFile := do
  let start := TensorStore.new.setDataOffset p.dataSectionOffset
  let tensors ← insertAll p.tensorInfos.remaining p.tensorInfos start
  if tensors.len ≠ p.header.tensorCount.toNat then
    .error (wrongTensorCount p.header.tensorCount.toNat tensors.len)
  else return {
    header := p.header
    metadata := p.metadata
    tensors := tensors
    alignment := p.alignment }

/-- The loop of `find_tensor` over the entries an iterator still has. -/
def findFrom (name : String) : ℕ → TensorInfoIter → GgufResult TensorInfo
  | 0, _ => .error (.tensorNotFound name)
  | n + 1, it =>
    match it.next with
    | none => .error (.tensorNotFound name)
    | some result => do
      let (info, it) ← result
      if info.name = name then return info else findFrom name n it

/-- `StreamingGgufParser::find_tensor`. -/
def findTensor (p : StreamingGgufParser) (name : String) : GgufResult TensorInfo :=
  findFrom name p.tensorInfos.remaining p.tensorInfos

/-- The range `tensor_data` computes. -/
def tensorDataRange (p : StreamingGgufParser) (info : TensorInfo) : GgufResult (ℕ × ℕ) := do
  let absOffset ← okOr (.unexpectedEof p.dataSectionOffset)
    (checkedAdd p.dataSectionOffset info.offset.toNat)
  let size ← info.tryDataSize
  let stop ← okOr (.unexpectedEof absOffset) (checkedAdd absOffset size)
  if stop > p.data.length then .error (.unexpectedEof absOffset) else return (absOffset, stop)

/-- `StreamingGgufParser::tensor_data`; the slice of the range may panic. -/
def tensorData (p : StreamingGgufParser) (info : TensorInfo) :
    Option (GgufResult (List UInt8)) :=
  match p.tensorDataRange info with
  | .error e => some (.error e)
  | .ok (start, stop) => (sliceRange p.data start stop).map .ok

end StreamingGgufParser

end Gguf

end Oxillama
