/-
The safetensors importer (`oxillama-gguf/src/safetensors.rs`).

`fromBytes` reads the header of a safetensors file, checks every tensor entry on
its own, and builds a GGUF file around the data section, which it then parses.

What `serde_json::from_slice` makes of the header is a parameter: the members of
the object in the order in which the map is walked, or the text of its error.
-/
import Oxillama.Lib.Bytes
import Oxillama.Schema.Value
import Oxillama.Gguf.Loader

namespace Oxillama

namespace Gguf

namespace Safetensors

open Schema (Object Value)

/-- `SAFETENSORS_META_KEY`. -/
def safetensorsMetaKey : String := "__metadata__"

/-! ### Tensor entries -/

/-- `RawTensorEntry`. -/
structure RawTensorEntry where
  dtype : GgufTensorType
  dimensions : List UInt64
  dataStart : ℕ
  dataEnd : ℕ

/-- `ParsedTensor`. -/
structure ParsedTensor where
  name : String
  dtype : GgufTensorType
  dimensions : List UInt64
  /-- Absolute start in the safetensors file. -/
  absStart : ℕ

/-- `map_dtype`. -/
def mapDtype (dtypeStr : String) : GgufResult GgufTensorType :=
  match dtypeStr with
  | "F32" => .ok .f32
  | "F16" => .ok .f16
  | "BF16" => .ok .bf16
  | "I8" => .ok .q8_0
  | other => .error (.unsupportedDtype other)

/-- An error about a tensor entry. -/
def badEntry (name reason : String) : GgufError :=
  .safetensorsParseError ("tensor '" ++ name ++ "': " ++ reason)

/-- One entry of the shape. -/
def parseDimension (name : String) (item : Value × ℕ) : GgufResult UInt64 := do
  let dim ← okOr (badEntry name ("shape[" ++ toString item.2 ++
    "] is not a non-negative integer")) item.1.asU64
  return .ofNat dim

/-- `parse_tensor_entry`. -/
def parseTensorEntry (name : String) (desc : Value) : GgufResult RawTensorEntry := do
  let obj ← okOr (badEntry name "descriptor must be a JSON object") desc.asObject
  let dtypeStr ← okOr (badEntry name "missing or invalid 'dtype' field")
    ((Object.get obj "dtype").bind Value.asStr)
  let dtype ← mapDtype dtypeStr
  let shapeArr ← okOr (badEntry name "missing or invalid 'shape' field")
    ((Object.get obj "shape").bind Value.asArray)
  let dimensions ← shapeArr.zipIdx.mapM (parseDimension name)
  let offsetsArr ← okOr (badEntry name "missing or invalid 'data_offsets' field")
    ((Object.get obj "data_offsets").bind Value.asArray)
  match offsetsArr with
  | [first, second] =>
    let dataStart ← okOr (badEntry name "data_offsets[0] is not a non-negative integer")
      first.asU64
    let dataEnd ← okOr (badEntry name "data_offsets[1] is not a non-negative integer")
      second.asU64
    if dataEnd < dataStart then
      throw (badEntry name ("data_offsets[1] (" ++ toString dataEnd ++ ") < data_offsets[0] (" ++
        toString dataStart ++ ")"))
    else return { dtype, dimensions, dataStart, dataEnd }
  | _ => throw (badEntry name ("'data_offsets' must be an array of exactly 2 elements, got " ++
      toString offsetsArr.length))

/-- The loop of `from_bytes` over the members of the header. -/
def parseEntries (dataSectionStart len : ℕ) :
    List (Σ _ : String, Value) → List ParsedTensor → ℕ → GgufResult (List ParsedTensor × ℕ)
  | [], tensorEntries, maxEnd => return (tensorEntries, maxEnd)
  | ⟨name, desc⟩ :: entries, tensorEntries, maxEnd => do
    if name = safetensorsMetaKey then
      parseEntries dataSectionStart len entries tensorEntries maxEnd
    else
      let tensor ← parseTensorEntry name desc
      let absStart ← okOr (badEntry name "data_start overflows usize")
        (checkedAdd dataSectionStart tensor.dataStart)
      let absEnd ← okOr (badEntry name "data_end overflows usize")
        (checkedAdd dataSectionStart tensor.dataEnd)
      if absEnd > len then throw (.unexpectedEof absStart)
      else
        parseEntries dataSectionStart len entries
          (tensorEntries ++ [⟨name, tensor.dtype, tensor.dimensions, absStart⟩])
          (if absEnd > maxEnd then absEnd else maxEnd)

/-! ### The synthetic file -/

/-- `write_gguf_string`: what it appends. -/
def writeGgufString (s : String) : List UInt8 :=
  toLe 8 (encodeUtf8 s).length ++ encodeUtf8 s

/-- The tensor info of a tensor.  Its number of dimensions is cut to 32 bits. -/
def writeTensorInfo (dataSectionStart : ℕ) (t : ParsedTensor) : List UInt8 :=
  writeGgufString t.name ++ toLe 4 t.dimensions.length ++
    t.dimensions.flatMap (fun dim => toLe 8 dim.toNat) ++ toLe 4 t.dtype.toU32.toNat ++
    toLe 8 (t.absStart - dataSectionStart)

/-- `build_synthetic_gguf`. -/
def buildSyntheticGguf (tensors : List ParsedTensor) (rawDataSlice : List UInt8)
    (dataSectionStart : ℕ) : List UInt8 :=
  let header := toLe 4 ggufMagic.toNat ++ toLe 4 3 ++ toLe 8 tensors.length ++ toLe 8 1
  let kv := writeGgufString "general.architecture" ++ toLe 4 8 ++
    writeGgufString "safetensors_import"
  let buf := header ++ kv ++ tensors.flatMap (writeTensorInfo dataSectionStart)
  let rem := buf.length % ggufDefaultAlignment
  let buf := if rem ≠ 0 then buf ++ List.replicate (ggufDefaultAlignment - rem) 0 else buf
  buf ++ rawDataSlice

/-! ### Files -/

/-- `SafetensorsConverter::from_bytes`. -/
def fromBytes (fromSlice : List UInt8 → Except String (AList fun _ : String => Value))
    (bytes : List UInt8) : GgufResult GgufModel := do
  if bytes.length < 8 then throw (.unexpectedEof 0)
  else
    let headerSize := fromLe (bytes.take 8)
    let jsonEnd ← okOr (.unexpectedEof 8) (checkedAdd 8 headerSize)
    let jsonBytes ← okOr (.unexpectedEof 8) (sliceRange bytes 8 jsonEnd)
    let dataSectionStart := jsonEnd
    let root ← (fromSlice jsonBytes).mapError fun e =>
      .safetensorsParseError ("JSON parse error: " ++ e)
    let (tensorEntries, maxEnd) ← parseEntries dataSectionStart bytes.length root.entries [] 0
    let rawDataSlice :=
      if maxEnd > dataSectionStart then
        (bytes.drop dataSectionStart).take (maxEnd - dataSectionStart)
      else []
    GgufModel.fromBytes (buildSyntheticGguf tensorEntries rawDataSlice dataSectionStart)

end Safetensors

end Gguf

end Oxillama
