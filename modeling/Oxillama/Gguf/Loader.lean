/-
Loaded models (`oxillama-gguf/src/loader.rs`).

A `GgufModel` is a parsed file with its backing data, and the tensors that were
quantized after loading; `tensorData` answers with those first.
-/
import Oxillama.Gguf.Parser

namespace Oxillama

namespace Gguf

/-- `QuantOverride`. -/
structure QuantOverride where
  data : List UInt8
  newType : GgufTensorType

/-- `OverrideMap`. -/
abbrev OverrideMap := AList fun _ : String => QuantOverride

/-- `GgufModel`. -/
structure GgufModel where
  file : GgufFile
  data : List UInt8
  quantOverrides : OverrideMap

namespace GgufModel

/-- `GgufModel::from_bytes`. -/
def fromBytes (data : List UInt8) : GgufResult GgufModel := do
  let parsed ← GgufFile.parse data
  return ⟨parsed, data, ∅⟩

/-- `GgufModel::tensor_data`. -/
def tensorData (model : GgufModel) (name : String) : GgufResult (List UInt8) :=
  match model.quantOverrides.lookup name with
  | some ovr => .ok ovr.data
  | none => model.file.tensorData model.data name

end GgufModel

theorem fromBytes_eq_ok {data : List UInt8} {model : GgufModel} :
    GgufModel.fromBytes data = .ok model ↔ ∃ file, GgufFile.parse data = .ok file ∧
      model = ⟨file, data, ∅⟩ := by
  rw [GgufModel.fromBytes, except_bind_eq_ok]
  refine exists_congr fun file => and_congr_right fun _ => ?_
  show Except.ok _ = Except.ok model ↔ _
  rw [Except.ok.injEq, eq_comm]

end Gguf

end Oxillama
