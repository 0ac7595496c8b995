/-
Quantizing tensors while loading (`oxillama-gguf/src/quantize_on_load.rs`).

A plan names a target format for tensors.  `applyQuantPlan` converts the `F16` and
`F32` tensors it names: it flattens a tensor to its values, cuts them into blocks of
32, and keeps the encoded blocks as an override.
-/
import Oxillama.Gguf.Loader
import Oxillama.Lib.Blocks
import Oxillama.Lib.F32

namespace Oxillama

namespace Gguf

open F32 (lit)

/-- `QuantTarget`. -/
inductive QuantTarget
  | q4_0
  | q8_0
  deriving DecidableEq, Repr

/-- `QuantTarget::as_tensor_type`. -/
def QuantTarget.asTensorType : QuantTarget → GgufTensorType
  | .q4_0 => .q4_0
  | .q8_0 => .q8_0

/-- `QuantPlan`. -/
structure QuantPlan where
  default : Option QuantTarget
  overrides : AList fun _ : String => QuantTarget

namespace QuantPlan

/-- `QuantPlan::uniform`. -/
def uniform (target : QuantTarget) : QuantPlan := ⟨some target, ∅⟩

/-- `QuantPlan::target_for`. -/
def targetFor (plan : QuantPlan) (name : String) : Option QuantTarget :=
  match plan.overrides.lookup name with
  | some target => some target
  | none => plan.default

end QuantPlan

/-- `format!("{tensor_type:?}")`. -/
def GgufTensorType.debug : GgufTensorType → String
  | .f32 => "F32"
  | .f16 => "F16"
  | .q4_0 => "Q4_0"
  | .q4_1 => "Q4_1"
  | .q5_0 => "Q5_0"
  | .q5_1 => "Q5_1"
  | .q8_0 => "Q8_0"
  | .q8_1 => "Q8_1"
  | .q2K => "Q2K"
  | .q3K => "Q3K"
  | .q4K => "Q4K"
  | .q5K => "Q5K"
  | .q6K => "Q6K"
  | .q8K => "Q8K"
  | .iq2Xxs => "Iq2Xxs"
  | .iq2Xs => "Iq2Xs"
  | .iq3Xxs => "Iq3Xxs"
  | .iq1S => "Iq1S"
  | .iq4Nl => "Iq4Nl"
  | .iq3S => "Iq3S"
  | .iq2S => "Iq2S"
  | .iq4Xs => "Iq4Xs"
  | .i8 => "I8"
  | .i16 => "I16"
  | .i32 => "I32"
  | .i64 => "I64"
  | .f64 => "F64"
  | .iq1M => "Iq1M"
  | .bf16 => "Bf16"
  | .q4_0_4_4 => "Q4_0_4_4"
  | .q4_0_4_8 => "Q4_0_4_8"
  | .q4_0_8_8 => "Q4_0_8_8"
  | .tq1_0 => "Tq1_0"
  | .tq2_0 => "Tq2_0"
  | .iq4Nl4x4 => "Iq4Nl4x4"
  | .iq4Nl4x8 => "Iq4Nl4x8"
  | .iq4Nl8x8 => "Iq4Nl8x8"
  | .q1_0G128 => "Q1_0G128"

section Kernels

variable {F : Type} [F32 F]

/-! ### Encoding -/

/-- The value with the larger absolute value. -/
def larger (acc w : F) : F := if F32.lt (F32.abs acc) (F32.abs w) then w else acc

/-- The value of a block with the largest absolute value. -/
def extreme (block : List F) : F := block.foldl larger (lit 0)

/-- The larger one of a maximum and an absolute value. -/
def maxAbs (acc w : F) : F := F32.max acc (F32.abs w)

/-- The largest absolute value of a block. -/
def absMax (block : List F) : F := block.foldl maxAbs (lit 0)

/-- Two nibbles in a byte. -/
def packNibbles (lo hi : UInt8) : UInt8 :=
  (lo &&& (0x0F : UInt8)) ||| ((hi &&& (0x0F : UInt8)) <<< 4)

/-- `encode_q4_0`, one round of its loop over the blocks: what it appends. -/
def encodeQ4_0Block (block : List F) : List UInt8 :=
  let d := extreme block / lit (-8)
  let id := if d != lit 0 then lit 1 / d else lit 0
  let nibbles : List UInt8 :=
    block.map (fun w => UInt8.ofInt (max 0 (min 15 (F32.toInt (w * id + lit (17 / 2)))))) ++
      List.replicate (32 - block.length) 8
  toLe 2 (F32.toF16 d).toNat ++
    (List.range 16).map fun j => packNibbles (nibbles.getD j 0) (nibbles.getD (j + 16) 0)

/-- `encode_q8_0`, one round of its loop over the blocks: what it appends. -/
def encodeQ8_0Block (block : List F) : List UInt8 :=
  let amax := absMax block
  let scale := if amax == lit 0 then lit 0 else amax / lit 127
  let invScale := if scale == lit 0 then lit 0 else lit 1 / scale
  let quants : List Int8 :=
    block.map (fun w => Int8.ofInt (max (-127) (min 127 (F32.toInt (F32.round (w * invScale)))))) ++
      List.replicate (32 - block.length) 0
  toLe 2 (F32.toF16 scale).toNat ++ quants.map (·.toUInt8)

/-- `encode_q4_0`. -/
def encodeQ4_0 (weights : List F) : List UInt8 := encodeBlocks encodeQ4_0Block 32 weights

/-- `encode_q8_0`. -/
def encodeQ8_0 (weights : List F) : List UInt8 := encodeBlocks encodeQ8_0Block 32 weights

/-- The encoder of a target. -/
def QuantTarget.encode (target : QuantTarget) (weights : List F) : List UInt8 :=
  match target with
  | .q4_0 => encodeQ4_0 weights
  | .q8_0 => encodeQ8_0 weights

/-! ### Dequantizing -/

/-- The values of a blob with `k` bytes for each of them. -/
def dequant (key : String) (k : ℕ) (value : ℕ → F) (blob : List UInt8) : GgufResult (List F) :=
  if ¬ k ∣ blob.length then
    .error (.invalidMetadata key ("blob length " ++ toString blob.length ++
      " is not a multiple of " ++ toString k))
  else .ok ((List.range (blob.length / k)).map fun i => value (fromLe (row k blob i)))

/-- `dequant_f16`. -/
def dequantF16 (blob : List UInt8) : GgufResult (List F) :=
  dequant "<f16_blob>" 2 (fun bits => F32.ofF16 (.ofNat bits)) blob

/-- `dequant_f32`. -/
def dequantF32 (blob : List UInt8) : GgufResult (List F) :=
  dequant "<f32_blob>" 4 (fun bits => F32.ofBits (.ofNat bits)) blob

/-- `blob_to_f32`. -/
def blobToF32 (blob : List UInt8) (sourceType : GgufTensorType) : GgufResult (List F) :=
  match sourceType with
  | .f16 => dequantF16 blob
  | .f32 => dequantF32 blob
  | other => .error (.cannotRequantize "<tensor>" other.debug)

end Kernels

/-! ### Applying a plan -/

/-- `TensorStore::set_type`. -/
def TensorStore.setType (store : TensorStore) (name : String) (newType : GgufTensorType) :
    TensorStore :=
  match store.infos.lookup name with
  | some info => { store with infos := store.infos.insert name { info with tensorType := newType } }
  | none => store

/-- The tensors a plan names, with their types and targets. -/
def toQuantize (model : GgufModel) (plan : QuantPlan) :
    List (String × GgufTensorType × QuantTarget) :=
  model.file.tensors.infos.entries.filterMap fun entry =>
    (plan.targetFor entry.1).map fun target => (entry.1, entry.2.tensorType, target)

variable (F : Type) [F32 F]

/-- `apply_quant_plan`, one round of its loop. -/
def convertTensor (model : GgufModel) (name : String) (sourceType : GgufTensorType)
    (target : QuantTarget) : GgufResult GgufModel :=
  if sourceType ≠ .f16 ∧ sourceType ≠ .f32 then
    .error (.cannotRequantize name sourceType.debug)
  else
    match model.quantOverrides.lookup name with
    | some existing => .error (.cannotRequantize name existing.newType.debug)
    | none => do
      let blob ← model.file.tensorData model.data name
      let weights : List F ← blobToF32 blob sourceType
      let newType := target.asTensorType
      return { model with
        file := { model.file with tensors := model.file.tensors.setType name newType }
        quantOverrides := model.quantOverrides.insert name ⟨target.encode weights, newType⟩ }

/-- The loop.  An error leaves the tensors converted that came before. -/
def convertAll : List (String × GgufTensorType × QuantTarget) → GgufModel →
    GgufResult Unit × GgufModel
  | [], model => (.ok (), model)
  | (name, sourceType, target) :: rest, model =>
    match convertTensor F model name sourceType target with
    | .error e => (.error e, model)
    | .ok model => convertAll rest model

/-- `apply_quant_plan`. -/
def applyQuantPlan (model : GgufModel) (plan : QuantPlan) : GgufResult Unit × GgufModel :=
  convertAll F (toQuantize model plan) model

end Gguf

end Oxillama
