/-
Linear layers and their LoRA corrections (`oxillama-quant/src/lora.rs`,
`oxillama-arch/src/common/linear.rs`, `lora/loader.rs`, `lora/stack.rs`, and what
`traits.rs` and `llama/model.rs` do with them).

A layer has a slot for one adapter, which `setLora` replaces, and a list of adapters,
to which `pushLora` appends.  A buffer that is modified in place is what it is left as.
-/
import Mathlib.Data.List.AList
import Oxillama.Lib.RowBuffer

namespace Oxillama

namespace Arch

/-! ### Errors -/

/-- `QuantError`, the part of it that linear layers raise. -/
inductive QuantError
  | dimensionMismatch (expected got : ℕ)
  deriving DecidableEq, Repr

/-- `QuantResult`. -/
abbrev QuantResult (α : Type) := Except QuantError α

/-- `ArchError`, the part of it that adapters raise. -/
inductive ArchError
  | notSupported (detail : String)
  deriving DecidableEq, Repr

/-- `ArchResult`. -/
abbrev ArchResult (α : Type) := Except ArchError α

variable {α W : Type} [Add α] [Mul α] [Zero α]

/-! ### Adapters -/

/-- `LoraAdapter`, with the dimensions that `LoraAdapter::new` checks. -/
structure LoraAdapter (α : Type) where
  a : List α
  b : List α
  rank : ℕ
  scale : α
  inFeatures : ℕ
  outFeatures : ℕ
  length_a : a.length = rank * inFeatures
  length_b : b.length = outFeatures * rank

/-- The sum of products of two slices. -/
def dot (xs ys : List α) : α := (List.zipWith (· * ·) xs ys).foldl (· + ·) 0

namespace LoraAdapter

/-- `A @ input`. -/
def project (adapter : LoraAdapter α) (input : List α) : List α :=
  (List.range adapter.rank).map fun i =>
    dot (row adapter.inFeatures adapter.a i) (input.take adapter.inFeatures)

/-- `LoraAdapter::apply`: the output it leaves. -/
def apply (adapter : LoraAdapter α) (input output : List α) : QuantResult (List α) :=
  if input.length < adapter.inFeatures then
    .error (.dimensionMismatch adapter.inFeatures input.length)
  else if output.length < adapter.outFeatures then
    .error (.dimensionMismatch adapter.outFeatures output.length)
  else
    let r := adapter.project input
    .ok (output.mapIdx fun i out =>
      if i < adapter.outFeatures then
        out + dot (row adapter.rank adapter.b i) r * adapter.scale
      else out)

end LoraAdapter

/-- `apply_lora_scaled` of a linear layer: the output it leaves. -/
def applyLoraScaled (adapter : LoraAdapter α) (input output : List α) (extraScale : α) : List α :=
  if adapter.rank = 0 || adapter.inFeatures = 0 || input.length < adapter.inFeatures then output
  else if adapter.a.length < adapter.rank * adapter.inFeatures ||
      adapter.b.length < adapter.outFeatures * adapter.rank then output
  else
    let tmp := (List.range adapter.rank).map fun i =>
      dot (row adapter.inFeatures adapter.a i) input
    let scale := adapter.scale * extraScale
    output.mapIdx fun o out =>
      if o < min adapter.outFeatures output.length then
        out + scale * dot (row adapter.rank adapter.b o) tmp
      else out

/-! ### Linear layers -/

/-- `QuantKernel`, as far as a linear layer uses it.  It writes into the buffer it is given. -/
structure QuantKernel (W α : Type) where
  gemv : W → List α → List α → QuantResult (List α)
  length_gemv : ∀ {weight input output output'}, gemv weight input output = .ok output' →
    output'.length = output.length

/-- `QuantLinear`. -/
structure QuantLinear (W α : Type) where
  weight : W
  bias : Option (List α)
  outFeatures : ℕ
  inFeatures : ℕ
  lora : Option (LoraAdapter α)
  loraStack : List (LoraAdapter α × α)

namespace QuantLinear

/-- `QuantLinear::set_lora`. -/
def setLora (linear : QuantLinear W α) (lora : LoraAdapter α) : QuantLinear W α :=
  { linear with lora := some lora }

/-- `QuantLinear::push_lora`. -/
def pushLora (linear : QuantLinear W α) (lora : LoraAdapter α) (scale : α) : QuantLinear W α :=
  { linear with loraStack := linear.loraStack ++ [(lora, scale)] }

/-- `QuantLinear::clear_lora`. -/
def clearLora (linear : QuantLinear W α) : QuantLinear W α :=
  { linear with lora := none, loraStack := [] }

/-- `QuantLinear::lora_count`. -/
def loraCount (linear : QuantLinear W α) : ℕ :=
  linear.loraStack.length + if linear.lora.isSome then 1 else 0

/-- The loop that adds the bias. -/
def addBias (output bias : List α) : List α :=
  output.mapIdx fun i o => match bias[i]? with
    | some b => o + b
    | none => o

/-- `QuantLinear::forward`: the output it leaves. -/
def forward (linear : QuantLinear W α) (kernel : QuantKernel W α) (input output : List α) :
    QuantResult (List α) := do
  let output ← kernel.gemv linear.weight input output
  let output := match linear.bias with
    | some bias => addBias output bias
    | none => output
  let output ← match linear.lora with
    | some lora => lora.apply input output
    | none => .ok output
  return linear.loraStack.foldl (fun output (adapter, scale) =>
    applyLoraScaled adapter input output scale) output

end QuantLinear

/-! ### Adapters of a model -/

/-- `LoadedLora`: adapters by tensor name. -/
structure LoadedLora (α : Type) where
  adapters : AList fun _ : String => LoraAdapter α

/-- `LoadedLora::get`. -/
def LoadedLora.get (lora : LoadedLora α) (tensorName : String) : Option (LoraAdapter α) :=
  lora.adapters.lookup tensorName

/-- `LoraStack`: the loaded adapters, each with its scale. -/
structure LoraStack (α : Type) where
  entries : List (LoadedLora α × α)

/-- What an entry of a stack adds to `delta`. -/
def LoraStack.addEntry (tensorName : String) (input : List α) (outFeatures : ℕ) (delta : List α)
    (entry : LoadedLora α × α) : List α :=
  match entry.1.get tensorName with
  | none => delta
  | some adapter =>
    let outF := min adapter.outFeatures outFeatures
    let r := adapter.project input
    let combined := adapter.scale * entry.2
    delta.mapIdx fun i d =>
      if i < outF then d + dot (row adapter.rank adapter.b i) r * combined else d

/-- `LoraStack::apply`. -/
def LoraStack.apply (stack : LoraStack α) (tensorName : String) (input : List α)
    (outFeatures : ℕ) : List α :=
  stack.entries.foldl (addEntry tensorName input outFeatures) (List.replicate outFeatures 0)

/-! ### The LLaMA model -/

/-- `DenseFfn`. -/
structure DenseFfn (W α : Type) where
  gate : QuantLinear W α
  up : QuantLinear W α
  down : QuantLinear W α

/-- `FfnVariant`.  No adapter reaches the experts of the sparse one. -/
inductive FfnVariant (W α : Type)
  | dense (ffn : DenseFfn W α)
  | moe

/-- `LlamaLayer`, its linear layers. -/
structure LlamaLayer (W α : Type) where
  attnQ : QuantLinear W α
  attnK : QuantLinear W α
  attnV : QuantLinear W α
  attnOutput : QuantLinear W α
  ffn : FfnVariant W α

/-- `LlamaModel`, its layers. -/
structure LlamaModel (W α : Type) where
  layers : List (LlamaLayer W α)

/-- The name of a tensor of layer `i`. -/
def tensorName (i : ℕ) (projection : String) : String :=
  "blk." ++ toString i ++ "." ++ projection ++ ".weight"

/-- The linear layers of a layer, each with its projection, under a function. -/
def LlamaLayer.mapLinears (f : String → QuantLinear W α → QuantLinear W α)
    (layer : LlamaLayer W α) : LlamaLayer W α where
  attnQ := f "attn_q" layer.attnQ
  attnK := f "attn_k" layer.attnK
  attnV := f "attn_v" layer.attnV
  attnOutput := f "attn_output" layer.attnOutput
  ffn := match layer.ffn with
    | .dense ffn => .dense ⟨f "ffn_gate" ffn.gate, f "ffn_up" ffn.up, f "ffn_down" ffn.down⟩
    | .moe => .moe

namespace LlamaModel

/-- `LlamaModel::apply_lora`. -/
def applyLora (model : LlamaModel W α) (lora : LoadedLora α) : LlamaModel W α where
  layers := model.layers.mapIdx fun i layer => layer.mapLinears fun projection linear =>
    match lora.get (tensorName i projection) with
    | some adapter => linear.setLora adapter
    | none => linear

/-- `LlamaModel::unapply_all_loras`. -/
def unapplyAllLoras (model : LlamaModel W α) : LlamaModel W α where
  layers := model.layers.map fun layer => layer.mapLinears fun _ linear => linear.clearLora

/-- `ForwardPass::apply_lora_scaled`, the default, which the model does not override. -/
def applyLoraScaled [Sub α] [One α] [LE α] [DecidableLE α] [ToString α] (abs : α → α) (epsilon : α)
    (model : LlamaModel W α) (lora : LoadedLora α) (scale : α) : ArchResult (LlamaModel W α) :=
  if abs (scale - 1) ≤ epsilon then .ok (model.applyLora lora)
  else .error (.notSupported ("apply_lora_scaled(scale = " ++ toString scale ++
    ") not implemented for this architecture; the per-entry LoRA scale would be silently discarded"))

/-- `ForwardPass::apply_lora_stack`, whose error leaves the entries before it applied. -/
def applyLoraStack [Sub α] [One α] [LE α] [DecidableLE α] [ToString α] (abs : α → α) (epsilon : α) :
    List (LoadedLora α × α) → LlamaModel W α → ArchResult Unit × LlamaModel W α
  | [], model => (.ok (), model)
  | (lora, scale) :: entries, model =>
    match model.applyLoraScaled abs epsilon lora scale with
    | .error e => (.error e, model)
    | .ok model => applyLoraStack abs epsilon entries model

end LlamaModel

end Arch

end Oxillama
