/-
Which type a tensor is quantized to (`oxillama-cli/src/quantize/type_select.rs`).

A target is a mixture of types.  `TypeSelector` looks at the name of a tensor and at
counters of the tensors it has seen; `fallbackForIncompatibleRow` replaces a type whose
blocks do not fit into a row.
-/
import Mathlib
import Oxillama.Gguf.Store

namespace Oxillama

namespace Cli

open Gguf

/-! ### Targets -/

/-- `Ftype`. -/
inductive Ftype
  | q4_0 | q8_0 | q5_0 | q5_1 | q2K | q3KS | q3KM | q3KL | q4KS | q4KM | q5KS | q5KM | q6K
  deriving DecidableEq

/-- `Ftype::default_type`. -/
def Ftype.defaultType : Ftype → GgufTensorType
  | .q4_0 => .q4_0
  | .q5_0 => .q5_0
  | .q5_1 => .q5_1
  | .q8_0 => .q8_0
  | .q2K => .q2K
  | .q3KS | .q3KM | .q3KL => .q3K
  | .q4KS | .q4KM => .q4K
  | .q5KS | .q5KM => .q5K
  | .q6K => .q6K

/-- `ModelInfo`. -/
structure ModelInfo where
  arch : String
  nLayer : Int32
  nHead : ℕ
  nHeadKv : ℕ
  nExpert : ℕ
  hasOutput : Bool
  nAttentionWv : Int32

namespace ModelInfo

/-- `ModelInfo::n_gqa`. -/
def nGqa (info : ModelInfo) : ℕ := info.nHead / info.nHeadKv

/-- `ModelInfo::is_70b`. -/
def is70b (info : ModelInfo) : Bool :=
  info.arch = "llama" && info.nLayer = 80 && info.nHead ≠ info.nHeadKv

end ModelInfo

/-- `use_more_bits`. -/
def useMoreBits (iLayer nLayers : Int32) : Bool :=
  iLayer < nLayers / 8 || iLayer ≥ 7 * nLayers / 8 || (iLayer - nLayers / 8) % 3 = 2

/-! ### Names -/

/-- `str::contains`. -/
def contains (text pattern : String) : Bool := text.toList.tails.any pattern.toList.isPrefixOf

/-- `str::parse::<i32>`. -/
def parseI32 (field : List Char) : Option Int32 :=
  let (negative, digits) := match field with
    | '-' :: c :: rest => (true, c :: rest)
    | '+' :: c :: rest => (false, c :: rest)
    | field => (false, field)
  if digits ≠ [] ∧ ∀ c ∈ digits, c.isDigit then
    let n : ℤ := Nat.ofDigitChars 10 digits 0
    let v := if negative then -n else n
    if -2 ^ 31 ≤ v ∧ v < 2 ^ 31 then some (.ofInt v) else none
  else none

/-- `should_quantize`. -/
def shouldQuantize (name : String) (nDims : ℕ) : Bool :=
  "weight".toList.isSuffixOf name.toList && decide (2 ≤ nDims) &&
    !contains name "_norm.weight" && !contains name "ffn_gate_inp.weight" &&
    !(contains name "altup" || contains name "laurel") && !contains name "per_layer_model_proj" &&
    !(name = "position_embd.weight" || name = "token_types.weight") &&
    !(contains name "ssm_conv1d" || contains name "shortconv.conv.weight") &&
    !(rwkvSmall2d.any (contains name)) && !contains name "attn_rel_b.weight" &&
    !contains name ".position_embd."
where
  /-- `RWKV_SMALL_2D`. -/
  rwkvSmall2d : List String :=
    ["time_mix_first.weight", "time_mix_w0.weight", "time_mix_w1.weight", "time_mix_w2.weight",
      "time_mix_v0.weight", "time_mix_v1.weight", "time_mix_v2.weight", "time_mix_a0.weight",
      "time_mix_a1.weight", "time_mix_a2.weight", "time_mix_g1.weight", "time_mix_g2.weight",
      "time_mix_decay_w1.weight", "time_mix_decay_w2.weight", "time_mix_lerp_fused.weight"]

/-! ### The selector -/

/-- `LayerParseError`. -/
structure LayerParseError where
  tensor : String
  reason : String

/-- `TypeSelector`. -/
structure TypeSelector where
  info : ModelInfo
  ftype : Ftype
  iAttentionWv : Int32
  iFfnDown : Int32
  iFfnGate : Int32
  iFfnUp : Int32
  /-- `n_ffn_down`, `n_ffn_gate` and `n_ffn_up`, all the number of layers. -/
  nFfn : Int32

namespace TypeSelector

/-- `TypeSelector::new`. -/
def new (info : ModelInfo) (ftype : Ftype) : TypeSelector := ⟨info, ftype, 0, 0, 0, 0, info.nLayer⟩

variable (s : TypeSelector)

/-- `TypeSelector::layer_info`. -/
def layerInfo (counter : Int32) (name : String) : Except LayerParseError Int32 :=
  if max s.info.nExpert 1 ≤ 1 then .ok counter
  else
    let digits := if "blk.".toList.isPrefixOf name.toList then
      parseI32 ((name.toList.drop 4).takeWhile (· ≠ '.')) else none
    match digits with
    | none => .error ⟨name, "failed to determine layer (expected a 'blk.N.' prefix)"⟩
    | some idx =>
      if idx < 0 || idx ≥ s.info.nLayer then
        .error ⟨name, "bad layer " ++ toString idx ++ "; must be in [0, " ++
          toString s.info.nLayer ++ ")"⟩
      else .ok idx

/-- The type of an output head. -/
def output (ne0 : Int64) : GgufTensorType :=
  let newType := s.ftype.defaultType
  if s.info.arch = "falcon" ∨ ne0 % .ofNat newType.blockSize ≠ 0 then .q8_0
  else if newType ≠ .q8_0 then .q6K
  else newType

/-- The type of an `attn_v.weight`. -/
def attnV : GgufTensorType :=
  let newType := match s.ftype with
    | .q2K => if s.info.nGqa ≥ 4 then .q4K else .q3K
    | .q3KM => if s.iAttentionWv < 2 then .q5K else .q4K
    | .q3KL => .q5K
    | .q4KM | .q5KM => if useMoreBits s.iAttentionWv s.info.nAttentionWv then .q6K
      else s.ftype.defaultType
    | .q4KS => if s.iAttentionWv < 4 then .q5K else s.ftype.defaultType
    | ftype => ftype.defaultType
  let newType := if s.info.is70b ∧ (newType = .q3K ∨ newType = .q4K) then .q5K else newType
  if s.info.nExpert = 8 then .q8_0 else newType

/-- The type of an `ffn_down`. -/
def ffnDown (iLayer : Int32) : GgufTensorType :=
  let nLayer := s.nFfn
  let isFalcon : Bool := s.info.arch = "falcon"
  match s.ftype with
  | .q2K => .q3K
  | .q3KM =>
    if iLayer < nLayer / 16 then .q5K
    else if !isFalcon || useMoreBits iLayer nLayer then .q4K
    else .q3K
  | .q3KL => if isFalcon then .q4K else .q5K
  | .q4KM =>
    if isFalcon then
      if iLayer < nLayer / 16 then .q6K
      else if useMoreBits iLayer nLayer then .q5K
      else .q4K
    else if useMoreBits iLayer nLayer then .q6K
    else s.ftype.defaultType
  | .q5KM => if useMoreBits iLayer nLayer then .q6K else s.ftype.defaultType
  | .q4KS => if !isFalcon && iLayer < nLayer / 8 then .q5K else s.ftype.defaultType
  | ftype => ftype.defaultType

/-- The type of an `attn_output.weight`. -/
def attnOutput : GgufTensorType :=
  if s.info.arch = "falcon" then if s.ftype = .q3KL then .q4K else s.ftype.defaultType
  else if s.info.nExpert = 8 then
    match s.ftype with
    | .q2K | .q3KS | .q3KM | .q4KS | .q4KM => .q5K
    | ftype => ftype.defaultType
  else
    match s.ftype with
    | .q2K => .q3K
    | .q3KM => .q4K
    | .q3KL => .q5K
    | ftype => ftype.defaultType

/-- The type of an `attn_qkv.weight`. -/
def attnQkv : GgufTensorType :=
  match s.ftype with
  | .q3KM | .q3KL => .q4K
  | .q4KM => .q5K
  | .q5KM => .q6K
  | ftype => ftype.defaultType

/-- `TypeSelector::select`. -/
def select (name : String) (ne0 : Int64) :
    Except LayerParseError (GgufTensorType × TypeSelector) := do
  let newType := s.ftype.defaultType
  if name = "output.weight" ∨ (!s.info.hasOutput ∧ name = "token_embd.weight") then
    .ok (s.output ne0, s)
  else if name = "token_embd.weight" ∨ name = "per_layer_token_embd.weight" then .ok (newType, s)
  else if contains name "attn_v.weight" then
    .ok (s.attnV, { s with iAttentionWv := s.iAttentionWv + 1 })
  else if contains name "attn_k.weight" then
    .ok (if s.info.nExpert = 8 then .q8_0 else newType, s)
  else if contains name "attn_q.weight" then .ok (newType, s)
  else if contains name "ffn_down" then
    let iLayer ← s.layerInfo s.iFfnDown name
    .ok (s.ffnDown iLayer, { s with iFfnDown := s.iFfnDown + 1 })
  else if contains name "attn_output.weight" then .ok (s.attnOutput, s)
  else if contains name "attn_qkv.weight" then .ok (s.attnQkv, s)
  else if contains name "ffn_gate" then
    let _ ← s.layerInfo s.iFfnGate name
    .ok (newType, { s with iFfnGate := s.iFfnGate + 1 })
  else if contains name "ffn_up" then
    let _ ← s.layerInfo s.iFfnUp name
    .ok (newType, { s with iFfnUp := s.iFfnUp + 1 })
  else .ok (newType, s)

end TypeSelector

/-! ### Rows that blocks do not fit into -/

/-- `Fallback`. -/
inductive Fallback
  | use (t : GgufTensorType)
  | needsIq4Nl
  | unsupported
  deriving DecidableEq

/-- `fallback_for_incompatible_row`. -/
def fallbackForIncompatibleRow (newType : GgufTensorType) (ne0 : Int64) : Option Fallback :=
  if ne0 % .ofNat newType.blockSize = 0 then none
  else
    match newType with
    | .q2K | .q3K => some .needsIq4Nl
    | .q4K => some (narrower .q5_0)
    | .q5K => some (narrower .q5_1)
    | .q6K => some (narrower .q8_0)
    | _ => some .unsupported
where
  /-- The type with smaller blocks, or none with blocks. -/
  narrower (fallback : GgufTensorType) : Fallback :=
    if ne0 % .ofNat fallback.blockSize ≠ 0 then .use .f16 else .use fallback

end Cli

end Oxillama
