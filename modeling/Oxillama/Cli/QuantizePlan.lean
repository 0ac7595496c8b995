/-
The plan of a quantization (`oxillama-cli/src/quantize.rs`, `oxillama-quant/src/quantize.rs`).

`buildPlan` decides for every tensor whether it is copied or encoded, and as what, before
the header of the output is written.

* `quantizeF32Rows_ok` — whole blocks in every row are encoded, into the bytes of their type;
* `planTensor_spec` — what the plan knows of a tensor;
* `plan_converts` — **a tensor that is planned can be converted, and the writer takes it**;
* `copied_without_encoder` — a tensor that is copied may be of a type without an encoder.
-/
import Mathlib
import Oxillama.Cli.TypeSelect
import Oxillama.Gguf.DataWriter
import Oxillama.Gguf.QuantizedRows

namespace Oxillama

namespace Cli

open Gguf

/-! ### Blocks -/

/-- The sizes of the arrays that a block is written from, in their order. -/
def fieldSizes : GgufTensorType → List ℕ
  | .q4_0 => [2, 16]
  | .q5_0 => [2, 4, 16]
  | .q5_1 => [2, 2, 4, 16]
  | .q8_0 => [2, 32]
  | .q2K => [16, 64, 2, 2]
  | .q3K => [32, 64, 12, 2]
  | .q4K => [2, 2, 12, 128]
  | .q5K => [2, 2, 12, 32, 128]
  | .q6K => [128, 64, 16, 2]
  | _ => []

/-- The arrays of a block. -/
structure Block (t : GgufTensorType) where
  fields : List (List UInt8)
  sizes : fields.map List.length = fieldSizes t

/-- What is appended for a block. -/
def Block.bytes {t : GgufTensorType} (block : Block t) : List UInt8 := block.fields.flatten

theorem Block.length_bytes {t : GgufTensorType} (block : Block t) :
    block.bytes.length = (fieldSizes t).sum := by
  rw [Block.bytes, List.length_flatten, block.sizes]

/-- The block encoders.  Which scales and codes they choose for the values of a block is a
parameter: what is proved holds whatever they choose. -/
abbrev Encoders (F : Type) := (t : GgufTensorType) → List F → Block t

/-- `QuantError`, the part of it that the encoders raise. -/
inductive QuantError
  | dimensionMismatch (expected got : ℕ)
  | rowNotBlockAligned (quantType : String) (blockSize rowLen : ℕ)
  | unsupportedType (t : GgufTensorType)
  deriving DecidableEq

/-! ### Rows -/

/-- `can_encode`. -/
def canEncode : GgufTensorType → Bool
  | .f32 | .f16 | .q4_0 | .q5_0 | .q5_1 | .q8_0 | .q2K | .q3K | .q4K | .q5K | .q6K => true
  | _ => false

section Encode

variable {F : Type} [F32 F] (encoders : Encoders F)

omit [F32 F] in
/-- An encoder of whole blocks, and what it says of other lengths. -/
def encodeRow (t : GgufTensorType) (refuse : ℕ → QuantError) (values : List F) :
    Except QuantError (List UInt8) :=
  if ¬ t.blockSize ∣ values.length then .error (refuse values.length)
  else .ok (encodeBlocks (fun block => (encoders t block).bytes) t.blockSize values)

/-- `quantize_f32_to_q4_0`. -/
def quantizeF32ToQ4_0 (values : List F) : Except QuantError (List UInt8) :=
  encodeRow encoders .q4_0 (fun len => .dimensionMismatch ((len / 32 + 1) * 32) len) values

/-- `quantize_f32_to_q8_0`. -/
def quantizeF32ToQ8_0 (values : List F) : Except QuantError (List UInt8) :=
  encodeRow encoders .q8_0 (fun len => .dimensionMismatch ((len / 32 + 1) * 32) len) values

/-- `quantize_f32_to_q5_0`. -/
def quantizeF32ToQ5_0 (values : List F) : Except QuantError (List UInt8) :=
  encodeRow encoders .q5_0 (.rowNotBlockAligned "Q5_0" 32) values

/-- `quantize_f32_to_q5_1`. -/
def quantizeF32ToQ5_1 (values : List F) : Except QuantError (List UInt8) :=
  encodeRow encoders .q5_1 (.rowNotBlockAligned "Q5_1" 32) values

/-- `quantize_f32_to_q2_k`. -/
def quantizeF32ToQ2K (values : List F) : Except QuantError (List UInt8) :=
  encodeRow encoders .q2K (.rowNotBlockAligned "Q2_K" 256) values

/-- `quantize_f32_to_q3_k`. -/
def quantizeF32ToQ3K (values : List F) : Except QuantError (List UInt8) :=
  encodeRow encoders .q3K (.rowNotBlockAligned "Q3_K" 256) values

/-- `quantize_f32_to_q4_k`. -/
def quantizeF32ToQ4K (values : List F) : Except QuantError (List UInt8) :=
  encodeRow encoders .q4K (.rowNotBlockAligned "Q4_K" 256) values

/-- `quantize_f32_to_q5_k`. -/
def quantizeF32ToQ5K (values : List F) : Except QuantError (List UInt8) :=
  encodeRow encoders .q5K (.rowNotBlockAligned "Q5_K" 256) values

/-- `quantize_f32_to_q6_k`. -/
def quantizeF32ToQ6K (values : List F) : Except QuantError (List UInt8) :=
  encodeRow encoders .q6K (.rowNotBlockAligned "Q6_K" 256) values

/-- `quantize_f32_row`. -/
def quantizeF32Row (values : List F) (target : GgufTensorType) : Except QuantError (List UInt8) :=
  match target with
  | .f32 => .ok (values.flatMap fun v => toLe 4 (F32.toBits v).toNat)
  | .f16 => .ok (values.flatMap fun v => toLe 2 (F32.toF16 v).toNat)
  | .q4_0 => quantizeF32ToQ4_0 encoders values
  | .q5_0 => quantizeF32ToQ5_0 encoders values
  | .q5_1 => quantizeF32ToQ5_1 encoders values
  | .q8_0 => quantizeF32ToQ8_0 encoders values
  | .q2K => quantizeF32ToQ2K encoders values
  | .q3K => quantizeF32ToQ3K encoders values
  | .q4K => quantizeF32ToQ4K encoders values
  | .q5K => quantizeF32ToQ5K encoders values
  | .q6K => quantizeF32ToQ6K encoders values
  | other => .error (.unsupportedType other)

/-- `quantize_f32_rows`. -/
def quantizeF32Rows (values : List F) (nPerRow : ℕ) (target : GgufTensorType) :
    Except QuantError (List UInt8) :=
  if nPerRow = 0 then .error (.dimensionMismatch 1 0)
  else if ¬ nPerRow ∣ values.length then
    .error (.dimensionMismatch (divCeil values.length nPerRow * nPerRow) values.length)
  else do
    let rows ← (List.range (values.length / nPerRow)).mapM fun i =>
      quantizeF32Row encoders (row nPerRow values i) target
    .ok rows.flatten

variable {values : List F} {t : GgufTensorType} {n : ℕ}

omit [F32 F] in
theorem encodeRow_ok {refuse : ℕ → QuantError} (hdvd : t.blockSize ∣ values.length)
    (hsizes : (fieldSizes t).sum = t.blockBytes) :
    ∃ bytes, encodeRow encoders t refuse values = .ok bytes ∧
      bytes.length = values.length / t.blockSize * t.blockBytes := by
  have hblock : BlockEncoder (fun block => (encoders t block).bytes) t.blockSize t.blockBytes :=
    fun block _ => (encoders t block).length_bytes.trans hsizes
  refine ⟨_, if_neg (not_not.mpr hdvd), ?_⟩
  rw [length_encodeBlocks hblock]
  obtain ⟨q, hq⟩ := hdvd
  rw [hq, Nat.mul_div_cancel_left q (blockSize_pos t), Nat.mul_comm t.blockSize,
    divCeil_mul (blockSize_pos t)]

/-- **A row of whole blocks is encoded**, if there is an encoder for its type. -/
theorem quantizeF32Row_ok (hcan : canEncode t = true) (hdvd : t.blockSize ∣ values.length) :
    ∃ bytes, quantizeF32Row encoders values t = .ok bytes ∧
      bytes.length = values.length / t.blockSize * t.blockBytes := by
  have hfloats : ∀ (k : ℕ) (bits : F → ℕ),
      (values.flatMap fun v => toLe k (bits v)).length = values.length / 1 * k := by
    intro k bits
    simp only [List.length_flatMap, length_toLe, List.map_const', List.sum_replicate_nat,
      Nat.div_one]
  cases t
  case f32 => exact ⟨_, rfl, hfloats 4 _⟩
  case f16 => exact ⟨_, rfl, hfloats 2 _⟩
  case q4_0 | q5_0 | q5_1 | q8_0 | q2K | q3K | q4K | q5K | q6K =>
    exact encodeRow_ok encoders hdvd rfl
  -- the other types have no encoder
  all_goals exact absurd hcan Bool.false_ne_true

/-- Steps that all succeed, with as many bytes each. -/
theorem mapM_ok {α : Type} {f : α → Except QuantError (List UInt8)} {items : List α} {m : ℕ}
    (h : ∀ a ∈ items, ∃ bytes, f a = .ok bytes ∧ bytes.length = m) :
    ∃ rows, items.mapM f = .ok rows ∧ rows.flatten.length = items.length * m := by
  induction items with
  | nil => exact ⟨[], rfl, (Nat.zero_mul m).symm⟩
  | cons a items ih =>
    obtain ⟨bytes, hbytes, hlen⟩ := h a List.mem_cons_self
    obtain ⟨rows, hrows, hrest⟩ := ih fun b hb => h b (List.mem_cons_of_mem a hb)
    refine ⟨bytes :: rows, ?_, ?_⟩
    · rw [List.mapM_cons, hbytes, hrows]
      rfl
    · rw [List.flatten_cons, List.length_append, hlen, hrest, List.length_cons, Nat.succ_mul,
        Nat.add_comm]

/-- **Rows of whole blocks are encoded**, into as many bytes as their blocks have. -/
theorem quantizeF32Rows_ok (hcan : canEncode t = true) (hn : 0 < n) (hrows : n ∣ values.length)
    (hdvd : t.blockSize ∣ n) : ∃ bytes, quantizeF32Rows encoders values n t = .ok bytes ∧
      bytes.length = values.length / t.blockSize * t.blockBytes := by
  obtain ⟨q, hq⟩ := hrows
  have hcount : values.length / n = q := by rw [hq, Nat.mul_div_cancel_left q hn]
  have hrow : ∀ i ∈ List.range q, ∃ bytes,
      quantizeF32Row encoders (row n values i) t = .ok bytes ∧
        bytes.length = n / t.blockSize * t.blockBytes := by
    intro i hi
    have hlen : (row n values i).length = n := by
      refine length_row ?_
      rw [hq, Nat.mul_comm]
      exact Nat.mul_le_mul_left n (List.mem_range.mp hi)
    obtain ⟨bytes, hbytes, hlength⟩ := quantizeF32Row_ok encoders hcan
      (show t.blockSize ∣ (row n values i).length from hlen.symm ▸ hdvd)
    exact ⟨bytes, hbytes, by rw [hlength, hlen]⟩
  obtain ⟨rows, hmap, hlength⟩ := mapM_ok hrow
  refine ⟨rows.flatten, ?_, ?_⟩
  · rw [quantizeF32Rows, if_neg hn.ne', if_neg (not_not.mpr ⟨q, hq⟩), hcount, hmap]
    rfl
  · obtain ⟨c, rfl⟩ := hdvd
    rw [hlength, List.length_range, hq, Nat.mul_div_cancel_left c (blockSize_pos t), Nat.mul_assoc,
      Nat.mul_div_cancel_left _ (blockSize_pos t), ← Nat.mul_assoc, Nat.mul_comm q c]

end Encode

/-! ### The plan -/

/-- The arguments of the command, as far as the plan reads them. -/
structure QuantizeArgs where
  pure : Bool
  dryRun : Bool
  allowRequantize : Bool
  forceRequantize : Bool

/-- `Action`. -/
inductive Action
  | copy
  | encode (dstType : GgufTensorType)
  deriving DecidableEq

/-- `Planned`. -/
structure Planned where
  name : String
  dimensions : List UInt64
  srcType : GgufTensorType
  dstType : GgufTensorType
  action : Action
  srcBytes : ℕ
  dstBytes : ℕ
  deriving DecidableEq

/-- What the command stops with before anything is written. -/
inductive PlanError
  | layer (e : LayerParseError)
  | needsIq4Nl (name : String) (ne0 : Int64) (dstType : GgufTensorType)
  | unsupported (name : String) (ne0 : Int64) (dstType : GgufTensorType)
  | noEncoder (name : String) (dstType : GgufTensorType)
  | requantize (name : String) (srcType : GgufTensorType)
  | sourceSize (name : String) (e : GgufError)
  | zeroFirstDimension
  | ragged (nPerRow : UInt64) (t : GgufTensorType)

/-- `source_is_quantized`. -/
def sourceIsQuantized : GgufTensorType → Bool
  | .f32 | .f16 | .bf16 => false
  | _ => true

/-- `row_bytes`. -/
def rowBytes (dimensions : List UInt64) (t : GgufTensorType) : Except PlanError ℕ :=
  let nPerRow := dimensions.headD 0
  if nPerRow = 0 then .error .zeroFirstDimension
  else
    let nElements := dimensions.foldl (· * ·) 1
    let block : UInt64 := .ofNat t.blockSize
    if nPerRow % block ≠ 0 then .error (.ragged nPerRow t)
    else
      let rows := nElements / nPerRow
      .ok (rows * (nPerRow / block) * .ofNat t.blockBytes).toNat

section Plan

variable (args : QuantizeArgs) (ftype : Ftype)

/-- The type that a tensor is to have, if it is a candidate. -/
def chooseType (selector : TypeSelector) (tensor : TensorInfo) :
    Except PlanError (Option GgufTensorType × TypeSelector) :=
  if !shouldQuantize tensor.name tensor.dimensions.length then .ok (none, selector)
  else if args.pure then .ok (some ftype.defaultType, selector)
  else do
    let ne0 := (tensor.dimensions.headD 0).toInt64
    let (dstType, selector) ← (selector.select tensor.name ne0).mapError .layer
    match fallbackForIncompatibleRow dstType ne0 with
    | none => .ok (some dstType, selector)
    | some (.use fallback) => .ok (some fallback, selector)
    | some .needsIq4Nl => .error (.needsIq4Nl tensor.name ne0 dstType)
    | some .unsupported => .error (.unsupported tensor.name ne0 dstType)

/-- The loop body of `build_plan`. -/
def planTensor (selector : TypeSelector) (tensor : TensorInfo) :
    Except PlanError (Planned × TypeSelector) := do
  let (chosen, selector) ← chooseType args ftype selector tensor
  let srcType := tensor.tensorType
  let quantize := chosen.any fun dstType => srcType ≠ dstType || args.forceRequantize
  let dstType := if quantize then chosen.getD srcType else srcType
  if quantize && !canEncode dstType then .error (.noEncoder tensor.name dstType)
  else if quantize && !args.dryRun && sourceIsQuantized srcType &&
      !(args.allowRequantize || args.forceRequantize) then
    .error (.requantize tensor.name srcType)
  else
    let srcBytes ← tensor.tryDataSize.mapError (.sourceSize tensor.name)
    let dstBytes ← if quantize then rowBytes tensor.dimensions dstType else .ok srcBytes
    .ok ({
      name := tensor.name
      dimensions := tensor.dimensions
      srcType
      dstType
      action := if quantize then .encode dstType else .copy
      srcBytes
      dstBytes }, selector)

/-- The loop of `build_plan`. -/
def planTensors (selector : TypeSelector) : List TensorInfo → Except PlanError (List Planned)
  | [] => .ok []
  | tensor :: tensors => do
    let (planned, selector) ← planTensor args ftype selector tensor
    let plan ← planTensors selector tensors
    .ok (planned :: plan)

/-- The tensors in the order of their offsets. -/
def fileOrder (tensors : TensorStore) : List TensorInfo :=
  (tensors.infos.entries.map (·.2)).mergeSort fun a b =>
    a.offset < b.offset || (a.offset = b.offset && a.name ≤ b.name)

/-- `build_plan`. -/
def buildPlan (tensors : TensorStore) (info : ModelInfo) : Except PlanError (List Planned) :=
  planTensors args ftype (.new info ftype) (fileOrder tensors)

end Plan

/-! ### What is planned -/

namespace Planned

/-- `ne0`, the values of a row. -/
def nPerRow (p : Planned) : ℕ := (p.dimensions.headD 0).toNat

/-- `n_elements`. -/
def nElements (p : Planned) : ℕ := (p.dimensions.foldl (· * ·) 1).toNat

/-- A tensor and what is planned for it. -/
structure Of (p : Planned) (tensor : TensorInfo) : Prop where
  name : p.name = tensor.name
  dimensions : p.dimensions = tensor.dimensions
  srcType : p.srcType = tensor.tensorType
  srcBytes : tensor.tryDataSize = .ok p.srcBytes

/-- The tensor is copied, or there is an encoder for its type and its rows are whole blocks. -/
inductive Possible (p : Planned) : Prop
  | copy (haction : p.action = .copy) (htype : p.dstType = p.srcType)
  | encode (haction : p.action = .encode p.dstType) (hencoder : canEncode p.dstType = true)
      (hbytes : rowBytes p.dimensions p.dstType = .ok p.dstBytes)

/-- The writer takes the bytes as those of the tensor, when it comes next. -/
def Accepts (p : Planned) (bytes : List UInt8) : Prop :=
  computeTensorDataSize p.name p.dimensions p.dstType = .ok bytes.length ∧
    ∀ s : GgufTensorDataWriter (List UInt8),
      s.metas[s.nextIndex]? = some ⟨p.name, p.dimensions, p.dstType, bytes.length⟩ →
        s.cumulativeOffset + bytes.length < 2 ^ 64 →
          GgufTensorDataWriter.writeTensor p.name bytes s = (.ok (), s.delivered bytes)

end Planned

section Spec

variable {args : QuantizeArgs} {ftype : Ftype} {selector selector' : TypeSelector}
  {tensor : TensorInfo} {p : Planned} {plan : List Planned}

theorem mapError_eq_ok {ε ε' α : Type} {f : ε → ε'} {x : Except ε α} {a : α}
    (h : x.mapError f = .ok a) : x = .ok a := by
  cases x with
  | error e => cases h
  | ok b =>
    obtain rfl := Except.ok.inj h
    rfl

/-- **What is known of a tensor that is planned.** -/
theorem planTensor_spec (h : planTensor args ftype selector tensor = .ok (p, selector')) :
    p.Of tensor ∧ p.Possible := by
  rw [planTensor] at h
  obtain ⟨⟨chosen, next⟩, -, h⟩ := except_bind_eq_ok.mp h
  dsimp only at h
  generalize hquantize : (chosen.any fun dstType =>
    tensor.tensorType ≠ dstType || args.forceRequantize) = quantize at h
  cases quantize with
  | false =>
    -- no candidate, or of its type already
    simp only [Bool.false_and, Bool.false_eq_true, if_false] at h
    obtain ⟨srcBytes, hsrc, h⟩ := except_bind_eq_ok.mp h
    obtain ⟨dstBytes, -, h⟩ := except_bind_eq_ok.mp h
    obtain ⟨rfl, -⟩ := Prod.mk.inj (Except.ok.inj h)
    exact ⟨⟨rfl, rfl, rfl, mapError_eq_ok hsrc⟩, .copy rfl rfl⟩
  | true =>
    simp only [Bool.true_and, if_true] at h
    by_cases hcan : canEncode (chosen.getD tensor.tensorType) = true
    · rw [hcan, Bool.not_true, if_neg Bool.false_ne_true] at h
      split at h
      · cases h
      obtain ⟨srcBytes, hsrc, h⟩ := except_bind_eq_ok.mp h
      obtain ⟨dstBytes, hdst, h⟩ := except_bind_eq_ok.mp h
      obtain ⟨rfl, -⟩ := Prod.mk.inj (Except.ok.inj h)
      exact ⟨⟨rfl, rfl, rfl, mapError_eq_ok hsrc⟩, .encode rfl hcan hdst⟩
    · rw [Bool.not_eq_true] at hcan
      rw [hcan, Bool.not_false, if_pos rfl] at h
      cases h

theorem planTensors_spec {tensors : List TensorInfo}
    (h : planTensors args ftype selector tensors = .ok plan) :
    ∀ p ∈ plan, ∃ tensor ∈ tensors, p.Of tensor ∧ p.Possible := by
  induction tensors generalizing selector plan with
  | nil =>
    obtain rfl := Except.ok.inj h
    exact fun p hp => absurd hp List.not_mem_nil
  | cons tensor tensors ih =>
    rw [planTensors] at h
    obtain ⟨⟨first, next⟩, hfirst, h⟩ := except_bind_eq_ok.mp h
    obtain ⟨rest, hrest, h⟩ := except_bind_eq_ok.mp h
    obtain rfl := Except.ok.inj h
    intro p hp
    rcases List.mem_cons.mp hp with rfl | hp
    · exact ⟨tensor, List.mem_cons_self, planTensor_spec hfirst⟩
    · obtain ⟨t, ht, hspec⟩ := ih hrest p hp
      exact ⟨t, List.mem_cons_of_mem tensor ht, hspec⟩

/-! ### Sizes -/

theorem toNat_foldl_mul {e : GgufError} {dims : List UInt64} {acc : UInt64} {n : ℕ}
    (h : dims.foldlM (fun acc d => (okOr e (checkedMul acc d.toNat) : GgufResult ℕ)) acc.toNat =
      .ok n) : (dims.foldl (· * ·) acc).toNat = n := by
  induction dims generalizing acc with
  | nil => exact Except.ok.inj h
  | cons d dims ih =>
    rw [List.foldlM_cons] at h
    obtain ⟨m, hm, h⟩ := except_bind_eq_ok.mp h
    obtain ⟨hlt, rfl⟩ := checkedMul_eq_some.mp (okOr_eq_ok.mp hm)
    -- a product that does not overflow does not wrap either
    refine ih ?_
    rw [UInt64.toNat_mul, Nat.mod_eq_of_lt hlt]
    exact h

/-- The product of the dimensions does not wrap, if the source has a size. -/
theorem Planned.Of.tryNElements (h : p.Of tensor) (hdims : p.dimensions ≠ []) :
    tensor.tryNElements = .ok p.nElements := by
  obtain ⟨n, hn, -⟩ := tryDataSize_eq_ok.mp h.srcBytes
  rw [hn]
  rw [TensorInfo.tryNElements, if_neg (by simpa [← h.dimensions] using hdims)] at hn
  have hprod : (tensor.dimensions.foldl (· * ·) 1).toNat = n := toNat_foldl_mul hn
  rw [Planned.nElements, h.dimensions, hprod]

theorem toNat_ofNat_blockSize (t : GgufTensorType) :
    (UInt64.ofNat t.blockSize).toNat = t.blockSize := by
  cases t <;> rfl

theorem rowBytes_eq_ok {dims : List UInt64} {t : GgufTensorType} {bytes : ℕ}
    (h : rowBytes dims t = .ok bytes) :
    0 < (dims.headD 0).toNat ∧ t.blockSize ∣ (dims.headD 0).toNat := by
  rw [rowBytes] at h
  dsimp only at h
  split at h
  · cases h
  rename_i hpos
  split at h
  · cases h
  rename_i hdvd
  constructor
  · refine Nat.pos_of_ne_zero fun hzero => hpos ?_
    exact UInt64.toNat_inj.mp hzero
  · have hmod := congrArg UInt64.toNat (not_not.mp hdvd)
    rw [UInt64.toNat_mod, toNat_ofNat_blockSize] at hmod
    exact Nat.dvd_of_mod_eq_zero hmod

/-- No block is longer than its values are as `f32`. -/
theorem blockBytes_le {t : GgufTensorType} (hcan : canEncode t = true) :
    t.blockBytes ≤ 4 * t.blockSize := by
  cases t <;> first | decide | exact absurd hcan Bool.false_ne_true

/-- The type declared for the output has a size, if the values fit into memory. -/
theorem Planned.Of.dataSize (h : p.Of tensor) {t : GgufTensorType} (hcan : canEncode t = true)
    (hdims : p.dimensions ≠ []) (hdvd : t.blockSize ∣ p.nElements)
    (hroom : 4 * p.nElements < 2 ^ 63) :
    computeTensorDataSize p.name p.dimensions t =
      .ok (p.nElements / t.blockSize * t.blockBytes) := by
  have hn := h.tryNElements hdims
  obtain ⟨q, hq⟩ := hdvd
  refine tryDataSize_eq_ok.mpr ⟨p.nElements, ?_, ?_, ?_⟩
  · rw [← hn]
    rcases tensor with ⟨name, nDims, dimensions, tensorType, offset⟩
    show TensorInfo.tryNElements _ = _
    rw [TensorInfo.tryNElements, TensorInfo.tryNElements, h.name, h.dimensions]
  · show _ = divCeil p.nElements t.blockSize * t.blockBytes
    rw [hq, Nat.mul_div_cancel_left q (blockSize_pos t), Nat.mul_comm t.blockSize,
      divCeil_mul (blockSize_pos t)]
  · -- fewer bytes than the values have as `f32`
    rw [hq, Nat.mul_div_cancel_left q (blockSize_pos t)]
    have hle := Nat.mul_le_mul_left q (blockBytes_le hcan)
    have heq : q * (4 * t.blockSize) = 4 * p.nElements := by
      rw [hq]
      ring
    omega

/-- The rows of a tensor are as long as its first dimension. -/
theorem Planned.Of.nPerRow_dvd (h : p.Of tensor) (hdims : p.dimensions ≠ []) :
    p.nPerRow ∣ p.nElements := by
  have hcount := eq_of_tryNElements (h.tryNElements hdims)
  refine ⟨tensor.rows, ?_⟩
  rw [hcount, Planned.nPerRow, h.dimensions]
  rfl

/-- Bytes of the declared size are taken. -/
theorem Planned.accepts {bytes : List UInt8}
    (h : computeTensorDataSize p.name p.dimensions p.dstType = .ok bytes.length) :
    p.Accepts bytes := by
  refine ⟨h, fun s hnext hfit => ?_⟩
  have hvalid : s.validateNext p.name = .ok bytes.length :=
    GgufTensorDataWriter.validateNext_eq_ok_iff.mpr ⟨_, hnext, rfl, rfl⟩
  rcases GgufTensorDataWriter.writeTensor_of_ok hvalid hfit bytes with ⟨-, hwrite⟩ | ⟨_, hne, -⟩
  · exact hwrite
  · exact absurd rfl hne

/-! ### The conversion -/

/-- A `Vec<f32>`, which takes at most `isize::MAX` bytes. -/
def F32Vec (F : Type) := {values : List F // 4 * values.length < 2 ^ 63}

variable {F : Type} [F32 F]

/-- **A plan does not fail halfway.**  A tensor that is copied keeps its type, and the writer
takes its bytes.  For a tensor that is encoded the rows are whole blocks of a type that has an
encoder, its values are encoded, and the writer takes the bytes. -/
theorem plan_converts (encoders : Encoders F) {tensors : TensorStore} {info : ModelInfo}
    (h : buildPlan args ftype tensors info = .ok plan) :
    ∀ p ∈ plan, ∃ tensor ∈ fileOrder tensors, p.Of tensor ∧
      (p.action = .copy → p.dstType = p.srcType ∧
        ∀ raw : List UInt8, tensor.tryDataSize = .ok raw.length → p.Accepts raw) ∧
      ∀ dstType, p.action = .encode dstType → p.dstType = dstType ∧
        0 < p.nPerRow ∧ dstType.blockSize ∣ p.nPerRow ∧ canEncode dstType = true ∧
        ∀ values : F32Vec F, values.1.length = p.nElements →
          ∃ bytes, quantizeF32Rows encoders values.1 p.nPerRow dstType = .ok bytes ∧
            p.Accepts bytes := by
  intro p hp
  obtain ⟨tensor, hmem, hof, hpossible⟩ := planTensors_spec h p hp
  refine ⟨tensor, hmem, hof, fun haction => ?_, fun dstType haction => ?_⟩
  · cases hpossible with
    | encode hencode _ _ => cases haction.symm.trans hencode
    | copy _ htype =>
      refine ⟨htype, fun raw hraw => Planned.accepts ?_⟩
      rw [htype, hof.name, hof.dimensions, hof.srcType, ← hraw]
      rfl
  · cases hpossible with
    | copy hcopy _ => cases haction.symm.trans hcopy
    | encode hencode hcan hbytes =>
      obtain rfl := Action.encode.inj (hencode.symm.trans haction)
      -- the plan has counted the bytes of whole blocks
      obtain ⟨hpos, hdvd⟩ := rowBytes_eq_ok hbytes
      have hdims : p.dimensions ≠ [] := by
        intro hnil
        rw [hnil] at hpos
        exact absurd hpos (Nat.lt_irrefl 0)
      refine ⟨rfl, hpos, hdvd, hcan, fun values hvalues => ?_⟩
      have hrows : p.nPerRow ∣ values.1.length := hvalues ▸ hof.nPerRow_dvd hdims
      obtain ⟨bytes, hencoded, hlen⟩ := quantizeF32Rows_ok encoders hcan hpos hrows hdvd
      refine ⟨bytes, hencoded, Planned.accepts ?_⟩
      rw [hlen, hvalues]
      exact hof.dataSize hcan hdims (hdvd.trans (hof.nPerRow_dvd hdims)) (hvalues ▸ values.2)

end Spec

/-! ### Two models of one tensor -/

/-- Blocks of zeros, which are what the encoders make of zeros. -/
def zeroBlocks : Encoders ExactFloat := fun t _ =>
  ⟨(fieldSizes t).map (List.replicate · 0), by simp [Function.comp_def]⟩

/-- The only tensor of a model. -/
def onlyInfo (name : String) (dims : List UInt64) (t : GgufTensorType) : TensorInfo :=
  ⟨name, .ofNat dims.length, dims, t, 0⟩

/-- A model with one tensor. -/
def oneTensor (info : TensorInfo) : TensorStore := ⟨AList.singleton info.name info, 0⟩

/-- A model without layers. -/
def noLayers : ModelInfo := ⟨"llama", 0, 1, 1, 0, true, 0⟩

/-- A plan for the only tensor of a model. -/
theorem buildPlan_oneTensor {args : QuantizeArgs} {ftype : Ftype} {tensor : TensorInfo}
    {p : Planned}
    (h : ∃ selector, planTensor args ftype (.new noLayers ftype) tensor = .ok (p, selector)) :
    buildPlan args ftype (oneTensor tensor) noLayers = .ok [p] := by
  obtain ⟨selector, h⟩ := h
  have horder : fileOrder (oneTensor tensor) = [tensor] := List.mergeSort_singleton _
  rw [buildPlan, horder, planTensors, h]
  rfl

theorem plan_converts_oneRow : ∃ plan p, buildPlan ⟨true, false, false, false⟩ .q8_0
    (oneTensor (onlyInfo "w.weight" [32, 1] .f32)) noLayers = .ok plan ∧ p ∈ plan ∧
      p.action = .encode .q8_0 ∧ ∃ bytes,
        quantizeF32Rows zeroBlocks (List.replicate 32 (F32.lit 0)) p.nPerRow .q8_0 = .ok bytes ∧
          p.Accepts bytes := by
  have hcandidate : shouldQuantize "w.weight" 2 = true := by decide_cbv
  have hchoose : chooseType ⟨true, false, false, false⟩ .q8_0 (.new noLayers .q8_0)
      (onlyInfo "w.weight" [32, 1] .f32) = .ok (some .q8_0, .new noLayers .q8_0) := by
    refine (if_neg ?_).trans (if_pos rfl)
    show ¬ (!shouldQuantize "w.weight" 2) = true
    rw [hcandidate]
    decide
  have hsize : (onlyInfo "w.weight" [32, 1] .f32).tryDataSize = .ok 128 :=
    tryDataSize_eq_ok.mpr ⟨32, by rfl, by rfl, by norm_num⟩
  have hbuild : buildPlan ⟨true, false, false, false⟩ .q8_0
      (oneTensor (onlyInfo "w.weight" [32, 1] .f32)) noLayers =
        .ok [⟨"w.weight", [32, 1], .f32, .q8_0, .encode .q8_0, 128, 34⟩] := by
    refine buildPlan_oneTensor ⟨.new noLayers .q8_0, ?_⟩
    rw [planTensor, hchoose, hsize]
    rfl
  obtain ⟨_, -, -, -, hencode⟩ :=
    plan_converts zeroBlocks hbuild _ (List.mem_singleton.mpr rfl)
  obtain ⟨-, -, -, -, hvalues⟩ := hencode .q8_0 rfl
  refine ⟨_, _, hbuild, List.mem_singleton.mpr rfl, rfl, ?_⟩
  exact hvalues ⟨List.replicate 32 (F32.lit 0), by simp⟩ (List.length_replicate ..)

/-- **A tensor that is copied needs no encoder**, and there is none for the type of this one. -/
theorem copied_without_encoder : ∃ plan p, buildPlan ⟨false, false, false, false⟩ .q8_0
    (oneTensor (onlyInfo "a_norm.weight" [64] .bf16)) noLayers = .ok plan ∧ p ∈ plan ∧
      canEncode p.dstType = false ∧ ∀ values : List ExactFloat, values.length = p.nElements →
        quantizeF32Rows zeroBlocks values p.nPerRow p.dstType =
          .error (.unsupportedType .bf16) := by
  have hcandidate : shouldQuantize "a_norm.weight" 1 = false := by decide_cbv
  have hchoose : chooseType ⟨false, false, false, false⟩ .q8_0 (.new noLayers .q8_0)
      (onlyInfo "a_norm.weight" [64] .bf16) = .ok (none, .new noLayers .q8_0) := by
    refine if_pos ?_
    show (!shouldQuantize "a_norm.weight" 1) = true
    rw [hcandidate]
    rfl
  have hsize : (onlyInfo "a_norm.weight" [64] .bf16).tryDataSize = .ok 128 :=
    tryDataSize_eq_ok.mpr ⟨64, by rfl, by rfl, by norm_num⟩
  have hbuild : buildPlan ⟨false, false, false, false⟩ .q8_0
      (oneTensor (onlyInfo "a_norm.weight" [64] .bf16)) noLayers =
        .ok [⟨"a_norm.weight", [64], .bf16, .bf16, .copy, 128, 128⟩] := by
    refine buildPlan_oneTensor ⟨.new noLayers .q8_0, ?_⟩
    rw [planTensor, hchoose, hsize]
    rfl
  refine ⟨_, _, hbuild, List.mem_singleton.mpr rfl, rfl, fun values hvalues => ?_⟩
  have hlen : values.length = 64 := hvalues
  have hrow : Planned.nPerRow ⟨"a_norm.weight", [64], .bf16, .bf16, .copy, 128, 128⟩ = 64 := rfl
  rw [hrow, quantizeF32Rows, if_neg (by decide), if_neg (by rw [hlen]; decide), hlen]
  rfl

end Cli

end Oxillama
