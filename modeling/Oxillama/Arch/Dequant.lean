/-
Dequantizing a tensor, whole and in parts (`oxillama-arch/src/common/loader.rs`,
`common/embedding.rs`).

`dequant_to_f32_slice` decodes a payload block by block into a buffer.
`TokenEmbedding` decodes one row of it, `load_stacked_experts` cuts it into views.

* `dequantToF32Slice_eq` — a payload of whole blocks is decoded block by block;
* `row_decodeRows` — **a part of the values is decoded from a part of the bytes**;
* `Loaded.sound` — the bytes of a tensor are those its type asks for, converted or not;
* `rowInto_eq`, `loadStackedExperts_eq` — what a lookup writes, and what the views are;
* `parts_of_bulk` — **both are slices of the bulk result**.
-/
import Mathlib
import Oxillama.Gguf.QuantizedRows
import Oxillama.Lib.Usize

namespace Oxillama

namespace Arch

open Gguf
open F32 (lit)

/-! ### The code -/

/-- `ArchError`, the part of it that loading raises. -/
inductive LoadError
  | invalidShape (name : String) (expected got : List ℕ)
  | invalidConfig (detail : String)
  | notSupported (detail : String)
  | configMismatch (param expected got : String)
  | missingTensor (name : String)
  | gguf (e : GgufError)
  | quant (detail : String)

/-- `QuantTensor`. -/
structure QuantTensor where
  data : List UInt8
  shape : List ℕ
  tensorType : GgufTensorType

/-- `QuantKernel`, its `dequant_block`: of the bytes of a block, the values it writes. -/
structure BlockKernel (F : Type) (blockSize : ℕ) where
  dequantBlock : List UInt8 → List F
  length_dequantBlock : ∀ src, (dequantBlock src).length = blockSize

/-- `KernelDispatcher`, its `get_kernel`. -/
structure KernelDispatcher (F : Type) where
  getKernel : (tensorType : GgufTensorType) → Except LoadError (BlockKernel F tensorType.blockSize)

/-- `chunks_exact(k)`. -/
def chunksExact {α : Type} (k : ℕ) (v : List α) : List (List α) :=
  (List.range (v.length / k)).map (row k v)

/-- `x * y` on `usize`, without overflow checks. -/
def wrappingMul (x y : ℕ) : ℕ := x * y % 2 ^ 64

/-- `SharedBytes::slice`. -/
def sharedSlice (data : List UInt8) (start len : ℕ) : Option (List UInt8) :=
  (checkedAdd start len).bind (sliceRange data start)

section Code

variable {F : Type} [F32 F]

/-- The value of the four bytes of an `f32`. -/
def f32Value (chunk : List UInt8) : F := F32.ofBits (.ofNat (fromLe chunk))

/-- The value of the two bytes of an `f16`. -/
def f16Value (chunk : List UInt8) : F := F32.ofF16 (.ofNat (fromLe chunk))

/-- The branches of `dequant_to_f32_slice` for types of one value in `k` bytes. -/
def dequantFloats (name : String) (k : ℕ) (value : List UInt8 → F) (data : List UInt8)
    (nElements : ℕ) : Except LoadError (List F) :=
  let short (need : ℕ) : LoadError := .invalidShape name [need] [data.length]
  match checkedMul nElements k with
  | none => .error (short (2 ^ 64 - 1))
  | some need =>
    if data.length < need then .error (short need)
    else
      let out : List F := List.replicate nElements (lit 0)
      .ok (overwrite out 0 (((chunksExact k data).take out.length).map value))

/-- `dequant_to_f32_slice`. -/
def dequantToF32Slice (dispatcher : KernelDispatcher F) (name : String)
    (tensorType : GgufTensorType) (data : List UInt8) (nElements : ℕ) :
    Except LoadError (List F) :=
  let short (need : ℕ) : LoadError := .invalidShape name [need] [data.length]
  match tensorType with
  | .f32 => dequantFloats name 4 f32Value data nElements
  | .f16 => dequantFloats name 2 f16Value data nElements
  | tensorType => do
    let kernel ← dispatcher.getKernel tensorType
    let blockSize := tensorType.blockSize
    let blockBytes := tensorType.blockBytes
    if blockSize = 0 ∨ blockBytes = 0 then
      .error (.invalidConfig ("tensor '" ++ name ++ "': quantization type " ++ tensorType.debug ++
        " has a zero block"))
    else
      let nBlocks := divCeil nElements blockSize
      match checkedMul nBlocks blockBytes with
      | none => .error (short (2 ^ 64 - 1))
      | some need =>
        if data.length < need then .error (short need)
        else
          (List.range nBlocks).foldlM (fun out blk =>
            let dataOffset := blk * blockBytes
            let outOffset := blk * blockSize
            match sliceRange data dataOffset (dataOffset + blockBytes) with
            | none => .error (short (dataOffset + blockBytes))
            | some blockData =>
              let outEnd := min (saturatingAdd outOffset blockSize) nElements
              match sliceRange out outOffset outEnd with
              | none => .error (.invalidShape name [nElements] [outOffset])
              | some outSlice =>
                let block := kernel.dequantBlock blockData
                if outSlice.length = blockSize then .ok (overwrite out outOffset block)
                -- the ragged tail, through a block of its own
                else .ok (overwrite out outOffset (block.take outSlice.length)))
            (List.replicate nElements (lit 0))

/-- `TokenEmbedding`. -/
inductive TokenEmbedding (F : Type)
  | dense (weights : List F) (hidden : ℕ)
  | quantized (tensor : QuantTensor) (hidden rowBytes : ℕ)

/-- `TokenEmbedding::quantized`. -/
def TokenEmbedding.ofQuantized (F : Type) (tensor : QuantTensor) : Option (TokenEmbedding F) :=
  match tensor.shape with
  | [vocab, hidden] =>
    if hidden = 0 ∨ vocab = 0 then none
    else
      let blockSize := tensor.tensorType.blockSize
      let blockBytes := tensor.tensorType.blockBytes
      if blockSize = 0 ∨ blockBytes = 0 ∨ hidden % blockSize ≠ 0 then none
      else do
        let rowBytes ← checkedMul (hidden / blockSize) blockBytes
        let need ← checkedMul vocab rowBytes
        if tensor.data.length < need then none else some (.quantized tensor hidden rowBytes)
  | _ => none

/-- `TokenEmbedding::hidden_size`. -/
def TokenEmbedding.hiddenSize : TokenEmbedding F → ℕ
  | .dense _ hidden => hidden
  | .quantized _ hidden _ => hidden

/-- `TokenEmbedding::vocab_size`. -/
def TokenEmbedding.vocabSize : TokenEmbedding F → ℕ
  | .dense weights hidden => if hidden = 0 then 0 else weights.length / hidden
  | .quantized tensor _ _ => tensor.shape.head?.getD 0

/-- `dequant_row`, into a row that is as wide as the bytes say. -/
def dequantRow (dispatcher : KernelDispatcher F) (tensorType : GgufTensorType)
    (bytes : List UInt8) (out : List F) : Except LoadError (List F) :=
  match tensorType with
  | .f32 => .ok (overwrite out 0 (((chunksExact 4 bytes).take out.length).map f32Value))
  | .f16 => .ok (overwrite out 0 (((chunksExact 2 bytes).take out.length).map f16Value))
  | other => do
    let kernel ← dispatcher.getKernel other
    let blockSize := other.blockSize
    let blockBytes := other.blockBytes
    if blockSize = 0 ∨ blockBytes = 0 then
      .error (.notSupported ("token_embd tensor type " ++ other.debug ++ " has no block geometry"))
    else
      .ok (overwrite out 0 (((chunksExact blockBytes bytes).take (out.length / blockSize)).flatMap
        kernel.dequantBlock))

/-- `TokenEmbedding::row_into`: what it leaves of `out`. -/
def TokenEmbedding.rowInto (embedding : TokenEmbedding F) (dispatcher : KernelDispatcher F)
    (token : UInt32) (out : List F) : Except LoadError (List F) :=
  let hidden := embedding.hiddenSize
  if hidden = 0 ∨ out.length < hidden then
    .error (.invalidShape "token_embd row" [hidden] [out.length])
  else
    let r := token.toNat
    if r ≥ embedding.vocabSize then
      .error (.configMismatch "token id" ("< " ++ toString embedding.vocabSize) (toString r))
    else
      let dst := out.take hidden
      match embedding with
      | .dense weights _ =>
        let start := r * hidden
        match sliceRange weights start (start + hidden) with
        | none => .error (.invalidShape "token_embd table" [start + hidden] [weights.length])
        | some src => .ok (overwrite out 0 src)
      | .quantized tensor _ rowBytes =>
        let start := r * rowBytes
        match sliceRange tensor.data start (start + rowBytes) with
        | none => .error (.invalidShape "token_embd payload" [start + rowBytes]
            [tensor.data.length])
        | some bytes =>
          (dequantRow dispatcher tensor.tensorType bytes dst).map (overwrite out 0)

/-- `GgufModel::tensor_bytes`. -/
def tensorBytesOf (model : GgufModel) (name : String) : GgufResult (List UInt8) :=
  match model.quantOverrides.lookup name with
  | some ovr => .ok ovr.data
  | none => do
    let (offset, len) ← model.file.tensorDataRange model.data.length name
    okOr (.unexpectedEof offset) (sharedSlice model.data offset len)

/-- `load_stacked_experts`, one round of its last loop. -/
def expertView (data : List UInt8) (name : String) (shape : List ℕ) (tensorType : GgufTensorType)
    (expertBytes e : ℕ) : Except LoadError QuantTensor :=
  match sharedSlice data (e * expertBytes) expertBytes with
  | none => .error (.invalidShape (name ++ ".expert[" ++ toString e ++ "]") [expertBytes]
      [data.length])
  | some view => .ok ⟨view, shape, tensorType⟩

/-- `load_stacked_experts`. -/
def loadStackedExperts (model : GgufModel) (name : String) (expectedExperts : ℕ) :
    Except LoadError (List QuantTensor) :=
  match model.file.tensors.get name with
  | .error _ => .error (.missingTensor name)
  | .ok info =>
    match info.dimensions with
    | [dim0, dim1, dim2] =>
      let inFeatures := dim0.toNat
      let outFeatures := dim1.toNat
      let nExpert := dim2.toNat
      if nExpert ≠ expectedExperts then
        .error (.invalidShape (name ++ ".n_expert") [expectedExperts] [nExpert])
      else
        let blockSize := info.tensorType.blockSize
        let blockBytes := info.tensorType.blockBytes
        if blockSize = 0 ∨ blockBytes = 0 then
          .error (.invalidConfig ("tensor '" ++ name ++ "': quantization type " ++
            info.tensorType.debug ++ " has a zero block"))
        else if ¬ blockSize ∣ inFeatures then
          .error (.invalidShape (name ++ ".in_features") [blockSize] [inFeatures])
        else
          let rowBytes := wrappingMul (inFeatures / blockSize) blockBytes
          let expertBytes := wrappingMul outFeatures rowBytes
          match tensorBytesOf model name with
          | .error e => .error (.gguf e)
          | .ok data =>
            match checkedMul expertBytes nExpert with
            | none => .error (.invalidShape name [2 ^ 64 - 1] [data.length])
            | some need =>
              if data.length < need then .error (.invalidShape name [need] [data.length])
              else
                (List.range nExpert).mapM
                  (expertView data name [outFeatures, inFeatures] info.tensorType expertBytes)
    | dims => .error (.invalidShape name [3] [dims.length])

end Code

/-! ### Block by block -/

section Decode

variable {F : Type} [F32 F] {dispatcher : KernelDispatcher F} {tensorType : GgufTensorType}
  {name : String} {data bytes : List UInt8} {out : List F} {dec : List UInt8 → List F}

/-- How the blocks of a type are decoded. -/
def blockDecoder (dispatcher : KernelDispatcher F) (tensorType : GgufTensorType) :
    Except LoadError (List UInt8 → List F) :=
  match tensorType with
  | .f32 => .ok fun chunk => [f32Value chunk]
  | .f16 => .ok fun chunk => [f16Value chunk]
  | other => (dispatcher.getKernel other).map (·.dequantBlock)

/-- A type whose blocks a kernel decodes. -/
def HasKernel (tensorType : GgufTensorType) : Prop := tensorType ≠ .f32 ∧ tensorType ≠ .f16

theorem blockDecoder_of_hasKernel (h : HasKernel tensorType) :
    blockDecoder dispatcher tensorType =
      (dispatcher.getKernel tensorType).map (·.dequantBlock) := by
  cases tensorType <;> first | rfl | exact absurd rfl h.1 | exact absurd rfl h.2

theorem blockBytes_pos (t : GgufTensorType) : 0 < t.blockBytes := by
  cases t <;> decide

/-- A type is decoded inline, or by a kernel. -/
theorem type_cases (tensorType : GgufTensorType) :
    tensorType = .f32 ∨ tensorType = .f16 ∨ HasKernel tensorType := by
  by_cases h32 : tensorType = .f32
  · exact .inl h32
  · by_cases h16 : tensorType = .f16
    · exact .inr (.inl h16)
    · exact .inr (.inr ⟨h32, h16⟩)

omit [F32 F] in
/-- The values of the first `q` blocks. -/
def decodeRows (dec : List UInt8 → List F) (blockBytes q : ℕ) (data : List UInt8) : List F :=
  (List.range q).flatMap fun b => dec (row blockBytes data b)

theorem length_blockDecoder (h : blockDecoder dispatcher tensorType = .ok dec)
    (src : List UInt8) : (dec src).length = tensorType.blockSize := by
  rcases type_cases tensorType with rfl | rfl | hkernel
  · rw [← Except.ok.inj h]
    rfl
  · rw [← Except.ok.inj h]
    rfl
  · rw [blockDecoder_of_hasKernel hkernel] at h
    cases hget : dispatcher.getKernel tensorType with
    | error e =>
      rw [hget] at h
      cases h
    | ok kernel =>
      rw [hget] at h
      rw [← Except.ok.inj h]
      exact kernel.length_dequantBlock src

omit [F32 F] in
theorem length_decodeRows {blockSize : ℕ} (hdec : ∀ src, (dec src).length = blockSize)
    (blockBytes q : ℕ) (data : List UInt8) :
    (decodeRows dec blockBytes q data).length = q * blockSize :=
  length_flatMap_rows fun _ _ => hdec _

theorem flatMap_range_mul {α : Type} (k m : ℕ) (f : ℕ → List α) :
    (List.range (k * m)).flatMap f =
      (List.range k).flatMap fun t => (List.range m).flatMap fun b => f (t * m + b) := by
  induction k with
  | zero => rw [Nat.zero_mul]; rfl
  | succ k ih =>
    rw [Nat.succ_mul, List.range_add, List.flatMap_append, ih, List.range_succ, List.flatMap_append,
      List.flatMap_singleton, List.flatMap_map]

omit [F32 F] in
/-- **The values of a part are those of its bytes.** -/
theorem row_decodeRows {blockSize k m t : ℕ} (hdec : ∀ src, (dec src).length = blockSize)
    (blockBytes : ℕ) (data : List UInt8) (ht : t < k) :
    row (m * blockSize) (decodeRows dec blockBytes (k * m) data) t =
      decodeRows dec blockBytes m (row (m * blockBytes) data t) := by
  have hpart : ∀ t, ((List.range m).flatMap fun b =>
      dec (row blockBytes data (t * m + b))).length = m * blockSize := fun t =>
    length_flatMap_rows fun _ _ => hdec _
  rw [decodeRows, flatMap_range_mul, row_flatMap_range (fun t _ => hpart t) ht, decodeRows]
  exact List.flatMap_congr fun b hb => by rw [row_row (List.mem_range.mp hb)]

omit [F32 F] in
theorem take_chunksExact {k q : ℕ} (hk : 0 < k) (h : q * k ≤ data.length) :
    (chunksExact k data).take q = (List.range q).map (row k data) := by
  have hq : q ≤ data.length / k := (Nat.le_div_iff_mul_le hk).mpr h
  rw [chunksExact, ← List.map_take, List.take_range, Nat.min_eq_left hq]

theorem dequantFloats_eq {k q : ℕ} {value : List UInt8 → F} (hk : 0 < k)
    (hdata : q * k ≤ data.length) (hsize : q * k < 2 ^ 64) :
    dequantFloats name k value data q = .ok (decodeRows (fun chunk => [value chunk]) k q data) := by
  rw [dequantFloats, checkedMul_eq_some.mpr ⟨hsize, rfl⟩]
  dsimp only
  rw [if_neg (not_lt.mpr hdata), List.length_replicate, take_chunksExact hk hdata, List.map_map,
    overwrite_all (by rw [List.length_map, List.length_range, List.length_replicate]), decodeRows,
    ← List.map_eq_flatMap]
  rfl

omit [F32 F] in
theorem sliceRange_row {k q i : ℕ} {v : List F} (hv : q * k ≤ v.length) (hi : i < q) :
    sliceRange v (i * k) (i * k + k) = some (row k v i) := by
  have hle : (i + 1) * k ≤ q * k := Nat.mul_le_mul_right k hi
  rw [Nat.succ_mul] at hle
  rw [sliceRange, if_pos ⟨Nat.le_add_right _ _, hle.trans hv⟩, Nat.add_sub_cancel_left, row]

/-- **A payload of whole blocks is decoded block by block.** -/
theorem dequantToF32Slice_eq {q : ℕ} (hdata : q * tensorType.blockBytes ≤ data.length)
    (hbytes : q * tensorType.blockBytes < 2 ^ 64) (hcount : q * tensorType.blockSize < 2 ^ 64) :
    dequantToF32Slice dispatcher name tensorType data (q * tensorType.blockSize) =
      (blockDecoder dispatcher tensorType).map
        fun dec => decodeRows dec tensorType.blockBytes q data := by
  rcases type_cases tensorType with rfl | rfl | hkernel
  · show dequantFloats name 4 f32Value data (q * 1) = _
    rw [Nat.mul_one]
    exact dequantFloats_eq (by decide) hdata hbytes
  · show dequantFloats name 2 f16Value data (q * 1) = _
    rw [Nat.mul_one]
    exact dequantFloats_eq (by decide) hdata hbytes
  · have hsize := blockSize_pos tensorType
    have hblock := blockBytes_pos tensorType
    rw [blockDecoder_of_hasKernel hkernel, dequantToF32Slice]
    · cases dispatcher.getKernel tensorType with
      | error e => rfl
      | ok kernel =>
        show (if _ then _ else _) = Except.ok _
        rw [if_neg (by omega), divCeil_mul hsize, checkedMul_eq_some.mpr ⟨hbytes, rfl⟩]
        dsimp only
        rw [if_neg (not_lt.mpr hdata), foldlM_overwrite (fun _ => kernel.length_dequantBlock _)
          (by rw [List.length_replicate]) fun out i hout hi => ?_]
        · rw [overwrite_all]
          · rfl
          · rw [List.length_replicate]
            exact length_decodeRows kernel.length_dequantBlock tensorType.blockBytes q data
        · rw [List.length_replicate] at hout
          have hle : (i + 1) * tensorType.blockSize ≤ q * tensorType.blockSize :=
            Nat.mul_le_mul_right _ hi
          rw [Nat.succ_mul] at hle
          rw [sliceRange_row hdata hi]
          dsimp only
          rw [saturatingAdd_of_lt (by omega), Nat.min_eq_left hle, sliceRange_row hout.ge hi]
          dsimp only
          rw [if_pos (length_row (by rw [hout, Nat.succ_mul]; exact hle))]
          rfl
    · exact hkernel.1
    · exact hkernel.2

/-- A row is decoded block by block. -/
theorem dequantRow_eq {m : ℕ} (hbytes : bytes.length = m * tensorType.blockBytes)
    (hout : out.length = m * tensorType.blockSize) :
    dequantRow dispatcher tensorType bytes out = (blockDecoder dispatcher tensorType).map
      fun dec => decodeRows dec tensorType.blockBytes m bytes := by
  rcases type_cases tensorType with rfl | rfl | hkernel
  · have hm : out.length = m := hout.trans (Nat.mul_one m)
    have htake := take_chunksExact (k := 4) (by decide) hbytes.ge
    rw [dequantRow, hm, htake, List.map_map, overwrite_all (by
      rw [List.length_map, List.length_range, hm])]
    exact congrArg Except.ok List.map_eq_flatMap
  · have hm : out.length = m := hout.trans (Nat.mul_one m)
    have htake := take_chunksExact (k := 2) (by decide) hbytes.ge
    rw [dequantRow, hm, htake, List.map_map, overwrite_all (by
      rw [List.length_map, List.length_range, hm])]
    exact congrArg Except.ok List.map_eq_flatMap
  · have hsize := blockSize_pos tensorType
    have hblock := blockBytes_pos tensorType
    rw [blockDecoder_of_hasKernel hkernel, dequantRow]
    · cases dispatcher.getKernel tensorType with
      | error e => rfl
      | ok kernel =>
        show (if _ then _ else _) = Except.ok _
        rw [if_neg (by omega), hout, Nat.mul_div_cancel _ hsize,
          take_chunksExact hblock hbytes.ge, List.flatMap_map, overwrite_all]
        · rfl
        · rw [hout]
          exact length_decodeRows kernel.length_dequantBlock tensorType.blockBytes m bytes
    · exact hkernel.1
    · exact hkernel.2

end Decode

/-! ### A row -/

section Row

variable {F : Type} [F32 F] {dispatcher : KernelDispatcher F} {tensor : QuantTensor}
  {embedding : TokenEmbedding F} {vocab hidden : ℕ}

omit [F32 F] in
/-- **Which tensors become a table**: those with rows of whole blocks, all of them there. -/
theorem ofQuantized_eq_some (h : TokenEmbedding.ofQuantized F tensor = some embedding)
    (hshape : tensor.shape = [vocab, hidden]) :
    ∃ m, hidden = m * tensor.tensorType.blockSize ∧ 0 < hidden ∧
      vocab * (m * tensor.tensorType.blockBytes) < 2 ^ 64 ∧
      vocab * (m * tensor.tensorType.blockBytes) ≤ tensor.data.length ∧
      embedding = .quantized tensor hidden (m * tensor.tensorType.blockBytes) := by
  rw [TokenEmbedding.ofQuantized, hshape] at h
  dsimp only at h
  split at h
  · cases h
  · rename_i hpos
    split at h
    · cases h
    · rename_i hgeometry
      obtain ⟨rowBytes, hrow, hrest⟩ := Option.bind_eq_some_iff.mp h
      obtain ⟨need, hneed, hrest⟩ := Option.bind_eq_some_iff.mp hrest
      obtain ⟨-, rfl⟩ := checkedMul_eq_some.mp hrow
      obtain ⟨hlt, rfl⟩ := checkedMul_eq_some.mp hneed
      rw [Option.ite_none_left_eq_some, Option.some_inj] at hrest
      have hdvd : tensor.tensorType.blockSize ∣ hidden := Nat.dvd_of_mod_eq_zero (by omega)
      exact ⟨hidden / tensor.tensorType.blockSize, (Nat.div_mul_cancel hdvd).symm, by omega, hlt,
        not_lt.mp hrest.1, hrest.2.symm⟩

/-- **A lookup writes the row of the bulk result**, and nothing else of the buffer. -/
theorem rowInto_eq (name : String) (h : TokenEmbedding.ofQuantized F tensor = some embedding)
    (hshape : tensor.shape = [vocab, hidden]) {token : UInt32} (htoken : token.toNat < vocab)
    {out : List F} (hout : hidden ≤ out.length) (hcount : vocab * hidden < 2 ^ 64) :
    embedding.rowInto dispatcher token out =
      (dequantToF32Slice dispatcher name tensor.tensorType tensor.data (vocab * hidden)).map
        fun bulk => overwrite out 0 (row hidden bulk token.toNat) := by
  obtain ⟨m, hm, hpos, hbytes, hdata, rfl⟩ := ofQuantized_eq_some h hshape
  have hvocab : (TokenEmbedding.quantized (F := F) tensor hidden
      (m * tensor.tensorType.blockBytes)).vocabSize = vocab := by
    rw [TokenEmbedding.vocabSize, hshape]
    rfl
  have hrowLen : (row (m * tensor.tensorType.blockBytes) tensor.data token.toNat).length =
      m * tensor.tensorType.blockBytes :=
    length_row ((Nat.mul_le_mul_right _ htoken).trans hdata)
  have hdst : (out.take hidden).length = m * tensor.tensorType.blockSize := by
    rw [List.length_take, Nat.min_eq_left hout, hm]
  have hhidden : (TokenEmbedding.quantized (F := F) tensor hidden
      (m * tensor.tensorType.blockBytes)).hiddenSize = hidden := rfl
  rw [TokenEmbedding.rowInto, hvocab, hhidden,
    if_neg (show ¬ (hidden = 0 ∨ out.length < hidden) by omega), if_neg (not_le.mpr htoken)]
  dsimp only
  rw [sliceRange_row hdata htoken]
  dsimp only
  rw [← Nat.mul_assoc] at hbytes hdata
  rw [hm, ← Nat.mul_assoc] at hcount
  rw [hm] at hdst ⊢
  rw [dequantRow_eq hrowLen hdst, ← Nat.mul_assoc, dequantToF32Slice_eq hdata hbytes hcount]
  cases hdec : blockDecoder dispatcher tensor.tensorType with
  | error e => rfl
  | ok dec =>
    exact congrArg (fun w => Except.ok (overwrite out 0 w))
      (row_decodeRows (length_blockDecoder hdec) _ _ htoken).symm

end Row

/-! ### Models -/

section Models

variable {F : Type} [F32 F] {model model' : GgufModel} {name : String} {info : TensorInfo}
  {data : List UInt8}

variable (F) in
/-- A model that was parsed, and that plans may have been applied to. -/
inductive Loaded : GgufModel → Prop
  | fromBytes {data : List UInt8} {model : GgufModel} (h : GgufModel.fromBytes data = .ok model) :
      Loaded model
  | applyQuantPlan {model : GgufModel} (h : Loaded model) (plan : QuantPlan) :
      Loaded (applyQuantPlan F model plan).2

/-- Replaced tensors have the bytes their types ask for. -/
def Sound (model : GgufModel) : Prop :=
  ∀ name ovr, model.quantOverrides.lookup name = some ovr → ∃ info,
    model.file.tensors.infos.lookup name = some info ∧ info.tryDataSize = .ok ovr.data.length

theorem sound_convertTensor {target : QuantTarget} (hsound : Sound model)
    (hinfo : model.file.tensors.infos.lookup name = some info)
    (h : convertTensor F model name info.tensorType target = .ok model') : Sound model' := by
  intro other ovr hovr
  by_cases hne : other = name
  · subst hne
    obtain ⟨hfloat, blob, hblob, weights, hweights, hoverride, hafter⟩ :=
      converted_of_convertTensor h
    obtain rfl := Option.some.inj (hoverride.symm.trans hovr)
    obtain ⟨info', -, -, hget, hsize, -, -⟩ := tensorData_eq_ok hblob
    obtain rfl : info = info' := Option.some.inj (hinfo.symm.trans (okOr_eq_ok.mp hget))
    rw [hinfo] at hafter
    exact ⟨_, hafter, tryDataSize_encode target hfloat hsize hweights⟩
  · have hsame := sameTensor_of_convertTensor h hne
    rw [hsame.override] at hovr
    rw [hsame.info]
    exact hsound other ovr hovr

theorem sound_convertAll {order : List (String × GgufTensorType × QuantTarget)}
    (hsound : Sound model) (hnodup : (order.map Prod.fst).Nodup)
    (h : ∀ entry ∈ order, ∃ info, model.file.tensors.infos.lookup entry.1 = some info ∧
      info.tensorType = entry.2.1) : Sound (convertAll F order model).2 := by
  induction order generalizing model with
  | nil => exact hsound
  | cons entry order ih =>
    obtain ⟨first, firstType, target⟩ := entry
    obtain ⟨hfirst, hrest⟩ := List.nodup_cons.mp hnodup
    obtain ⟨info, hinfo, rfl : info.tensorType = firstType⟩ := h _ List.mem_cons_self
    rw [convertAll]
    cases hconvert : convertTensor F model first info.tensorType target with
    | error e => exact hsound
    | ok next =>
      refine ih (sound_convertTensor hsound hinfo hconvert) hrest fun entry hentry => ?_
      have hne : entry.1 ≠ first := fun heq => hfirst (List.mem_map.mpr ⟨entry, hentry, heq⟩)
      rw [(sameTensor_of_convertTensor hconvert hne).info]
      exact h entry (List.mem_cons_of_mem _ hentry)

/-- **Models that are loaded are sound.** -/
theorem Loaded.sound (h : Loaded F model) : Sound model := by
  induction h with
  | fromBytes h =>
    obtain ⟨file, -, rfl⟩ := fromBytes_eq_ok.mp h
    intro name ovr hovr
    cases hovr
  | applyQuantPlan h plan ih =>
    refine sound_convertAll ih (nodup_toQuantize _ plan) fun entry hentry => ?_
    exact (mem_toQuantize.mp hentry).2

theorem tensorBytesOf_eq (h : tensorBytesOf model name = .ok data) (hsound : Sound model)
    (hinfo : model.file.tensors.infos.lookup name = some info) :
    info.tryDataSize = .ok data.length := by
  rw [tensorBytesOf] at h
  cases hlookup : model.quantOverrides.lookup name with
  | some ovr =>
    rw [hlookup] at h
    obtain rfl := Except.ok.inj h
    obtain ⟨info', hinfo', hsize⟩ := hsound name ovr hlookup
    obtain rfl := Option.some.inj (hinfo.symm.trans hinfo')
    exact hsize
  | none =>
    rw [hlookup] at h
    obtain ⟨⟨start, len⟩, hrange, hslice⟩ := except_bind_eq_ok.mp h
    obtain ⟨info', hget, hsize, -, -, hfits⟩ := tensorDataRange_eq_ok.mp hrange
    obtain rfl : info = info' := Option.some.inj (hinfo.symm.trans (okOr_eq_ok.mp hget))
    obtain ⟨stop, hstop, hslice⟩ := Option.bind_eq_some_iff.mp (okOr_eq_ok.mp hslice)
    rw [checkedAdd, Option.ite_none_right_eq_some, Option.some_inj] at hstop
    rw [sliceRange, Option.ite_none_right_eq_some, Option.some_inj] at hslice
    obtain ⟨-, rfl⟩ := hstop
    obtain ⟨hbounds, rfl⟩ := hslice
    rw [hsize, List.length_take, List.length_drop]
    congr 1
    omega

theorem lt_of_foldlM_checkedMul {e : GgufError} {dims : List UInt64} {acc n : ℕ}
    (h : dims.foldlM (fun acc d => (okOr e (checkedMul acc d.toNat) : GgufResult ℕ)) acc = .ok n)
    (hacc : acc < 2 ^ 64) : n < 2 ^ 64 := by
  induction dims generalizing acc with
  | nil => exact Except.ok.inj h ▸ hacc
  | cons d dims ih =>
    rw [List.foldlM_cons] at h
    obtain ⟨acc', hmul, hrest⟩ := except_bind_eq_ok.mp h
    obtain ⟨hlt, rfl⟩ := checkedMul_eq_some.mp (okOr_eq_ok.mp hmul)
    exact ih hrest hlt

theorem lt_of_tryNElements {n : ℕ} (h : info.tryNElements = .ok n) : n < 2 ^ 64 := by
  rw [TensorInfo.tryNElements] at h
  split at h
  · rw [← Except.ok.inj h]
    exact Nat.two_pow_pos 64
  · exact lt_of_foldlM_checkedMul h (by decide)

end Models

/-! ### Experts -/

section Experts

variable {F : Type} [F32 F] {dispatcher : KernelDispatcher F} {model : GgufModel} {name : String}
  {info : TensorInfo} {views : List QuantTensor} {expectedExperts : ℕ}

/-- The features, the rows and the number of a tensor of stacked experts. -/
structure Stacked (info : TensorInfo) (inFeatures outFeatures nExpert : ℕ) : Prop where
  dims : ∃ dim0 dim1 dim2, info.dimensions = [dim0, dim1, dim2] ∧ dim0.toNat = inFeatures ∧
    dim1.toNat = outFeatures ∧ dim2.toNat = nExpert

/-- What `load_stacked_experts` computes on the way. -/
theorem loadStackedExperts_eq_ok (h : loadStackedExperts model name expectedExperts = .ok views)
    (hinfo : model.file.tensors.get name = .ok info) :
    ∃ inFeatures outFeatures nExpert data, Stacked info inFeatures outFeatures nExpert ∧
      info.tensorType.blockSize ∣ inFeatures ∧ tensorBytesOf model name = .ok data ∧
      let expertBytes := wrappingMul outFeatures
        (wrappingMul (inFeatures / info.tensorType.blockSize) info.tensorType.blockBytes)
      expertBytes * nExpert ≤ data.length ∧
      (List.range nExpert).mapM
        (expertView data name [outFeatures, inFeatures] info.tensorType expertBytes) =
          .ok views := by
  rw [loadStackedExperts, hinfo] at h
  dsimp only at h
  split at h
  · rename_i dim0 dim1 dim2 hdims
    split at h
    · cases h
    split at h
    · cases h
    split at h
    · cases h
    rename_i hdvd
    cases hdata : tensorBytesOf model name with
    | error e =>
      rw [hdata] at h
      cases h
    | ok data =>
      rw [hdata] at h
      dsimp only at h
      split at h
      · cases h
      · rename_i need hneed
        obtain ⟨-, rfl⟩ := checkedMul_eq_some.mp hneed
        split at h
        · cases h
        · rename_i hfits
          exact ⟨_, _, _, data, ⟨dim0, dim1, dim2, hdims, rfl, rfl, rfl⟩, not_not.mp hdvd, rfl,
            not_lt.mp hfits, h⟩
  · cases h

/-- The sizes of stacked experts whose bytes are there. -/
theorem Stacked.size {inFeatures outFeatures nExpert size : ℕ}
    (h : Stacked info inFeatures outFeatures nExpert)
    (hdvd : info.tensorType.blockSize ∣ inFeatures) (hsize : info.tryDataSize = .ok size) :
    let q := outFeatures * (inFeatures / info.tensorType.blockSize)
    size = nExpert * q * info.tensorType.blockBytes ∧ size < 2 ^ 64 ∧
      nExpert * q * info.tensorType.blockSize < 2 ^ 64 := by
  obtain ⟨dim0, dim1, dim2, hdims, rfl, rfl, rfl⟩ := h.dims
  obtain ⟨n, hn, hlen, hlt⟩ := tryDataSize_eq_ok.mp hsize
  obtain ⟨m, hm⟩ := hdvd
  have hpos := blockSize_pos info.tensorType
  have hcount : n = dim2.toNat * (dim1.toNat * m) * info.tensorType.blockSize := by
    rw [eq_of_tryNElements hn, TensorInfo.rowLength, TensorInfo.rows, hdims]
    show dim0.toNat * (dim1.toNat * (dim2.toNat * 1)) = _
    rw [hm]
    ring
  have hdiv : dim0.toNat / info.tensorType.blockSize = m := by
    rw [hm, Nat.mul_div_cancel_left _ hpos]
  dsimp only
  rw [hdiv, ← hcount]
  refine ⟨?_, hlt, lt_of_tryNElements hn⟩
  rw [hlen, hcount, divCeil_mul hpos]

/-- Products that fit, or that are of no use, do not wrap. -/
theorem expertBytes_eq {outFeatures nExpert m blockBytes : ℕ} (hexpert : 0 < nExpert)
    (hlt : nExpert * (outFeatures * m) * blockBytes < 2 ^ 64) :
    wrappingMul outFeatures (wrappingMul m blockBytes) = outFeatures * m * blockBytes := by
  have hle : outFeatures * m * blockBytes ≤ nExpert * (outFeatures * m) * blockBytes :=
    Nat.mul_le_mul_right _ (Nat.le_mul_of_pos_left _ hexpert)
  rcases Nat.eq_zero_or_pos outFeatures with rfl | hout
  · rw [wrappingMul, Nat.zero_mul, Nat.zero_mul, Nat.zero_mul, Nat.zero_mod]
  · have hrow : m * blockBytes < 2 ^ 64 := by
      refine lt_of_le_of_lt ?_ (lt_of_le_of_lt hle hlt)
      rw [Nat.mul_assoc]
      exact Nat.le_mul_of_pos_left _ hout
    rw [wrappingMul, wrappingMul, Nat.mod_eq_of_lt hrow, ← Nat.mul_assoc,
      Nat.mod_eq_of_lt (lt_of_le_of_lt hle hlt)]

theorem mapM_ok_getElem {ε α β : Type} {f : α → Except ε β} {xs : List α} {ys : List β}
    (h : xs.mapM f = .ok ys) : ys.length = xs.length ∧
      ∀ i (hi : i < xs.length) (hi' : i < ys.length), f xs[i] = .ok ys[i] := by
  induction xs generalizing ys with
  | nil =>
    obtain rfl := Except.ok.inj h
    exact ⟨rfl, fun i hi => absurd hi (Nat.not_lt_zero i)⟩
  | cons x xs ih =>
    rw [List.mapM_cons] at h
    obtain ⟨y, hy, hrest⟩ := except_bind_eq_ok.mp h
    obtain ⟨ys', hys, hcons⟩ := except_bind_eq_ok.mp hrest
    obtain rfl := Except.ok.inj hcons
    obtain ⟨hlen, hget⟩ := ih hys
    refine ⟨congrArg (· + 1) hlen, fun i hi hi' => ?_⟩
    cases i with
    | zero => exact hy
    | succ i => exact hget i (Nat.lt_of_succ_lt_succ hi) (Nat.lt_of_succ_lt_succ hi')

/-- **A view of an expert decodes to its part of the bulk result.** -/
theorem loadStackedExperts_eq (viewName : String) (hloaded : Loaded F model)
    (h : loadStackedExperts model name expectedExperts = .ok views)
    (hinfo : model.file.tensors.get name = .ok info) :
    ∃ inFeatures outFeatures nExpert data, Stacked info inFeatures outFeatures nExpert ∧
      tensorBytesOf model name = .ok data ∧ views.length = nExpert ∧
      ∀ e view, views[e]? = some view →
        view.shape = [outFeatures, inFeatures] ∧ view.tensorType = info.tensorType ∧
        dequantToF32Slice dispatcher viewName view.tensorType view.data
            (outFeatures * inFeatures) =
          (dequantToF32Slice dispatcher name info.tensorType data
            (nExpert * (outFeatures * inFeatures))).map
              fun bulk => row (outFeatures * inFeatures) bulk e := by
  obtain ⟨inFeatures, outFeatures, nExpert, data, hstacked, hdvd, hdata, hfits, hviews⟩ :=
    loadStackedExperts_eq_ok h hinfo
  obtain ⟨hlen, hget⟩ := mapM_ok_getElem hviews
  rw [List.length_range] at hlen
  refine ⟨inFeatures, outFeatures, nExpert, data, hstacked, hdata, hlen, fun e view hview => ?_⟩
  obtain ⟨he, rfl⟩ := List.getElem?_eq_some_iff.mp hview
  have he' : e < nExpert := hlen ▸ he
  have hsize := tensorBytesOf_eq hdata hloaded.sound (okOr_eq_ok.mp hinfo)
  obtain ⟨hbytes, hlt, hcount⟩ := hstacked.size hdvd hsize
  obtain ⟨m, hm⟩ := hdvd
  have hpos := blockSize_pos info.tensorType
  rw [hm, Nat.mul_div_cancel_left _ hpos] at hbytes hcount hget
  rw [hbytes] at hlt
  rw [expertBytes_eq (Nat.zero_lt_of_lt he') hlt] at hget
  have hview := hget e (by rwa [List.length_range]) he
  rw [List.getElem_range] at hview
  -- the slice is the expert's part of the bytes
  have hpart : (e + 1) * (outFeatures * m * info.tensorType.blockBytes) ≤ data.length := by
    rw [hbytes, Nat.mul_assoc nExpert]
    exact Nat.mul_le_mul_right _ he'
  have hstop := hpart
  rw [Nat.succ_mul] at hstop
  have hslice : sharedSlice data (e * (outFeatures * m * info.tensorType.blockBytes))
      (outFeatures * m * info.tensorType.blockBytes) =
      some (row (outFeatures * m * info.tensorType.blockBytes) data e) := by
    rw [sharedSlice, checkedAdd, if_pos (by omega), Option.bind_some, sliceRange,
      if_pos ⟨Nat.le_add_right _ _, hstop⟩, Nat.add_sub_cancel_left, row]
  rw [expertView, hslice] at hview
  obtain hview := Except.ok.inj hview
  rw [← hview]
  have hfeatures : outFeatures * inFeatures = outFeatures * m * info.tensorType.blockSize := by
    rw [hm]
    ring
  refine ⟨by rw [hm], rfl, ?_⟩
  dsimp only
  have hrow := length_row hpart
  have hwhole : nExpert * (outFeatures * m * info.tensorType.blockSize) =
      nExpert * (outFeatures * m) * info.tensorType.blockSize := (Nat.mul_assoc _ _ _).symm
  have hone : outFeatures * m * info.tensorType.blockSize ≤
      nExpert * (outFeatures * m * info.tensorType.blockSize) :=
    Nat.le_mul_of_pos_left _ (Nat.zero_lt_of_lt he')
  rw [hfeatures, dequantToF32Slice_eq hrow.ge (by omega) (by omega), hwhole,
    dequantToF32Slice_eq hbytes.ge hlt hcount]
  cases hdec : blockDecoder dispatcher info.tensorType with
  | error _ => rfl
  | ok dec =>
    exact congrArg Except.ok (row_decodeRows (length_blockDecoder hdec) _ _ he').symm

end Experts

/-! ### Parts of a tensor -/

section Parts

variable {F : Type} [F32 F]

/-- The bulk result is missing only if the kernel is. -/
theorem error_of_dequant {dispatcher : KernelDispatcher F} {name : String}
    {tensorType : GgufTensorType} {data : List UInt8} {q : ℕ} {e : LoadError}
    (hdata : q * tensorType.blockBytes ≤ data.length)
    (hbytes : q * tensorType.blockBytes < 2 ^ 64) (hcount : q * tensorType.blockSize < 2 ^ 64)
    (h : dequantToF32Slice dispatcher name tensorType data (q * tensorType.blockSize) = .error e) :
    dispatcher.getKernel tensorType = .error e := by
  rw [dequantToF32Slice_eq hdata hbytes hcount] at h
  rcases type_cases tensorType with rfl | rfl | hkernel
  · cases h
  · cases h
  · rw [blockDecoder_of_hasKernel hkernel] at h
    cases hget : dispatcher.getKernel tensorType with
    | error e' =>
      rw [hget] at h
      exact congrArg Except.error (Except.error.inj h)
    | ok kernel =>
      rw [hget] at h
      cases h

/-- **Reading a part of a tensor is reading that part of the whole.**  A row of a table, and a
view of an expert; and the whole can be read if there is a kernel. -/
theorem parts_of_bulk (dispatcher : KernelDispatcher F) (name : String) :
    (∀ tensor embedding vocab hidden token out,
      TokenEmbedding.ofQuantized F tensor = some embedding → tensor.shape = [vocab, hidden] →
      UInt32.toNat token < vocab → hidden ≤ out.length → vocab * hidden < 2 ^ 64 →
        let bulk := dequantToF32Slice dispatcher name tensor.tensorType tensor.data (vocab * hidden)
        embedding.rowInto dispatcher token out =
          bulk.map (fun bulk => overwrite out 0 (row hidden bulk token.toNat)) ∧
        ∀ e, bulk = .error e → dispatcher.getKernel tensor.tensorType = .error e) ∧
    ∀ model tensorName expectedExperts views, Loaded F model →
      loadStackedExperts model tensorName expectedExperts = .ok views →
        ∃ info inFeatures outFeatures nExpert data,
          model.file.tensors.get tensorName = .ok info ∧
          Stacked info inFeatures outFeatures nExpert ∧
          tensorBytesOf model tensorName = .ok data ∧ views.length = nExpert ∧
          ∀ e view, views[e]? = some view →
            view.shape = [outFeatures, inFeatures] ∧ view.tensorType = info.tensorType ∧
            dequantToF32Slice dispatcher name view.tensorType view.data
                (outFeatures * inFeatures) =
              (dequantToF32Slice dispatcher tensorName info.tensorType data
                (nExpert * (outFeatures * inFeatures))).map
                  fun bulk => row (outFeatures * inFeatures) bulk e := by
  refine ⟨fun tensor embedding vocab hidden token out h hshape htoken hout hcount => ⟨?_, ?_⟩,
    fun model tensorName expectedExperts views hloaded h => ?_⟩
  · exact rowInto_eq name h hshape htoken hout hcount
  · intro e herror
    obtain ⟨m, hm, -, hbytes, hdata, -⟩ := ofQuantized_eq_some h hshape
    rw [hm, ← Nat.mul_assoc] at hcount herror
    rw [← Nat.mul_assoc] at hbytes hdata
    exact error_of_dequant hdata hbytes hcount herror
  · cases hinfo : model.file.tensors.get tensorName with
    | error e =>
      rw [loadStackedExperts, hinfo] at h
      cases h
    | ok info =>
      obtain ⟨inFeatures, outFeatures, nExpert, data, hexperts⟩ :=
        loadStackedExperts_eq name hloaded h hinfo
      exact ⟨info, inFeatures, outFeatures, nExpert, data, rfl, hexperts⟩

end Parts

/-! ### Two rows, and two experts -/

/-- A dispatcher without kernels. -/
def noKernels : KernelDispatcher ExactFloat := ⟨fun _ => .error (.quant "no kernel")⟩

/-- Two rows of one zero. -/
def twoZeros : QuantTensor := ⟨List.replicate 8 0, [2, 1], .f32⟩

/-- A file with two experts of one weight. -/
def twoExperts : List UInt8 :=
  encodeSectionsAt [] [(⟨"t", [1, 1, 2], .f32, 8⟩, 0)] ++ List.replicate 40 0

set_option maxRecDepth 2000 in
/-- The second row, and the views of both experts. -/
theorem parts_of_bulk_two :
    (TokenEmbedding.quantized twoZeros 1 4).rowInto noKernels 1 [lit 1, lit 1] =
      (dequantToF32Slice noKernels "t" .f32 twoZeros.data 2).map
        (fun bulk => overwrite [lit 1, lit 1] 0 (row 1 bulk 1)) ∧
    ∃ model views, GgufModel.fromBytes twoExperts = .ok model ∧
      loadStackedExperts model "t" 2 = .ok views ∧ views.length = 2 ∧
      ∀ e view, views[e]? = some view → ∃ data,
        dequantToF32Slice noKernels "t" view.tensorType view.data 1 =
          (dequantToF32Slice noKernels "t" .f32 data 2).map fun bulk => row 1 bulk e := by
  obtain ⟨hrow, hexperts⟩ := parts_of_bulk noKernels "t"
  refine ⟨(hrow twoZeros _ 2 1 1 _ rfl rfl (by decide) (by decide) (by decide)).1, ?_⟩
  have hsome : (GgufModel.fromBytes twoExperts).toOption.bind (fun model =>
      (loadStackedExperts model "t" 2).toOption.map fun views =>
        (views.length, (model.file.tensors.get "t").toOption)) =
        some (2, some ⟨"t", 3, [1, 1, 2], .f32, 0⟩) := by
    decide_cbv
  obtain ⟨model, hmodel, hrest⟩ := Option.bind_eq_some_iff.mp hsome
  obtain ⟨views, hviews, hpair⟩ := Option.map_eq_some_iff.mp hrest
  obtain ⟨hlength, hget⟩ := Prod.mk.inj hpair
  have hmodel := toOption_eq_some.mp hmodel
  obtain ⟨info, inFeatures, outFeatures, nExpert, data, hinfo, hstacked, -, hcount, hview⟩ :=
    hexperts model "t" 2 views (.fromBytes hmodel) (toOption_eq_some.mp hviews)
  obtain rfl := Except.ok.inj (hinfo.symm.trans (toOption_eq_some.mp hget))
  obtain ⟨dim0, dim1, dim2, hdims, rfl, rfl, rfl⟩ := hstacked.dims
  obtain ⟨rfl, rfl, rfl⟩ : (1 : UInt64) = dim0 ∧ (1 : UInt64) = dim1 ∧ (2 : UInt64) = dim2 := by
    simpa using hdims
  refine ⟨model, views, hmodel, toOption_eq_some.mp hviews, hlength, fun e view hmem => ?_⟩
  exact ⟨data, (hview e view hmem).2.2⟩

end Arch

end Oxillama
