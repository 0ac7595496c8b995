/-
The rows of a tensor that was quantized while loading.

`applyQuantPlan` flattens a tensor before it cuts blocks of 32 values, and the
kernels read row `r` at `r` times the bytes of a row, which are those of
`ne0.div_ceil(32)` blocks.

* `converted_of_applied` — a converted tensor has the bytes its new type asks for,
  and they encode its values in their flat order;
* `rows_addressable_iff` — **every row is where it is read, whatever the values, just
  when the block size divides the row length or there is at most one row**;
* `not_addressable_ragged` — two rows of 33 values: three blocks instead of four.
-/
import Mathlib.Algebra.BigOperators.Group.List.Basic
import Oxillama.Gguf.Import
import Oxillama.Gguf.QuantizeOnLoad
import Oxillama.Lib.ExactFloat

namespace Oxillama

namespace Gguf

open F32 (lit)

/-! ### Sizes -/

/-- The length of a row, `ne0`. -/
def TensorInfo.rowLength (info : TensorInfo) : ℕ := (info.dimensions.headD 0).toNat

/-- The number of rows, the product of the other dimensions. -/
def TensorInfo.rows (info : TensorInfo) : ℕ := (info.dimensions.tail.map (·.toNat)).prod

section Sizes

variable {info : TensorInfo} {n size : ℕ}

theorem foldlM_checkedMul {e : GgufError} {dims : List UInt64} {acc : ℕ}
    (h : dims.foldlM (fun acc d => (okOr e (checkedMul acc d.toNat) : GgufResult ℕ)) acc = .ok n) :
    n = acc * (dims.map (·.toNat)).prod := by
  induction dims generalizing acc with
  | nil =>
    obtain rfl := Except.ok.inj h
    exact (Nat.mul_one _).symm
  | cons d dims ih =>
    rw [List.foldlM_cons] at h
    obtain ⟨acc', hmul, hrest⟩ := except_bind_eq_ok.mp h
    obtain ⟨-, rfl⟩ := checkedMul_eq_some.mp (okOr_eq_ok.mp hmul)
    rw [ih hrest, List.map_cons, List.prod_cons, Nat.mul_assoc]

theorem eq_of_tryNElements (h : info.tryNElements = .ok n) : n = info.rowLength * info.rows := by
  rw [TensorInfo.tryNElements] at h
  cases hdims : info.dimensions with
  | nil =>
    rw [hdims, if_pos List.isEmpty_nil] at h
    rw [TensorInfo.rowLength, hdims, ← Except.ok.inj h]
    exact (Nat.zero_mul _).symm
  | cons d dims =>
    rw [hdims, if_neg (by rw [List.isEmpty_cons]; decide)] at h
    rw [foldlM_checkedMul h, TensorInfo.rowLength, TensorInfo.rows, hdims, Nat.one_mul,
      List.map_cons, List.prod_cons]
    rfl

theorem blockSize_pos (t : GgufTensorType) : 0 < t.blockSize := by
  cases t <;> decide

theorem tryDataSize_eq_ok :
    info.tryDataSize = .ok size ↔ ∃ n, info.tryNElements = .ok n ∧
      size = divCeil n info.tensorType.blockSize * info.tensorType.blockBytes ∧ size < 2 ^ 64 := by
  rw [TensorInfo.tryDataSize, except_bind_eq_ok]
  refine exists_congr fun n => and_congr_right fun _ => ?_
  dsimp only
  rw [if_neg (blockSize_pos _).ne', okOr_eq_ok, checkedMul_eq_some]
  show _ ∧ size = divCeil n _ * _ ↔ size = divCeil n _ * _ ∧ _
  constructor
  · rintro ⟨hlt, rfl⟩
    exact ⟨rfl, hlt⟩
  · rintro ⟨rfl, hlt⟩
    exact ⟨hlt, rfl⟩

theorem divCeil_one (n : ℕ) : divCeil n 1 = n := by
  rw [divCeil, Nat.div_one, Nat.add_sub_cancel]

end Sizes

/-! ### Blocks -/

section Encode

variable {F : Type} [F32 F]

/-- The block encoder of a target. -/
def QuantTarget.encodeBlock (target : QuantTarget) (block : List F) : List UInt8 :=
  match target with
  | .q4_0 => encodeQ4_0Block block
  | .q8_0 => encodeQ8_0Block block

theorem encode_eq (target : QuantTarget) (weights : List F) :
    target.encode weights = encodeBlocks target.encodeBlock 32 weights := by
  cases target <;> rfl

theorem blockSize_asTensorType (target : QuantTarget) : target.asTensorType.blockSize = 32 := by
  cases target <;> rfl

/-- **A block has the bytes of its type.** -/
theorem blockEncoder (target : QuantTarget) :
    BlockEncoder (α := F) target.encodeBlock 32 target.asTensorType.blockBytes := by
  intro block h
  cases target with
  | q4_0 =>
    show (encodeQ4_0Block block).length = 18
    rw [encodeQ4_0Block, List.length_append, length_toLe, List.length_map, List.length_range]
  | q8_0 =>
    show (encodeQ8_0Block block).length = 34
    rw [encodeQ8_0Block, List.length_append, length_toLe, List.length_map, List.length_append,
      List.length_map, List.length_replicate]
    omega

end Encode

/-! ### Dequantizing -/

section Dequant

variable {F : Type} {key : String} {k : ℕ} {value : ℕ → F} {blob : List UInt8}
  {weights : List F}

theorem dequant_eq_ok :
    dequant key k value blob = .ok weights ↔ k ∣ blob.length ∧
      weights = (List.range (blob.length / k)).map fun i => value (fromLe (row k blob i)) := by
  rw [dequant]
  split
  · rename_i hdvd
    exact iff_of_false (fun h => nomatch h) fun h => hdvd h.1
  · rename_i hdvd
    rw [Except.ok.injEq, eq_comm]
    exact (and_iff_right (not_not.mp hdvd)).symm

/-- **A tensor of floats has as many values as elements.** -/
theorem length_of_blobToF32 [F32 F] {info : TensorInfo} {n : ℕ} (hn : info.tryNElements = .ok n)
    (hsize : info.tryDataSize = .ok blob.length)
    (h : blobToF32 blob info.tensorType = .ok weights) : weights.length = n := by
  obtain ⟨n', hn', hlen, -⟩ := tryDataSize_eq_ok.mp hsize
  obtain rfl := Except.ok.inj (hn.symm.trans hn')
  cases htype : info.tensorType <;> rw [htype] at h hlen
  case f16 =>
    rw [blobToF32, dequantF16, dequant_eq_ok] at h
    obtain ⟨-, rfl⟩ := h
    rw [List.length_map, List.length_range, hlen]
    show divCeil n 1 * 2 / 2 = n
    rw [divCeil_one, Nat.mul_div_cancel n Nat.two_pos]
  case f32 =>
    rw [blobToF32, dequantF32, dequant_eq_ok] at h
    obtain ⟨-, rfl⟩ := h
    rw [List.length_map, List.length_range, hlen]
    show divCeil n 1 * 4 / 4 = n
    rw [divCeil_one, Nat.mul_div_cancel n (by decide)]
  all_goals exact nomatch h

end Dequant

/-! ### One tensor -/

section Convert

variable {F : Type} [F32 F] {model model' : GgufModel} {name other : String}
  {sourceType : GgufTensorType} {target : QuantTarget}

/-- Two models know the same of a tensor. -/
structure SameTensor (name : String) (model model' : GgufModel) : Prop where
  info : model'.file.tensors.infos.lookup name = model.file.tensors.infos.lookup name
  override : model'.quantOverrides.lookup name = model.quantOverrides.lookup name
  data : model'.data = model.data
  offset : model'.file.tensors.dataSectionOffset = model.file.tensors.dataSectionOffset

theorem SameTensor.refl (name : String) (model : GgufModel) : SameTensor name model model :=
  ⟨rfl, rfl, rfl, rfl⟩

theorem SameTensor.trans {model'' : GgufModel} (h : SameTensor name model model')
    (h' : SameTensor name model' model'') : SameTensor name model model'' :=
  ⟨h'.info.trans h.info, h'.override.trans h.override, h'.data.trans h.data,
    h'.offset.trans h.offset⟩

theorem SameTensor.tensorData (h : SameTensor name model model') :
    model'.file.tensorData model'.data name = model.file.tensorData model.data name := by
  simp only [GgufFile.tensorData, GgufFile.tensorDataRange, TensorStore.get, h.info, h.data,
    h.offset]

theorem lookup_setType (store : TensorStore) (name other : String) (newType : GgufTensorType) :
    (store.setType name newType).infos.lookup other = if other = name then
      (store.infos.lookup name).map fun info => { info with tensorType := newType }
      else store.infos.lookup other := by
  rw [TensorStore.setType]
  by_cases heq : other = name
  · rw [if_pos heq, heq]
    cases hlookup : store.infos.lookup name with
    | none => exact hlookup
    | some info => exact AList.lookup_insert _
  · rw [if_neg heq]
    cases store.infos.lookup name with
    | none => rfl
    | some info => exact AList.lookup_insert_ne heq

theorem dataSectionOffset_setType (store : TensorStore) (name : String)
    (newType : GgufTensorType) :
    (store.setType name newType).dataSectionOffset = store.dataSectionOffset := by
  rw [TensorStore.setType]
  split <;> rfl

theorem convertTensor_eq_ok :
    convertTensor F model name sourceType target = .ok model' ↔
      (sourceType = .f16 ∨ sourceType = .f32) ∧ model.quantOverrides.lookup name = none ∧
      ∃ blob, model.file.tensorData model.data name = .ok blob ∧
      ∃ weights : List F, blobToF32 blob sourceType = .ok weights ∧ model' =
        ⟨{ model.file with tensors := model.file.tensors.setType name target.asTensorType },
          model.data, model.quantOverrides.insert name
            ⟨target.encode weights, target.asTensorType⟩⟩ := by
  rw [convertTensor]
  split
  · rename_i hne
    refine iff_of_false (fun h => nomatch h) fun h => ?_
    rcases h.1 with heq | heq
    · exact hne.1 heq
    · exact hne.2 heq
  · rename_i hfloat
    have hfloat : sourceType = .f16 ∨ sourceType = .f32 := by
      rw [not_and_or, not_not, not_not] at hfloat
      exact hfloat
    rw [and_iff_right hfloat]
    cases hlookup : model.quantOverrides.lookup name with
    | some existing => exact iff_of_false (fun h => nomatch h) fun h => nomatch h.1
    | none =>
      rw [and_iff_right rfl, except_bind_eq_ok]
      refine exists_congr fun blob => and_congr_right fun _ => ?_
      rw [except_bind_eq_ok]
      refine exists_congr fun weights => and_congr_right fun _ => ?_
      show Except.ok _ = Except.ok model' ↔ _
      rw [Except.ok.injEq, eq_comm]

/-- **Converting a tensor leaves the other tensors as they are.** -/
theorem sameTensor_of_convertTensor (h : convertTensor F model name sourceType target = .ok model')
    (hne : other ≠ name) : SameTensor other model model' := by
  obtain ⟨-, -, _, -, _, -, rfl⟩ := convertTensor_eq_ok.mp h
  refine ⟨?_, AList.lookup_insert_ne hne, rfl, dataSectionOffset_setType _ _ _⟩
  show ((model.file.tensors.setType name _).infos.lookup other) = _
  rw [lookup_setType, if_neg hne]

variable (F) in
/-- A tensor that was converted: what it was before, and what it is now. -/
def Converted (model model' : GgufModel) (name : String) (sourceType : GgufTensorType)
    (target : QuantTarget) : Prop :=
  (sourceType = .f16 ∨ sourceType = .f32) ∧
  ∃ blob, model.file.tensorData model.data name = .ok blob ∧
  ∃ weights : List F, blobToF32 blob sourceType = .ok weights ∧
    model'.quantOverrides.lookup name = some ⟨target.encode weights, target.asTensorType⟩ ∧
    model'.file.tensors.infos.lookup name = (model.file.tensors.infos.lookup name).map
      fun info => { info with tensorType := target.asTensorType }

theorem converted_of_convertTensor
    (h : convertTensor F model name sourceType target = .ok model') :
    Converted F model model' name sourceType target := by
  obtain ⟨hfloat, -, blob, hblob, weights, hweights, rfl⟩ := convertTensor_eq_ok.mp h
  refine ⟨hfloat, blob, hblob, weights, hweights, AList.lookup_insert _, ?_⟩
  show ((model.file.tensors.setType name _).infos.lookup name) = _
  rw [lookup_setType, if_pos rfl]

theorem Converted.of_same {before after : GgufModel} (h : Converted F model model' name sourceType
    target) (hbefore : SameTensor name before model) (hafter : SameTensor name model' after) :
    Converted F before after name sourceType target := by
  obtain ⟨hfloat, blob, hblob, weights, hweights, hoverride, hinfo⟩ := h
  refine ⟨hfloat, blob, hbefore.tensorData.symm.trans hblob, weights, hweights,
    hafter.override.trans hoverride, ?_⟩
  rw [hafter.info, hinfo, hbefore.info]

/-! ### All tensors -/

/-- **Every tensor the plan names is converted**, and no other is touched. -/
theorem converted_of_convertAll {todo : List (String × GgufTensorType × QuantTarget)}
    (hnodup : (todo.map Prod.fst).Nodup) (h : convertAll F todo model = (.ok (), model')) :
    (∀ name ∉ todo.map Prod.fst, SameTensor name model model') ∧
      ∀ name sourceType target, (name, sourceType, target) ∈ todo →
        Converted F model model' name sourceType target := by
  induction todo generalizing model with
  | nil =>
    obtain ⟨-, rfl⟩ := Prod.mk.inj h
    exact ⟨fun name _ => .refl name _, fun _ _ _ hmem => absurd hmem List.not_mem_nil⟩
  | cons entry todo ih =>
    obtain ⟨first, firstType, firstTarget⟩ := entry
    obtain ⟨hfirst, hnodup⟩ := List.nodup_cons.mp hnodup
    rw [convertAll] at h
    cases hconvert : convertTensor F model first firstType firstTarget with
    | error e =>
      rw [hconvert] at h
      cases (Prod.mk.inj h).1
    | ok next =>
      rw [hconvert] at h
      obtain ⟨hsame, hconverted⟩ := ih hnodup h
      constructor
      · intro name hname
        obtain ⟨hne, hrest⟩ := not_or.mp (List.mem_cons.not.mp hname)
        exact (sameTensor_of_convertTensor hconvert hne).trans (hsame name hrest)
      · intro name sourceType target hmem
        rcases List.mem_cons.mp hmem with heq | hmem
        · -- the first tensor is not among the others
          obtain ⟨hname, hentry⟩ := Prod.mk.inj heq
          obtain ⟨htype, htarget⟩ := Prod.mk.inj hentry
          rw [hname, htype, htarget]
          exact (converted_of_convertTensor hconvert).of_same (.refl _ _) (hsame _ hfirst)
        · have hne : name ≠ first := fun heq =>
            hfirst (List.mem_map.mpr ⟨_, hmem, heq⟩)
          exact (hconverted name sourceType target hmem).of_same
            (sameTensor_of_convertTensor hconvert hne) (.refl _ _)

/-- Two models that differ in their bytes only. -/
structure Alike (model model' : GgufModel) : Prop where
  file : model'.file = model.file
  length : model'.data.length = model.data.length
  override : ∀ name, model.quantOverrides.lookup name = none →
    model'.quantOverrides.lookup name = none

theorem tensorData_of_length {file : GgufFile} {data data' blob : List UInt8}
    (hlen : data'.length = data.length) (h : file.tensorData data name = .ok blob) :
    ∃ blob', file.tensorData data' name = .ok blob' ∧ blob'.length = blob.length := by
  rw [GgufFile.tensorData] at h
  obtain ⟨⟨start, len⟩, hrange, hblob⟩ := except_bind_eq_ok.mp h
  obtain ⟨-, -, -, -, -, hfits⟩ := tensorDataRange_eq_ok.mp hrange
  obtain rfl := Except.ok.inj hblob
  refine ⟨(data'.drop start).take len, ?_, ?_⟩
  · rw [GgufFile.tensorData, hlen, hrange]
    rfl
  · rw [List.length_take, List.length_take, List.length_drop, List.length_drop, hlen]

theorem blobToF32_of_length {blob blob' : List UInt8} {weights : List F}
    (hlen : blob'.length = blob.length) (h : blobToF32 blob sourceType = .ok weights) :
    ∃ weights' : List F, blobToF32 blob' sourceType = .ok weights' := by
  cases sourceType
  case f16 =>
    rw [blobToF32, dequantF16, dequant_eq_ok] at h
    rw [blobToF32, dequantF16]
    exact ⟨_, dequant_eq_ok.mpr ⟨hlen ▸ h.1, rfl⟩⟩
  case f32 =>
    rw [blobToF32, dequantF32, dequant_eq_ok] at h
    rw [blobToF32, dequantF32]
    exact ⟨_, dequant_eq_ok.mpr ⟨hlen ▸ h.1, rfl⟩⟩
  all_goals exact nomatch h

theorem convertTensor_of_alike {before before' after : GgufModel} (halike : Alike before before')
    (h : convertTensor F before name sourceType target = .ok after) :
    ∃ after', convertTensor F before' name sourceType target = .ok after' ∧
      Alike after after' := by
  obtain ⟨hfloat, hnone, blob, hblob, weights, hweights, rfl⟩ := convertTensor_eq_ok.mp h
  obtain ⟨blob', hblob', hlen⟩ := tensorData_of_length halike.length hblob
  obtain ⟨weights', hweights'⟩ := blobToF32_of_length hlen hweights
  refine ⟨_, convertTensor_eq_ok.mpr ⟨hfloat, halike.override name hnone, blob', ?_, weights',
    hweights', rfl⟩, ⟨?_, halike.length, fun other hother => ?_⟩⟩
  · rw [halike.file]
    exact hblob'
  · rw [halike.file]
  · have hne : other ≠ name := fun heq => by
      rw [heq, AList.lookup_insert] at hother
      cases hother
    rw [AList.lookup_insert_ne hne] at hother ⊢
    exact halike.override other hother

/-- **Whether a plan can be applied does not depend on the bytes.** -/
theorem convertAll_of_alike {todo : List (String × GgufTensorType × QuantTarget)}
    {before before' after : GgufModel} (halike : Alike before before')
    (h : convertAll F todo before = (.ok (), after)) :
    ∃ after', convertAll F todo before' = (.ok (), after') := by
  induction todo generalizing before before' with
  | nil => exact ⟨before', rfl⟩
  | cons entry todo ih =>
    obtain ⟨name, sourceType, target⟩ := entry
    rw [convertAll] at h
    cases hconvert : convertTensor F before name sourceType target with
    | error e =>
      rw [hconvert] at h
      cases (Prod.mk.inj h).1
    | ok next =>
      rw [hconvert] at h
      obtain ⟨next', hconvert', halike'⟩ := convertTensor_of_alike halike hconvert
      rw [convertAll, hconvert']
      exact ih halike' h

end Convert

/-! ### Applying a plan -/

section Apply

variable {F : Type} [F32 F] {model model' : GgufModel} {plan : QuantPlan} {name : String}
  {target : QuantTarget} {info : TensorInfo}

theorem mem_toQuantize {sourceType : GgufTensorType} :
    (name, sourceType, target) ∈ toQuantize model plan ↔ plan.targetFor name = some target ∧
      ∃ info, model.file.tensors.infos.lookup name = some info ∧ info.tensorType = sourceType := by
  rw [toQuantize, List.mem_filterMap]
  constructor
  · rintro ⟨⟨name', info⟩, hmem, hentry⟩
    obtain ⟨target', htarget, heq⟩ := Option.map_eq_some_iff.mp hentry
    obtain ⟨hname, hrest⟩ := Prod.mk.inj heq
    obtain ⟨htype, rfl⟩ := Prod.mk.inj hrest
    rw [← hname]
    exact ⟨htarget, info, AList.mem_lookup_iff.mpr hmem, htype⟩
  · rintro ⟨htarget, info, hlookup, rfl⟩
    refine ⟨⟨name, info⟩, AList.mem_lookup_iff.mp hlookup, ?_⟩
    rw [htarget]
    rfl

theorem nodup_toQuantize (model : GgufModel) (plan : QuantPlan) :
    ((toQuantize model plan).map Prod.fst).Nodup := by
  have hsub : ((toQuantize model plan).map Prod.fst).Sublist model.file.tensors.infos.keys := by
    rw [toQuantize, AList.keys, List.keys]
    induction model.file.tensors.infos.entries with
    | nil => exact List.Sublist.slnil
    | cons entry entries ih =>
      cases htarget : plan.targetFor entry.1 with
      | none =>
        rw [List.filterMap_cons_none (by rw [htarget]; rfl), List.map_cons]
        exact ih.cons _
      | some target =>
        rw [List.filterMap_cons_some (by rw [htarget]; rfl), List.map_cons, List.map_cons]
        exact ih.cons_cons _
  exact hsub.nodup model.file.tensors.infos.keys_nodup

/-- An encoded tensor has the size of its new type. -/
theorem tryDataSize_encode {blob : List UInt8} {weights : List F} (target : QuantTarget)
    (hfloat : info.tensorType = .f16 ∨ info.tensorType = .f32)
    (hsize : info.tryDataSize = .ok blob.length)
    (hweights : blobToF32 blob info.tensorType = .ok weights) :
    { info with tensorType := target.asTensorType }.tryDataSize =
      .ok (target.encode weights).length := by
  obtain ⟨n, hn, hlen, hlt⟩ := tryDataSize_eq_ok.mp hsize
  have hcount : weights.length = n := length_of_blobToF32 hn hsize hweights
  -- the float bytes were addressable, so the quantized ones are
  have htwo : n * 2 < 2 ^ 64 := by
    rw [hlen] at hlt
    rcases hfloat with htype | htype <;> rw [htype] at hlt
    · exact (divCeil_one n ▸ hlt : n * 2 < 2 ^ 64)
    · have hfour : n * 4 < 2 ^ 64 := divCeil_one n ▸ hlt
      omega
  rw [encode_eq, length_encodeBlocks (blockEncoder target), hcount]
  refine tryDataSize_eq_ok.mpr ⟨n, hn, ?_, ?_⟩
  · dsimp only
    rw [blockSize_asTensorType]
  · have hbytes : target.asTensorType.blockBytes ≤ 34 := by cases target <;> decide
    calc divCeil n 32 * target.asTensorType.blockBytes ≤ divCeil n 32 * 34 :=
          Nat.mul_le_mul_left _ hbytes
      _ < 2 ^ 64 := by
          rw [divCeil]
          omega

variable (F) in
/-- **What a converted tensor is**: of the new type, with the bytes that type asks for, which
encode its values in their flat order. -/
theorem converted_of_applied (happlied : applyQuantPlan F model plan = (.ok (), model'))
    (htarget : plan.targetFor name = some target)
    (hinfo : model.file.tensors.get name = .ok info) :
    (info.tensorType = .f16 ∨ info.tensorType = .f32) ∧
      ∃ blob, model.file.tensorData model.data name = .ok blob ∧ ∃ weights : List F,
        blobToF32 blob info.tensorType = .ok weights ∧
        weights.length = info.rowLength * info.rows ∧
        model'.file.tensors.get name = .ok { info with tensorType := target.asTensorType } ∧
        model'.tensorData name = .ok (target.encode weights) ∧
        { info with tensorType := target.asTensorType }.tryDataSize =
          .ok (target.encode weights).length := by
  have hlookup := okOr_eq_ok.mp hinfo
  obtain ⟨-, hall⟩ := converted_of_convertAll (nodup_toQuantize model plan) happlied
  obtain ⟨hfloat, blob, hblob, weights, hweights, hoverride, hinfo'⟩ :=
    hall name _ target (mem_toQuantize.mpr ⟨htarget, info, hlookup, rfl⟩)
  obtain ⟨_, _, _, hget, hsize, -, -⟩ := tensorData_eq_ok hblob
  obtain rfl := Except.ok.inj (hinfo.symm.trans hget)
  obtain ⟨n, hn, -⟩ := tryDataSize_eq_ok.mp hsize
  have hcount : weights.length = n := length_of_blobToF32 hn hsize hweights
  refine ⟨hfloat, blob, hblob, weights, hweights, hcount.trans (eq_of_tryNElements hn), ?_, ?_,
    tryDataSize_encode target hfloat hsize hweights⟩
  · rw [hlookup] at hinfo'
    exact okOr_eq_ok.mpr hinfo'
  · rw [GgufModel.tensorData, hoverride]

end Apply

/-! ### A block that ends in the middle -/

/-- What is used of `f32` and `f16`: zero and one, and that their scales differ. -/
structure ZeroOne (F : Type) [F32 F] : Prop where
  ofBits_zero : F32.ofBits 0 = (lit 0 : F)
  ofBits_one : F32.ofBits 0x3F800000 = (lit 1 : F)
  ofF16_zero : F32.ofF16 0 = (lit 0 : F)
  ofF16_one : F32.ofF16 0x3C00 = (lit 1 : F)
  abs_zero : F32.abs (lit 0 : F) = lit 0
  abs_one : F32.abs (lit 1 : F) = lit 1
  zero_lt_zero : F32.lt (lit 0 : F) (lit 0) = false
  zero_lt_one : F32.lt (lit 0 : F) (lit 1) = true
  one_lt_zero : F32.lt (lit 1 : F) (lit 0) = false
  max_zero_zero : F32.max (lit 0 : F) (lit 0) = lit 0
  max_zero_one : F32.max (lit 0 : F) (lit 1) = lit 1
  max_one_zero : F32.max (lit 1 : F) (lit 0) = lit 1
  zero_beq_zero : ((lit 0 : F) == lit 0) = true
  one_beq_zero : ((lit 1 : F) == lit 0) = false
  scale_q4_0 : F32.toF16 (lit 0 / lit (-8) : F) ≠ F32.toF16 (lit 1 / lit (-8) : F)
  scale_q8_0 : F32.toF16 (lit 0 : F) ≠ F32.toF16 (lit 1 / lit 127 : F)

section Ragged

variable {F : Type} [F32 F]

/-- The scale of a block. -/
def QuantTarget.scale (target : QuantTarget) (block : List F) : F :=
  match target with
  | .q4_0 => extreme block / lit (-8)
  | .q8_0 => if absMax block == lit 0 then lit 0 else absMax block / lit 127

/-- A block begins with its scale. -/
theorem take_encodeBlock (target : QuantTarget) (block : List F) :
    (target.encodeBlock block).take 2 = toLe 2 (F32.toF16 (target.scale block)).toNat := by
  cases target with
  | q4_0 => exact List.take_left' (length_toLe 2 _)
  | q8_0 => exact List.take_left' (length_toLe 2 _)

theorem toLe_two_inj {a b : UInt16} (h : toLe 2 a.toNat = toLe 2 b.toNat) : a = b := by
  have hnat := congrArg fromLe h
  rw [fromLe_toLe_of_lt a.toNat_lt, fromLe_toLe_of_lt b.toNat_lt] at hnat
  exact UInt16.toNat_inj.mp hnat

/-- Folding over an item that changes nothing. -/
theorem foldl_replicate_of_fixed {α β : Type} {f : β → α → β} {b : β} {a : α} (h : f b a = b)
    (n : ℕ) : (List.replicate n a).foldl f b = b := by
  induction n with
  | zero => rfl
  | succ n ih => rw [List.replicate_succ, List.foldl_cons, h, ih]

/-- Folding over zeros and one other item. -/
theorem foldl_single {α β : Type} {f : β → α → β} {b b' : β} {a a' : α} (hzero : f b a = b)
    (hone : f b a' = b') (hrest : f b' a = b') (m n : ℕ) :
    (List.replicate m a ++ a' :: List.replicate n a).foldl f b = b' := by
  rw [List.foldl_append, foldl_replicate_of_fixed hzero, List.foldl_cons, hone,
    foldl_replicate_of_fixed hrest]

/-- **The first value of the next row changes the last block of a row.** -/
theorem ZeroOne.encodeBlock_ne (laws : ZeroOne F) (target : QuantTarget) (m n : ℕ) :
    target.encodeBlock (List.replicate m (lit 0 : F)) ≠
      target.encodeBlock (List.replicate m (lit 0 : F) ++ lit 1 :: List.replicate n (lit 0)) := by
  intro heq
  have hscale := congrArg (·.take 2) heq
  simp only [take_encodeBlock] at hscale
  have hbits := toLe_two_inj hscale
  cases target with
  | q4_0 =>
    have hzero : larger (lit 0 : F) (lit 0) = lit 0 := ite_self _
    have hzeros : extreme (List.replicate m (lit 0 : F)) = lit 0 :=
      foldl_replicate_of_fixed hzero m
    have hone : extreme (List.replicate m (lit 0 : F) ++ lit 1 :: List.replicate n (lit 0)) =
        lit 1 := by
      refine foldl_single hzero ?_ ?_ m n
      · rw [larger, laws.abs_zero, laws.abs_one, if_pos laws.zero_lt_one]
      · rw [larger, laws.abs_zero, laws.abs_one, laws.one_lt_zero, if_neg Bool.false_ne_true]
    rw [QuantTarget.scale, QuantTarget.scale, hzeros, hone] at hbits
    exact laws.scale_q4_0 hbits
  | q8_0 =>
    have hzero : maxAbs (lit 0 : F) (lit 0) = lit 0 := by
      rw [maxAbs, laws.abs_zero, laws.max_zero_zero]
    have hzeros : absMax (List.replicate m (lit 0 : F)) = lit 0 :=
      foldl_replicate_of_fixed hzero m
    have hone : absMax (List.replicate m (lit 0 : F) ++ lit 1 :: List.replicate n (lit 0)) =
        lit 1 := by
      refine foldl_single hzero ?_ ?_ m n
      · rw [maxAbs, laws.abs_one, laws.max_zero_one]
      · rw [maxAbs, laws.abs_zero, laws.max_one_zero]
    rw [QuantTarget.scale, QuantTarget.scale, hzeros, hone, if_pos laws.zero_beq_zero,
      laws.one_beq_zero, if_neg Bool.false_ne_true] at hbits
    exact laws.scale_q8_0 hbits

/-! ### A payload of zeros and a one -/

theorem drop_replicate_blocks {α : Type} (a : α) (n k : ℕ) :
    (List.replicate n a).drop (n / k * k) = List.replicate (n % k) a := by
  rw [List.drop_replicate, Nat.mul_comm, Nat.mod_def]

/-- The block where zeros end. -/
theorem row_single {α : Type} {k : ℕ} (hk : 0 < k) {a b : α} {n rest : ℕ} :
    row k (List.replicate n a ++ b :: List.replicate rest a) (n / k) =
      List.replicate (n % k) a ++ b :: List.replicate (min (k - n % k - 1) rest) a := by
  have hlt := Nat.mod_lt n hk
  obtain ⟨m, hm⟩ : ∃ m, k - n % k = m + 1 := ⟨k - n % k - 1, by omega⟩
  have hle : n / k * k ≤ (List.replicate n a).length := by
    rw [List.length_replicate]
    exact Nat.div_mul_le_self n k
  rw [row, List.drop_append_of_le_length hle, drop_replicate_blocks, List.take_append,
    List.length_replicate, List.take_of_length_le (by rw [List.length_replicate]; omega), hm,
    List.take_succ_cons, List.take_replicate, Nat.add_sub_cancel]

/-- Little-endian values are read back. -/
theorem dequant_flatMap {α : Type} {key : String} {k : ℕ} (hk : 0 < k) (value : ℕ → α)
    {bits : List ℕ}
    (hbits : ∀ b ∈ bits, b < 256 ^ k) :
    dequant key k value (bits.flatMap (toLe k)) = .ok (bits.map value) := by
  have hlen : (bits.flatMap (toLe k)).length = bits.length * k := by
    induction bits with
    | nil => exact (Nat.zero_mul k).symm
    | cons b bits ih =>
      rw [List.flatMap_cons, List.length_append, length_toLe, List.length_cons, Nat.succ_mul,
        ih fun b hb => hbits b (List.mem_cons_of_mem _ hb), Nat.add_comm]
  refine dequant_eq_ok.mpr ⟨⟨bits.length, by rw [hlen, Nat.mul_comm]⟩, ?_⟩
  refine List.ext_getElem (by rw [List.length_map, List.length_map, List.length_range, hlen,
    Nat.mul_div_cancel _ hk]) fun i hi hi' => ?_
  rw [List.length_map] at hi
  rw [List.getElem_map, List.getElem_map, List.getElem_range,
    row_flatMap (fun b _ => length_toLe k b) hi, fromLe_toLe_of_lt (hbits _ (List.getElem_mem hi))]

/-- The bytes of zeros, a one and zeros, for either type of floats. -/
theorem ZeroOne.exists_blob (laws : ZeroOne F) {sourceType : GgufTensorType}
    (hfloat : sourceType = .f16 ∨ sourceType = .f32) (m n : ℕ) :
    ∃ blob, blob.length = (m + 1 + n) * sourceType.blockBytes ∧ blobToF32 blob sourceType =
      .ok (List.replicate m (lit 0 : F) ++ lit 1 :: List.replicate n (lit 0)) := by
  have hlen : ∀ one k, ((List.replicate m 0 ++ one :: List.replicate n 0).flatMap
      (toLe k)).length = (m + 1 + n) * k := by
    intro one k
    rw [List.length_flatMap]
    simp only [length_toLe, List.map_const', List.length_append,
      List.length_replicate, List.length_cons, List.sum_replicate_nat]
    congr 1
    omega
  have hmem : ∀ {one k b : ℕ}, b ∈ List.replicate m 0 ++ one :: List.replicate n 0 → 0 < k →
      one < k → b < k := by
    intro one k b hb hk hone
    rcases List.mem_append.mp hb with hb | hb
    · rwa [(List.mem_replicate.mp hb).2]
    · rcases List.mem_cons.mp hb with rfl | hb
      · exact hone
      · rwa [(List.mem_replicate.mp hb).2]
  rcases hfloat with rfl | rfl
  · refine ⟨(List.replicate m 0 ++ 0x3C00 :: List.replicate n 0).flatMap (toLe 2), hlen _ 2, ?_⟩
    rw [blobToF32, dequantF16, dequant_flatMap Nat.two_pos _ fun b hb =>
      hmem hb (by decide) (by decide), List.map_append, List.map_cons, List.map_replicate,
      List.map_replicate]
    exact congrArg₂ (fun zero one : F =>
      Except.ok (List.replicate m zero ++ one :: List.replicate n zero))
        laws.ofF16_zero laws.ofF16_one
  · refine ⟨(List.replicate m 0 ++ 0x3F800000 :: List.replicate n 0).flatMap (toLe 4),
      hlen _ 4, ?_⟩
    rw [blobToF32, dequantF32, dequant_flatMap (by decide) _ fun b hb =>
      hmem hb (by decide) (by decide), List.map_append, List.map_cons, List.map_replicate,
      List.map_replicate]
    exact congrArg₂ (fun zero one : F =>
      Except.ok (List.replicate m zero ++ one :: List.replicate n zero))
        laws.ofBits_zero laws.ofBits_one

end Ragged

/-! ### Rows -/

/-- The bytes of a row, as the kernels that read rows count them. -/
def rowBytes (target : QuantTarget) (info : TensorInfo) : ℕ :=
  divCeil info.rowLength 32 * target.asTensorType.blockBytes

/-- The rows of the tensors that were converted are where they are read: the bytes of a tensor
are as many as its new type asks for, and those of a row encode the values of that row
alone. -/
def RowsAddressable (F : Type) [F32 F] (model model' : GgufModel) (plan : QuantPlan) : Prop :=
  ∀ name target info, plan.targetFor name = some target →
    model.file.tensors.get name = .ok info →
    ∃ blob bytes, ∃ weights : List F,
      model.file.tensorData model.data name = .ok blob ∧
      blobToF32 blob info.tensorType = .ok weights ∧
      weights.length = info.rowLength * info.rows ∧
      model'.file.tensors.get name = .ok { info with tensorType := target.asTensorType } ∧
      { info with tensorType := target.asTensorType }.tryDataSize = .ok bytes.length ∧
      model'.tensorData name = .ok bytes ∧
      ∀ r < info.rows, row (rowBytes target info) bytes r =
        target.encode (row info.rowLength weights r)

section Rows

variable {F : Type} [F32 F] {model model' : GgufModel} {plan : QuantPlan}

theorem rowsAddressable_of_dvd (happlied : applyQuantPlan F model plan = (.ok (), model'))
    (h : ∀ name target info, plan.targetFor name = some target →
      model.file.tensors.get name = .ok info → 32 ∣ info.rowLength ∨ info.rows ≤ 1) :
    RowsAddressable F model model' plan := by
  intro name target info htarget hinfo
  obtain ⟨-, blob, hblob, weights, hweights, hcount, hget, hdata, hsize⟩ :=
    converted_of_applied F happlied htarget hinfo
  refine ⟨blob, _, weights, hblob, hweights, hcount, hget, hsize, hdata, fun r hr => ?_⟩
  rw [encode_eq, encode_eq, rowBytes]
  rcases h name target info htarget hinfo with hdvd | hone
  · refine row_encodeBlocks (by decide) (blockEncoder target) hdvd ?_
    rw [hcount, Nat.mul_comm]
    exact Nat.mul_le_mul_left _ hr
  · -- the only row is the whole tensor
    obtain rfl : r = 0 := by omega
    have hwhole : info.rows = 1 := by omega
    rw [hwhole, Nat.mul_one] at hcount
    have hlen := length_encodeBlocks (blockEncoder target) weights
    rw [row, row, Nat.zero_mul, Nat.zero_mul, List.drop_zero, List.drop_zero, ← hcount,
      List.take_length, ← hlen, List.take_length]

theorem tensorData_replace {file : GgufFile} {name : String} {pre blob blob' post : List UInt8}
    (h : file.tensorData (pre ++ blob ++ post) name = .ok blob)
    (hlen : blob'.length = blob.length) (hpre : ∀ info, file.tensors.get name = .ok info →
      pre.length = file.tensors.dataSectionOffset + info.offset.toNat) :
    file.tensorData (pre ++ blob' ++ post) name = .ok blob' := by
  rw [GgufFile.tensorData] at h
  obtain ⟨⟨start, len⟩, hrange, hblob⟩ := except_bind_eq_ok.mp h
  obtain ⟨info, hget, -, hstart, -, hfits⟩ := tensorDataRange_eq_ok.mp hrange
  rw [← hpre info hget] at hstart
  subst hstart
  have hsame : (pre ++ blob' ++ post).length = (pre ++ blob ++ post).length := by
    simp only [List.length_append, hlen]
  have hlen' : len = blob.length := by
    have hblob := congrArg List.length (Except.ok.inj hblob)
    rw [List.length_take, List.length_drop] at hblob
    omega
  rw [GgufFile.tensorData, hsame, hrange]
  show Except.ok (((pre ++ blob' ++ post).drop pre.length).take len) = _
  rw [List.append_assoc, List.drop_left, hlen', ← hlen, List.take_left]

/-- **Rows that blocks run across are not where they are read**: there is a payload of the
same shape, for which the first row is not encoded on its own. -/
theorem ZeroOne.exists_not_addressable (laws : ZeroOne F)
    (happlied : applyQuantPlan F model plan = (.ok (), model')) {name : String}
    {target : QuantTarget} {info : TensorInfo} (htarget : plan.targetFor name = some target)
    (hinfo : model.file.tensors.get name = .ok info) (hdvd : ¬ 32 ∣ info.rowLength)
    (hrows : ¬ info.rows ≤ 1) :
    ∃ data after, data.length = model.data.length ∧
      data.take model.file.tensors.dataSectionOffset =
        model.data.take model.file.tensors.dataSectionOffset ∧
      applyQuantPlan F { model with data } plan = (.ok (), after) ∧
      ¬ RowsAddressable F { model with data } after plan := by
  obtain ⟨hfloat, blob, hblob, -⟩ := converted_of_applied F happlied htarget hinfo
  obtain ⟨_, pre, post, hget, hsize, hdata, hpre⟩ := tensorData_eq_ok hblob
  obtain rfl := Except.ok.inj (hinfo.symm.trans hget)
  obtain ⟨n, hn, hlen, -⟩ := tryDataSize_eq_ok.mp hsize
  have hcount := eq_of_tryNElements hn
  have hlen : blob.length = n * info.tensorType.blockBytes := by
    rcases hfloat with htype | htype <;> rw [htype] at hlen ⊢ <;>
      exact hlen.trans (congrArg (· * _) (divCeil_one n))
  -- zeros, but for the first value of the second row
  have hpos : 0 < info.rowLength := Nat.pos_of_ne_zero fun hzero => hdvd (hzero ▸ dvd_zero 32)
  have htwo : info.rowLength * 2 ≤ info.rowLength * info.rows :=
    Nat.mul_le_mul_left _ (by omega)
  obtain ⟨rest, hrest⟩ : ∃ rest, n = info.rowLength + 1 + rest :=
    ⟨n - (info.rowLength + 1), by omega⟩
  obtain ⟨blob', hlen', hvalues⟩ := laws.exists_blob hfloat info.rowLength rest
  have hsame : blob'.length = blob.length := by rw [hlen', hlen, hrest]
  have hlength : (pre ++ blob' ++ post).length = model.data.length := by
    rw [hdata]
    simp only [List.length_append, hsame]
  have halike : Alike model { model with data := pre ++ blob' ++ post } :=
    ⟨rfl, hlength, fun _ hnone => hnone⟩
  obtain ⟨after, hafter⟩ : ∃ after, applyQuantPlan F
      { model with data := pre ++ blob' ++ post } plan = (.ok (), after) :=
    convertAll_of_alike halike happlied
  refine ⟨_, after, hlength, ?_, hafter, fun haddressable => ?_⟩
  · rw [hdata, List.append_assoc, List.append_assoc, List.take_append_of_le_length (by omega),
      List.take_append_of_le_length (by omega)]
  obtain ⟨blob₁, bytes, weights, hblob₁, hweights, hcount₁, -, -, hbytes, hrow⟩ :=
    haddressable name target info htarget hinfo
  have hblob' : model.file.tensorData (pre ++ blob' ++ post) name = .ok blob' := by
    rw [hdata] at hblob
    refine tensorData_replace hblob hsame fun info' hget' => ?_
    obtain rfl := Except.ok.inj (hinfo.symm.trans hget')
    exact hpre
  obtain rfl := Except.ok.inj (hblob'.symm.trans hblob₁)
  obtain rfl := Except.ok.inj (hvalues.symm.trans hweights)
  obtain ⟨-, blob₂, hblob₂, weights₂, hweights₂, -, -, hbytes₂, -⟩ :=
    converted_of_applied F hafter htarget hinfo
  obtain rfl := Except.ok.inj (hblob'.symm.trans hblob₂)
  obtain rfl := Except.ok.inj (hvalues.symm.trans hweights₂)
  obtain rfl := Except.ok.inj (hbytes₂.symm.trans hbytes)
  have hfirst := hrow 0 (by omega)
  rw [encode_eq, encode_eq, rowBytes] at hfirst
  have hblock := lastBlock_of_row (by decide) (blockEncoder target) hdvd (by
    rw [hcount₁]; omega) hfirst
  -- in the tensor, the block goes on with the first value of the second row
  rw [row_single (by decide), List.take_left' (List.length_replicate ..),
    drop_replicate_blocks] at hblock
  exact laws.encodeBlock_ne target _ _ hblock.symm

/-- **Rows are where they are read, just when no block runs across two of them.**  The plan is
applied to a model; the condition says that it leaves the rows addressable whatever the bytes of
the tensors are. -/
theorem rows_addressable_iff (laws : ZeroOne F)
    (happlied : applyQuantPlan F model plan = (.ok (), model')) :
    (∀ data after, data.length = model.data.length →
      data.take model.file.tensors.dataSectionOffset =
        model.data.take model.file.tensors.dataSectionOffset →
      applyQuantPlan F { model with data } plan = (.ok (), after) →
      RowsAddressable F { model with data } after plan) ↔
    ∀ name target info, plan.targetFor name = some target →
      model.file.tensors.get name = .ok info → 32 ∣ info.rowLength ∨ info.rows ≤ 1 := by
  constructor
  · intro hall name target info htarget hinfo
    by_contra hcon
    obtain ⟨hdvd, hrows⟩ := not_or.mp hcon
    obtain ⟨data, after, hlength, hheader, hafter, hnot⟩ :=
      laws.exists_not_addressable happlied htarget hinfo hdvd hrows
    exact hnot (hall data after hlength hheader hafter)
  · intro h data after _ _ hafter
    exact rowsAddressable_of_dvd hafter h

/-- **Whatever the values, rows need all their blocks**, which a tensor cut in one piece has
fewer of. -/
theorem RowsAddressable.rows_mul_le (h : RowsAddressable F model model' plan)
    (happlied : applyQuantPlan F model plan = (.ok (), model')) {name : String}
    {target : QuantTarget} {info : TensorInfo} (htarget : plan.targetFor name = some target)
    (hinfo : model.file.tensors.get name = .ok info) (hrows : 0 < info.rows) :
    info.rows * rowBytes target info ≤
      divCeil (info.rowLength * info.rows) 32 * target.asTensorType.blockBytes := by
  obtain ⟨blob, bytes, weights, hblob, hweights, hcount, -, -, hbytes, hrow⟩ :=
    h name target info htarget hinfo
  obtain ⟨-, blob', hblob', weights', hweights', -, -, hbytes', -⟩ :=
    converted_of_applied F happlied htarget hinfo
  obtain rfl := Except.ok.inj (hblob.symm.trans hblob')
  obtain rfl := Except.ok.inj (hweights.symm.trans hweights')
  obtain rfl := Except.ok.inj (hbytes'.symm.trans hbytes)
  -- the last row ends with the tensor or before it
  obtain ⟨r, hr⟩ : ∃ r, info.rows = r + 1 := ⟨info.rows - 1, by omega⟩
  have hfull : (row info.rowLength weights r).length = info.rowLength := by
    refine length_row ?_
    rw [hcount, hr, Nat.mul_comm]
  have hlast := congrArg List.length (hrow r (by omega))
  rw [encode_eq, encode_eq, length_encodeBlocks (blockEncoder target), hfull, row,
    List.length_take, List.length_drop, length_encodeBlocks (blockEncoder target), hcount]
    at hlast
  rw [hr] at hlast ⊢
  change min (rowBytes target info) _ = rowBytes target info at hlast
  rcases Nat.eq_zero_or_pos (rowBytes target info) with hzero | hpos
  · rw [hzero, Nat.mul_zero]
    exact Nat.zero_le _
  · rw [Nat.succ_mul]
    omega

end Rows

/-! ### Two files -/

theorem zeroOne_exactFloat : ZeroOne ExactFloat := by
  constructor <;> decide +kernel

/-- A file with a tensor of two rows, all of it zero. -/
def twoRows (dim : UInt64) (tensorType : GgufTensorType) (size : ℕ) : List UInt8 :=
  encodeSectionsAt [] [(⟨"t", [dim, 2], tensorType, size⟩, 0)] ++ List.replicate (32 + size) 0

theorem rows_addressable_iff_twoRows :
    ∃ model after, GgufModel.fromBytes (twoRows 32 .f16 128) = .ok model ∧
      applyQuantPlan ExactFloat model (.uniform .q4_0) = (.ok (), after) ∧
      RowsAddressable ExactFloat model after (.uniform .q4_0) := by
  have hsome : (GgufModel.fromBytes (twoRows 32 .f16 128)).toOption.map (fun model =>
      (model.file.tensors.infos.entries, (applyQuantPlan ExactFloat model (.uniform .q4_0)).1)) =
        some ([⟨"t", "t", 2, [32, 2], .f16, 0⟩], .ok ()) := by
    decide +kernel
  obtain ⟨model, hmodel, heval⟩ := Option.map_eq_some_iff.mp hsome
  obtain ⟨hentries, hok⟩ := Prod.mk.inj heval
  refine ⟨model, _, toOption_eq_some.mp hmodel, Prod.ext hok rfl, ?_⟩
  refine (rows_addressable_iff zeroOne_exactFloat (Prod.ext hok rfl)).mpr ?_ model.data _ rfl rfl
    (Prod.ext hok rfl)
  intro name target info _ hget
  have hmem := AList.mem_lookup_iff.mp (okOr_eq_ok.mp hget)
  rw [hentries, List.mem_singleton] at hmem
  obtain ⟨-, hinfo⟩ := Sigma.mk.inj hmem
  rw [eq_of_heq hinfo]
  exact Or.inl ⟨1, rfl⟩

/-- **Two rows of 33 values take three blocks, and are read from four.** -/
theorem not_addressable_ragged :
    ∃ model after, GgufModel.fromBytes (twoRows 33 .f16 132) = .ok model ∧
      applyQuantPlan ExactFloat model (.uniform .q8_0) = (.ok (), after) ∧
      ¬ RowsAddressable ExactFloat model after (.uniform .q8_0) := by
  have hsome : (GgufModel.fromBytes (twoRows 33 .f16 132)).toOption.map (fun model =>
      (model.file.tensors.get "t", (applyQuantPlan ExactFloat model (.uniform .q8_0)).1)) =
        some (.ok ⟨"t", 2, [33, 2], .f16, 0⟩, .ok ()) := by
    decide +kernel
  obtain ⟨model, hmodel, heval⟩ := Option.map_eq_some_iff.mp hsome
  obtain ⟨hinfo, hok⟩ := Prod.mk.inj heval
  refine ⟨model, _, toOption_eq_some.mp hmodel, Prod.ext hok rfl, fun haddressable => ?_⟩
  have htarget : (QuantPlan.uniform .q8_0).targetFor "t" = some .q8_0 := rfl
  have hle := haddressable.rows_mul_le (Prod.ext hok rfl) htarget hinfo (by decide)
  exact absurd hle (by decide)

end Gguf

end Oxillama
