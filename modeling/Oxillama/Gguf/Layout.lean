/-
The data section of a written file.

* `encodeData` — the tensors, padded so that each starts at its offset;
* `encodeData_located` — where the data of a tensor stands;
* `tensorData_of` — what the parser reads for a tensor: as many bytes as it
  declares, from its offset behind the start of the data section.
-/
import Oxillama.Gguf.RoundTrip

namespace Oxillama

namespace Gguf

/-- The tensor data: every tensor is padded up to the offset of the next one, and
nothing follows the last. -/
def encodeData : ℕ → List (List UInt8) → List UInt8
  | _, [] => []
  | _, [data] => data
  | offset, data :: next :: rest =>
    data ++ (zeroPad (alignmentPadding (offset + data.length) ggufDefaultAlignment) ++
      encodeData (nextOffset offset data.length) (next :: rest))

@[simp] theorem length_zeroPad (n : ℕ) : (zeroPad n).length = n := List.length_replicate

/-! ### Where the tensors stand -/

/-- As long as the offsets are true positions they do not saturate. -/
theorem nextOffset_of_lt {offset size : ℕ}
    (h : offset + size + alignmentPadding (offset + size) ggufDefaultAlignment < 2 ^ 64) :
    nextOffset offset size =
      offset + size + alignmentPadding (offset + size) ggufDefaultAlignment :=
  saturatingAdd_of_lt h

theorem offsetsFit_of_length {offset : ℕ} {datas : List (List UInt8)}
    (h : offset + (encodeData offset datas).length < 2 ^ 64) :
    OffsetsFit offset (datas.map List.length) := by
  induction datas generalizing offset with
  | nil => trivial
  | cons data datas ih =>
    cases datas with
    | nil =>
      rw [encodeData] at h
      exact ⟨h, trivial⟩
    | cons next rest =>
      simp only [encodeData, List.length_append, length_zeroPad] at h
      have hnext : nextOffset offset data.length = _ := nextOffset_of_lt (by omega)
      refine ⟨by omega, ih ?_⟩
      omega

/-- **Where the data of a tensor stands**: as far behind the start of the section
as its offset says. -/
theorem encodeData_located {offset : ℕ} {datas : List (List UInt8)}
    (h : offset + (encodeData offset datas).length < 2 ^ 64) {data : List UInt8} {o : ℕ}
    (hmem : (data, o) ∈ datas.zip (offsetsFrom offset (datas.map List.length))) :
    ∃ before after, encodeData offset datas = before ++ (data ++ after) ∧
      offset + before.length = o := by
  induction datas generalizing offset with
  | nil => cases hmem
  | cons first datas ih =>
    rw [List.map_cons, offsetsFrom, List.zip_cons_cons] at hmem
    cases datas with
    | nil =>
      obtain ⟨rfl, rfl⟩ := Prod.mk.inj (List.mem_singleton.mp hmem)
      exact ⟨[], [], by rw [encodeData, List.append_nil, List.nil_append], rfl⟩
    | cons next rest =>
      rcases List.mem_cons.mp hmem with heq | hmem
      · obtain ⟨rfl, rfl⟩ := Prod.mk.inj heq
        exact ⟨[], _, rfl, rfl⟩
      · -- behind the first tensor and its padding, the section goes on at the next offset
        simp only [encodeData, List.length_append, length_zeroPad] at h
        have hnext : nextOffset offset first.length = _ := nextOffset_of_lt (by omega)
        obtain ⟨before, after, heq, ho⟩ := ih (by omega) hmem
        refine ⟨first ++ (zeroPad (alignmentPadding (offset + first.length)
          ggufDefaultAlignment) ++ before), after, ?_, ?_⟩
        · rw [encodeData, heq]
          simp only [List.append_assoc]
        · simp only [List.length_append, length_zeroPad]
          omega

/-! ### What the parser reads -/

theorem length_encodePrelude (metadata : List (String × MetadataValue))
    (tensorMetas : List TensorMeta) :
    (encodePrelude metadata tensorMetas).length =
      (encodeSections metadata tensorMetas).length +
        alignmentPadding (encodeSections metadata tensorMetas).length ggufDefaultAlignment := by
  rw [encodePrelude, List.length_append, length_zeroPad]

/-- Rounding up is adding the padding. -/
theorem alignUp_eq {value alignment : ℕ} (h : value + alignment < 2 ^ 64) :
    alignUp value alignment = value + alignmentPadding value alignment := by
  unfold alignUp alignmentPadding
  split
  · rfl
  · dsimp only
    split
    · rfl
    · rw [saturatingAdd_of_lt (by omega)]

/-- The tensors' sizes are what the parser computes from their dimensions. -/
def Declared (tensorMetas : List TensorMeta) : Prop :=
  ∀ tensor ∈ tensorMetas,
    computeTensorDataSize tensor.name tensor.dimensions tensor.tensorType = .ok tensor.dataSize

/-- **What the parser reads for a tensor** at an offset of the data section. -/
theorem tensorData_of {metadata : List (String × MetadataValue)} {tensorMetas : List TensorMeta}
    (h : Readable metadata tensorMetas) (hdeclared : Declared tensorMetas) {tensor : TensorMeta}
    {offset start : ℕ} (hmem : (tensor, offset) ∈ located tensorMetas)
    (hstart : start = alignUp (encodeSections metadata tensorMetas).length
      (alignmentOf (.ofList metadata)) + offset)
    (hfit : start + tensor.dataSize < 2 ^ 64) (out : List UInt8) :
    (GgufFile.of metadata tensorMetas).tensorData out tensor.name =
      if start + tensor.dataSize > out.length then .error (.unexpectedEof start)
      else .ok ((out.drop start).take tensor.dataSize) := by
  have hget := h.get_of hmem
  have hoffset : (tensor.infoAt offset).offset.toNat = offset :=
    UInt64.toNat_ofNat_of_lt' (lt_of_mem_offsetsFrom (by decide) (List.of_mem_zip hmem).2)
  have hsize : (tensor.infoAt offset).tryDataSize = .ok tensor.dataSize :=
    hdeclared tensor (List.of_mem_zip hmem).1
  have hbase : checkedAdd (GgufFile.of metadata tensorMetas).tensors.dataSectionOffset offset =
      some start := checkedAdd_eq_some.mpr ⟨by
        show alignUp _ _ + offset < 2 ^ 64
        omega, hstart⟩
  have hstop : checkedAdd start tensor.dataSize = some (start + tensor.dataSize) :=
    checkedAdd_eq_some.mpr ⟨hfit, rfl⟩
  rw [GgufFile.tensorData, GgufFile.tensorDataRange, hget]
  show ((okOr _ (checkedAdd (GgufFile.of metadata tensorMetas).tensors.dataSectionOffset
    (tensor.infoAt offset).offset.toNat) >>= fun abs => (tensor.infoAt offset).tryDataSize >>=
      fun size => _) >>= _) = _
  rw [hoffset, hbase, hsize]
  show ((okOr _ (checkedAdd start tensor.dataSize) >>= _) >>= _) = _
  rw [hstop]
  show ((if start + tensor.dataSize > out.length then _ else _) >>= _) = _
  split <;> rfl

/-! ### What a tensor's data is read back as -/

/-- A tensor and its data have an offset in common. -/
theorem exists_offset {metas : List TensorMeta} {datas : List (List UInt8)}
    (hsizes : datas.map List.length = metas.map TensorMeta.dataSize) {tensor : TensorMeta}
    {data : List UInt8} (hmem : (tensor, data) ∈ metas.zip datas) :
    tensor.dataSize = data.length ∧ ∃ o, (tensor, o) ∈ located metas ∧
      (data, o) ∈ datas.zip (offsetsFrom 0 (datas.map List.length)) := by
  obtain ⟨i, hi, heq⟩ := List.mem_iff_getElem.mp hmem
  rw [List.length_zip, Nat.lt_min] at hi
  rw [List.getElem_zip] at heq
  obtain ⟨rfl, rfl⟩ := Prod.mk.inj heq
  have hoffset : i < (offsetsFrom 0 (datas.map List.length)).length := by
    rw [length_offsetsFrom, List.length_map]
    exact hi.2
  refine ⟨?_, (offsetsFrom 0 (datas.map List.length))[i], ?_, ?_⟩
  · have hsize := congrArg (·[i]?) hsizes
    simp only [List.getElem?_map, List.getElem?_eq_getElem hi.1, List.getElem?_eq_getElem hi.2,
      Option.map_some, Option.some_inj] at hsize
    exact hsize.symm
  · rw [located, ← hsizes]
    exact List.mem_iff_getElem.mpr ⟨i, by rw [List.length_zip]; omega, List.getElem_zip⟩
  · exact List.mem_iff_getElem.mpr ⟨i, by rw [List.length_zip]; omega, List.getElem_zip⟩

/-- The parser accepts no alignment above its largest. -/
theorem le_of_validateAlignment {maxAlignment alignment : ℕ}
    (h : validateAlignment maxAlignment alignment = .ok ()) : alignment ≤ maxAlignment := by
  rw [validateAlignment] at h
  by_cases hzero : alignment = 0
  · omega
  · rw [if_neg hzero] at h
    by_contra hgt
    rw [if_pos (by simp only [Bool.or_eq_true, decide_eq_true_eq]; exact .inr (by omega))] at h
    cases h

section

variable {metadata : List (String × MetadataValue)} {metas : List TensorMeta}

/-- Where the parser takes the data section to start. -/
theorem dataStart_eq (h : Readable metadata metas)
    (hlen : (encodeSections metadata metas).length < 2 ^ 63) :
    alignUp (encodeSections metadata metas).length (alignmentOf (.ofList metadata)) =
      (encodeSections metadata metas).length +
        alignmentPadding (encodeSections metadata metas).length
          (alignmentOf (.ofList metadata)) := by
  have hmax := le_of_validateAlignment h.alignment
  exact alignUp_eq (Nat.lt_of_lt_of_le (Nat.add_lt_add_of_lt_of_le hlen hmax) (by decide))

/-- Where the writer lets the data section start. -/
theorem length_encodePrelude_eq (hlen : (encodeSections metadata metas).length < 2 ^ 63) :
    (encodePrelude metadata metas).length =
      alignUp (encodeSections metadata metas).length ggufDefaultAlignment := by
  have hfit := Nat.lt_of_lt_of_le (Nat.add_lt_add_right hlen ggufDefaultAlignment)
    (show 2 ^ 63 + ggufDefaultAlignment ≤ 2 ^ 64 by decide)
  rw [length_encodePrelude, alignUp_eq hfit]

/-- **The payload round trip.**  Where the parser takes the data section to start
where the writer starts it, every tensor is read back. -/
theorem tensorData_eq (h : Readable metadata metas) (hdeclared : Declared metas)
    {datas : List (List UInt8)} (hsizes : datas.map List.length = metas.map TensorMeta.dataSize)
    (hlen : (encodePrelude metadata metas ++ encodeData 0 datas).length < 2 ^ 63)
    (haligned : alignUp (encodeSections metadata metas).length (alignmentOf (.ofList metadata)) =
      alignUp (encodeSections metadata metas).length ggufDefaultAlignment)
    {tensor : TensorMeta} {data : List UInt8} (hmem : (tensor, data) ∈ metas.zip datas) :
    (GgufFile.of metadata metas).tensorData (encodePrelude metadata metas ++ encodeData 0 datas)
      tensor.name = .ok data := by
  rw [List.length_append] at hlen
  have hsections : (encodeSections metadata metas).length < 2 ^ 63 := by
    rw [length_encodePrelude] at hlen
    omega
  obtain ⟨hsize, o, hlocated, hdata⟩ := exists_offset hsizes hmem
  obtain ⟨before, after, heq, ho⟩ := encodeData_located (by omega) hdata
  have htotal : before.length + (data.length + after.length) = (encodeData 0 datas).length := by
    rw [heq, List.length_append, List.length_append]
  have habs : (encodePrelude metadata metas).length + o =
      alignUp (encodeSections metadata metas).length (alignmentOf (.ofList metadata)) + o := by
    rw [haligned, length_encodePrelude_eq hsections]
  rw [tensorData_of h hdeclared hlocated habs (by omega), if_neg]
  · have hstart : encodePrelude metadata metas ++ encodeData 0 datas =
        (encodePrelude metadata metas ++ before) ++ (data ++ after) := by
      rw [heq, List.append_assoc]
    have hpos : (encodePrelude metadata metas).length + o =
        (encodePrelude metadata metas ++ before).length := by
      rw [List.length_append]
      omega
    rw [hstart, hpos, List.drop_left, hsize, List.take_left]
  · rw [List.length_append]
    omega

end

/-- A file from which other data is read, or none. -/
theorem not_tensorData_of_ne {out data : List UInt8} {name : String}
    (h : ((GgufFile.parse out).toOption.bind fun file => (file.tensorData out name).toOption) ≠
      some data) :
    ¬ ∃ file, GgufFile.parse out = .ok file ∧ file.tensorData out name = .ok data := by
  rintro ⟨file, hparse, hdata⟩
  rw [hparse] at h
  exact h (congrArg Except.toOption hdata)

end Gguf

end Oxillama
