/-
What becomes of the tensors of a safetensors file.

The importer compares the range of a tensor with the file, and never with the
size that its type and its shape imply.

* `entries_of_parseEntries` — what the loop over the header has checked;
* `buildSyntheticGguf_eq` — the synthetic file is one the parser reads back;
* `imported_of_fitting` — a tensor whose range has the size of its type and shape;
* `payloads_imported_iff` — **those are exactly the files that are imported whole**.
-/
import Oxillama.Gguf.Safetensors
import Oxillama.Gguf.Access
import Oxillama.Gguf.Layout

namespace Oxillama

namespace Gguf

/-! ### The infos of an accepted file -/

section Infos

variable {data : List UInt8} {file : GgufFile} {version : UInt32} {n : ℕ}
  {store store' : TensorStore} {r r' : BinaryReader} {info : TensorInfo} {name : String}

theorem dims_of_readTensorInfo {maxDims : ℕ}
    (h : BinaryReader.readTensorInfo maxDims version r = .ok (info, r')) :
    1 ≤ info.dimensions.length ∧ info.dimensions.length ≤ maxDims := by
  obtain ⟨name, r₁, -, h⟩ := bind_eq_ok.mp h
  obtain ⟨nDims, r₂, -, h⟩ := bind_eq_ok.mp h
  split at h
  · cases h
  · rename_i hvalid
    obtain ⟨dimensions, r₃, hdims, h⟩ := bind_eq_ok.mp h
    obtain ⟨typeId, r₄, -, h⟩ := bind_eq_ok.mp h
    obtain ⟨tensorType, r₅, -, h⟩ := bind_eq_ok.mp h
    obtain ⟨offset, r₆, -, h⟩ := bind_eq_ok.mp h
    obtain ⟨rfl, -⟩ := Prod.mk.inj (Except.ok.inj h)
    have hlen : dimensions.length = 0 + nDims.toNat := length_of_collect hdims
    rw [not_or, ← UInt32.toNat_inj] at hvalid
    have hpos : nDims.toNat ≠ 0 := hvalid.1
    show 1 ≤ dimensions.length ∧ dimensions.length ≤ maxDims
    omega

/-- Every tensor of a store is stored under its name and has 1 to 4 dimensions. -/
def TensorStore.WellFormed (store : TensorStore) : Prop :=
  ∀ name info, store.infos.lookup name = some info →
    info.name = name ∧ 1 ≤ info.dimensions.length ∧ info.dimensions.length ≤ 4

theorem wellFormed_of_parse (h : iterM (Parser.parseTensorInfo version) n store r =
    .ok (store', r')) (hstore : store.WellFormed) : store'.WellFormed := by
  induction n generalizing store r with
  | zero =>
    obtain ⟨rfl, -⟩ := Prod.mk.inj (Except.ok.inj h)
    exact hstore
  | succ n ih =>
    obtain ⟨store₁, r₁, hone, hrest⟩ := bind_eq_ok.mp h
    obtain ⟨info₁, hread, hinsert⟩ := parseTensorInfo_eq_ok.mp hone
    obtain ⟨-, rfl⟩ := tryInsert_eq_ok.mp hinsert
    refine ih hrest fun name info hlookup => ?_
    have hlookup : (store.infos.insert info₁.name info₁).lookup name = some info := hlookup
    by_cases hname : name = info₁.name
    · subst hname
      rw [AList.lookup_insert] at hlookup
      obtain rfl := Option.some.inj hlookup
      exact ⟨rfl, dims_of_readTensorInfo hread⟩
    · rw [AList.lookup_insert_ne hname] at hlookup
      exact hstore name info hlookup

/-- **The infos of an accepted file.** -/
theorem wellFormed_of_accepted (h : GgufFile.parse data = .ok file) : file.tensors.WellFormed := by
  obtain ⟨pos, -, header, offset, -, hbody⟩ := exists_parsedTo h
  obtain ⟨metadata, r₁, -, hbody⟩ := bind_eq_ok.mp hbody
  obtain ⟨_, r₂, -, hbody⟩ := bind_eq_ok.mp hbody
  obtain ⟨tensors, r₃, htensors, hbody⟩ := bind_eq_ok.mp hbody
  obtain ⟨pos', r₄, -, hbody⟩ := bind_eq_ok.mp hbody
  obtain ⟨rfl, -⟩ := Prod.mk.inj (Except.ok.inj hbody)
  obtain ⟨store, r₅, hloop, hcount⟩ := bind_eq_ok.mp htensors
  split at hcount
  · cases hcount
  · obtain ⟨rfl, -⟩ := Prod.mk.inj (Except.ok.inj hcount)
    have hstore : store.WellFormed := by
      refine wellFormed_of_parse hloop fun name info hlookup => ?_
      cases hlookup
    exact hstore

end Infos

/-- **What the parser reads for a tensor at a given offset**: its part of the data section,
which follows the padding. -/
theorem tensorData_ofAt {metadata : List (String × MetadataValue)}
    {tensors : List (TensorMeta × ℕ)} (h : ReadableAt metadata tensors) {tensor : TensorMeta}
    {offset size : ℕ} (hmem : (tensor, offset) ∈ tensors)
    (hsize : (tensor.infoAt offset).tryDataSize = .ok size) {data slice : List UInt8}
    (hdata : data = encodeSectionsAt metadata tensors ++
      (zeroPad (alignmentPadding (encodeSectionsAt metadata tensors).length
        (alignmentOf (.ofList metadata))) ++ slice)) (hfits : offset + size ≤ slice.length)
    (hlen : data.length + alignmentOf (.ofList metadata) < 2 ^ 64) :
    (GgufFile.ofAt metadata tensors).tensorData data tensor.name =
      .ok ((slice.drop offset).take size) := by
  have hdataLen := congrArg List.length hdata
  rw [List.length_append, List.length_append, length_zeroPad] at hdataLen
  have hoffset : (tensor.infoAt offset).offset.toNat = offset :=
    UInt64.toNat_ofNat_of_lt' (h.offsets _ hmem)
  have hstart : (GgufFile.ofAt metadata tensors).tensors.dataSectionOffset =
      (encodeSectionsAt metadata tensors).length + alignmentPadding
        (encodeSectionsAt metadata tensors).length (alignmentOf (.ofList metadata)) :=
    alignUp_eq (by omega)
  have hrange : (GgufFile.ofAt metadata tensors).tensorDataRange data.length tensor.name =
      .ok ((GgufFile.ofAt metadata tensors).tensors.dataSectionOffset + offset, size) := by
    refine tensorDataRange_eq_ok.mpr ⟨_, h.get_of hmem, hsize, ?_, ?_, ?_⟩
    · rw [hoffset]
    · omega
    · omega
  have hdrop : data.drop ((GgufFile.ofAt metadata tensors).tensors.dataSectionOffset + offset) =
      slice.drop offset := by
    rw [hdata, ← List.append_assoc, ← List.drop_drop, List.drop_left']
    rw [List.length_append, length_zeroPad, hstart]
  rw [GgufFile.tensorData, hrange]
  show Except.ok ((data.drop _).take _) = _
  rw [hdrop]

namespace Safetensors

open Schema (Value)

/-! ### The header -/

section Header

variable {start len maxEnd maxEnd' : ℕ} {members : List (Σ _ : String, Value)}
  {tensors tensors' : List ParsedTensor} {name : String} {desc : Value} {raw : RawTensorEntry}

theorem start_le_end (h : parseTensorEntry name desc = .ok raw) : raw.dataStart ≤ raw.dataEnd := by
  obtain ⟨obj, -, h⟩ := except_bind_eq_ok.mp h
  obtain ⟨dtypeStr, -, h⟩ := except_bind_eq_ok.mp h
  obtain ⟨dtype, -, h⟩ := except_bind_eq_ok.mp h
  obtain ⟨shapeArr, -, h⟩ := except_bind_eq_ok.mp h
  obtain ⟨dimensions, -, h⟩ := except_bind_eq_ok.mp h
  obtain ⟨offsetsArr, -, h⟩ := except_bind_eq_ok.mp h
  split at h
  · obtain ⟨dataStart, -, h⟩ := except_bind_eq_ok.mp h
    obtain ⟨dataEnd, -, h⟩ := except_bind_eq_ok.mp h
    split at h
    · cases h
    · rename_i hle
      obtain rfl := Except.ok.inj h
      exact not_lt.mp hle
  · cases h

/-- The tensor that the loop keeps of an entry. -/
def RawTensorEntry.located (start : ℕ) (raw : String × RawTensorEntry) : ParsedTensor :=
  ⟨raw.1, raw.2.dtype, raw.2.dimensions, start + raw.2.dataStart⟩

/-- The entries of a header: one for every member but the metadata, and none of them ends
behind `maxEnd`. -/
structure Entries (start : ℕ) (members : List (Σ _ : String, Value))
    (raws : List (String × RawTensorEntry)) (maxEnd : ℕ) : Prop where
  names : (raws.map Prod.fst).Sublist (members.map Sigma.fst)
  entry : ∀ name raw, (name, raw) ∈ raws → ∃ desc, ⟨name, desc⟩ ∈ members ∧
    name ≠ safetensorsMetaKey ∧ parseTensorEntry name desc = .ok raw
  covered : ∀ name desc, ⟨name, desc⟩ ∈ members → name ≠ safetensorsMetaKey →
    ∃ raw, parseTensorEntry name desc = .ok raw ∧ (name, raw) ∈ raws
  le_maxEnd : ∀ name raw, (name, raw) ∈ raws → start + raw.dataEnd ≤ maxEnd

/-- **What the loop over the header has checked.** -/
theorem entries_of_parseEntries
    (h : parseEntries start len members tensors maxEnd = .ok (tensors', maxEnd')) :
    ∃ raws, tensors' = tensors ++ raws.map (RawTensorEntry.located start) ∧
      Entries start members raws maxEnd' ∧ maxEnd ≤ maxEnd' ∧ (maxEnd ≤ len → maxEnd' ≤ len) := by
  induction members generalizing tensors maxEnd with
  | nil =>
    obtain ⟨rfl, rfl⟩ := Prod.mk.inj (Except.ok.inj h)
    refine ⟨[], (List.append_nil _).symm, ⟨.slnil, ?_, ?_, ?_⟩, le_rfl, id⟩
    · intro _ _ hmem
      cases hmem
    · intro _ _ hmem
      cases hmem
    · intro _ _ hmem
      cases hmem
  | cons member members ih =>
    obtain ⟨name, desc⟩ := member
    rw [parseEntries] at h
    split at h
    · -- the metadata is not looked at
      rename_i hmeta
      obtain ⟨raws, htensors, hraws, hmax, hlen⟩ := ih h
      refine ⟨raws, htensors, ⟨hraws.names.trans (List.sublist_cons_self _ _), ?_, ?_,
        hraws.le_maxEnd⟩, hmax, hlen⟩
      · intro name' raw hmem
        obtain ⟨desc', hdesc, hrest⟩ := hraws.entry name' raw hmem
        exact ⟨desc', List.mem_cons_of_mem _ hdesc, hrest⟩
      · intro name' desc' hmem hne
        rcases List.mem_cons.mp hmem with heq | hmem
        · obtain ⟨rfl, -⟩ := Sigma.mk.inj heq
          exact absurd hmeta hne
        · exact hraws.covered name' desc' hmem hne
    · rename_i hmeta
      obtain ⟨raw, hraw, h⟩ := except_bind_eq_ok.mp h
      obtain ⟨absStart, hstart, h⟩ := except_bind_eq_ok.mp h
      obtain ⟨absEnd, hend, h⟩ := except_bind_eq_ok.mp h
      obtain ⟨-, rfl⟩ := checkedAdd_eq_some.mp (okOr_eq_ok.mp hstart)
      obtain ⟨-, rfl⟩ := checkedAdd_eq_some.mp (okOr_eq_ok.mp hend)
      split at h
      · cases h
      · rename_i hfits
        obtain ⟨raws, rfl, hraws, hmax, hlen⟩ := ih h
        have hmax : max maxEnd (start + raw.dataEnd) ≤ maxEnd' := by
          split at hmax <;> omega
        refine ⟨(name, raw) :: raws, ?_, ⟨hraws.names.cons_cons name, ?_, ?_, ?_⟩, by omega, ?_⟩
        · rw [List.append_assoc]
          rfl
        · intro name' raw' hmem
          rcases List.mem_cons.mp hmem with heq | hmem
          · obtain ⟨rfl, rfl⟩ := Prod.mk.inj heq
            exact ⟨desc, List.mem_cons_self, hmeta, hraw⟩
          · obtain ⟨desc', hdesc, hrest⟩ := hraws.entry name' raw' hmem
            exact ⟨desc', List.mem_cons_of_mem _ hdesc, hrest⟩
        · intro name' desc' hmem hne
          rcases List.mem_cons.mp hmem with heq | hmem
          · obtain ⟨rfl, hdesc⟩ := Sigma.mk.inj heq
            obtain rfl := eq_of_heq hdesc
            exact ⟨raw, hraw, List.mem_cons_self⟩
          · obtain ⟨raw', hraw', hin⟩ := hraws.covered name' desc' hmem hne
            exact ⟨raw', hraw', List.mem_cons_of_mem _ hin⟩
        · intro name' raw' hmem
          rcases List.mem_cons.mp hmem with heq | hmem
          · obtain ⟨rfl, rfl⟩ := Prod.mk.inj heq
            omega
          · exact hraws.le_maxEnd name' raw' hmem
        · intro hle
          refine hlen ?_
          split <;> omega

end Header

/-! ### The synthetic file -/

/-- The metadata of the synthetic file. -/
def syntheticMetadata : List (String × MetadataValue) :=
  [("general.architecture", .string "safetensors_import")]

/-- An entry as a tensor at its offset of the data section. -/
def RawTensorEntry.atOffset (raw : String × RawTensorEntry) : TensorMeta × ℕ :=
  (⟨raw.1, raw.2.dimensions, raw.2.dtype, raw.2.dataEnd - raw.2.dataStart⟩, raw.2.dataStart)

theorem alignmentOf_synthetic : alignmentOf (.ofList syntheticMetadata) = ggufDefaultAlignment :=
  rfl

theorem writeTensorInfo_located (start : ℕ) (raw : String × RawTensorEntry) :
    writeTensorInfo start (RawTensorEntry.located start raw) =
      encodeTensorInfo (RawTensorEntry.atOffset raw) := by
  simp only [writeTensorInfo, RawTensorEntry.located, Nat.add_sub_cancel_left, List.append_assoc]
  rfl

/-- **The synthetic file** is a file of the format, and the data section behind it. -/
theorem buildSyntheticGguf_eq (start : ℕ) (raws : List (String × RawTensorEntry))
    (slice : List UInt8) :
    buildSyntheticGguf (raws.map (RawTensorEntry.located start)) slice start =
      encodeSectionsAt syntheticMetadata (raws.map RawTensorEntry.atOffset) ++
        (zeroPad (alignmentPadding (encodeSectionsAt syntheticMetadata
          (raws.map RawTensorEntry.atOffset)).length ggufDefaultAlignment) ++ slice) := by
  have hinfos : (raws.map (RawTensorEntry.located start)).flatMap (writeTensorInfo start) =
      (raws.map RawTensorEntry.atOffset).flatMap encodeTensorInfo := by
    rw [List.flatMap_map, List.flatMap_map]
    exact List.flatMap_congr fun raw _ => writeTensorInfo_located start raw
  have hsections : toLe 4 ggufMagic.toNat ++ toLe 4 3 ++
      toLe 8 (raws.map (RawTensorEntry.located start)).length ++ toLe 8 1 ++
      (writeGgufString "general.architecture" ++ toLe 4 8 ++
        writeGgufString "safetensors_import") ++
      (raws.map (RawTensorEntry.located start)).flatMap (writeTensorInfo start) =
      encodeSectionsAt syntheticMetadata (raws.map RawTensorEntry.atOffset) := by
    rw [hinfos, encodeSectionsAt, encodeHeader, List.length_map, List.length_map]
    simp only [syntheticMetadata, List.flatMap_cons, List.flatMap_nil, List.append_nil,
      List.append_assoc]
    rfl
  rw [buildSyntheticGguf, hsections]
  generalize encodeSectionsAt syntheticMetadata (raws.map RawTensorEntry.atOffset) = sections
  rw [← List.append_assoc]
  congr 1
  have hpos : ggufDefaultAlignment ≠ 0 := by decide
  rw [alignmentPadding, if_neg hpos]
  dsimp only
  by_cases hrem : sections.length % ggufDefaultAlignment = 0
  · rw [if_neg (not_not.mpr hrem), if_pos hrem]
    exact (List.append_nil _).symm
  · rw [if_pos hrem, if_neg hrem]
    rfl

theorem readable_synthetic {start maxEnd : ℕ} {members : List (Σ _ : String, Value)}
    {raws : List (String × RawTensorEntry)} (h : Entries start members raws maxEnd)
    (hnodup : (members.map Sigma.fst).Nodup) (hmax : maxEnd - start < 2 ^ 64)
    (hdims : ∀ name raw, (name, raw) ∈ raws →
      1 ≤ raw.dimensions.length ∧ raw.dimensions.length ≤ 4) :
    ReadableAt syntheticMetadata (raws.map RawTensorEntry.atOffset) where
  fits entry hmem := by
    obtain rfl := List.mem_singleton.mp hmem
    exact trivial
  alignment := rfl
  names := by
    rw [List.map_map]
    exact h.names.nodup hnodup
  dims tensor hmem := by
    obtain ⟨⟨name, raw⟩, hraw, rfl⟩ := List.mem_map.mp hmem
    exact hdims name raw hraw
  offsets tensor hmem := by
    obtain ⟨⟨name, raw⟩, hraw, rfl⟩ := List.mem_map.mp hmem
    obtain ⟨desc, -, -, hparse⟩ := h.entry name raw hraw
    have hle := start_le_end hparse
    have hend := h.le_maxEnd name raw hraw
    show raw.dataStart < 2 ^ 64
    omega

/-! ### What is imported -/

section Imported

variable {fromSlice : List UInt8 → Except String (AList fun _ : String => Value)}
  {bytes : List UInt8} {model : GgufModel} {name : String} {desc : Value} {raw : RawTensorEntry}

/-- Where the data section of a safetensors file starts. -/
def dataSectionStart (bytes : List UInt8) : ℕ := 8 + fromLe (bytes.take 8)

/-- The bytes of the range of an entry. -/
def RawTensorEntry.payload (raw : RawTensorEntry) (bytes : List UInt8) : List UInt8 :=
  (bytes.drop (dataSectionStart bytes + raw.dataStart)).take (raw.dataEnd - raw.dataStart)

/-- The header of a safetensors file describes a tensor. -/
def Names (fromSlice : List UInt8 → Except String (AList fun _ : String => Value))
    (bytes : List UInt8) (name : String) (desc : Value) : Prop :=
  ∃ root, fromSlice ((bytes.drop 8).take (fromLe (bytes.take 8))) = .ok root ∧
    root.lookup name = some desc ∧ name ≠ safetensorsMetaKey

/-- A tensor is in a model with the type and the shape that are declared, and `tensor_data`
answers the bytes of its range, as many as the type and the shape imply. -/
def Imported (model : GgufModel) (bytes : List UInt8) (name : String) (desc : Value) : Prop :=
  ∃ raw info, parseTensorEntry name desc = .ok raw ∧ model.file.tensors.get name = .ok info ∧
    info.tensorType = raw.dtype ∧ info.dimensions = raw.dimensions ∧
    info.tryDataSize = .ok (raw.payload bytes).length ∧
    model.tensorData name = .ok (raw.payload bytes)

/-- The range of a tensor is as long as its type and its shape imply, and the shape is one
that a tensor of the target format can have. -/
def Fitting (name : String) (desc : Value) : Prop :=
  ∃ raw, parseTensorEntry name desc = .ok raw ∧
    (1 ≤ raw.dimensions.length ∧ raw.dimensions.length ≤ 4) ∧
    computeTensorDataSize name raw.dimensions raw.dtype = .ok (raw.dataEnd - raw.dataStart)

/-- What `from_bytes` has made of a file that it accepts. -/
theorem exists_synthetic (h : fromBytes fromSlice bytes = .ok model) :
    ∃ root raws maxEnd file,
      fromSlice ((bytes.drop 8).take (fromLe (bytes.take 8))) = .ok root ∧
      Entries (dataSectionStart bytes) root.entries raws maxEnd ∧ maxEnd ≤ bytes.length ∧
      model.data = encodeSectionsAt syntheticMetadata (raws.map RawTensorEntry.atOffset) ++
        (zeroPad (alignmentPadding (encodeSectionsAt syntheticMetadata
          (raws.map RawTensorEntry.atOffset)).length ggufDefaultAlignment) ++
        (bytes.drop (dataSectionStart bytes)).take (maxEnd - dataSectionStart bytes)) ∧
      GgufFile.parse model.data = .ok file ∧ model = ⟨file, model.data, ∅⟩ := by
  rw [fromBytes] at h
  split at h
  · cases h
  · obtain ⟨jsonEnd, hend, h⟩ := except_bind_eq_ok.mp h
    obtain ⟨-, rfl⟩ := checkedAdd_eq_some.mp (okOr_eq_ok.mp hend)
    obtain ⟨jsonBytes, hjson, h⟩ := except_bind_eq_ok.mp h
    obtain ⟨-, -, rfl⟩ := sliceRange_eq_some.mp (okOr_eq_ok.mp hjson)
    rw [Nat.add_sub_cancel_left] at h
    obtain ⟨root, hroot, h⟩ := except_bind_eq_ok.mp h
    obtain ⟨⟨tensors, maxEnd⟩, hentries, h⟩ := except_bind_eq_ok.mp h
    obtain ⟨raws, rfl, hraws, -, hlen⟩ := entries_of_parseEntries hentries
    obtain ⟨file, hfile, rfl⟩ := fromBytes_eq_ok.mp h
    rw [List.nil_append, buildSyntheticGguf_eq] at hfile ⊢
    have hslice : (if maxEnd > 8 + fromLe (bytes.take 8) then
        (bytes.drop (8 + fromLe (bytes.take 8))).take (maxEnd - (8 + fromLe (bytes.take 8)))
        else []) = (bytes.drop (dataSectionStart bytes)).take
          (maxEnd - dataSectionStart bytes) := by
      split
      · rfl
      · rename_i hle
        have hzero : maxEnd - dataSectionStart bytes = 0 := Nat.sub_eq_zero_of_le (not_lt.mp hle)
        rw [hzero, List.take_zero]
    rw [hslice] at hfile ⊢
    refine ⟨root, raws, maxEnd, file, ?_, hraws, hlen (Nat.zero_le _), rfl, hfile, rfl⟩
    cases hfrom : fromSlice ((bytes.drop 8).take (fromLe (bytes.take 8))) with
    | error e =>
      rw [hfrom] at hroot
      cases hroot
    | ok root' =>
      rw [hfrom] at hroot
      obtain rfl := Except.ok.inj hroot
      rfl

/-- A described tensor is one of the entries. -/
theorem exists_entry {root : AList fun _ : String => Value}
    {raws : List (String × RawTensorEntry)} {maxEnd : ℕ}
    (hroot : fromSlice ((bytes.drop 8).take (fromLe (bytes.take 8))) = .ok root)
    (hraws : Entries (dataSectionStart bytes) root.entries raws maxEnd)
    (hnames : Names fromSlice bytes name desc) :
    ∃ raw, parseTensorEntry name desc = .ok raw ∧ (name, raw) ∈ raws := by
  obtain ⟨root', hroot', hlookup, hmeta⟩ := hnames
  rw [hroot] at hroot'
  obtain rfl := Except.ok.inj hroot'
  exact hraws.covered name desc (AList.mem_lookup_iff.mp hlookup) hmeta

/-- A range inside of the file has as many bytes as it is long. -/
theorem length_payload (h : dataSectionStart bytes + raw.dataEnd ≤ bytes.length) :
    (raw.payload bytes).length = raw.dataEnd - raw.dataStart := by
  rw [RawTensorEntry.payload, List.length_take, List.length_drop]
  omega

/-- The range of an entry, inside of the part of the data section that is kept. -/
theorem payload_of_kept {maxEnd : ℕ} (h : dataSectionStart bytes + raw.dataEnd ≤ maxEnd) :
    (((bytes.drop (dataSectionStart bytes)).take (maxEnd - dataSectionStart bytes)).drop
      raw.dataStart).take (raw.dataEnd - raw.dataStart) = raw.payload bytes := by
  rw [List.drop_take, List.take_take, List.drop_drop, RawTensorEntry.payload]
  congr 1
  omega

/-- **Tensors whose ranges fit are imported.** -/
theorem imported_of_fitting (h : fromBytes fromSlice bytes = .ok model)
    (hlen : model.data.length < 2 ^ 63)
    (hfit : ∀ name desc, Names fromSlice bytes name desc → Fitting name desc)
    (hnames : Names fromSlice bytes name desc) : Imported model bytes name desc := by
  obtain ⟨root, raws, maxEnd, file, hroot, hraws, hmax, hdata, hfile, hmodel⟩ :=
    exists_synthetic h
  have hfits : ∀ name raw, (name, raw) ∈ raws → (1 ≤ raw.dimensions.length ∧
      raw.dimensions.length ≤ 4) ∧ computeTensorDataSize name raw.dimensions raw.dtype =
        .ok (raw.dataEnd - raw.dataStart) := by
    intro name raw hmem
    obtain ⟨desc, hdesc, hmeta, hparse⟩ := hraws.entry name raw hmem
    obtain ⟨raw', hparse', hfits⟩ :=
      hfit name desc ⟨root, hroot, AList.mem_lookup_iff.mpr hdesc, hmeta⟩
    rw [hparse] at hparse'
    obtain rfl := Except.ok.inj hparse'
    exact hfits
  obtain ⟨raw, hparse, hmem⟩ := exists_entry hroot hraws hnames
  have hend := hraws.le_maxEnd name raw hmem
  have hkept := payload_of_kept hend
  have hlenPayload : (raw.payload bytes).length = raw.dataEnd - raw.dataStart :=
    length_payload (hend.trans hmax)
  have hdataLen := congrArg List.length hdata
  rw [List.length_append, List.length_append, List.length_take, List.length_drop] at hdataLen
  -- the parser finds the tensors where the importer has put them
  have hread : ReadableAt syntheticMetadata (raws.map RawTensorEntry.atOffset) :=
    readable_synthetic hraws root.nodupKeys (by omega) fun name raw hmem => (hfits name raw hmem).1
  have hof : file = .ofAt syntheticMetadata (raws.map RawTensorEntry.atOffset) := by
    refine Except.ok.inj (hfile.symm.trans ?_)
    rw [hdata]
    exact parse_encodeSectionsAt hread (by omega) _
  have hatOffset := List.mem_map_of_mem (f := RawTensorEntry.atOffset) hmem
  have hsize : TensorInfo.tryDataSize
      ((RawTensorEntry.atOffset (name, raw)).1.infoAt raw.dataStart) =
        .ok (raw.payload bytes).length := hlenPayload.symm ▸ (hfits name raw hmem).2
  refine ⟨raw, _, hparse, ?_, rfl, rfl, hsize, ?_⟩
  · rw [hmodel, hof]
    exact hread.get_of hatOffset
  · have hle := start_le_end hparse
    have hslice : raw.dataStart + (raw.payload bytes).length ≤ ((bytes.drop
        (dataSectionStart bytes)).take (maxEnd - dataSectionStart bytes)).length := by
      rw [List.length_take, List.length_drop]
      omega
    have halign : model.data.length + alignmentOf (.ofList syntheticMetadata) < 2 ^ 64 := by
      rw [alignmentOf_synthetic, ggufDefaultAlignment]
      omega
    have hanswer := tensorData_ofAt hread hatOffset hsize hdata hslice halign
    rw [hlenPayload, hkept] at hanswer
    rw [hmodel, hof]
    exact hanswer

/-- **Exactly the files in which every range fits are imported whole.**  For every file that
is accepted: each tensor of its header has its declared type and shape in the model, and
`tensor_data` answers the bytes of its range and as many as type and shape imply, if and
only if each range is as long as type and shape imply.  (No `Vec<u8>` holds `2 ^ 63` bytes.) -/
theorem payloads_imported_iff (h : fromBytes fromSlice bytes = .ok model)
    (hlen : model.data.length < 2 ^ 63) :
    (∀ name desc, Names fromSlice bytes name desc → Imported model bytes name desc) ↔
      ∀ name desc, Names fromSlice bytes name desc → Fitting name desc := by
  refine ⟨fun himported name desc hnames => ?_, fun hfit name desc hnames =>
    imported_of_fitting h hlen hfit hnames⟩
  obtain ⟨root, raws, maxEnd, file, hroot, hraws, hmax, -, hfile, hmodel⟩ := exists_synthetic h
  obtain ⟨raw, hparse, hmem⟩ := exists_entry hroot hraws hnames
  obtain ⟨raw', info, hparse', hget, htype, hdims, hsize, -⟩ := himported name desc hnames
  rw [hparse] at hparse'
  obtain rfl := Except.ok.inj hparse'
  rw [length_payload ((hraws.le_maxEnd name raw hmem).trans hmax)] at hsize
  rw [hmodel] at hget
  obtain ⟨rfl, hone, hfour⟩ := wellFormed_of_accepted hfile name info (okOr_eq_ok.mp hget)
  refine ⟨raw, hparse, hdims ▸ ⟨hone, hfour⟩, ?_⟩
  rw [← htype, ← hdims]
  exact hsize

/-- A safetensors file. -/
def fileOf (header : String) (data : List UInt8) : List UInt8 :=
  toLe 8 (encodeUtf8 header).length ++ encodeUtf8 header ++ data

/-- A decoder of one header, which describes one tensor. -/
def readHeader (header name : String) (desc : Value) (bytes : List UInt8) :
    Except String (AList fun _ : String => Value) :=
  if bytes = encodeUtf8 header then .ok (AList.singleton name desc)
  else .error "expected value at line 1 column 1"

/-- The description of a tensor of one dimension. -/
def descOf (dtype : String) (dim first second : ℕ) : Value :=
  .object [("dtype", .string dtype), ("shape", .array [.number (.posInt dim)]),
    ("data_offsets", .array [.number (.posInt first), .number (.posInt second)])]

/-- `{"t":{"dtype":"F32","shape":[2],"data_offsets":[0,8]}}` -/
def floatHeader : String :=
  "\x7b\"t\":\x7b\"dtype\":\"F32\",\"shape\":[2],\"data_offsets\":[0,8]\x7d\x7d"

theorem payloads_imported_iff_float :
    ∃ model, fromBytes (readHeader floatHeader "t" (descOf "F32" 2 0 8))
      (fileOf floatHeader [1, 2, 3, 4, 5, 6, 7, 8]) = .ok model ∧
      Imported model (fileOf floatHeader [1, 2, 3, 4, 5, 6, 7, 8]) "t" (descOf "F32" 2 0 8) := by
  have hheader : ((fileOf floatHeader [1, 2, 3, 4, 5, 6, 7, 8]).drop 8).take
      (fromLe ((fileOf floatHeader [1, 2, 3, 4, 5, 6, 7, 8]).take 8)) = encodeUtf8 floatHeader := by
    decide +kernel
  have hsome : (fromBytes (readHeader floatHeader "t" (descOf "F32" 2 0 8))
      (fileOf floatHeader [1, 2, 3, 4, 5, 6, 7, 8])).toOption.map (·.data.length) = some 136 := by
    decide +kernel
  obtain ⟨model, hmodel, hlen⟩ := Option.map_eq_some_iff.mp hsome
  have hmodel := toOption_eq_some.mp hmodel
  refine ⟨model, hmodel, (payloads_imported_iff hmodel (by rw [hlen]; decide)).mpr ?_ _ _ ?_⟩
  · rintro name desc ⟨root, hroot, hlookup, -⟩
    rw [hheader, readHeader, if_pos rfl] at hroot
    obtain rfl := Except.ok.inj hroot
    obtain ⟨rfl, hdesc⟩ := Sigma.mk.inj (List.mem_singleton.mp (AList.mem_lookup_iff.mp hlookup))
    obtain rfl := eq_of_heq hdesc
    exact ⟨⟨.f32, [2], 0, 8⟩, rfl, by decide, rfl⟩
  · refine ⟨AList.singleton "t" (descOf "F32" 2 0 8), ?_, rfl, by decide⟩
    rw [hheader, readHeader, if_pos rfl]

/-- `{"t":{"dtype":"I8","shape":[32],"data_offsets":[0,32]}}`: one byte for each of 32
integers, where 32 values of the type it is mapped to take 34. -/
def intHeader : String :=
  "\x7b\"t\":\x7b\"dtype\":\"I8\",\"shape\":[32],\"data_offsets\":[0,32]\x7d\x7d"

/-- **A tensor of integers is accepted and cannot be read.** -/
theorem not_imported_int :
    ∃ model, fromBytes (readHeader intHeader "t" (descOf "I8" 32 0 32))
      (fileOf intHeader (List.replicate 32 7)) = .ok model ∧
      Names (readHeader intHeader "t" (descOf "I8" 32 0 32))
        (fileOf intHeader (List.replicate 32 7)) "t" (descOf "I8" 32 0 32) ∧
      model.tensorData "t" = .error (.unexpectedEof 128) ∧
      ¬ Imported model (fileOf intHeader (List.replicate 32 7)) "t" (descOf "I8" 32 0 32) := by
  have hheader : ((fileOf intHeader (List.replicate 32 7)).drop 8).take
      (fromLe ((fileOf intHeader (List.replicate 32 7)).take 8)) = encodeUtf8 intHeader := by
    decide +kernel
  have hsome : (fromBytes (readHeader intHeader "t" (descOf "I8" 32 0 32))
      (fileOf intHeader (List.replicate 32 7))).toOption.map (·.tensorData "t") =
        some (.error (.unexpectedEof 128)) := by
    decide +kernel
  obtain ⟨model, hmodel, hdata⟩ := Option.map_eq_some_iff.mp hsome
  refine ⟨model, ?_, ⟨AList.singleton "t" (descOf "I8" 32 0 32), ?_, rfl, by decide⟩, hdata, ?_⟩
  · exact toOption_eq_some.mp hmodel
  · rw [hheader, readHeader, if_pos rfl]
  · rintro ⟨raw, info, -, -, -, -, -, hok⟩
    rw [hdata] at hok
    cases hok

end Imported

end Safetensors

end Gguf

end Oxillama
