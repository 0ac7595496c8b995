/-
The parser reads back what the writer writes.

* `reads_readMetadataValue` — a value that fits, by induction on the levels;
* `reads_parseMetadata`, `reads_parseTensorInfos` — the two sections behind the
  header;
* `parse_encodeSectionsAt` — a file with its tensors at given offsets, whatever
  stands behind the tensor infos;
* `parse_encodePrelude` — a written file.
-/
import Oxillama.Lib.Maps
import Oxillama.Gguf.Format
import Oxillama.Gguf.Parser

namespace Oxillama

namespace Gguf

open BinaryReader

theorem length_le_length_flatMap {α β : Type} {f : α → List β} {xs : List α} {x : α}
    (h : x ∈ xs) : (f x).length ≤ (xs.flatMap f).length :=
  (List.sublist_flatten_of_mem (List.mem_map_of_mem h)).length_le

/-! ### Values -/

theorem reads_readStringVersioned {s : String} (h : (encodeString s).length < 2 ^ 64) :
    Reads mk (readStringVersioned 3) (encodeString s) s := by
  rw [length_encodeString] at h
  exact reads_readStringOf (n := 8) (by omega)

theorem reads_readCountVersioned {n : ℕ} (h : n < 2 ^ 64) :
    Reads mk (readCountVersioned 3) (toLe 8 n) (.ofNat n) :=
  (reads_readLe (n := 8) h).bind_last (.pure _)

theorem minEncodedValueSize_pos (t : GgufValueType) : 0 < minEncodedValueSize t 3 := by
  cases t <;> decide

/-- A value takes no fewer bytes than the reader expects of its type. -/
theorem minEncodedValueSize_le (value : MetadataValue) :
    minEncodedValueSize value.valueType 3 ≤ (encodeElement value).length := by
  cases value with
  | string s =>
    show 8 ≤ (encodeElement (.string s)).length
    rw [encodeElement, length_encodeString]
    omega
  | array elements =>
    show 12 ≤ (encodeElement (.array elements)).length
    simp only [encodeElement, List.length_append, length_toLe]
    omega
  | bool v => exact Nat.le_refl 1
  | _ =>
    rw [encodeElement, length_toLe]
    exact Nat.le_refl _

/-- The check on the count never rejects an array that is there. -/
theorem length_mul_minEncodedValueSize_le {t : GgufValueType} {elements : List MetadataValue}
    (h : ∀ element ∈ elements, element.valueType = t) :
    elements.length * minEncodedValueSize t 3 ≤ (encodeElements elements).length := by
  induction elements with
  | nil => simp
  | cons element elements ih =>
    have hhead := minEncodedValueSize_le element
    rw [h element List.mem_cons_self] at hhead
    have htail := ih fun e he => h e (List.mem_cons_of_mem element he)
    rw [encodeElements, List.length_append, List.length_cons, Nat.succ_mul]
    omega

theorem length_le_length_encodeElements (elements : List MetadataValue) :
    elements.length ≤ (encodeElements elements).length := by
  induction elements with
  | nil => simp
  | cons element elements ih =>
    have hhead := minEncodedValueSize_le element
    have hpos := minEncodedValueSize_pos element.valueType
    rw [encodeElements, List.length_append, List.length_cons]
    omega

/-- **A value that fits is read back**, by induction on the levels: the elements
of an array have one level less. -/
theorem reads_readMetadataValue {maxDepth levels : ℕ} {value : MetadataValue}
    (h : Fits levels value) (hlen : (encodeElement value).length < 2 ^ 64) :
    Reads mk (readMetadataValue maxDepth 3 levels value.valueType) (encodeElement value)
      value := by
  induction levels generalizing value with
  | zero => exact h.elim
  | succ levels ih =>
    cases value with
    | uint8 v => exact (reads_readU8 v).bind_last (.pure _)
    | int8 v =>
      refine (reads_readU8 v.toUInt8).bind_last ?_
      rw [Int8.toInt8_toUInt8]
      exact .pure _
    | uint16 v => exact (reads_readU16 v).bind_last (.pure _)
    | int16 v => exact (reads_readI16 v).bind_last (.pure _)
    | uint32 v => exact (reads_readU32 v).bind_last (.pure _)
    | int32 v => exact (reads_readI32 v).bind_last (.pure _)
    | float32 bits => exact (reads_readU32 bits).bind_last (.pure _)
    | bool v => exact (reads_readBool v).bind_last (.pure _)
    | string s => exact (reads_readStringVersioned hlen).bind_last (.pure _)
    | uint64 v => exact (reads_readU64 v).bind_last (.pure _)
    | int64 v => exact (reads_readI64 v).bind_last (.pure _)
    | float64 bits => exact (reads_readU64 bits).bind_last (.pure _)
    | array elements =>
      have hbody : (encodeElements elements).length < 2 ^ 64 := by
        simp only [encodeElement, List.length_append, length_toLe] at hlen
        omega
      have hcount : (UInt64.ofNat elements.length).toNat = elements.length :=
        UInt64.toNat_ofNat_of_lt'
          (Nat.lt_of_le_of_lt (length_le_length_encodeElements elements) hbody)
      rw [encodeElement]
      refine (reads_readU32 _).bind ?_
      refine Reads.bind (u := []) (.okOr (GgufValueType.fromU32_toU32 _)) ?_
      refine (reads_readCountVersioned
        (Nat.lt_of_le_of_lt (length_le_length_encodeElements elements) hbody)).bind ?_
      refine reads_remaining fun rem hrem => ?_
      -- the elements are still to be read, and each takes its minimum at least
      have hfit : elements.length ≤ rem / minEncodedValueSize (elementType elements) 3 := by
        rw [Nat.le_div_iff_mul_le (minEncodedValueSize_pos _)]
        exact Nat.le_trans (length_mul_minEncodedValueSize_le fun e he => (h e he).1) hrem
      rw [hcount, if_neg (Nat.not_lt.mpr hfit), encodeElements_eq]
      refine Reads.bind_last (Reads.collect fun element hmem => ?_) (.pure _)
      have helement : (encodeElement element).length < 2 ^ 64 := by
        rw [encodeElements_eq] at hbody
        exact Nat.lt_of_le_of_lt (length_le_length_flatMap hmem) hbody
      rw [← (h element hmem).1]
      exact ih (h element hmem).2 helement

/-! ### Metadata -/

/-- The header of a written file. -/
def GgufHeader.written (tensorCount metadataKvCount : ℕ) : GgufHeader :=
  ⟨3, .ofNat tensorCount, .ofNat metadataKvCount⟩

/-- The store of a list of metadata. -/
def MetadataStore.ofList (metadata : List (String × MetadataValue)) : MetadataStore :=
  ⟨insertPairs ∅ metadata⟩

theorem reads_readMetadataEntry {maxDepth : ℕ} {entry : String × MetadataValue}
    (store : MetadataStore) (h : Fits (maxDepth + 1) entry.2)
    (hlen : (encodeEntry entry).length < 2 ^ 64) :
    Reads mk (readMetadataEntry maxDepth 3 store) (encodeEntry entry)
      (store.insert entry.1 entry.2) := by
  simp only [encodeEntry, encodeValue, List.length_append, length_toLe] at hlen
  refine (reads_readStringVersioned (by omega)).bind ?_
  refine (reads_readU32 _).bind ?_
  refine Reads.bind (u := []) (.okOr (GgufValueType.fromU32_toU32 _)) ?_
  exact (reads_readMetadataValue h (by omega)).bind_last (.pure _)

theorem reads_parseMetadata {metadata : List (String × MetadataValue)} (tensorCount : ℕ)
    (hcount : metadata.length < 2 ^ 64) (hfits : ∀ entry ∈ metadata, Fits 9 entry.2)
    (hlen : (metadata.flatMap encodeEntry).length < 2 ^ 64) :
    Reads mk (Parser.parseMetadata (.written tensorCount metadata.length))
      (metadata.flatMap encodeEntry) (.ofList metadata) := by
  have hfold : ∀ (entries : List (String × MetadataValue)) (store : MetadataStore),
      entries.foldl (fun store entry => store.insert entry.1 entry.2) store =
        ⟨insertPairs store.entries entries⟩ := by
    intro entries
    induction entries with
    | nil => exact fun _ => rfl
    | cons entry entries ih => exact fun store => ih (store.insert entry.1 entry.2)
  have hkvCount : (UInt64.ofNat metadata.length).toNat = metadata.length :=
    UInt64.toNat_ofNat_of_lt' hcount
  rw [Parser.parseMetadata, GgufHeader.written, hkvCount, MetadataStore.ofList,
    ← hfold metadata ⟨∅⟩]
  -- the entries still to be read are entries of the file
  refine Reads.iterM (fun rest _ => ∀ entry ∈ rest, entry ∈ metadata) ?_ fun _ h => h
  intro entry rest store hrest
  have hmem := hrest entry List.mem_cons_self
  refine ⟨reads_readMetadataEntry store (hfits entry hmem) ?_, fun e he =>
    hrest e (List.mem_cons_of_mem entry he)⟩
  exact Nat.lt_of_le_of_lt (length_le_length_flatMap hmem) hlen

/-! ### Tensor infos -/

/-- The tensor info a reader gets for a tensor at an offset. -/
def TensorMeta.infoAt (tensor : TensorMeta) (offset : ℕ) : TensorInfo where
  name := tensor.name
  nDims := .ofNat tensor.dimensions.length
  dimensions := tensor.dimensions
  tensorType := tensor.tensorType
  offset := .ofNat offset

/-- The store of a list of tensor infos. -/
def TensorStore.ofList (infos : List TensorInfo) : TensorStore :=
  ⟨insertPairs ∅ (infos.map fun info => (info.name, info)), 0⟩

theorem TensorStore.keys_ofList (infos : List TensorInfo) :
    (infos.map fun info => (info.name, info)).map Prod.fst = infos.map TensorInfo.name := by
  rw [List.map_map]
  rfl

theorem TensorStore.len_ofList {infos : List TensorInfo}
    (h : (infos.map TensorInfo.name).Nodup) : (TensorStore.ofList infos).len = infos.length := by
  rw [← keys_ofList] at h
  have hlen := length_keys_insertPairs (m := ∅) h fun _ _ => AList.notMem_empty _
  rw [AList.keys_empty, List.length_nil, Nat.zero_add, List.length_map] at hlen
  exact hlen

/-- A store of tensors with distinct names holds exactly these tensors. -/
theorem TensorStore.get_ofList {infos : List TensorInfo} (h : (infos.map TensorInfo.name).Nodup)
    {info : TensorInfo} (hmem : info ∈ infos) :
    (TensorStore.ofList infos).get info.name = .ok info := by
  rw [← keys_ofList] at h
  have hlookup : (TensorStore.ofList infos).infos.lookup info.name = some info :=
    (lookup_insertPairs_iff h).mpr (List.mem_map_of_mem hmem)
  rw [TensorStore.get, hlookup]
  rfl

theorem reads_readTensorInfo {tensor : TensorMeta} {offset : ℕ}
    (hdims : 1 ≤ tensor.dimensions.length ∧ tensor.dimensions.length ≤ 4)
    (hoffset : offset < 2 ^ 64) (hlen : (encodeTensorInfo (tensor, offset)).length < 2 ^ 64) :
    Reads mk (readTensorInfo Parser.maxTensorDims 3) (encodeTensorInfo (tensor, offset))
      (tensor.infoAt offset) := by
  have hn : (UInt32.ofNat tensor.dimensions.length).toNat = tensor.dimensions.length :=
    UInt32.toNat_ofNat_of_lt' (Nat.lt_of_le_of_lt hdims.2 (by decide))
  have hvalid : ¬ (UInt32.ofNat tensor.dimensions.length = 0 ∨
      (UInt32.ofNat tensor.dimensions.length).toNat > Parser.maxTensorDims) := by
    rw [← UInt32.toNat_inj, hn]
    show ¬ (tensor.dimensions.length = 0 ∨ tensor.dimensions.length > 4)
    omega
  have hcount : Reads mk readU32 (toLe 4 tensor.dimensions.length)
      (.ofNat tensor.dimensions.length) := by
    have h := reads_readU32 (UInt32.ofNat tensor.dimensions.length)
    rwa [hn] at h
  have hname : (encodeString tensor.name).length < 2 ^ 64 := by
    simp only [encodeTensorInfo, List.length_append, length_toLe] at hlen
    omega
  have hoffsetRead : Reads mk (readOffsetVersioned 3) (toLe 8 offset) (.ofNat offset) :=
    (reads_readLe (n := 8) hoffset).bind_last (.pure _)
  refine (reads_readStringVersioned hname).bind ?_
  refine hcount.bind ?_
  rw [if_neg hvalid, hn]
  refine (Reads.collect fun dim _ => ?_).bind ?_
  · have h := reads_readCountVersioned dim.toNat_lt
    rwa [UInt64.ofNat_toNat] at h
  refine (reads_readU32 _).bind ?_
  refine Reads.bind (u := []) (.okOr (GgufTensorType.fromU32_toU32 _)) ?_
  exact hoffsetRead.bind_last (.pure _)

/-- The tensor infos of a list of tensors with their offsets. -/
def infosOf (tensors : List (TensorMeta × ℕ)) : List TensorInfo :=
  tensors.map fun tensor => tensor.1.infoAt tensor.2

theorem names_infosOf (tensors : List (TensorMeta × ℕ)) :
    (infosOf tensors).map TensorInfo.name = tensors.map (·.1.name) := by
  rw [infosOf, List.map_map]
  rfl

theorem reads_parseTensorInfo {tensor : TensorMeta × ℕ} {store : TensorStore}
    (hdims : 1 ≤ tensor.1.dimensions.length ∧ tensor.1.dimensions.length ≤ 4)
    (hoffset : tensor.2 < 2 ^ 64) (hlen : (encodeTensorInfo tensor).length < 2 ^ 64)
    (hnew : tensor.1.name ∉ store.infos) :
    Reads mk (Parser.parseTensorInfo 3 store) (encodeTensorInfo tensor)
      { store with infos := store.infos.insert tensor.1.name (tensor.1.infoAt tensor.2) } := by
  refine (reads_readTensorInfo hdims hoffset hlen).bind_last ?_
  rw [TensorStore.tryInsert, if_neg (show (tensor.1.infoAt tensor.2).name ∉ store.infos from hnew)]
  exact .pure _

theorem reads_parseTensorInfos {tensors : List (TensorMeta × ℕ)} (metadataKvCount : ℕ)
    (hcount : tensors.length < 2 ^ 64) (hnames : (tensors.map (·.1.name)).Nodup)
    (hdims : ∀ tensor ∈ tensors,
      1 ≤ tensor.1.dimensions.length ∧ tensor.1.dimensions.length ≤ 4)
    (hoffsets : ∀ tensor ∈ tensors, tensor.2 < 2 ^ 64)
    (hlen : (tensors.flatMap encodeTensorInfo).length < 2 ^ 64) :
    Reads mk (Parser.parseTensorInfos (.written tensors.length metadataKvCount))
      (tensors.flatMap encodeTensorInfo) (.ofList (infosOf tensors)) := by
  -- what is read so far never holds the name of a tensor still to come
  let next (store : TensorStore) (tensor : TensorMeta × ℕ) : TensorStore :=
    { store with infos := store.infos.insert tensor.1.name (tensor.1.infoAt tensor.2) }
  have hfold : ∀ (rest : List (TensorMeta × ℕ)) (store : TensorStore), rest.foldl next store =
      ⟨insertPairs store.infos ((infosOf rest).map fun info => (info.name, info)),
        store.dataSectionOffset⟩ := by
    intro rest
    induction rest with
    | nil => exact fun _ => rfl
    | cons tensor rest ih => exact fun store => ih (next store tensor)
  have hloop : Reads mk (iterM (Parser.parseTensorInfo 3) tensors.length .new)
      (tensors.flatMap encodeTensorInfo) (tensors.foldl next .new) := by
    refine Reads.iterM (fun rest store => (∀ tensor ∈ rest, tensor ∈ tensors) ∧
      (rest.map (·.1.name)).Nodup ∧ ∀ tensor ∈ rest, tensor.1.name ∉ store.infos) ?_
      ⟨fun _ h => h, hnames, fun _ _ => AList.notMem_empty _⟩
    rintro tensor rest store ⟨hsub, hnodup, hnew⟩
    have hmem := hsub tensor List.mem_cons_self
    rw [List.map_cons, List.nodup_cons] at hnodup
    refine ⟨reads_parseTensorInfo (hdims tensor hmem) (hoffsets tensor hmem)
      (Nat.lt_of_le_of_lt (length_le_length_flatMap hmem) hlen) (hnew tensor List.mem_cons_self),
      fun t ht => hsub t (List.mem_cons_of_mem tensor ht), hnodup.2, ?_⟩
    intro t ht hin
    rcases (AList.mem_insert _).mp hin with heq | hin
    · exact hnodup.1 (heq ▸ List.mem_map_of_mem (f := fun t : TensorMeta × ℕ => t.1.name) ht)
    · exact hnew t (List.mem_cons_of_mem tensor ht) hin
  have hlenStore : (TensorStore.ofList (infosOf tensors)).len = tensors.length := by
    rw [TensorStore.len_ofList (by rwa [names_infosOf]), infosOf, List.length_map]
  rw [hfold] at hloop
  have htensorCount : (UInt64.ofNat tensors.length).toNat = tensors.length :=
    UInt64.toNat_ofNat_of_lt' hcount
  rw [Parser.parseTensorInfos, GgufHeader.written, htensorCount]
  refine hloop.bind_last ?_
  show Reads mk (if (TensorStore.ofList (infosOf tensors)).len ≠ tensors.length then _ else _) _ _
  rw [if_neg (not_not.mpr hlenStore)]
  exact .pure _

/-! ### Whole files -/

theorem readField_toLe {data : List UInt8} {n v : ℕ} (before after : List UInt8)
    (hdata : data = before ++ (toLe n v ++ after)) (hv : v < 256 ^ n) :
    GgufHeader.readField data n before.length = .ok (v, before.length + n) := by
  have hle : ¬ data.length < before.length + n := by
    simp only [hdata, List.length_append, length_toLe]
    omega
  have hbytes : (data.drop before.length).take n = toLe n v := by
    rw [hdata, List.drop_left, List.take_left' (length_toLe n v)]
  rw [GgufHeader.readField, get_bind_apply, if_neg hle, hbytes, fromLe_toLe_of_lt hv]
  rfl

theorem parse_encodeHeader {tensorCount metadataKvCount : ℕ} (htensors : tensorCount < 2 ^ 64)
    (hmetadata : metadataKvCount < 2 ^ 64) (rest : List UInt8) :
    GgufHeader.parse (encodeHeader tensorCount metadataKvCount ++ rest) 0 =
      .ok (.written tensorCount metadataKvCount, 24) := by
  generalize hdata : encodeHeader tensorCount metadataKvCount ++ rest = data
  simp only [encodeHeader, List.append_assoc] at hdata
  have hmagic : GgufHeader.readU32 data 0 = .ok (ggufMagic, 4) := by
    have hfield : GgufHeader.readField data 4 0 = .ok (ggufMagic.toNat, 4) :=
      readField_toLe [] _ hdata.symm (by decide)
    rw [GgufHeader.readU32, bind_apply_ok hfield]
    rfl
  have hversion : GgufHeader.readU32 data 4 = .ok (3, 8) := by
    have hfield := readField_toLe (toLe 4 ggufMagic.toNat) _ hdata.symm (v := 3) (by decide)
    rw [length_toLe] at hfield
    rw [GgufHeader.readU32, bind_apply_ok hfield]
    rfl
  rw [← List.append_assoc] at hdata
  have htensorCount : GgufHeader.readCount data 3 8 = .ok (.ofNat tensorCount, 16) := by
    have hfield := readField_toLe (toLe 4 ggufMagic.toNat ++ toLe 4 3) _ hdata.symm htensors
    rw [List.length_append, length_toLe, length_toLe] at hfield
    rw [GgufHeader.readCount, if_pos (by decide), bind_apply_ok hfield]
    rfl
  rw [← List.append_assoc] at hdata
  have hkvCount : GgufHeader.readCount data 3 16 = .ok (.ofNat metadataKvCount, 24) := by
    have hfield := readField_toLe (toLe 4 ggufMagic.toNat ++ toLe 4 3 ++ toLe 8 tensorCount) _
      hdata.symm hmetadata
    simp only [List.length_append, length_toLe] at hfield
    rw [GgufHeader.readCount, if_pos (by decide), bind_apply_ok hfield]
    rfl
  rw [GgufHeader.parse, bind_apply_ok hmagic, if_neg (not_not.mpr rfl), bind_apply_ok hversion,
    if_neg (by decide), bind_apply_ok htensorCount, bind_apply_ok hkvCount]
  rfl

/-! ### Tensors at given offsets -/

/-- The three sections of a file with its tensors at given offsets. -/
def encodeSectionsAt (metadata : List (String × MetadataValue))
    (tensors : List (TensorMeta × ℕ)) : List UInt8 :=
  encodeHeader tensors.length metadata.length ++
    (metadata.flatMap encodeEntry ++ tensors.flatMap encodeTensorInfo)

/-- Metadata and tensors at offsets that the parser takes back: the values and the number of
dimensions are within its limits, the alignment is one it accepts, and no tensor
name occurs twice. -/
structure ReadableAt (metadata : List (String × MetadataValue)) (tensors : List (TensorMeta × ℕ)) :
    Prop where
  fits : ∀ entry ∈ metadata, Fits 9 entry.2
  alignment : validateAlignment Parser.maxGgufAlignment (alignmentOf (.ofList metadata)) = .ok ()
  names : (tensors.map (·.1.name)).Nodup
  dims : ∀ tensor ∈ tensors, 1 ≤ tensor.1.dimensions.length ∧ tensor.1.dimensions.length ≤ 4
  offsets : ∀ tensor ∈ tensors, tensor.2 < 2 ^ 64

/-- The file the parser makes of metadata and tensors at given offsets. -/
def GgufFile.ofAt (metadata : List (String × MetadataValue)) (tensors : List (TensorMeta × ℕ)) :
    GgufFile where
  header := .written tensors.length metadata.length
  metadata := .ofList metadata
  tensors := (TensorStore.ofList (infosOf tensors)).setDataOffset
    (alignUp (encodeSectionsAt metadata tensors).length (alignmentOf (.ofList metadata)))
  alignment := alignmentOf (.ofList metadata)

theorem length_le_length_flatMap_of_pos {α β : Type} {f : α → List β} {xs : List α}
    (h : ∀ x, 0 < (f x).length) : xs.length ≤ (xs.flatMap f).length := by
  induction xs with
  | nil => simp
  | cons x xs ih =>
    have hx := h x
    rw [List.flatMap_cons, List.length_append, List.length_cons]
    omega

theorem length_encodeSectionsAt (metadata : List (String × MetadataValue))
    (tensors : List (TensorMeta × ℕ)) :
    (encodeSectionsAt metadata tensors).length =
      24 + ((metadata.flatMap encodeEntry).length +
        (tensors.flatMap encodeTensorInfo).length) := by
  simp only [encodeSectionsAt, List.length_append, length_encodeHeader]

/-- The counts of the header are the lengths of the lists. -/
theorem lengths_lt {metadata : List (String × MetadataValue)} {tensors : List (TensorMeta × ℕ)}
    (hlen : (encodeSectionsAt metadata tensors).length < 2 ^ 64) :
    metadata.length < 2 ^ 64 ∧ tensors.length < 2 ^ 64 := by
  have hmetadata : metadata.length ≤ (metadata.flatMap encodeEntry).length :=
    length_le_length_flatMap_of_pos fun entry => by
      simp only [encodeEntry, List.length_append, length_encodeString]
      omega
  have htensors : tensors.length ≤ (tensors.flatMap encodeTensorInfo).length :=
    length_le_length_flatMap_of_pos fun info => by
      simp only [encodeTensorInfo, List.length_append, length_encodeString]
      omega
  rw [length_encodeSectionsAt] at hlen
  omega

/-- A tensor is found under its name. -/
theorem ReadableAt.get_of {metadata : List (String × MetadataValue)}
    {tensors : List (TensorMeta × ℕ)} (h : ReadableAt metadata tensors) {tensor : TensorMeta}
    {offset : ℕ} (hmem : (tensor, offset) ∈ tensors) :
    (GgufFile.ofAt metadata tensors).tensors.get tensor.name = .ok (tensor.infoAt offset) := by
  have hnames : ((infosOf tensors).map TensorInfo.name).Nodup := by
    rw [names_infosOf]
    exact h.names
  have hinfo : tensor.infoAt offset ∈ infosOf tensors :=
    List.mem_map_of_mem (f := fun t : TensorMeta × ℕ => t.1.infoAt t.2) hmem
  exact TensorStore.get_ofList hnames hinfo

/-- **What the parser makes of the sections of a file**, whatever stands behind them. -/
theorem parse_encodeSectionsAt {metadata : List (String × MetadataValue)}
    {tensors : List (TensorMeta × ℕ)} (h : ReadableAt metadata tensors)
    (hlen : (encodeSectionsAt metadata tensors).length < 2 ^ 64) (rest : List UInt8) :
    GgufFile.parse (encodeSectionsAt metadata tensors ++ rest) =
      .ok (.ofAt metadata tensors) := by
  obtain ⟨hmetadata, htensors⟩ := lengths_lt hlen
  have hsections := length_encodeSectionsAt metadata tensors
  generalize hdata : encodeSectionsAt metadata tensors ++ rest = data
  simp only [encodeSectionsAt, List.append_assoc] at hdata
  have hheader : GgufHeader.parse data 0 =
      .ok (.written tensors.length metadata.length, 24) := by
    rw [← hdata]
    exact parse_encodeHeader htensors hmetadata _
  have hentries := reads_parseMetadata tensors.length hmetadata h.fits (by omega)
  have hinfos := reads_parseTensorInfos metadata.length htensors h.names h.dims h.offsets
    (by omega)
  have hmetadataRead := hentries.apply hdata (length_encodeHeader _ _)
  -- one section further on
  rw [← List.append_assoc] at hdata
  have hinfosRead := hinfos.apply hdata (by rw [List.length_append, length_encodeHeader])
  rw [Nat.add_assoc, ← hsections] at hinfosRead
  have hbody : GgufFile.parseBody (.written tensors.length metadata.length) ⟨data, 24⟩ =
      .ok (.ofAt metadata tensors, ⟨data, (encodeSectionsAt metadata tensors).length⟩) := by
    have hvalid : (liftM (validateAlignment Parser.maxGgufAlignment
        (alignmentOf (.ofList metadata))) : ReadM Unit)
          ⟨data, 24 + (metadata.flatMap encodeEntry).length⟩ =
            .ok ((), ⟨data, 24 + (metadata.flatMap encodeEntry).length⟩) := by
      rw [h.alignment]
      rfl
    rw [GgufFile.parseBody, bind_apply_ok hmetadataRead, bind_apply_ok hvalid,
      bind_apply_ok hinfosRead]
    rfl
  show (GgufHeader.parse data 0 >>= fun r => GgufFile.parseBody r.1 ⟨data, r.2⟩ >>= fun r =>
    .ok r.1) = _
  rw [hheader]
  show (GgufFile.parseBody (.written tensors.length metadata.length) ⟨data, 24⟩ >>= fun r =>
    .ok r.1) = _
  rw [hbody]
  rfl

/-! ### Written files -/

/-- Metadata and tensors that the parser takes back: the values and the number of
dimensions are within its limits, the alignment is one it accepts, and no tensor
name occurs twice. -/
structure Readable (metadata : List (String × MetadataValue)) (tensorMetas : List TensorMeta) :
    Prop where
  fits : ∀ entry ∈ metadata, Fits 9 entry.2
  alignment : validateAlignment Parser.maxGgufAlignment (alignmentOf (.ofList metadata)) = .ok ()
  names : (tensorMetas.map TensorMeta.name).Nodup
  dims : ∀ tensor ∈ tensorMetas,
    1 ≤ tensor.dimensions.length ∧ tensor.dimensions.length ≤ 4

/-- The file the parser makes of metadata and tensors. -/
def GgufFile.of (metadata : List (String × MetadataValue)) (tensorMetas : List TensorMeta) :
    GgufFile where
  header := .written tensorMetas.length metadata.length
  metadata := .ofList metadata
  tensors := (TensorStore.ofList (infosOf (located tensorMetas))).setDataOffset
    (alignUp (encodeSections metadata tensorMetas).length (alignmentOf (.ofList metadata)))
  alignment := alignmentOf (.ofList metadata)

theorem length_offsetsFrom (offset : ℕ) (sizes : List ℕ) :
    (offsetsFrom offset sizes).length = sizes.length := by
  induction sizes generalizing offset with
  | nil => rfl
  | cons size sizes ih => rw [offsetsFrom, List.length_cons, List.length_cons, ih]

theorem lt_of_mem_offsetsFrom {offset o : ℕ} {sizes : List ℕ} (h : offset < 2 ^ 64)
    (hmem : o ∈ offsetsFrom offset sizes) : o < 2 ^ 64 := by
  induction sizes generalizing offset with
  | nil => cases hmem
  | cons size sizes ih =>
    rcases List.mem_cons.mp hmem with rfl | hmem
    · exact h
    · refine ih ?_ hmem
      unfold nextOffset saturatingAdd
      omega

theorem map_fst_located (tensorMetas : List TensorMeta) :
    (located tensorMetas).map Prod.fst = tensorMetas := by
  refine List.map_fst_zip ?_
  rw [length_offsetsFrom, List.length_map]

theorem length_located (tensorMetas : List TensorMeta) :
    (located tensorMetas).length = tensorMetas.length := by
  have h := congrArg List.length (map_fst_located tensorMetas)
  rwa [List.length_map] at h

theorem encodeSectionsAt_located (metadata : List (String × MetadataValue))
    (tensorMetas : List TensorMeta) :
    encodeSectionsAt metadata (located tensorMetas) = encodeSections metadata tensorMetas := by
  rw [encodeSectionsAt, encodeSections, length_located]

theorem GgufFile.ofAt_located (metadata : List (String × MetadataValue))
    (tensorMetas : List TensorMeta) :
    GgufFile.ofAt metadata (located tensorMetas) = .of metadata tensorMetas := by
  rw [GgufFile.ofAt, GgufFile.of, encodeSectionsAt_located, length_located]

/-- A written file has its tensors at the offsets of the writer. -/
theorem Readable.toReadableAt {metadata : List (String × MetadataValue)}
    {tensorMetas : List TensorMeta} (h : Readable metadata tensorMetas) :
    ReadableAt metadata (located tensorMetas) where
  fits := h.fits
  alignment := h.alignment
  names := by
    have hnames := h.names
    rwa [← map_fst_located tensorMetas, List.map_map] at hnames
  dims tensor hmem := h.dims tensor.1 (List.of_mem_zip hmem).1
  offsets tensor hmem := lt_of_mem_offsetsFrom (by decide) (List.of_mem_zip hmem).2

/-- A tensor is found under its name. -/
theorem Readable.get_of {metadata : List (String × MetadataValue)} {tensorMetas : List TensorMeta}
    (h : Readable metadata tensorMetas) {tensor : TensorMeta} {offset : ℕ}
    (hmem : (tensor, offset) ∈ located tensorMetas) :
    (GgufFile.of metadata tensorMetas).tensors.get tensor.name = .ok (tensor.infoAt offset) := by
  rw [← GgufFile.ofAt_located]
  exact h.toReadableAt.get_of hmem

/-- **What the parser makes of a written file**, whatever stands behind the
prelude. -/
theorem parse_encodePrelude {metadata : List (String × MetadataValue)}
    {tensorMetas : List TensorMeta} (h : Readable metadata tensorMetas)
    (hlen : (encodeSections metadata tensorMetas).length < 2 ^ 64) (rest : List UInt8) :
    GgufFile.parse (encodePrelude metadata tensorMetas ++ rest) =
      .ok (.of metadata tensorMetas) := by
  rw [encodePrelude, List.append_assoc, ← encodeSectionsAt_located, ← GgufFile.ofAt_located]
  rw [← encodeSectionsAt_located] at hlen
  exact parse_encodeSectionsAt h.toReadableAt hlen _

end Gguf

end Oxillama
