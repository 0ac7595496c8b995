/-
Whole files: what the two write paths write, and what the parser says about it.

* `writeTo_buffered` — the buffered path writes the prelude and the tensor data;
* `streamed_eq` — the streaming path writes the same file;
* `parse_written` — the parser gives back the metadata and the tensors of either;
* `not_parse_nested` — arrays nine levels deep are written but not read back.
-/
import Mathlib
import Oxillama.Gguf.DataWriter

namespace Oxillama

namespace Gguf

open GgufTensorDataWriter

/-! ### Filling a writer -/

/-- The arguments of `declare_tensor`. -/
structure TensorShape where
  name : String
  dimensions : List UInt64
  tensorType : GgufTensorType

/-- The arguments of `add_tensor`. -/
structure TensorArgs extends TensorShape where
  data : List UInt8

/-- The tensor as a writer keeps it. -/
def TensorArgs.toMeta (tensor : TensorArgs) : TensorMeta :=
  ⟨tensor.name, tensor.dimensions, tensor.tensorType, tensor.data.length⟩

/-- The tensor with its data as a writer keeps it. -/
def TensorArgs.pending (tensor : TensorArgs) : PendingTensor := ⟨tensor.toMeta, tensor.data⟩

/-- What a tensor was declared with. -/
def TensorMeta.shape (tensor : TensorMeta) : TensorShape :=
  ⟨tensor.name, tensor.dimensions, tensor.tensorType⟩

namespace GgufWriter

/-- A new writer with all the metadata. -/
def withMetadata (metadata : List (String × MetadataValue)) : GgufWriter :=
  metadata.foldl (fun w entry => w.addMetadata entry.1 entry.2) .new

/-- The writer of the buffered path. -/
def buffered (metadata : List (String × MetadataValue)) (tensors : List TensorArgs) :
    GgufWriter :=
  tensors.foldl (fun w tensor =>
    w.addTensor tensor.name tensor.dimensions tensor.tensorType tensor.data) (withMetadata metadata)

/-- The writer of the streaming path. -/
def declared (metadata : List (String × MetadataValue)) (shapes : List TensorShape) :
    GgufResult GgufWriter :=
  shapes.foldlM (fun w shape =>
    w.declareTensor shape.name shape.dimensions shape.tensorType) (withMetadata metadata)

/-- The streaming path, from the declarations to the finished sink. -/
def streamed (metadata : List (String × MetadataValue)) (tensors : List TensorArgs) :
    GgufResult (List UInt8) := do
  let w ← declared metadata (tensors.map TensorArgs.toTensorShape)
  let dataWriter ← w.intoDataWriter ([] : List UInt8)
  let writeAll : DataM (List UInt8) (List UInt8) := do
    tensors.forM fun tensor => writeTensor tensor.name tensor.data
    finish
  (writeAll dataWriter).1

theorem withMetadata_eq (metadata : List (String × MetadataValue)) :
    withMetadata metadata = ⟨metadata, [], []⟩ := by
  have hfold : ∀ (w : GgufWriter), metadata.foldl (fun w entry => w.addMetadata entry.1 entry.2) w =
      { w with metadata := w.metadata ++ metadata } := by
    induction metadata with
    | nil => intro w; rw [List.append_nil]; rfl
    | cons entry metadata ih =>
      intro w
      rw [List.foldl_cons, ih]
      simp [addMetadata]
  exact hfold new

theorem buffered_eq (metadata : List (String × MetadataValue)) (tensors : List TensorArgs) :
    buffered metadata tensors = ⟨metadata, tensors.map TensorArgs.pending, []⟩ := by
  have hfold : ∀ (w : GgufWriter), tensors.foldl (fun w tensor =>
      w.addTensor tensor.name tensor.dimensions tensor.tensorType tensor.data) w =
        { w with tensors := w.tensors ++ tensors.map TensorArgs.pending } := by
    induction tensors with
    | nil => intro w; rw [List.map_nil, List.append_nil]; rfl
    | cons tensor tensors ih =>
      intro w
      rw [List.foldl_cons, ih]
      simp [addTensor, TensorArgs.pending, TensorArgs.toMeta]
  rw [buffered, hfold, withMetadata_eq]
  rfl

/-- Declared tensors have the sizes computed from their dimensions. -/
theorem declared_eq_ok {metadata : List (String × MetadataValue)} {shapes : List TensorShape}
    {w : GgufWriter} (h : declared metadata shapes = .ok w) :
    ∃ metas, w = ⟨metadata, [], metas⟩ ∧ metas.map TensorMeta.shape = shapes ∧
      Declared metas := by
  have hfold : ∀ (shapes : List TensorShape) (w₀ : GgufWriter), shapes.foldlM (fun w shape =>
      w.declareTensor shape.name shape.dimensions shape.tensorType) w₀ = .ok w →
        ∃ metas, w = { w₀ with tensorMetas := w₀.tensorMetas ++ metas } ∧
          metas.map TensorMeta.shape = shapes ∧ Declared metas := by
    intro shapes
    induction shapes with
    | nil =>
      intro w₀ h
      obtain rfl := Except.ok.inj h
      exact ⟨[], by rw [List.append_nil], rfl, fun _ hmem => absurd hmem List.not_mem_nil⟩
    | cons shape shapes ih =>
      intro w₀ h
      rw [List.foldlM_cons, declareTensor] at h
      cases hsize : computeTensorDataSize shape.name shape.dimensions shape.tensorType with
      | error e =>
        rw [hsize] at h
        cases h
      | ok size =>
        rw [hsize] at h
        obtain ⟨metas, rfl, rfl, hdeclared⟩ := ih _ h
        refine ⟨⟨shape.name, shape.dimensions, shape.tensorType, size⟩ :: metas, ?_, rfl, ?_⟩
        · simp
        · intro tensor hmem
          rcases List.mem_cons.mp hmem with rfl | hmem
          · exact hsize
          · exact hdeclared tensor hmem
  obtain ⟨metas, rfl, hshapes, hdeclared⟩ := hfold shapes _ h
  exact ⟨metas, by rw [withMetadata_eq]; rfl, hshapes, hdeclared⟩

/-- Tensors of the right size can be declared. -/
theorem declared_of_sizes (metadata : List (String × MetadataValue)) {tensors : List TensorArgs}
    (h : Declared (tensors.map TensorArgs.toMeta)) :
    declared metadata (tensors.map TensorArgs.toTensorShape) =
      .ok ⟨metadata, [], tensors.map TensorArgs.toMeta⟩ := by
  have hfold : ∀ (tensors : List TensorArgs) (w : GgufWriter),
      Declared (tensors.map TensorArgs.toMeta) →
        (tensors.map TensorArgs.toTensorShape).foldlM (fun w shape =>
          w.declareTensor shape.name shape.dimensions shape.tensorType) w =
            .ok { w with tensorMetas := w.tensorMetas ++ tensors.map TensorArgs.toMeta } := by
    intro tensors
    induction tensors with
    | nil =>
      intro w _
      show Except.ok w = .ok { w with tensorMetas := w.tensorMetas ++ [] }
      rw [List.append_nil]
    | cons tensor tensors ih =>
      intro w hdeclared
      have hsize : computeTensorDataSize tensor.name tensor.dimensions tensor.tensorType =
          .ok tensor.data.length := hdeclared tensor.toMeta List.mem_cons_self
      have hrest := ih { w with tensorMetas := w.tensorMetas ++ [tensor.toMeta] } fun t ht =>
        hdeclared t (List.mem_cons_of_mem _ ht)
      rw [List.map_cons, List.foldlM_cons, declareTensor, hsize]
      refine hrest.trans ?_
      rw [List.map_cons, List.append_assoc]
      rfl
  rw [declared, hfold tensors _ h, withMetadata_eq]
  rfl

/-! ### What the paths write -/

/-- The streaming path writes everything in front of the tensor data. -/
theorem intoDataWriter_eq {metadata : List (String × MetadataValue)} {metas : List TensorMeta}
    (h : OffsetsFit 0 (metas.map TensorMeta.dataSize)) :
    intoDataWriter ⟨metadata, [], metas⟩ ([] : List UInt8) =
      .ok ⟨encodePrelude metadata metas, metas, 0, 0⟩ := by
  rw [intoDataWriter]
  simp only [List.isEmpty_nil, Bool.not_true, Bool.false_eq_true, if_false]
  rw [emits_writeGgufPrelude metadata h]
  rfl

theorem intoDataWriter_eq_ok {metadata : List (String × MetadataValue)} {metas : List TensorMeta}
    {dw : GgufTensorDataWriter (List UInt8)}
    (h : intoDataWriter ⟨metadata, [], metas⟩ ([] : List UInt8) = .ok dw) :
    OffsetsFit 0 (metas.map TensorMeta.dataSize) ∧
      dw = ⟨encodePrelude metadata metas, metas, 0, 0⟩ := by
  by_cases hfit : OffsetsFit 0 (metas.map TensorMeta.dataSize)
  · rw [intoDataWriter_eq hfit] at h
    exact ⟨hfit, (Except.ok.inj h).symm⟩
  · -- an offset that does not fit fails the prelude
    obtain ⟨e, w', hfail⟩ := writeGgufPrelude_of_not_fit metadata hfit []
    rw [intoDataWriter] at h
    simp only [List.isEmpty_nil, Bool.not_true, Bool.false_eq_true, if_false] at h
    rw [hfail] at h
    cases h

end GgufWriter

/-- Writing the tensors that are still missing, one after the other. -/
theorem Delivering.writeTensors {start : List UInt8} {metas : List TensorMeta}
    {done : List (String × List UInt8)} {s : GgufTensorDataWriter (List UInt8)}
    {tensors : List PendingTensor} (h : Delivering start metas done s)
    (hrest : metas.drop done.length = tensors.map PendingTensor.toMeta)
    (hsizes : ∀ tensor ∈ tensors, tensor.toMeta.dataSize = tensor.data.length) :
    ∃ s', (tensors.forM fun tensor => writeTensor tensor.toMeta.name tensor.data :
        DataM (List UInt8) Unit) s = (.ok (), s') ∧
      Delivering start metas
        (done ++ tensors.map fun tensor => (tensor.toMeta.name, tensor.data)) s' := by
  induction tensors generalizing done s with
  | nil =>
    refine ⟨s, rfl, ?_⟩
    rwa [List.map_nil, List.append_nil]
  | cons tensor tensors ih =>
    have hget : metas[done.length]? = some tensor.toMeta := by
      rw [← List.head?_drop, hrest]
      rfl
    have hnext : s.validateNext tensor.toMeta.name = .ok tensor.data.length := by
      refine validateNext_eq_ok_iff.mpr ⟨tensor.toMeta, ?_, rfl, hsizes tensor List.mem_cons_self⟩
      rw [h.metas_eq, h.next, hget]
    -- the size is right, so the write cannot fail
    have hwrite : writeTensor tensor.toMeta.name tensor.data s =
        (.ok (), s.delivered tensor.data) := by
      rcases writeTensor_of_ok hnext (h.offset_fits hnext) tensor.data with ⟨-, hrun⟩ | ⟨_, hne, -⟩
      · exact hrun
      · exact absurd rfl hne
    have hdrop : metas.drop (done ++ [(tensor.toMeta.name, tensor.data)]).length =
        tensors.map PendingTensor.toMeta := by
      rw [List.length_append, List.length_singleton, ← List.drop_drop, hrest]
      rfl
    obtain ⟨s', hrun, hdone⟩ := ih (h.deliver hnext) hdrop fun t ht =>
      hsizes t (List.mem_cons_of_mem tensor ht)
    refine ⟨s', ?_, ?_⟩
    · show (writeTensor tensor.toMeta.name tensor.data >>= fun _ => _) s = _
      rw [exceptT_bind_ok hwrite]
      exact hrun
    · rwa [List.append_assoc] at hdone

/-- A whole file. -/
def encodeFile (metadata : List (String × MetadataValue)) (tensors : List TensorArgs) :
    List UInt8 :=
  encodePrelude metadata (tensors.map TensorArgs.toMeta) ++
    encodeData 0 (tensors.map TensorArgs.data)

section

variable {metadata : List (String × MetadataValue)} {tensors : List TensorArgs}
  (h : (encodeFile metadata tensors).length < 2 ^ 64)

include h

theorem offsetsFit_of_encodeFile :
    OffsetsFit 0 ((tensors.map TensorArgs.toMeta).map TensorMeta.dataSize) := by
  rw [encodeFile, List.length_append] at h
  have hzero : 0 + (encodeData 0 (tensors.map TensorArgs.data)).length < 2 ^ 64 := by omega
  have hfit := offsetsFit_of_length hzero
  rwa [List.map_map] at hfit ⊢

/-- Behind the prelude the data writer takes all tensors, and finishes. -/
theorem writeTensors_finish :
    ∃ s', ((tensors.map TensorArgs.pending).forM fun tensor =>
        writeTensor tensor.toMeta.name tensor.data : DataM (List UInt8) Unit)
          ⟨encodePrelude metadata (tensors.map TensorArgs.toMeta), tensors.map TensorArgs.toMeta,
            0, 0⟩ = (.ok (), s') ∧
      finish s' = (.ok (encodeFile metadata tensors), s') ∧
      s'.writer = encodeFile metadata tensors := by
  have hmetas : tensors.map TensorArgs.toMeta =
      (tensors.map TensorArgs.pending).map PendingTensor.toMeta := by
    rw [List.map_map]
    rfl
  have hsizes : ∀ tensor ∈ tensors.map TensorArgs.pending,
      tensor.toMeta.dataSize = tensor.data.length := by
    intro tensor hmem
    obtain ⟨args, -, rfl⟩ := List.mem_map.mp hmem
    rfl
  have hdatas : ((tensors.map TensorArgs.pending).map fun tensor =>
      (tensor.toMeta.name, tensor.data)).map Prod.snd = tensors.map TensorArgs.data := by
    rw [List.map_map, List.map_map]
    rfl
  obtain ⟨s', hrun, hdone⟩ := (Delivering.init
    (encodePrelude metadata (tensors.map TensorArgs.toMeta))
      (offsetsFit_of_encodeFile h)).writeTensors hmetas hsizes
  have hend : s'.nextIndex = s'.metas.length := by
    rw [hdone.next, hdone.metas_eq]
    simp
  have hwriter : s'.writer = encodeFile metadata tensors := by
    rw [hdone.writer_eq hend, List.nil_append, hdatas, encodeFile]
  exact ⟨s', hrun, hwriter ▸ finish_of_eq hend, hwriter⟩

/-- **The buffered path writes the file.** -/
theorem writeTo_buffered :
    ((GgufWriter.buffered metadata tensors).writeTo : WriteM (List UInt8) Unit) [] =
      (.ok (), encodeFile metadata tensors) := by
  obtain ⟨s', hrun, hfinish, hwriter⟩ := writeTensors_finish h
  have hwrite : (do
      (tensors.map TensorArgs.pending).forM fun tensor =>
        writeTensor tensor.toMeta.name tensor.data
      let _ ← finish : DataM (List UInt8) Unit)
        ⟨encodePrelude metadata (tensors.map TensorArgs.toMeta), tensors.map TensorArgs.toMeta,
          0, 0⟩ = (.ok (), s') := by
    rw [exceptT_bind_ok hrun, exceptT_bind_ok hfinish]
    rfl
  have hmetas : (tensors.map TensorArgs.pending).map PendingTensor.toMeta =
      tensors.map TensorArgs.toMeta := by
    rw [List.map_map]
    rfl
  rw [GgufWriter.buffered_eq, GgufWriter.writeTo]
  simp only [List.isEmpty_nil, Bool.not_true, Bool.false_eq_true, if_false]
  rw [hmetas, exceptT_bind_ok (emits_writeGgufPrelude metadata (offsetsFit_of_encodeFile h) []),
    exceptT_get_bind, List.nil_append, hwrite, ← hwriter]
  rfl

/-- **The streaming path writes the same file**, where the data has the declared
sizes. -/
theorem streamed_eq (hdeclared : Declared (tensors.map TensorArgs.toMeta)) :
    GgufWriter.streamed metadata tensors = .ok (encodeFile metadata tensors) := by
  obtain ⟨s', hrun, hfinish, -⟩ := writeTensors_finish h
  have hforM : ((tensors.map TensorArgs.pending).forM fun tensor =>
      writeTensor tensor.toMeta.name tensor.data : DataM (List UInt8) Unit) =
        tensors.forM fun tensor => writeTensor tensor.name tensor.data := List.forM_map
  rw [hforM] at hrun
  rw [GgufWriter.streamed, GgufWriter.declared_of_sizes metadata hdeclared]
  show (GgufWriter.intoDataWriter ⟨metadata, [], tensors.map TensorArgs.toMeta⟩ [] >>= _) = _
  rw [GgufWriter.intoDataWriter_eq (offsetsFit_of_encodeFile h)]
  show (((tensors.forM fun tensor => writeTensor tensor.name tensor.data) >>= fun _ => finish :
    DataM (List UInt8) (List UInt8)) ⟨encodePrelude metadata (tensors.map TensorArgs.toMeta),
      tensors.map TensorArgs.toMeta, 0, 0⟩).1 = _
  rw [exceptT_bind_ok hrun, hfinish]

end

/-! ### What the parser says about it -/

/-- A parsed file holds exactly these metadata and tensors. -/
structure GgufFile.Describes (file : GgufFile) (metadata : List (String × MetadataValue))
    (shapes : List TensorShape) : Prop where
  version : file.header.version = 3
  tensorCount : file.header.tensorCount.toNat = shapes.length
  metadataKvCount : file.header.metadataKvCount.toNat = metadata.length
  metadata : ∀ key value, file.metadata.get key = some value ↔ (key, value) ∈ metadata
  tensors : ∀ shape ∈ shapes, ∃ info, file.tensors.get shape.name = .ok info ∧
    info.dimensions = shape.dimensions ∧ info.tensorType = shape.tensorType
  names : ∀ name, name ∈ file.tensors.infos ↔ name ∈ shapes.map TensorShape.name

theorem describes_of {metadata : List (String × MetadataValue)} {metas : List TensorMeta}
    (h : Readable metadata metas) (hkeys : (metadata.map Prod.fst).Nodup)
    (hmetadata : metadata.length < 2 ^ 64) (hmetas : metas.length < 2 ^ 64) :
    (GgufFile.of metadata metas).Describes metadata (metas.map TensorMeta.shape) where
  version := rfl
  tensorCount := by
    rw [List.length_map]
    exact UInt64.toNat_ofNat_of_lt' hmetas
  metadataKvCount := UInt64.toNat_ofNat_of_lt' hmetadata
  metadata := fun key value => lookup_insertPairs_iff hkeys
  tensors := by
    intro shape hmem
    obtain ⟨tensor, htensor, rfl⟩ := List.mem_map.mp hmem
    rw [← map_fst_located metas] at htensor
    obtain ⟨located, hlocated, rfl⟩ := List.mem_map.mp htensor
    exact ⟨_, h.get_of hlocated, rfl, rfl⟩
  names := by
    intro name
    have hmem : name ∈ (GgufFile.of metadata metas).tensors.infos ↔
        name ∈ (infosOf (located metas)).map TensorInfo.name := by
      rw [← TensorStore.keys_ofList]
      refine mem_insertPairs.trans (or_iff_left (AList.notMem_empty name))
    rw [hmem, names_infosOf, List.map_map, ← map_fst_located metas, List.map_map,
      map_fst_located metas]
    rfl

/-- **The header codec round trip.**  Metadata with distinct keys and values that
fit in nine levels, and tensors with distinct names and one to four dimensions,
are read back from what either path writes, and the byte counts the writer
works with are those of the bytes it emits. -/
theorem parse_written {metadata : List (String × MetadataValue)}
    (hkeys : (metadata.map Prod.fst).Nodup) (hfits : ∀ entry ∈ metadata, Fits 9 entry.2)
    (halignment : validateAlignment Parser.maxGgufAlignment
      (alignmentOf (.ofList metadata)) = .ok ()) :
    (∀ tensors : List TensorArgs, (tensors.map (·.name)).Nodup →
      (∀ tensor ∈ tensors, 1 ≤ tensor.dimensions.length ∧ tensor.dimensions.length ≤ 4) →
      (encodeFile metadata tensors).length < 2 ^ 64 →
      ∃ out file, ((GgufWriter.buffered metadata tensors).writeTo : WriteM (List UInt8) Unit) [] =
          (.ok (), out) ∧
        GgufFile.parse out = .ok file ∧
        file.Describes metadata (tensors.map TensorArgs.toTensorShape)) ∧
    (∀ (shapes : List TensorShape) w dataWriter, (shapes.map (·.name)).Nodup →
      (∀ shape ∈ shapes, 1 ≤ shape.dimensions.length ∧ shape.dimensions.length ≤ 4) →
      GgufWriter.declared metadata shapes = .ok w →
      w.intoDataWriter ([] : List UInt8) = .ok dataWriter →
      dataWriter.writer.length < 2 ^ 64 →
      ∀ tensorData, ∃ file, GgufFile.parse (dataWriter.writer ++ tensorData) = .ok file ∧
        file.Describes metadata shapes) ∧
    (∀ s, ∃ bytes : List UInt8, Emits (writeString s) bytes bytes.length) ∧
    (∀ value, ∃ bytes : List UInt8, Emits (writeMetadataValue value) bytes bytes.length) ∧
    ∀ elements, ∃ bytes : List UInt8, Emits (writeArray elements) bytes bytes.length := by
  have hprelude : ∀ metas : List TensorMeta, (metas.map TensorMeta.name).Nodup →
      (∀ tensor ∈ metas, 1 ≤ tensor.dimensions.length ∧ tensor.dimensions.length ≤ 4) →
      (encodePrelude metadata metas).length < 2 ^ 64 → ∀ tensorData, ∃ file,
        GgufFile.parse (encodePrelude metadata metas ++ tensorData) = .ok file ∧
          file.Describes metadata (metas.map TensorMeta.shape) := by
    intro metas hnames hdims hlen tensorData
    have h : Readable metadata metas := ⟨hfits, halignment, hnames, hdims⟩
    have hsections : (encodeSections metadata metas).length < 2 ^ 64 := by
      rw [length_encodePrelude] at hlen
      omega
    obtain ⟨hmetadata, hmetas⟩ := lengths_lt (encodeSectionsAt_located metadata metas ▸ hsections)
    rw [length_located] at hmetas
    exact ⟨_, parse_encodePrelude h hsections tensorData, describes_of h hkeys hmetadata hmetas⟩
  refine ⟨?_, ?_, fun s => ⟨_, emits_writeString s⟩, fun v => ⟨_, emits_writeMetadataValue v⟩,
    fun es => ⟨_, emits_writeArray es⟩⟩
  · intro tensors hnames hdims hlen
    have hpart : (encodePrelude metadata (tensors.map TensorArgs.toMeta)).length < 2 ^ 64 := by
      rw [encodeFile, List.length_append] at hlen
      omega
    obtain ⟨file, hparse, hfile⟩ := hprelude (tensors.map TensorArgs.toMeta)
      (by rwa [List.map_map]) (by
        intro tensor hmem
        obtain ⟨args, hargs, rfl⟩ := List.mem_map.mp hmem
        exact hdims args hargs) hpart (encodeData 0 (tensors.map TensorArgs.data))
    rw [List.map_map] at hfile
    exact ⟨_, file, writeTo_buffered hlen, hparse, hfile⟩
  · intro shapes w dataWriter hnames hdims hdeclared hwriter hlen tensorData
    obtain ⟨metas, rfl, rfl, -⟩ := GgufWriter.declared_eq_ok hdeclared
    obtain ⟨-, rfl⟩ := GgufWriter.intoDataWriter_eq_ok hwriter
    rw [List.map_map] at hnames
    exact hprelude metas hnames (fun tensor hmem =>
      hdims tensor.shape (List.mem_map_of_mem hmem)) hlen tensorData

/-- An array around an array and so on, around one number. -/
def nested : ℕ → MetadataValue
  | 0 => .uint8 7
  | n + 1 => .array [nested n]

theorem nests_nested (n : ℕ) : Nests n (nested n) := by
  induction n with
  | zero => trivial
  | succ n ih =>
    intro element hmem
    obtain rfl := List.mem_singleton.mp hmem
    exact ⟨rfl, ih⟩

set_option maxRecDepth 2000 in
theorem parse_written_example :
    (∃ out file, ((GgufWriter.buffered [("a", nested 8), ("b", .array [.string "x", .string ""])]
        [⟨⟨"t", [2, 1], .f16⟩, [1, 2, 3, 4]⟩]).writeTo : WriteM (List UInt8) Unit) [] =
          (.ok (), out) ∧
      GgufFile.parse out = .ok file ∧
      file.Describes [("a", nested 8), ("b", .array [.string "x", .string ""])]
        [⟨"t", [2, 1], .f16⟩]) := by
  refine (parse_written (by decide) ?_ rfl).1 [⟨⟨"t", [2, 1], .f16⟩, [1, 2, 3, 4]⟩] (by decide)
    (by simp) (by decide_cbv)
  intro entry hmem
  rcases List.mem_cons.mp hmem with rfl | hmem
  · exact fits_of_nests (nests_nested 8)
  · obtain rfl := List.mem_singleton.mp hmem
    intro element hmem
    rcases List.mem_cons.mp hmem with rfl | hmem
    · exact ⟨rfl, trivial⟩
    · obtain rfl := List.mem_singleton.mp hmem
      exact ⟨rfl, trivial⟩

/-- Nine arrays inside one another around a number are written, but the number
stands one level too deep for the parser. -/
theorem not_parse_nested :
    Nests 9 (nested 9) ∧
    validateAlignment Parser.maxGgufAlignment
      (alignmentOf (.ofList [("a", nested 9)])) = .ok () ∧
    ¬ ∃ file, GgufFile.parse (((GgufWriter.buffered [("a", nested 9)] []).writeTo :
      WriteM (List UInt8) Unit) []).2 = .ok file := by
  refine ⟨nests_nested 9, rfl, ?_⟩
  rintro ⟨file, hfile⟩
  have hnone : (GgufFile.parse (((GgufWriter.buffered [("a", nested 9)] []).writeTo :
      WriteM (List UInt8) Unit) []).2).toOption.isNone = true := by decide +kernel
  rw [hfile] at hnone
  cases hnone

end Gguf

end Oxillama
