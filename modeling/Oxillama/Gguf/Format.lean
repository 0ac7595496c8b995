/-
The format of a GGUF v3 file, and that the writer writes it.

The encodings here are pure functions of what is written.  The functions of the
writer are shown to emit them, and to answer how many bytes that is.

* `Fits` — the values the format can hold and the reader takes back;
* `emits_writeMetadataValue` — a metadata value, by recursion on its elements;
* `emits_writeGgufPrelude` — everything in front of the tensor data.
-/
import Oxillama.Gguf.Writer

namespace Oxillama

namespace Gguf

/-! ### Encodings -/

/-- A length and the text. -/
def encodeString (s : String) : List UInt8 :=
  toLe 8 (encodeUtf8 s).length ++ encodeUtf8 s

/-- The type an array is written with: that of its first element. -/
def elementType : List MetadataValue → GgufValueType
  | [] => .uint8
  | first :: _ => first.valueType

mutual

/-- A value without its type. -/
def encodeElement : MetadataValue → List UInt8
  | .uint8 v => toLe 1 v.toNat
  | .int8 v => toLe 1 v.toUInt8.toNat
  | .uint16 v => toLe 2 v.toNat
  | .int16 v => toLe 2 v.toUInt16.toNat
  | .uint32 v => toLe 4 v.toNat
  | .int32 v => toLe 4 v.toUInt32.toNat
  | .float32 bits => toLe 4 bits.toNat
  | .bool v => [if v then 1 else 0]
  | .string s => encodeString s
  | .uint64 v => toLe 8 v.toNat
  | .int64 v => toLe 8 v.toUInt64.toNat
  | .float64 bits => toLe 8 bits.toNat
  | .array elements =>
    toLe 4 (elementType elements).toU32.toNat ++
      (toLe 8 elements.length ++ encodeElements elements)

/-- The elements of an array, one after the other. -/
def encodeElements : List MetadataValue → List UInt8
  | [] => []
  | element :: elements => encodeElement element ++ encodeElements elements

end

/-- A value behind its type. -/
def encodeValue (value : MetadataValue) : List UInt8 :=
  toLe 4 value.valueType.toU32.toNat ++ encodeElement value

/-- A metadata entry. -/
def encodeEntry (entry : String × MetadataValue) : List UInt8 :=
  encodeString entry.1 ++ encodeValue entry.2

/-- The tensor info of a tensor at an offset of the data section. -/
def encodeTensorInfo (info : TensorMeta × ℕ) : List UInt8 :=
  encodeString info.1.name ++ (toLe 4 info.1.dimensions.length ++
    (info.1.dimensions.flatMap (fun dim => toLe 8 dim.toNat) ++
      (toLe 4 info.1.tensorType.toU32.toNat ++ toLe 8 info.2)))

/-- The offset of the tensor behind one of `size` bytes at `offset`. -/
def nextOffset (offset size : ℕ) : ℕ :=
  saturatingAdd (offset + size) (alignmentPadding (offset + size) ggufDefaultAlignment)

/-- The offsets of tensors of the given sizes, the first of them at `offset`. -/
def offsetsFrom : ℕ → List ℕ → List ℕ
  | _, [] => []
  | offset, size :: sizes => offset :: offsetsFrom (nextOffset offset size) sizes

/-- No tensor ends behind the last offset of the format. -/
def OffsetsFit : ℕ → List ℕ → Prop
  | _, [] => True
  | offset, size :: sizes => offset + size < 2 ^ 64 ∧ OffsetsFit (nextOffset offset size) sizes

/-- The tensors with their offsets in the data section. -/
def located (tensorMetas : List TensorMeta) : List (TensorMeta × ℕ) :=
  tensorMetas.zip (offsetsFrom 0 (tensorMetas.map TensorMeta.dataSize))

/-- The header. -/
def encodeHeader (tensorCount metadataKvCount : ℕ) : List UInt8 :=
  toLe 4 ggufMagic.toNat ++ (toLe 4 3 ++ (toLe 8 tensorCount ++ toLe 8 metadataKvCount))

/-- The three sections in front of the padding and the tensor data. -/
def encodeSections (metadata : List (String × MetadataValue)) (tensorMetas : List TensorMeta) :
    List UInt8 :=
  encodeHeader tensorMetas.length metadata.length ++ (metadata.flatMap encodeEntry ++
    (located tensorMetas).flatMap encodeTensorInfo)

/-- Everything in front of the tensor data. -/
def encodePrelude (metadata : List (String × MetadataValue)) (tensorMetas : List TensorMeta) :
    List UInt8 :=
  encodeSections metadata tensorMetas ++
    zeroPad (alignmentPadding (encodeSections metadata tensorMetas).length ggufDefaultAlignment)

theorem encodeElements_eq (elements : List MetadataValue) :
    encodeElements elements = elements.flatMap encodeElement := by
  induction elements with
  | nil => rw [encodeElements, List.flatMap_nil]
  | cons element elements ih => rw [encodeElements, List.flatMap_cons, ih]

@[simp] theorem length_encodeHeader (tensorCount metadataKvCount : ℕ) :
    (encodeHeader tensorCount metadataKvCount).length = 24 := by
  simp only [encodeHeader, List.length_append, length_toLe]

@[simp] theorem length_encodeString (s : String) :
    (encodeString s).length = 8 + (encodeUtf8 s).length := by
  rw [encodeString, List.length_append, length_toLe]

/-! ### Values of the format -/

/-- A value that fits in `levels` levels: every array is homogeneous, and no
value stands deeper. -/
def Fits : ℕ → MetadataValue → Prop
  | 0, _ => False
  | levels + 1, .array elements =>
    ∀ element ∈ elements, element.valueType = elementType elements ∧ Fits levels element
  | _ + 1, _ => True

/-- Homogeneous arrays, at most `n` of them inside one another. -/
def Nests : ℕ → MetadataValue → Prop
  | 0, .array _ => False
  | n + 1, .array elements =>
    ∀ element ∈ elements, element.valueType = elementType elements ∧ Nests n element
  | _, _ => True

/-- Values with fewer levels of arrays than there are levels fit. -/
theorem fits_of_nests {n : ℕ} {value : MetadataValue} (h : Nests n value) :
    Fits (n + 1) value := by
  induction n generalizing value with
  | zero =>
    cases value with
    | array elements => exact h.elim
    | _ => trivial
  | succ n ih =>
    cases value with
    | array elements =>
      intro element hmem
      exact ⟨(h element hmem).1, ih (h element hmem).2⟩
    | _ => trivial

/-! ### The writer emits the format -/

theorem emits_writeAll (bytes : List UInt8) : Emits (writeAll bytes) bytes () := fun _ => rfl

theorem emits_writeLe (n v : ℕ) : Emits (writeLe n v) (toLe n v) n :=
  (emits_writeAll _).map fun _ => n

theorem emits_writeHeader (tensorCount metadataKvCount : ℕ) :
    Emits (writeHeader tensorCount metadataKvCount) (encodeHeader tensorCount metadataKvCount)
      24 :=
  (emits_writeAll _).seq <| (emits_writeAll _).seq <| (emits_writeAll _).seq <|
    (emits_writeAll _).map fun _ => 24

theorem emits_writeString (s : String) :
    Emits (writeString s) (encodeString s) (encodeString s).length := by
  rw [length_encodeString]
  exact (emits_writeAll _).seq ((emits_writeAll _).map fun _ => 8 + (encodeUtf8 s).length)

theorem emits_writeArrayWith {elements : List MetadataValue} {p : WriteM (List UInt8) ℕ}
    (h : Emits p (encodeElements elements) (encodeElements elements).length) :
    Emits (writeArrayWith elements p) (encodeElement (.array elements))
      (encodeElement (.array elements)).length := by
  have hlen : (encodeElement (.array elements)).length =
      4 + 8 + (encodeElements elements).length := by
    simp only [encodeElement, List.length_append, length_toLe]
    omega
  rw [hlen, encodeElement]
  have hbody := h.map fun n => 4 + 8 + n
  cases elements with
  | nil => exact (emits_writeAll _).seq ((emits_writeAll _).seq hbody)
  | cons => exact (emits_writeAll _).seq ((emits_writeAll _).seq hbody)

mutual

/-- An element is written without its type. -/
theorem emits_writeArrayElement : ∀ value : MetadataValue,
    Emits (writeArrayElement value) (encodeElement value) (encodeElement value).length
  | .uint8 v => emits_writeLe 1 v.toNat
  | .int8 v => emits_writeLe 1 v.toUInt8.toNat
  | .uint16 v => emits_writeLe 2 v.toNat
  | .int16 v => emits_writeLe 2 v.toUInt16.toNat
  | .uint32 v => emits_writeLe 4 v.toNat
  | .int32 v => emits_writeLe 4 v.toUInt32.toNat
  | .float32 bits => emits_writeLe 4 bits.toNat
  | .bool _ => (emits_writeAll _).map fun _ => 1
  | .string s => emits_writeString s
  | .uint64 v => emits_writeLe 8 v.toNat
  | .int64 v => emits_writeLe 8 v.toUInt64.toNat
  | .float64 bits => emits_writeLe 8 bits.toNat
  | .array elements => emits_writeArrayWith (emits_writeElements elements)

/-- The loop over the elements. -/
theorem emits_writeElements : ∀ elements : List MetadataValue,
    Emits (writeElements elements) (encodeElements elements) (encodeElements elements).length
  | [] => .pure 0
  | element :: elements => by
    rw [encodeElements, List.length_append]
    exact (emits_writeArrayElement element).bind ((emits_writeElements elements).map _)

end

/-- An array is written behind the type of its elements and their number. -/
theorem emits_writeArray (elements : List MetadataValue) :
    Emits (writeArray elements) (encodeElement (.array elements))
      (encodeElement (.array elements)).length :=
  emits_writeArrayWith (emits_writeElements elements)

/-- **A metadata value** is written behind its type, in as many bytes as the
writer says. -/
theorem emits_writeMetadataValue (value : MetadataValue) :
    Emits (writeMetadataValue value) (encodeValue value) (encodeValue value).length := by
  have hlen : (encodeValue value).length = 4 + (encodeElement value).length := by
    rw [encodeValue, List.length_append, length_toLe]
  rw [hlen]
  refine (emits_writeAll _).seq ?_
  have helement := emits_writeArrayElement value
  cases value with
  | bool v => exact (emits_writeAll _).map fun _ => 4 + 1
  | array elements => exact (emits_writeArray elements).map fun n => 4 + n
  | _ => exact helement.map fun n => 4 + n

theorem emits_writeMetadataEntry (entry : String × MetadataValue) :
    Emits (writeMetadataEntry entry) (encodeEntry entry) (encodeEntry entry).length := by
  rw [encodeEntry, List.length_append]
  exact (emits_writeString entry.1).bind ((emits_writeMetadataValue entry.2).map _)

/-- The metadata section, behind `offset` bytes. -/
theorem emits_metadata (metadata : List (String × MetadataValue)) (offset : ℕ) :
    Emits (sumM writeMetadataEntry metadata offset) (metadata.flatMap encodeEntry)
      (offset + (metadata.flatMap encodeEntry).length) :=
  Emits.sumM (fun entry _ => emits_writeMetadataEntry entry) offset

theorem emits_writeTensorInfo (info : TensorMeta × ℕ) :
    Emits (writeTensorInfo info) (encodeTensorInfo info) (encodeTensorInfo info).length := by
  have hdims : Emits (sumM (fun dim => writeLe 8 dim.toNat) info.1.dimensions
      ((encodeString info.1.name).length + 4))
      (info.1.dimensions.flatMap fun dim => toLe 8 dim.toNat) _ :=
    Emits.sumM (fun dim _ => by
      have h := emits_writeLe 8 dim.toNat
      rwa [← length_toLe 8 dim.toNat] at h) _
  have hlen : (encodeTensorInfo info).length = (encodeString info.1.name).length + 4 +
      (info.1.dimensions.flatMap fun dim => toLe 8 dim.toNat).length + 4 + 8 := by
    simp only [encodeTensorInfo, List.length_append, length_toLe]
    omega
  rw [hlen]
  exact (emits_writeString info.1.name).bind <| (emits_writeAll _).seq <| hdims.bind <|
    (emits_writeAll _).seq <| (emits_writeAll _).map _

/-- The loop over the offsets succeeds exactly when every tensor fits. -/
theorem tensorOffsets_eq_ok_iff {tensorMetas : List TensorMeta} {offset : ℕ}
    {acc offsets : List ℕ} :
    tensorOffsets tensorMetas offset acc = .ok offsets ↔
      OffsetsFit offset (tensorMetas.map TensorMeta.dataSize) ∧
        offsets = acc ++ offsetsFrom offset (tensorMetas.map TensorMeta.dataSize) := by
  induction tensorMetas generalizing offset acc with
  | nil =>
    show Except.ok acc = Except.ok offsets ↔ True ∧ offsets = acc ++ []
    rw [Except.ok.injEq, true_and, List.append_nil, eq_comm]
  | cons tensor tensorMetas ih =>
    rw [tensorOffsets, List.map_cons, OffsetsFit, offsetsFrom]
    by_cases h : offset + tensor.dataSize < 2 ^ 64
    · rw [checkedAdd_eq_some.mpr ⟨h, rfl⟩]
      have hrest : tensorOffsets tensorMetas (nextOffset offset tensor.dataSize)
          (acc ++ [offset]) = .ok offsets ↔ _ := ih
      refine hrest.trans ?_
      rw [List.append_assoc, List.singleton_append, and_iff_right h]
    · have hnone : checkedAdd offset tensor.dataSize = none := if_neg h
      rw [hnone]
      exact iff_of_false (by rintro ⟨⟩) fun hfit => h hfit.1.1

/-- **Everything in front of the tensor data.**  Where every offset fits, the
writer emits the format. -/
theorem emits_writeGgufPrelude (metadata : List (String × MetadataValue))
    {tensorMetas : List TensorMeta}
    (h : OffsetsFit 0 (tensorMetas.map TensorMeta.dataSize)) :
    Emits (writeGgufPrelude metadata tensorMetas) (encodePrelude metadata tensorMetas) () := by
  have hoffsets : Emits (liftM (tensorOffsets tensorMetas 0 []) : WriteM (List UInt8) (List ℕ))
      [] (offsetsFrom 0 (tensorMetas.map TensorMeta.dataSize)) := by
    rw [tensorOffsets_eq_ok_iff.mpr ⟨h, rfl⟩]
    exact .pure _
  have hinfos := Emits.sumM (fun info (_ : info ∈ located tensorMetas) =>
    emits_writeTensorInfo info) (24 + (metadata.flatMap encodeEntry).length)
  have hlen : (encodeSections metadata tensorMetas).length =
      24 + (metadata.flatMap encodeEntry).length +
        ((located tensorMetas).flatMap encodeTensorInfo).length := by
    simp only [encodeSections, List.length_append, length_encodeHeader, Nat.add_assoc]
  have hpad : ∀ n, Emits (if n > 0 then writeAll (zeroPad n) else pure () : WriteM (List UInt8) _)
      (zeroPad n) () := by
    intro n
    split
    · exact emits_writeAll _
    · next hn =>
      obtain rfl : n = 0 := by omega
      exact .pure ()
  rw [encodePrelude, hlen, encodeSections]
  simp only [List.append_assoc]
  refine (emits_writeHeader tensorMetas.length metadata.length).bind ?_
  refine (emits_metadata metadata 24).bind ?_
  refine Emits.bind (u := []) hoffsets ?_
  exact hinfos.bind (hpad _)

/-- Where an offset does not fit, the writer fails. -/
theorem writeGgufPrelude_of_not_fit (metadata : List (String × MetadataValue))
    {tensorMetas : List TensorMeta}
    (h : ¬ OffsetsFit 0 (tensorMetas.map TensorMeta.dataSize)) (w : List UInt8) :
    ∃ e w', writeGgufPrelude metadata tensorMetas w = (.error e, w') := by
  cases hoffsets : tensorOffsets tensorMetas 0 [] with
  | ok offsets => exact absurd (tensorOffsets_eq_ok_iff.mp hoffsets).1 h
  | error e =>
    -- the offsets are computed once the metadata is written: that much stays in the sink
    refine ⟨e, w ++ encodeHeader tensorMetas.length metadata.length ++
      metadata.flatMap encodeEntry, ?_⟩
    rw [writeGgufPrelude, exceptT_bind_ok (emits_writeHeader _ _ w),
      exceptT_bind_ok (emits_metadata _ 24 _),
      hoffsets]
    rfl

end Gguf

end Oxillama
