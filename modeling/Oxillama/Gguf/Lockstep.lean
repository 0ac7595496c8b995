/-
The reader and the source in lockstep.

`GgufFile.parse` walks a file with a `BinaryReader`, `parseGguf` with a
`Source`.  Over the same buffer every function of the one has its counterpart in
the other, which fails with it or reads the same value.

* `lockstep_readMetadataValue` — one metadata value, by induction on the levels
  of nesting that are left;
* `lockstep_parse` — everything behind the header;
* `parseGguf_agrees` — the two parsers fail together, or say the same about the
  file.
-/
import Oxillama.Gguf.Parser
import Oxillama.Gguf.ReaderCore

namespace Oxillama

namespace Gguf

/-! ### The reader and the source -/

/-- The cursors stand at the same place of the buffer `data`. -/
def SameCursor (data : List UInt8) (r : BinaryReader) (src : SliceSource) : Prop :=
  ∃ pos ≤ data.length, r = ⟨data, pos⟩ ∧ src = ⟨data, pos⟩

variable {data : List UInt8}

theorem readExactOr_eq (offset n : ℕ) (src : SliceSource) :
    ReaderCore.readExactOr offset n src =
      if src.pos + n > src.data.length then .error (.unexpectedEof offset)
      else .ok ((src.data.drop src.pos).take n, { src with pos := src.pos + n }) := by
  rw [ReaderCore.readExactOr, get_bind_apply]
  by_cases h : src.pos + n > src.data.length
  · have hread : Source.readExact src n = .error SliceError.unexpectedEof := if_pos h
    rw [if_pos h, hread]
    rfl
  · have hread : Source.readExact src n =
        .ok ((src.data.drop src.pos).take n, { src with pos := src.pos + n }) := if_neg h
    rw [if_neg h, hread]
    rfl

theorem lockstep_readBytes (offset n : ℕ) :
    Lockstep (SameCursor data) Eq (BinaryReader.readBytes n)
      (ReaderCore.readExactOr (S := SliceSource) offset n) := by
  rintro _ _ ⟨pos, hle, rfl, rfl⟩
  rw [BinaryReader.readBytes_eq, readExactOr_eq]
  dsimp only at hle ⊢
  by_cases h : pos + n > data.length
  · left
    rw [if_pos h, if_pos (by omega)]
    exact ⟨_, _, rfl, rfl⟩
  · right
    rw [if_neg h, if_neg (by omega)]
    exact ⟨_, _, _, _, rfl, rfl, rfl, pos + n, by omega, rfl, rfl⟩

theorem lockstep_readLe (n : ℕ) :
    Lockstep (SameCursor data) Eq (BinaryReader.readLe n)
      (ReaderCore.readLe (S := SliceSource) n) := by
  refine .getRight fun src => (lockstep_readBytes _ n).bind ?_
  rintro bytes _ rfl
  exact .pure rfl

theorem lockstep_readU8 :
    Lockstep (SameCursor data) Eq BinaryReader.readU8 (ReaderCore.readU8 (S := SliceSource)) :=
  (lockstep_readLe 1).map _

theorem lockstep_readU32 :
    Lockstep (SameCursor data) Eq BinaryReader.readU32 (ReaderCore.readU32 (S := SliceSource)) :=
  (lockstep_readLe 4).map _

theorem lockstep_readU64 :
    Lockstep (SameCursor data) Eq BinaryReader.readU64 (ReaderCore.readU64 (S := SliceSource)) :=
  (lockstep_readLe 8).map _

theorem lockstep_readStringOf (n : ℕ) :
    Lockstep (SameCursor data) Eq (BinaryReader.readStringOf n)
      (ReaderCore.readStringOf (S := SliceSource) n) := by
  refine .getRight fun start => (lockstep_readLe n).bind ?_
  rintro len _ rfl _ _ ⟨pos, hle, rfl, rfl⟩
  rw [BinaryReader.takeString_eq, get_bind_apply]
  have hhint : (Source.remainingHint (⟨data, pos⟩ : SliceSource)).getD
      ReaderCore.maxStringLenFallback = data.length - pos := rfl
  dsimp only at hle ⊢
  rw [hhint]
  -- over a slice the hint is exact, so both reject the same lengths
  by_cases h : len > data.length - pos
  · left
    rw [if_pos h, if_pos h]
    exact ⟨_, _, rfl, rfl⟩
  · have hread : ReaderCore.readExactOr (Source.position start) len (⟨data, pos⟩ : SliceSource) =
        .ok ((data.drop pos).take len, ⟨data, pos + len⟩) := by
      rw [readExactOr_eq, if_neg (by simp only; omega)]
    rw [if_neg h, if_neg h, bind_apply_ok hread]
    cases decodeUtf8 ((data.drop pos).take len) with
    | none => exact .inl ⟨_, _, rfl, rfl⟩
    | some s => exact .inr ⟨s, _, s, _, rfl, rfl, rfl, pos + len, by omega, rfl, rfl⟩

theorem lockstep_readStringVersioned (version : UInt32) :
    Lockstep (SameCursor data) Eq (BinaryReader.readStringVersioned version)
      (ReaderCore.readStringVersioned (S := SliceSource) version) :=
  .ite Iff.rfl (fun _ => lockstep_readStringOf 8) fun _ => lockstep_readStringOf 4

theorem lockstep_readCount (version : UInt32) :
    Lockstep (SameCursor data) Eq (BinaryReader.readCountVersioned version)
      (ReaderCore.readCount (S := SliceSource) version) :=
  .ite Iff.rfl (fun _ => lockstep_readU64) fun _ => lockstep_readU32.map _

theorem lockstep_readOffset (version : UInt32) :
    Lockstep (SameCursor data) Eq (BinaryReader.readOffsetVersioned version)
      (ReaderCore.readOffset (S := SliceSource) version) :=
  .ite Iff.rfl (fun _ => lockstep_readU64) fun _ => lockstep_readU32.map _

/-- What the reader has left is what the source hints at. -/
theorem lockstep_remaining :
    Lockstep (SameCursor data) (fun rem src => Source.remainingHint src = some rem)
      BinaryReader.remaining (get : StateT SliceSource GgufResult SliceSource) := by
  rintro _ _ ⟨pos, hle, rfl, rfl⟩
  exact .inr ⟨_, _, _, _, rfl, rfl, rfl, pos, hle, rfl, rfl⟩

theorem lockstep_position :
    Lockstep (SameCursor data) (fun pos src => Source.position src = pos) BinaryReader.position
      (get : StateT SliceSource GgufResult SliceSource) := by
  rintro _ _ ⟨pos, hle, rfl, rfl⟩
  exact .inr ⟨_, _, _, _, rfl, rfl, rfl, pos, hle, rfl, rfl⟩

/-! ### Metadata -/

/-- **One value**, with the same limit on the depth. -/
theorem lockstep_readMetadataValue (version : UInt32) (levels : ℕ) (t : GgufValueType) :
    Lockstep (SameCursor data) Eq
      (BinaryReader.readMetadataValue Parser.maxMetadataArrayDepth version levels t)
      (ReaderCore.readMetadataValue (S := SliceSource) version levels t) := by
  induction levels generalizing t with
  | zero => exact .fail _ _
  | succ levels ih =>
    cases t with
    | uint8 => exact lockstep_readU8.map _
    | int8 => exact lockstep_readU8.map _
    | uint16 => exact ((lockstep_readLe 2).map _).map _
    | int16 => exact ((lockstep_readLe 2).map _).map _
    | uint32 => exact lockstep_readU32.map _
    | int32 => exact ((lockstep_readLe 4).map _).map _
    | float32 => exact ((lockstep_readLe 4).map _).map _
    | bool => exact (lockstep_readU8.map _).map _
    | string => exact (lockstep_readStringVersioned version).map _
    | uint64 => exact lockstep_readU64.map _
    | int64 => exact ((lockstep_readLe 8).map _).map _
    | float64 => exact ((lockstep_readLe 8).map _).map _
    | array =>
      -- both check the element type first, then the count against what is left
      refine lockstep_readU32.bind ?_
      rintro elemTypeId _ rfl
      refine (Lockstep.okOr _ _).bind ?_
      rintro elemType _ rfl
      refine (lockstep_readCount version).bind ?_
      rintro count _ rfl
      refine lockstep_remaining.bind fun rem src hsrc => ?_
      simp only [hsrc]
      refine .ite Iff.rfl (fun _ => .fail _ _) fun _ => ?_
      refine (Lockstep.iterM (V := Eq) ?_ rfl).map _
      rintro elements _ rfl
      exact (ih elemType).map _

theorem lockstep_readMetadataEntry (version : UInt32) (store : MetadataStore) :
    Lockstep (SameCursor data) Eq
      (BinaryReader.readMetadataEntry Parser.maxMetadataArrayDepth version store)
      (ReaderCore.readMetadataEntry (S := SliceSource) version store) := by
  refine (lockstep_readStringVersioned version).bind ?_
  rintro key _ rfl
  refine lockstep_readU32.bind ?_
  rintro valueTypeId _ rfl
  refine (Lockstep.okOr _ _).bind ?_
  rintro valueType _ rfl
  exact (lockstep_readMetadataValue version _ valueType).map _

theorem lockstep_parseMetadata (header : GgufHeader) :
    Lockstep (SameCursor data) Eq (Parser.parseMetadata header)
      (ReaderCore.readMetadataKv (S := SliceSource) header.metadataKvCount header.version) := by
  refine Lockstep.iterM (V := Eq) ?_ rfl
  rintro store _ rfl
  exact lockstep_readMetadataEntry header.version store

/-! ### Tensor infos -/

theorem lockstep_readTensorInfo (version : UInt32) :
    Lockstep (SameCursor data) Eq (BinaryReader.readTensorInfo Parser.maxTensorDims version)
      (ReaderCore.readTensorInfo (S := SliceSource) version) := by
  refine (lockstep_readStringVersioned version).bind ?_
  rintro name _ rfl
  refine lockstep_readU32.bind ?_
  rintro nDims _ rfl
  refine .ite Iff.rfl (fun _ => .fail _ _) fun _ => ?_
  refine (Lockstep.iterM (V := Eq) ?_ rfl).bind ?_
  · rintro dims _ rfl
    exact (lockstep_readCount version).map _
  rintro dimensions _ rfl
  refine lockstep_readU32.bind ?_
  rintro typeId _ rfl
  refine (Lockstep.okOr _ _).bind ?_
  rintro tensorType _ rfl
  exact (lockstep_readOffset version).map _

theorem lockstep_parseTensorInfos (header : GgufHeader) :
    Lockstep (SameCursor data) Eq (Parser.parseTensorInfos header)
      (ReaderCore.readTensorInfos (S := SliceSource) header.tensorCount header.version) := by
  refine (Lockstep.iterM (V := Eq) ?_ rfl).bind ?_
  · rintro store _ rfl
    refine (lockstep_readTensorInfo header.version).bind ?_
    rintro info _ rfl
    exact .lift _
  · rintro store _ rfl
    exact .ite Iff.rfl (fun _ => .fail _ _) fun _ => .pure rfl

/-! ### Headers -/

/-- The offset of a header read and the source stand at the same place. -/
def SameOffset (data : List UInt8) (pos : ℕ) (src : SliceSource) : Prop :=
  src.data = data ∧ src.pos = pos ∧ pos ≤ data.length

/-- The headers hold the same fields. -/
def SameHeader (h : GgufHeader) (raw : ReaderCore.RawHeader) : Prop :=
  raw = ⟨h.version, h.tensorCount, h.metadataKvCount⟩

theorem readLe_eq (n : ℕ) (src : SliceSource) :
    ReaderCore.readLe n src =
      if src.pos + n > src.data.length then .error (.unexpectedEof src.pos)
      else .ok (fromLe ((src.data.drop src.pos).take n), { src with pos := src.pos + n }) := by
  rw [ReaderCore.readLe, get_bind_apply]
  show (ReaderCore.readExactOr src.pos n src >>= fun r => .ok (fromLe r.1, r.2)) = _
  rw [readExactOr_eq]
  split <;> rfl

theorem lockstep_readField (data : List UInt8) (n : ℕ) :
    Lockstep (SameOffset data) Eq (GgufHeader.readField data n)
      (ReaderCore.readLe (S := SliceSource) n) := by
  rintro pos ⟨_, _⟩ ⟨rfl, rfl, hle⟩
  rw [readLe_eq, GgufHeader.readField, get_bind_apply]
  dsimp only
  split
  · exact .inl ⟨_, _, rfl, rfl⟩
  · exact .inr ⟨_, _, _, _, rfl, rfl, rfl, rfl, rfl, by omega⟩

theorem lockstep_header (data : List UInt8) :
    Lockstep (SameOffset data) SameHeader (GgufHeader.parse data)
      (ReaderCore.readHeader (S := SliceSource)) := by
  have hu32 : Lockstep (SameOffset data) Eq (GgufHeader.readU32 data)
      (ReaderCore.readU32 (S := SliceSource)) := (lockstep_readField data 4).map _
  have hcount : ∀ version, Lockstep (SameOffset data) Eq (GgufHeader.readCount data version)
      (ReaderCore.readCount (S := SliceSource) version) := fun version =>
    .ite Iff.rfl (fun _ => (lockstep_readField data 8).map _) fun _ => hu32.map _
  refine hu32.bind ?_
  rintro magic _ rfl
  refine .ite Iff.rfl (fun _ => .fail _ _) fun _ => ?_
  refine hu32.bind ?_
  rintro version _ rfl
  refine .ite Iff.rfl (fun _ => .fail _ _) fun _ => ?_
  refine (hcount version).bind ?_
  rintro tensorCount _ rfl
  refine (hcount version).bind ?_
  rintro metadataKvCount _ rfl
  exact .pure rfl

/-! ### Whole files -/

/-- What a parse result says about a file: version, tensor count, metadata,
tensors, alignment and the offset of the data section. -/
structure Summary where
  version : UInt32
  tensorCount : UInt64
  metadata : MetadataStore
  tensors : AList fun _ : String => TensorInfo
  alignment : ℕ
  dataOffset : ℕ

/-- The summary of a `GgufFile`. -/
def GgufFile.summary (file : GgufFile) : Summary where
  version := file.header.version
  tensorCount := file.header.tensorCount
  metadata := file.metadata
  tensors := file.tensors.infos
  alignment := file.alignment
  dataOffset := file.tensors.dataSectionOffset

/-- The summary of a `ParsedGguf`. -/
def ReaderCore.ParsedGguf.summary (parsed : ReaderCore.ParsedGguf) : Summary where
  version := parsed.version
  tensorCount := parsed.tensorCount
  metadata := parsed.metadata
  tensors := parsed.tensors.infos
  alignment := parsed.alignment
  dataOffset := parsed.dataOffset

/-- **The reader and the source in lockstep**, behind the header. -/
theorem lockstep_parse {header : GgufHeader} {raw : ReaderCore.RawHeader}
    (h : SameHeader header raw) :
    Lockstep (SameCursor data) (fun file parsed => file.summary = parsed.summary)
      (GgufFile.parseBody header) (ReaderCore.parseBody (S := SliceSource) raw) := by
  obtain rfl := h
  refine (lockstep_parseMetadata header).bind ?_
  rintro metadata _ rfl
  refine (Lockstep.lift _).bind ?_
  rintro _ _ rfl
  refine (lockstep_parseTensorInfos header).bind ?_
  rintro tensors _ rfl
  refine lockstep_position.bind ?_
  rintro _ src rfl
  exact .pure rfl

theorem parseGguf_agrees (data : List UInt8) :
    ((ReaderCore.parseGguf.run (SliceSource.new data)).toOption.map fun r => r.1.summary) =
      (GgufFile.parse data).toOption.map GgufFile.summary := by
  have hstart : SameOffset data 0 (SliceSource.new data) := ⟨rfl, rfl, Nat.zero_le _⟩
  show (Except.toOption (ReaderCore.readHeader (SliceSource.new data) >>= fun r =>
    ReaderCore.parseBody r.1 r.2)).map _ = (Except.toOption (GgufHeader.parse data 0 >>= fun r =>
      GgufFile.parseBody r.1 ⟨data, r.2⟩ >>= fun r => .ok r.1)).map _
  rcases lockstep_header data 0 _ hstart with
    ⟨e, e', h₁, h₂⟩ | ⟨header, offset, raw, src, h₁, h₂, hheader, hsrc⟩
  · rw [h₁, h₂]
    rfl
  · rw [h₁, h₂]
    show (Except.toOption (ReaderCore.parseBody raw src)).map _ =
      (Except.toOption (GgufFile.parseBody header ⟨data, offset⟩ >>= fun r => .ok r.1)).map _
    have hcursor : SameCursor data ⟨data, offset⟩ src := by
      obtain ⟨rfl, rfl, hle⟩ := hsrc
      exact ⟨src.pos, hle, rfl, rfl⟩
    rcases lockstep_parse hheader _ _ hcursor with
      ⟨e, e', h₃, h₄⟩ | ⟨file, r, parsed, src', h₃, h₄, hsum, -⟩
    · rw [h₃, h₄]
      rfl
    · rw [h₃, h₄]
      exact congrArg some hsum.symm

end Gguf

end Oxillama
