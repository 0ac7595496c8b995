/-
Access to the tensors of a file nobody vouches for.

The offset, the dimensions and the alignment that locate a tensor all come from
the file.  `GgufFile.tensorSlice` is `tensor_data` with its plain arithmetic and
its slice expression as operations that may panic:

* `tensorSlice_eq` — it never panics, and answers what `tensorData` does;
* `tensorData_eq_ok` — an answer is a part of the data section;
* `findTensor_eq` — the streaming parser finds the same entry by a scan;
* `tensor_access_contained` — **all of this for every file that is accepted**.
-/
import Oxillama.Gguf.Agreement

namespace Oxillama

namespace Gguf

/-! ### Aligning -/

/-- `align_up` with the subtraction that could underflow. -/
def alignUpOrPanic (value alignment : ℕ) : Option ℕ :=
  if alignment = 0 then some value
  else
    let rem := value % alignment
    if rem = 0 then some value else (usizeSub alignment rem).map (saturatingAdd value)

theorem alignUpOrPanic_eq (value alignment : ℕ) :
    alignUpOrPanic value alignment = some (alignUp value alignment) := by
  unfold alignUpOrPanic alignUp
  split
  · rfl
  · rename_i hpos
    dsimp only
    split
    · rfl
    · rw [usizeSub_of_le (Nat.mod_lt value (Nat.pos_of_ne_zero hpos)).le]
      rfl

/-- Aligning moves nothing forward. -/
theorem le_alignUp {value alignment : ℕ} (h : value < 2 ^ 64) :
    value ≤ alignUp value alignment := by
  unfold alignUp
  split
  · exact le_rfl
  · dsimp only
    split
    · exact le_rfl
    · rw [saturatingAdd]
      omega

/-! ### Ranges -/

/-- `GgufFile::tensor_data`, whose slice expression adds and slices without a check. -/
def GgufFile.tensorSlice (file : GgufFile) (data : List UInt8) (name : String) :
    Option (GgufResult (List UInt8)) :=
  match file.tensorDataRange data.length name with
  | .error e => some (.error e)
  | .ok (start, len) => do
    let stop ← usizeAdd start len
    (sliceRange data start stop).map .ok

/-- The bytes of a tensor in a file: as many as its type and dimensions say, at its
offset behind the data offset. -/
def GgufFile.Holds (file : GgufFile) (data : List UInt8) (name : String) (bytes : List UInt8) :
    Prop :=
  ∃ info pre post, file.tensors.get name = .ok info ∧ info.tryDataSize = .ok bytes.length ∧
    data = pre ++ bytes ++ post ∧ pre.length = file.tensors.dataSectionOffset + info.offset.toNat

section Ranges

variable {file : GgufFile} {data bytes : List UInt8} {name : String} {dataLen start len : ℕ}

theorem tensorDataRange_eq_ok :
    file.tensorDataRange dataLen name = .ok (start, len) ↔ ∃ info,
      file.tensors.get name = .ok info ∧ info.tryDataSize = .ok len ∧
      start = file.tensors.dataSectionOffset + info.offset.toNat ∧
      start + len < 2 ^ 64 ∧ start + len ≤ dataLen := by
  rw [GgufFile.tensorDataRange]
  simp only [except_bind_eq_ok, okOr_eq_ok, checkedAdd_eq_some]
  constructor
  · rintro ⟨info, hget, absOffset, ⟨-, rfl⟩, size, hsize, stop, ⟨hstop, rfl⟩, h⟩
    split at h
    · cases h
    · rename_i hfits
      obtain ⟨rfl, rfl⟩ := Prod.mk.inj (Except.ok.inj h)
      exact ⟨info, hget, hsize, rfl, hstop, not_lt.mp hfits⟩
  · rintro ⟨info, hget, hsize, rfl, hstop, hfits⟩
    refine ⟨info, hget, _, ⟨by omega, rfl⟩, len, hsize, _, ⟨hstop, rfl⟩, ?_⟩
    rw [if_neg (not_lt.mpr hfits)]
    rfl

/-- **The slice expression never panics.** -/
theorem tensorSlice_eq (file : GgufFile) (data : List UInt8) (name : String) :
    file.tensorSlice data name = some (file.tensorData data name) := by
  rw [GgufFile.tensorSlice, GgufFile.tensorData]
  cases hrange : file.tensorDataRange data.length name with
  | error e => rfl
  | ok range =>
    obtain ⟨start, len⟩ := range
    obtain ⟨info, -, -, -, hstop, hfits⟩ := tensorDataRange_eq_ok.mp hrange
    dsimp only
    rw [usizeAdd_of_lt hstop]
    show (sliceRange data start (start + len)).map Except.ok = _
    rw [sliceRange_of_le hfits]
    rfl

/-- **An answer is a part of the data section**, as long as the tensor. -/
theorem tensorData_eq_ok (h : file.tensorData data name = .ok bytes) :
    file.Holds data name bytes := by
  rw [GgufFile.tensorData] at h
  obtain ⟨⟨start, len⟩, hrange, hbytes⟩ := except_bind_eq_ok.mp h
  obtain ⟨info, hget, hsize, rfl, -, hfits⟩ := tensorDataRange_eq_ok.mp hrange
  obtain rfl := Except.ok.inj hbytes
  set start := file.tensors.dataSectionOffset + info.offset.toNat
  have hlen : ((data.drop start).take len).length = len := by
    rw [List.length_take, List.length_drop]
    omega
  refine ⟨info, data.take start, (data.drop start).drop len, hget, hlen.symm ▸ hsize, ?_, ?_⟩
  · rw [List.append_assoc, List.take_append_drop, List.take_append_drop]
  · rw [List.length_take]
    omega

end Ranges

/-! ### The streaming parser -/

section Streaming

variable {version : UInt32} {n : ℕ} {store store' : TensorStore} {r r' : BinaryReader}
  {name : String} {info : TensorInfo}

theorem tryInsert_eq_ok :
    store.tryInsert info = .ok store' ↔ info.name ∉ store.infos ∧
      store' = { store with infos := store.infos.insert info.name info } := by
  rw [TensorStore.tryInsert]
  split
  · rename_i hmem
    exact iff_of_false (fun h => nomatch h) fun h => h.1 hmem
  · rename_i hnew
    rw [Except.ok.injEq, eq_comm]
    exact ⟨fun h => ⟨hnew, h⟩, fun h => h.2⟩

/-- One round of reading the tensor infos. -/
theorem parseTensorInfo_eq_ok :
    Parser.parseTensorInfo version store r = .ok (store', r') ↔ ∃ info,
      BinaryReader.readTensorInfo Parser.maxTensorDims version r = .ok (info, r') ∧
      store.tryInsert info = .ok store' := by
  rw [Parser.parseTensorInfo, bind_eq_ok]
  refine exists_congr fun info => ?_
  constructor
  · rintro ⟨r₁, hread, hinsert⟩
    cases hstore : store.tryInsert info with
    | error e =>
      rw [hstore] at hinsert
      cases hinsert
    | ok store₁ =>
      rw [hstore] at hinsert
      obtain ⟨rfl, rfl⟩ := Prod.mk.inj (Except.ok.inj hinsert)
      exact ⟨hread, rfl⟩
  · rintro ⟨hread, hinsert⟩
    refine ⟨r', hread, ?_⟩
    rw [hinsert]
    rfl

/-- Reading on leaves the tensors read so far alone. -/
theorem lookup_of_parse (h : iterM (Parser.parseTensorInfo version) n store r = .ok (store', r'))
    (hget : store.infos.lookup name = some info) : store'.infos.lookup name = some info := by
  induction n generalizing store r with
  | zero =>
    obtain ⟨rfl, -⟩ := Prod.mk.inj (Except.ok.inj h)
    exact hget
  | succ n ih =>
    obtain ⟨store₁, r₁, hone, hrest⟩ := bind_eq_ok.mp h
    obtain ⟨info₁, -, hinsert⟩ := parseTensorInfo_eq_ok.mp hone
    obtain ⟨hnew, rfl⟩ := tryInsert_eq_ok.mp hinsert
    refine ih hrest ?_
    have hne : name ≠ info₁.name := by
      rintro rfl
      exact hnew (AList.lookup_isSome.mp (hget ▸ rfl))
    exact (AList.lookup_insert_ne hne).trans hget

/-- **The scan finds what the store holds**, if it starts where nothing of that name was
read. -/
theorem findFrom_eq (it : TensorInfoIter)
    (h : iterM (Parser.parseTensorInfo it.version) it.remaining store it.reader =
      .ok (store', r')) (hnew : store.infos.lookup name = none) :
    StreamingGgufParser.findFrom name it.remaining it = store'.get name := by
  obtain ⟨reader, n, version, dataOffset⟩ := it
  dsimp only at h ⊢
  induction n generalizing store reader with
  | zero =>
    obtain ⟨rfl, -⟩ := Prod.mk.inj (Except.ok.inj h)
    rw [TensorStore.get, hnew]
    rfl
  | succ n ih =>
    obtain ⟨store₁, r₁, hone, hrest⟩ := bind_eq_ok.mp h
    obtain ⟨info, hread, hinsert⟩ := parseTensorInfo_eq_ok.mp hone
    obtain ⟨-, rfl⟩ := tryInsert_eq_ok.mp hinsert
    have hread : TensorInfoIter.parseOne version reader = .ok (info, r₁) := hread
    rw [StreamingGgufParser.findFrom, TensorInfoIter.next, if_neg (Nat.succ_ne_zero n)]
    dsimp only
    rw [hread]
    show (if info.name = name then .ok info else
      StreamingGgufParser.findFrom name n ⟨r₁, n, version, dataOffset⟩) = _
    split
    · rename_i hname
      subst hname
      have hfound := lookup_of_parse hrest (AList.lookup_insert _)
      rw [TensorStore.get, hfound]
      rfl
    · rename_i hname
      exact ih ((AList.lookup_insert_ne (Ne.symm hname)).trans hnew) r₁ hrest

/-- What `tensor_data` of the streaming parser answers for a tensor of a given name. -/
def StreamingGgufParser.tensorDataOf (p : StreamingGgufParser) (name : String) :
    Option (GgufResult (List UInt8)) :=
  match p.findTensor name with
  | .error e => some (.error e)
  | .ok info => p.tensorData info

/-- The two parsers compute the same range. -/
theorem tensorDataRange_map {p : StreamingGgufParser} {file : GgufFile} {info : TensorInfo}
    (hget : file.tensors.get name = .ok info)
    (hoffset : p.dataSectionOffset = file.tensors.dataSectionOffset) :
    p.tensorDataRange info =
      (file.tensorDataRange p.data.length name).map fun r => (r.1, r.1 + r.2) := by
  rw [StreamingGgufParser.tensorDataRange, GgufFile.tensorDataRange, hget, hoffset]
  show _ = Except.map _ (okOr _ (checkedAdd file.tensors.dataSectionOffset _) >>= fun start => _)
  cases checkedAdd file.tensors.dataSectionOffset info.offset.toNat with
  | none => rfl
  | some start =>
    show (info.tryDataSize >>= fun size => _) = Except.map _ (info.tryDataSize >>= fun size => _)
    cases info.tryDataSize with
    | error e => rfl
    | ok size =>
      show (okOr _ (checkedAdd start size) >>= fun stop => _) =
        Except.map _ (okOr _ (checkedAdd start size) >>= fun stop => _)
      cases hstop : checkedAdd start size with
      | none => rfl
      | some stop =>
        obtain ⟨-, rfl⟩ := checkedAdd_eq_some.mp hstop
        show (if start + size > p.data.length then _ else _) =
          Except.map _ (if start + size > p.data.length then _ else _)
        split <;> rfl

/-- A streaming parser that finds the tensors of a file behind the same data offset answers
as the file does. -/
theorem tensorDataOf_eq {p : StreamingGgufParser} {file : GgufFile}
    (hfind : p.findTensor name = file.tensors.get name)
    (hoffset : p.dataSectionOffset = file.tensors.dataSectionOffset) :
    p.tensorDataOf name = some (file.tensorData p.data name) := by
  rw [StreamingGgufParser.tensorDataOf, hfind]
  cases hget : file.tensors.get name with
  | error e =>
    rw [GgufFile.tensorData, GgufFile.tensorDataRange, hget]
    rfl
  | ok info =>
    dsimp only
    rw [StreamingGgufParser.tensorData, tensorDataRange_map hget hoffset, GgufFile.tensorData]
    cases hrange : file.tensorDataRange p.data.length name with
    | error e => rfl
    | ok range =>
      obtain ⟨start, len⟩ := range
      obtain ⟨-, -, -, -, -, hfits⟩ := tensorDataRange_eq_ok.mp hrange
      show (sliceRange p.data start (start + len)).map Except.ok = _
      rw [sliceRange_of_le hfits]
      rfl

end Streaming

/-! ### Every accepted file -/

/-- Where the parser stands behind the last tensor info of a file. -/
def GgufFile.ParsedTo (file : GgufFile) (data : List UInt8) (pos : ℕ) : Prop :=
  ∃ header offset, GgufHeader.parse data 0 = .ok (header, offset) ∧
    GgufFile.parseBody header ⟨data, offset⟩ = .ok (file, ⟨data, pos⟩)

section Accepted

variable {data : List UInt8} {file : GgufFile}

/-- The parser stays in the buffer. -/
theorem exists_parsedTo (h : GgufFile.parse data = .ok file) :
    ∃ pos ≤ data.length, file.ParsedTo data pos := by
  obtain ⟨⟨header, offset⟩, hheader, h⟩ := except_bind_eq_ok.mp h
  obtain ⟨⟨file', r⟩, hbody, h⟩ := except_bind_eq_ok.mp h
  obtain rfl := Except.ok.inj h
  rcases lockstep_header data 0 (SliceSource.new data) ⟨rfl, rfl, Nat.zero_le _⟩ with
    ⟨e, -, he, -⟩ | ⟨header', offset', raw, src, hok, -, hraw, hsrc⟩
  · rw [hheader] at he
    cases he
  · rw [hheader] at hok
    obtain ⟨rfl, rfl⟩ := Prod.mk.inj (Except.ok.inj hok)
    obtain ⟨rfl, rfl, hle⟩ := hsrc
    rcases lockstep_parse hraw ⟨src.data, src.pos⟩ src ⟨src.pos, hle, rfl, rfl⟩ with
      ⟨e, -, he, -⟩ | ⟨file'', r', -, -, hok', -, -, pos, hpos, rfl, -⟩
    · rw [hbody] at he
      cases he
    · rw [hbody] at hok'
      obtain ⟨rfl, rfl⟩ := Prod.mk.inj (Except.ok.inj hok')
      exact ⟨pos, hpos, header, src.pos, hheader, hbody⟩

/-- The data offset is where the parser stands behind the tensor infos, aligned. -/
theorem GgufFile.ParsedTo.dataSectionOffset {pos : ℕ} (h : file.ParsedTo data pos) :
    file.tensors.dataSectionOffset = alignUp pos file.alignment := by
  obtain ⟨header, offset, -, hbody⟩ := h
  obtain ⟨metadata, r₁, -, hbody⟩ := bind_eq_ok.mp hbody
  obtain ⟨_, r₂, -, hbody⟩ := bind_eq_ok.mp hbody
  obtain ⟨tensors, r₃, -, hbody⟩ := bind_eq_ok.mp hbody
  obtain ⟨pos', r₄, hpos, hbody⟩ := bind_eq_ok.mp hbody
  obtain ⟨rfl, rfl⟩ := Prod.mk.inj (Except.ok.inj hbody)
  obtain ⟨rfl, rfl⟩ := Prod.mk.inj (Except.ok.inj hpos)
  rfl

theorem data_of_new {p : StreamingGgufParser} (h : StreamingGgufParser.new data = .ok p) :
    p.data = data := by
  obtain ⟨⟨header, offset⟩, -, h⟩ := except_bind_eq_ok.mp h
  obtain ⟨⟨p', r⟩, hbody, h⟩ := except_bind_eq_ok.mp h
  obtain rfl := Except.ok.inj h
  obtain ⟨metadata, r₁, -, hbody⟩ := bind_eq_ok.mp hbody
  obtain ⟨_, r₂, -, hbody⟩ := bind_eq_ok.mp hbody
  obtain ⟨start, r₃, -, hbody⟩ := bind_eq_ok.mp hbody
  obtain ⟨_, r₄, -, hbody⟩ := bind_eq_ok.mp hbody
  obtain ⟨stop, r₅, -, hbody⟩ := bind_eq_ok.mp hbody
  obtain ⟨rfl, -⟩ := Prod.mk.inj (Except.ok.inj hbody)
  rfl

/-- The streaming parser accepts the file as well, finds its tensors and computes its data
offset. -/
theorem exists_streaming (h : GgufFile.parse data = .ok file) :
    ∃ p, StreamingGgufParser.new data = .ok p ∧ p.data = data ∧
      p.dataSectionOffset = file.tensors.dataSectionOffset ∧
      ∀ name, p.findTensor name = file.tensors.get name := by
  have hagree := (parsers_agree data).2
  rw [h] at hagree
  cases hnew : StreamingGgufParser.new data with
  | error e =>
    rw [hnew] at hagree
    cases hagree
  | ok p =>
    rw [hnew] at hagree
    have hagree : (p.intoFull.toOption.map GgufFile.summary) = some file.summary := hagree
    obtain ⟨full, hfull, hsummary⟩ := Option.map_eq_some_iff.mp hagree
    rw [intoFull_eq] at hfull
    cases hread : iterM (Parser.parseTensorInfo p.header.version) p.header.tensorCount.toNat .new
        ⟨p.data, p.tensorInfoOffset⟩ with
    | error e =>
      rw [hread] at hfull
      cases hfull
    | ok r =>
      rw [hread] at hfull
      have hfull : (if r.1.len ≠ p.header.tensorCount.toNat then
          Except.error (wrongTensorCount p.header.tensorCount.toNat r.1.len)
        else .ok (⟨p.header, p.metadata, r.1.setDataOffset p.dataSectionOffset, p.alignment⟩ :
          GgufFile)).toOption = some full := hfull
      split at hfull
      · cases hfull
      · obtain rfl := Option.some.inj hfull
        have hinfos : r.1.infos = file.tensors.infos := congrArg Summary.tensors hsummary
        refine ⟨p, rfl, data_of_new hnew, congrArg Summary.dataOffset hsummary, fun name => ?_⟩
        have hfind : p.findTensor name = r.1.get name := findFrom_eq p.tensorInfos hread rfl
        rw [hfind, TensorStore.get, TensorStore.get, hinfos]

/-- **Tensor access is contained.**  In every accepted file the data offset is the aligned
end of all that was parsed, computed without underflow and not before it; and for
every name, `tensor_data` does not panic, its answer is an error or the bytes of the tensor
inside of the data section, and the streaming parser answers the same. -/
theorem tensor_access_contained (hlen : data.length < 2 ^ 64) (h : GgufFile.parse data = .ok file)
    (name : String) :
    (∃ pos, file.ParsedTo data pos ∧ pos ≤ file.tensors.dataSectionOffset ∧
      alignUpOrPanic pos file.alignment = some file.tensors.dataSectionOffset) ∧
    ∃ answer, file.tensorSlice data name = some answer ∧
      (∀ bytes, answer = .ok bytes → file.Holds data name bytes) ∧
      ∃ p, StreamingGgufParser.new data = .ok p ∧ p.tensorDataOf name = some answer := by
  constructor
  · obtain ⟨pos, hpos, hparsed⟩ := exists_parsedTo h
    refine ⟨pos, hparsed, ?_, ?_⟩
    · rw [hparsed.dataSectionOffset]
      exact le_alignUp (hpos.trans_lt hlen)
    · rw [alignUpOrPanic_eq, hparsed.dataSectionOffset]
  · refine ⟨file.tensorData data name, tensorSlice_eq file data name,
      fun bytes hbytes => tensorData_eq_ok hbytes, ?_⟩
    obtain ⟨p, hnew, rfl, hoffset, hfind⟩ := exists_streaming h
    exact ⟨p, hnew, tensorDataOf_eq (hfind name) hoffset⟩

/-- A file with one tensor of two bytes, aligned to 32. -/
def byteTensorFile : List UInt8 :=
  -- magic, version 3, one tensor, no metadata
  [0x47, 0x47, 0x55, 0x46, 3, 0, 0, 0, 1, 0, 0, 0, 0, 0, 0, 0, 0, 0, 0, 0, 0, 0, 0, 0] ++
  -- `t`, one dimension of 2, type 24 (`i8`), offset 0
  [1, 0, 0, 0, 0, 0, 0, 0, 0x74, 1, 0, 0, 0, 2, 0, 0, 0, 0, 0, 0, 0, 24, 0, 0, 0] ++
  [0, 0, 0, 0, 0, 0, 0, 0] ++ List.replicate 7 0 ++ [7, 9]

theorem tensor_access_contained_byteTensor : ∃ file, GgufFile.parse byteTensorFile = .ok file ∧
    ∃ answer, file.tensorSlice byteTensorFile "t" = some answer ∧ answer = .ok [7, 9] ∧
      file.Holds byteTensorFile "t" [7, 9] := by
  have hsome : ((GgufFile.parse byteTensorFile).toOption.bind fun file =>
      (file.tensorData byteTensorFile "t").toOption) = some [7, 9] := by decide
  cases hparse : GgufFile.parse byteTensorFile with
  | error e =>
    rw [hparse] at hsome
    cases hsome
  | ok file =>
    rw [hparse] at hsome
    have hdata : (file.tensorData byteTensorFile "t").toOption = some [7, 9] := hsome
    obtain ⟨-, answer, hslice, hholds, -⟩ :=
      tensor_access_contained (by decide) hparse "t"
    have hanswer : answer = .ok [7, 9] := by
      rw [tensorSlice_eq] at hslice
      obtain rfl := Option.some.inj hslice
      cases htensor : file.tensorData byteTensorFile "t" with
      | error e =>
        rw [htensor] at hdata
        cases hdata
      | ok bytes =>
        rw [htensor] at hdata
        obtain rfl := Option.some.inj hdata
        rfl
    exact ⟨file, rfl, answer, hslice, hanswer, hholds _ hanswer⟩

end Accepted

end Gguf

end Oxillama
