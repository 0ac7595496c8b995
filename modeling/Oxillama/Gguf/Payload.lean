/-
The payload round trip, and where it fails.

The writer pads the header to a multiple of 32 bytes.  The parser rounds the end of
the header up to a multiple of the file's own `general.alignment`.

* `Aligned` — when both find the same place, or nothing is read from it;
* `roundTrips_iff` — every payload comes back exactly then;
* `not_roundTrips_alignment` — a file with an alignment of 64.
-/
import Oxillama.Gguf.WrittenFile

namespace Oxillama

namespace Gguf

/-- Both write paths write the same file, the parser takes it, and gives back the
data of every tensor. -/
def RoundTrips (metadata : List (String × MetadataValue)) (tensors : List TensorArgs) : Prop :=
  ∃ out file,
    ((GgufWriter.buffered metadata tensors).writeTo : WriteM (List UInt8) Unit) [] =
      (.ok (), out) ∧
    GgufWriter.streamed metadata tensors = .ok out ∧
    GgufFile.parse out = .ok file ∧
    ∀ tensor ∈ tensors, file.tensorData out tensor.name = .ok tensor.data

/-- The end of the header sections rounds up to the same place under the alignment
of the file and under the alignment of the writer; or no bytes are read there. -/
def Aligned (metadata : List (String × MetadataValue)) (metas : List TensorMeta) : Prop :=
  metas = [] ∨
  alignUp (encodeSections metadata metas).length (alignmentOf (.ofList metadata)) =
    alignUp (encodeSections metadata metas).length ggufDefaultAlignment ∨
  (∀ tensor ∈ metas, tensor.dataSize = 0) ∧
    alignUp (encodeSections metadata metas).length (alignmentOf (.ofList metadata)) ≤
      alignUp (encodeSections metadata metas).length ggufDefaultAlignment

/-- The length of a file, which depends on the sizes of the tensors only. -/
def fileLength (metadata : List (String × MetadataValue)) (metas : List TensorMeta) : ℕ :=
  (encodePrelude metadata metas ++
    encodeData 0 (metas.map fun tensor => List.replicate tensor.dataSize 0)).length

/-! ### Lengths -/

theorem length_encodeData {offset : ℕ} {datas datas' : List (List UInt8)}
    (h : datas.map List.length = datas'.map List.length) :
    (encodeData offset datas).length = (encodeData offset datas').length := by
  induction datas generalizing offset datas' with
  | nil =>
    rw [List.map_nil, eq_comm, List.map_eq_nil_iff] at h
    rw [h]
  | cons data datas ih =>
    cases datas' with
    | nil => cases h
    | cons data' datas' =>
      obtain ⟨hdata, hdatas⟩ := List.cons.inj h
      cases datas with
      | nil =>
        cases datas' with
        | nil => exact hdata
        | cons _ _ => cases hdatas
      | cons next rest =>
        cases datas' with
        | nil => cases hdatas
        | cons next' rest' =>
          simp only [encodeData, List.length_append, length_zeroPad, ih hdatas, hdata]

theorem length_encodeFile {metadata : List (String × MetadataValue)} {metas : List TensorMeta}
    {tensors : List TensorArgs} (h : tensors.map TensorArgs.toMeta = metas) :
    (encodeFile metadata tensors).length = fileLength metadata metas := by
  subst h
  rw [encodeFile, fileLength, List.length_append, List.length_append]
  congr 1
  refine length_encodeData ?_
  simp [TensorArgs.toMeta, Function.comp_def]

theorem length_encodeSections_lt {metadata : List (String × MetadataValue)}
    {metas : List TensorMeta} (hlen : fileLength metadata metas < 2 ^ 63) :
    (encodeSections metadata metas).length < 2 ^ 63 := by
  rw [fileLength, List.length_append, length_encodePrelude] at hlen
  omega

/-- The parser's data section starts no further than the alignment allows. -/
theorem dataStart_le {metadata : List (String × MetadataValue)} {metas : List TensorMeta}
    (h : Readable metadata metas) (hlen : fileLength metadata metas < 2 ^ 63) :
    alignUp (encodeSections metadata metas).length (alignmentOf (.ofList metadata)) ≤
      (encodeSections metadata metas).length + 2 ^ 30 := by
  have hsections := length_encodeSections_lt hlen
  have hmax : alignmentOf (.ofList metadata) ≤ 2 ^ 30 := le_of_validateAlignment h.alignment
  rw [dataStart_eq h hsections]
  refine Nat.add_le_add_left (Nat.le_trans ?_ hmax) _
  unfold alignmentPadding
  split
  · omega
  · dsimp only
    split <;> omega

theorem eq_zero_of_mem_offsetsFrom {sizes : List ℕ} (h : ∀ size ∈ sizes, size = 0) {o : ℕ}
    (hmem : o ∈ offsetsFrom 0 sizes) : o = 0 := by
  induction sizes with
  | nil => cases hmem
  | cons size sizes ih =>
    obtain rfl := h size List.mem_cons_self
    rcases List.mem_cons.mp hmem with rfl | hmem
    · rfl
    · exact ih (fun s hs => h s (List.mem_cons_of_mem 0 hs)) hmem

section

variable {metadata : List (String × MetadataValue)} {metas : List TensorMeta}
  (h : Readable metadata metas) (hdeclared : Declared metas)
  (hlen : fileLength metadata metas < 2 ^ 63)

include h hdeclared hlen

/-- What is left of the round trip once the file is written and parsed. -/
theorem roundTrips_iff_tensorData {tensors : List TensorArgs}
    (hmetas : tensors.map TensorArgs.toMeta = metas) :
    RoundTrips metadata tensors ↔ ∀ tensor ∈ tensors,
      (GgufFile.of metadata metas).tensorData (encodeFile metadata tensors) tensor.name =
        .ok tensor.data := by
  subst hmetas
  have hfile : (encodeFile metadata tensors).length < 2 ^ 63 := by
    rwa [length_encodeFile rfl]
  have hsections : (encodeSections metadata (tensors.map TensorArgs.toMeta)).length < 2 ^ 64 := by
    rw [encodeFile, List.length_append, length_encodePrelude] at hfile
    omega
  have hsmall : (encodeFile metadata tensors).length < 2 ^ 64 := by omega
  have hwrite := writeTo_buffered hsmall
  have hstream := streamed_eq hsmall hdeclared
  have hparse := parse_encodePrelude h hsections (encodeData 0 (tensors.map TensorArgs.data))
  constructor
  · rintro ⟨out, file, hout, -, hfile, hdata⟩
    obtain rfl := (Prod.mk.inj (hwrite.symm.trans hout)).2
    obtain rfl := Except.ok.inj (hparse.symm.trans hfile)
    exact hdata
  · intro hdata
    exact ⟨_, _, hwrite, hstream, hparse, hdata⟩

/-! ### Where the payload comes back -/

/-- Tensors without data are read back wherever the data section starts, if that
is inside of the file. -/
theorem tensorData_of_empty (hempty : ∀ tensor ∈ metas, tensor.dataSize = 0)
    (out : List UInt8) {tensor : TensorMeta} (hmem : tensor ∈ metas) :
    (GgufFile.of metadata metas).tensorData out tensor.name =
      if alignUp (encodeSections metadata metas).length (alignmentOf (.ofList metadata)) >
          out.length then
        .error (.unexpectedEof
          (alignUp (encodeSections metadata metas).length (alignmentOf (.ofList metadata))))
      else .ok [] := by
  obtain ⟨⟨_, o⟩, hlocated, rfl⟩ := List.mem_map.mp (map_fst_located metas ▸ hmem)
  have hzero : o = 0 := by
    refine eq_zero_of_mem_offsetsFrom ?_ (List.of_mem_zip hlocated).2
    intro size hsize
    obtain ⟨t, ht, rfl⟩ := List.mem_map.mp hsize
    exact hempty t ht
  have hstart := dataStart_le h hlen
  have hsections := length_encodeSections_lt hlen
  rw [tensorData_of h hdeclared hlocated rfl (by rw [hempty _ hmem]; omega), hempty _ hmem, hzero]
  rfl

theorem roundTrips_of_aligned (haligned : Aligned metadata metas) {tensors : List TensorArgs}
    (hmetas : tensors.map TensorArgs.toMeta = metas) : RoundTrips metadata tensors := by
  rw [roundTrips_iff_tensorData h hdeclared hlen hmetas]
  subst hmetas
  have hfile := hlen
  rw [← length_encodeFile rfl] at hfile
  intro tensor hmem
  rcases haligned with hnil | haligned | ⟨hempty, hle⟩
  · rw [List.map_eq_nil_iff.mp hnil] at hmem
    cases hmem
  · have hzip : (tensor.toMeta, tensor.data) ∈
        (tensors.map TensorArgs.toMeta).zip (tensors.map TensorArgs.data) := by
      rw [List.zip_map', List.mem_map]
      exact ⟨tensor, hmem, rfl⟩
    refine tensorData_eq h hdeclared ?_ hfile haligned hzip
    simp [TensorArgs.toMeta, Function.comp_def]
  · -- an empty slice is taken wherever its place is inside of the file
    have hdata : tensor.data = [] :=
      List.length_eq_zero_iff.mp (hempty tensor.toMeta (List.mem_map_of_mem hmem))
    have hread := tensorData_of_empty h hdeclared hlen hempty (encodeFile metadata tensors)
      (List.mem_map_of_mem hmem)
    rw [if_neg] at hread
    · rw [hdata]
      exact hread
    · rw [encodeFile, List.length_append, length_encodePrelude_eq (length_encodeSections_lt hlen)]
      omega

end

/-! ### Where it does not -/

/-- A payload that shows where the data section starts: the first byte there is 1,
all others are 0. -/
def probe : List TensorMeta → List TensorArgs
  | [] => []
  | tensor :: metas =>
    if tensor.dataSize = 0 then ⟨tensor.shape, []⟩ :: probe metas
    else ⟨tensor.shape, 1 :: List.replicate (tensor.dataSize - 1) 0⟩ ::
      metas.map fun tensor => ⟨tensor.shape, List.replicate tensor.dataSize 0⟩

theorem toMeta_probe (metas : List TensorMeta) : (probe metas).map TensorArgs.toMeta = metas := by
  induction metas with
  | nil => rfl
  | cons tensor metas ih =>
    rw [probe]
    by_cases hzero : tensor.dataSize = 0
    · rw [if_pos hzero, List.map_cons, ih]
      simp [TensorArgs.toMeta, TensorMeta.shape, ← hzero]
    · have hpos : tensor.dataSize - 1 + 1 = tensor.dataSize := by omega
      rw [if_neg hzero]
      simp [TensorArgs.toMeta, TensorMeta.shape, hpos, Function.comp_def]

/-- Nothing but zeros is written for zeros. -/
theorem eq_zero_of_mem_encodeData {offset : ℕ} {datas : List (List UInt8)}
    (h : ∀ data ∈ datas, ∀ b ∈ data, b = 0) {b : UInt8} (hmem : b ∈ encodeData offset datas) :
    b = 0 := by
  induction datas generalizing offset with
  | nil => cases hmem
  | cons data datas ih =>
    cases datas with
    | nil => exact h data List.mem_cons_self b hmem
    | cons next rest =>
      rw [encodeData, List.mem_append, List.mem_append] at hmem
      rcases hmem with hdata | hpad | hrest
      · exact h data List.mem_cons_self b hdata
      · exact List.eq_of_mem_replicate hpad
      · exact ih (fun d hd => h d (List.mem_cons_of_mem data hd)) hrest

theorem encodeData_cons_nil {datas : List (List UInt8)} (h : datas ≠ []) :
    encodeData 0 ([] :: datas) = encodeData 0 datas := by
  cases datas with
  | nil => exact absurd rfl h
  | cons next rest => rfl

theorem encodeData_cons_cons (offset : ℕ) (b : UInt8) (data : List UInt8)
    (datas : List (List UInt8)) :
    encodeData offset ((b :: data) :: datas) = b :: encodeData (offset + 1) (data :: datas) := by
  cases datas with
  | nil => rfl
  | cons next rest =>
    have hend : offset + (b :: data).length = offset + 1 + data.length := by
      rw [List.length_cons]
      omega
    simp only [encodeData, nextOffset, hend, List.cons_append]

/-- What the probe writes, and the tensor whose data it is. -/
theorem encodeData_probe {metas : List TensorMeta} (h : ∃ tensor ∈ metas, tensor.dataSize ≠ 0) :
    ∃ tensor ∈ probe metas, (tensor.toMeta, 0) ∈ located metas ∧
      (∃ zeros, tensor.data = 1 :: zeros) ∧
      ∃ rest, encodeData 0 ((probe metas).map TensorArgs.data) = 1 :: rest ∧
        ∀ b ∈ rest, b = 0 := by
  induction metas with
  | nil =>
    obtain ⟨_, hmem, -⟩ := h
    cases hmem
  | cons first metas ih =>
    rw [probe]
    by_cases hzero : first.dataSize = 0
    · -- the first tensor is empty, and the next one starts at 0 too
      have hrest : ∃ tensor ∈ metas, tensor.dataSize ≠ 0 := by
        obtain ⟨tensor, hmem, hne⟩ := h
        rcases List.mem_cons.mp hmem with rfl | hmem
        · exact absurd hzero hne
        · exact ⟨tensor, hmem, hne⟩
      obtain ⟨tensor, hmem, hlocated, hdata, hwritten⟩ := ih hrest
      rw [if_pos hzero]
      refine ⟨tensor, List.mem_cons_of_mem _ hmem, ?_, hdata, ?_⟩
      · rw [located, List.map_cons, offsetsFrom, List.zip_cons_cons, hzero]
        exact List.mem_cons_of_mem _ hlocated
      · rwa [List.map_cons, encodeData_cons_nil]
        intro hnil
        rw [List.map_eq_nil_iff.mp hnil] at hmem
        cases hmem
    · rw [if_neg hzero]
      refine ⟨_, List.mem_cons_self, ?_, ⟨_, rfl⟩, ?_⟩
      · have hmeta : (first.dataSize - 1) + 1 = first.dataSize := by omega
        simp [TensorArgs.toMeta, TensorMeta.shape, hmeta, located, offsetsFrom]
      · refine ⟨_, encodeData_cons_cons 0 1 _ _, fun b hmem => eq_zero_of_mem_encodeData ?_ hmem⟩
        intro data hdata b hb
        rcases List.mem_cons.mp hdata with rfl | hdata
        · exact List.eq_of_mem_replicate hb
        · rw [List.map_map] at hdata
          obtain ⟨tensor, -, rfl⟩ := List.mem_map.mp hdata
          exact List.eq_of_mem_replicate hb

theorem length_le_length_encodeData {offset : ℕ} {datas : List (List UInt8)} {data : List UInt8}
    (hmem : data ∈ datas) : data.length ≤ (encodeData offset datas).length := by
  induction datas generalizing offset with
  | nil => cases hmem
  | cons first datas ih =>
    cases datas with
    | nil =>
      obtain rfl := List.mem_singleton.mp hmem
      exact Nat.le_refl _
    | cons next rest =>
      rw [encodeData, List.length_append, List.length_append]
      rcases List.mem_cons.mp hmem with rfl | hmem
      · omega
      · have hrest : data.length ≤ (encodeData (nextOffset offset first.length)
            (next :: rest)).length := ih hmem
        omega

theorem encodeData_of_nil {datas : List (List UInt8)} (h : ∀ data ∈ datas, data = []) :
    encodeData 0 datas = [] := by
  induction datas with
  | nil => rfl
  | cons data datas ih =>
    obtain rfl := h data List.mem_cons_self
    cases datas with
    | nil => rfl
    | cons next rest => exact ih fun d hd => h d (List.mem_cons_of_mem [] hd)

/-- A byte that is not 0 stands where the writer lets the data section start, and
nowhere else behind the header. -/
theorem start_eq_of_getElem? {metadata : List (String × MetadataValue)}
    {metas : List TensorMeta} {rest : List UInt8} (hrest : ∀ b ∈ rest, b = 0) {start : ℕ}
    (hstart : (encodeSections metadata metas).length ≤ start)
    (hget : (encodePrelude metadata metas ++ 1 :: rest)[start]? = some 1) :
    start = (encodePrelude metadata metas).length := by
  rcases Nat.lt_trichotomy start (encodePrelude metadata metas).length with hlt | heq | hgt
  · -- inside the padding of the header
    rw [List.getElem?_append_left hlt, encodePrelude, List.getElem?_append_right hstart] at hget
    have hpad := List.eq_of_mem_replicate (List.mem_of_getElem? hget)
    cases hpad
  · exact heq
  · rw [List.getElem?_append_right (by omega)] at hget
    obtain ⟨i, hi⟩ : ∃ i, start - (encodePrelude metadata metas).length = i + 1 :=
      ⟨start - (encodePrelude metadata metas).length - 1, by omega⟩
    rw [hi, List.getElem?_cons_succ] at hget
    cases hrest 1 (List.mem_of_getElem? hget)

section

variable {metadata : List (String × MetadataValue)} {metas : List TensorMeta}
  (h : Readable metadata metas) (hdeclared : Declared metas)
  (hlen : fileLength metadata metas < 2 ^ 63)

include h hdeclared hlen

/-- Tensors without data are read only from a place inside of the file. -/
theorem dataStart_le_of_read (hempty : ∀ tensor ∈ metas, tensor.dataSize = 0) (hne : metas ≠ [])
    (hread : ∀ tensor ∈ probe metas, (GgufFile.of metadata metas).tensorData
      (encodeFile metadata (probe metas)) tensor.name = .ok tensor.data) :
    alignUp (encodeSections metadata metas).length (alignmentOf (.ofList metadata)) ≤
      alignUp (encodeSections metadata metas).length ggufDefaultAlignment := by
  have hdatas : ∀ data ∈ (probe metas).map TensorArgs.data, data = [] := by
    intro data hdata
    obtain ⟨tensor, htensor, rfl⟩ := List.mem_map.mp hdata
    refine List.length_eq_zero_iff.mp (hempty tensor.toMeta ?_)
    rw [← toMeta_probe metas]
    exact List.mem_map_of_mem htensor
  -- the file ends where its data section starts
  have hout : encodeFile metadata (probe metas) = encodePrelude metadata metas := by
    rw [encodeFile, toMeta_probe, encodeData_of_nil hdatas, List.append_nil]
  obtain ⟨first, hfirst⟩ := List.exists_mem_of_ne_nil metas hne
  obtain ⟨tensor, htensor, hmeta⟩ : ∃ tensor ∈ probe metas, tensor.toMeta = first := by
    refine List.mem_map.mp ?_
    rwa [toMeta_probe]
  have hok := hread tensor htensor
  have hval := tensorData_of_empty h hdeclared hlen hempty (encodeFile metadata (probe metas))
    hfirst
  rw [← hmeta] at hval
  by_contra hgt
  rw [if_pos] at hval
  · rw [show tensor.toMeta.name = tensor.name from rfl, hok] at hval
    cases hval
  · rw [hout, length_encodePrelude_eq (length_encodeSections_lt hlen)]
    omega

/-- The first byte of the data is read only from where the writer put it. -/
theorem dataStart_eq_of_read (hdata : ∃ tensor ∈ metas, tensor.dataSize ≠ 0)
    (hread : ∀ tensor ∈ probe metas, (GgufFile.of metadata metas).tensorData
      (encodeFile metadata (probe metas)) tensor.name = .ok tensor.data) :
    alignUp (encodeSections metadata metas).length (alignmentOf (.ofList metadata)) =
      alignUp (encodeSections metadata metas).length ggufDefaultAlignment := by
  have hsections := length_encodeSections_lt hlen
  have hstart := dataStart_le h hlen
  obtain ⟨tensor, hmem, hlocated, ⟨zeros, hone⟩, rest, hwritten, hrest⟩ := encodeData_probe hdata
  have hok := hread tensor hmem
  have hout : encodeFile metadata (probe metas) = encodePrelude metadata metas ++ 1 :: rest := by
    rw [encodeFile, toMeta_probe, hwritten]
  -- the tensor ends within the addresses: the alignment adds at most 2 ^ 30
  have hsize : (encodeSections metadata metas).length + tensor.toMeta.dataSize < 2 ^ 63 := by
    have hfile := hlen
    rw [← length_encodeFile (toMeta_probe metas), encodeFile, List.length_append, toMeta_probe,
      length_encodePrelude] at hfile
    have hle : tensor.data.length ≤ (encodeData 0 ((probe metas).map TensorArgs.data)).length :=
      length_le_length_encodeData (List.mem_map_of_mem hmem)
    show (encodeSections metadata metas).length + tensor.data.length < 2 ^ 63
    omega
  have hval := tensorData_of h hdeclared hlocated rfl (by omega)
    (encodeFile metadata (probe metas))
  rw [show tensor.toMeta.name = tensor.name from rfl, hok, Nat.add_zero] at hval
  split at hval
  · cases hval
  · have hslice := Except.ok.inj hval
    have hhead := congrArg List.head? hslice
    rw [hone, List.head?_take, if_neg (by rw [TensorArgs.toMeta, hone]; simp),
      List.head?_drop, hout] at hhead
    rw [← length_encodePrelude_eq hsections]
    refine start_eq_of_getElem? hrest ?_ hhead.symm
    rw [dataStart_eq h hsections]
    exact Nat.le_add_right _ _

/-- **Payloads that come back show the alignment.** -/
theorem aligned_of_roundTrips (hall : ∀ tensors : List TensorArgs,
    tensors.map TensorArgs.toMeta = metas → RoundTrips metadata tensors) :
    Aligned metadata metas := by
  have hread := (roundTrips_iff_tensorData h hdeclared hlen (toMeta_probe metas)).mp
    (hall _ (toMeta_probe metas))
  by_cases hne : metas = []
  · exact .inl hne
  by_cases hempty : ∀ tensor ∈ metas, tensor.dataSize = 0
  · -- nothing is read, but from a place inside of the file
    exact .inr (.inr ⟨hempty, dataStart_le_of_read h hdeclared hlen hempty hne hread⟩)
  · -- the probe finds its first byte
    simp only [not_forall, exists_prop] at hempty
    exact .inr (.inl (dataStart_eq_of_read h hdeclared hlen hempty hread))

/-- **When every payload comes back.** -/
theorem roundTrips_iff :
    (∀ tensors : List TensorArgs, tensors.map TensorArgs.toMeta = metas →
      RoundTrips metadata tensors) ↔ Aligned metadata metas :=
  ⟨aligned_of_roundTrips h hdeclared hlen, fun haligned _ hmetas =>
    roundTrips_of_aligned h hdeclared hlen haligned hmetas⟩

end

/-! ### Two files -/

/-- Two tensors, the first of which has to be padded. -/
def sampleMetas : List TensorMeta := [⟨"a", [5], .i8, 5⟩, ⟨"b", [2, 1], .f16, 4⟩]

theorem declared_sampleMetas : Declared sampleMetas := by
  intro tensor hmem
  rcases List.mem_cons.mp hmem with rfl | hmem
  · rfl
  · obtain rfl := List.mem_singleton.mp hmem
    rfl

theorem roundTrips_iff_sample :
    RoundTrips [("k", .bool true)] [⟨⟨"a", [5], .i8⟩, [1, 2, 3, 4, 5]⟩,
      ⟨⟨"b", [2, 1], .f16⟩, [6, 7, 8, 9]⟩] := by
  have hfits : ∀ entry ∈ [("k", MetadataValue.bool true)], Fits 9 entry.2 := by
    intro entry hmem
    obtain rfl := List.mem_singleton.mp hmem
    trivial
  have hreadable : Readable [("k", .bool true)] sampleMetas :=
    ⟨hfits, rfl, by decide, by decide⟩
  exact (roundTrips_iff hreadable declared_sampleMetas (by decide +kernel)).mpr (.inr (.inl rfl)) _
    rfl

/-- With an alignment of 64 the parser looks for the data of a tensor 32 bytes
behind its start, which here is behind the end of the file. -/
theorem not_roundTrips_alignment :
    validateAlignment Parser.maxGgufAlignment
      (alignmentOf (.ofList [("general.alignment", .uint32 64)])) = .ok () ∧
    computeTensorDataSize "a" [1] .f32 = .ok 4 ∧
    ¬ RoundTrips [("general.alignment", .uint32 64)] [⟨⟨"a", [1], .f32⟩, [1, 2, 3, 4]⟩] := by
  refine ⟨rfl, rfl, ?_⟩
  rintro ⟨out, file, hout, -, hparse, hdata⟩
  have hread : ((GgufWriter.buffered [("general.alignment", .uint32 64)]
      [⟨⟨"a", [1], .f32⟩, [1, 2, 3, 4]⟩]).writeTo (W := List UInt8) []).2 = out := by rw [hout]
  refine not_tensorData_of_ne ?_ ⟨file, hparse, hdata _ List.mem_cons_self⟩
  rw [← hread]
  decide +kernel

end Gguf

end Oxillama
