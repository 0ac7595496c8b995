/-
Checking a model against a manifest of hashes (`oxillama-gguf/src/integrity.rs`).

A manifest lists the digests of all tensors, sorted by their names.  `verify_model` computes
the manifest of the model at hand and compares, tensor by tensor, where the given manifest
has the name; a tensor that only one of the two has is passed over.

The `blake3` crate is a parameter.  Sizes are computed without checks, as a release build
computes them.

* `hashTensor_eq_ok_iff` — what the hash of a tensor is, and when there is one;
* `verifyModel_eq_nil_iff` — when no failure is reported;
* `verifyModel_complete_iff` — **exactly when an empty list means a verified model**.
-/
import Mathlib.Algebra.Group.Nat.Defs
import Oxillama.Gguf.Store

namespace Oxillama

namespace Gguf

/-! ### Sizes -/

/-- `TensorInfo::n_elements`. -/
def TensorInfo.nElements (info : TensorInfo) : ℕ :=
  if info.dimensions.isEmpty then 0
  else info.dimensions.foldl (fun acc d => acc * d.toNat % 2 ^ 64) 1

/-- `TensorInfo::data_size`. -/
def TensorInfo.dataSize (info : TensorInfo) : ℕ :=
  let blockSize := info.tensorType.blockSize
  let nBlocks := (info.nElements + blockSize - 1) / blockSize
  nBlocks * info.tensorType.blockBytes % 2 ^ 64

/-- The infos of `TensorStore::iter`. -/
def TensorStore.all (store : TensorStore) : List TensorInfo :=
  store.infos.entries.map fun entry => entry.2

namespace Integrity

/-! ### Manifests -/

/-- `TensorHash`. -/
structure TensorHash (Digest : Type) where
  name : String
  hash : Digest
  dataSize : ℕ
  deriving DecidableEq, Repr

/-- `ModelHashManifest`. -/
structure ModelHashManifest (Digest : Type) where
  tensorHashes : List (TensorHash Digest)
  modelHash : Digest
  totalBytes : ℕ

/-- `IntegrityFailure`. -/
structure IntegrityFailure (Digest : Type) where
  tensorName : String
  expected : Digest
  actual : Digest
  deriving DecidableEq, Repr

section Model

variable {Digest : Type} (blake3 : Blake3 Digest) (data : List UInt8)

/-- `tensor_data_slice`. -/
def tensorDataSlice (info : TensorInfo) (dataSectionOffset : ℕ) : GgufResult (List UInt8) := do
  let absOffset ← okOr (.integrityError info.name "offset overflow")
    (checkedAdd dataSectionOffset info.offset.toNat)
  let size := info.dataSize
  let stop ← okOr (.integrityError info.name "offset + size overflow") (checkedAdd absOffset size)
  if stop > data.length then
    .error (.integrityError info.name ("tensor data [" ++ toString absOffset ++ ".." ++
      toString stop ++ "] out of bounds (data len: " ++ toString data.length ++ ")"))
  else return (data.drop absOffset).take (stop - absOffset)

/-- `hash_tensor`. -/
def hashTensor (info : TensorInfo) (dataSectionOffset : ℕ) : GgufResult (TensorHash Digest) := do
  let slice ← tensorDataSlice data info dataSectionOffset
  return { name := info.name, hash := blake3.hash slice, dataSize := info.dataSize }

/-- `compute_model_manifest`. -/
def computeModelManifest (tensors : TensorStore) : GgufResult (ModelHashManifest Digest) := do
  let entries := tensors.infos.entries.mergeSort fun a b => decide (a.1 ≤ b.1)
  let tensorHashes ← entries.mapM fun entry =>
    hashTensor blake3 data entry.2 tensors.dataSectionOffset
  return { tensorHashes
           modelHash := blake3.hash (tensorHashes.flatMap fun th => blake3.asBytes th.hash)
           totalBytes := tensorHashes.foldl (fun total th => saturatingAdd total th.dataSize) 0 }

/-- `expected_map` of `verify_model`: the digest of a name, the last one if there are many. -/
def ModelHashManifest.expectedMap (manifest : ModelHashManifest Digest) : String → Option Digest :=
  manifest.tensorHashes.foldl (fun map th => Function.update map th.name (some th.hash))
    fun _ => none

/-- The failure of one tensor, if the manifest has its name and another digest. -/
def failureOf [DecidableEq Digest] (manifest : ModelHashManifest Digest)
    (actual : TensorHash Digest) : Option (IntegrityFailure Digest) :=
  match manifest.expectedMap actual.name with
  | none => none
  | some expected =>
    if actual.hash ≠ expected then
      some { tensorName := actual.name, expected, actual := actual.hash }
    else none

/-- `verify_model`. -/
def verifyModel [DecidableEq Digest] (tensors : TensorStore)
    (manifest : ModelHashManifest Digest) : GgufResult (List (IntegrityFailure Digest)) := do
  let actualManifest ← computeModelManifest blake3 data tensors
  return actualManifest.tensorHashes.filterMap (failureOf manifest)

end Model

/-! ### Hashing -/

/-- The bytes of the tensor are there. -/
def InBounds (data : List UInt8) (info : TensorInfo) (dataSectionOffset : ℕ) : Prop :=
  dataSectionOffset + info.offset.toNat + info.dataSize < 2 ^ 64 ∧
    dataSectionOffset + info.offset.toNat + info.dataSize ≤ data.length

/-- The bytes of the tensor. -/
def tensorBytes (data : List UInt8) (info : TensorInfo) (dataSectionOffset : ℕ) : List UInt8 :=
  (data.drop (dataSectionOffset + info.offset.toNat)).take info.dataSize

section Hashing

variable {Digest : Type} {blake3 : Blake3 Digest} {data : List UInt8} {info : TensorInfo}
  {offset : ℕ} {tensors : TensorStore} {manifest : ModelHashManifest Digest}

/-- A tensor is hashed if its bytes are there. -/
theorem hashTensor_of_inBounds (h : InBounds data info offset) :
    hashTensor blake3 data info offset =
      .ok ⟨info.name, blake3.hash (tensorBytes data info offset), info.dataSize⟩ := by
  obtain ⟨hlt, hle⟩ := h
  have hstart : offset + info.offset.toNat < 2 ^ 64 := by omega
  have hstop : ¬ offset + info.offset.toNat + info.dataSize > data.length := by omega
  rw [hashTensor, tensorDataSlice, checkedAdd, if_pos hstart]
  show (okOr _ (checkedAdd (offset + info.offset.toNat) info.dataSize) >>= _) >>= _ = _
  rw [checkedAdd, if_pos hlt]
  show ((if offset + info.offset.toNat + info.dataSize > data.length then _ else _) >>= _) = _
  rw [if_neg hstop, Nat.add_sub_cancel_left]
  rfl

theorem inBounds_of_hashTensor {th : TensorHash Digest}
    (h : hashTensor blake3 data info offset = .ok th) : InBounds data info offset := by
  rw [hashTensor, except_bind_eq_ok] at h
  obtain ⟨slice, hslice, -⟩ := h
  rw [tensorDataSlice, except_bind_eq_ok] at hslice
  obtain ⟨start, hstart, hslice⟩ := hslice
  obtain ⟨stop, hstop, hslice⟩ := except_bind_eq_ok.mp hslice
  obtain ⟨-, rfl⟩ := checkedAdd_eq_some.mp (okOr_eq_ok.mp hstart)
  obtain ⟨hlt, rfl⟩ := checkedAdd_eq_some.mp (okOr_eq_ok.mp hstop)
  split at hslice
  · cases hslice
  · exact ⟨hlt, by omega⟩

/-- **What the hash of a tensor is**, and when there is one. -/
theorem hashTensor_eq_ok_iff {th : TensorHash Digest} :
    hashTensor blake3 data info offset = .ok th ↔ InBounds data info offset ∧
      th = ⟨info.name, blake3.hash (tensorBytes data info offset), info.dataSize⟩ := by
  constructor
  · intro h
    have hin := inBounds_of_hashTensor h
    rw [hashTensor_of_inBounds hin] at h
    exact ⟨hin, (Except.ok.inj h).symm⟩
  · rintro ⟨hin, rfl⟩
    exact hashTensor_of_inBounds hin

/-- The digest of a tensor of the model. -/
def digestOf (blake3 : Blake3 Digest) (data : List UInt8) (tensors : TensorStore)
    (info : TensorInfo) : Digest :=
  blake3.hash (tensorBytes data info tensors.dataSectionOffset)

theorem mem_all {info : TensorInfo} :
    info ∈ tensors.all ↔ ∃ entry ∈ tensors.infos.entries, entry.2 = info := List.mem_map

/-- A model whose manifest is computed has all the bytes of its tensors. -/
theorem inBounds_of_computeModelManifest {m : ModelHashManifest Digest}
    (h : computeModelManifest blake3 data tensors = .ok m) :
    ∀ info ∈ tensors.all, InBounds data info tensors.dataSectionOffset := by
  intro info hinfo
  obtain ⟨entry, hentry, rfl⟩ := mem_all.mp hinfo
  obtain ⟨hashes, hhashes, -⟩ := except_bind_eq_ok.mp h
  obtain ⟨th, hth⟩ := ok_of_mapM hhashes entry (List.mem_mergeSort.mpr hentry)
  exact inBounds_of_hashTensor hth

/-- The manifest of a model lists the digests of its tensors, and nothing else. -/
theorem computeModelManifest_spec
    (h : ∀ info ∈ tensors.all, InBounds data info tensors.dataSectionOffset) :
    ∃ m, computeModelManifest blake3 data tensors = .ok m ∧ ∀ th, th ∈ m.tensorHashes ↔
      ∃ info ∈ tensors.all, ⟨info.name, digestOf blake3 data tensors info, info.dataSize⟩ = th := by
  have hash : ∀ entry ∈ tensors.infos.entries.mergeSort fun a b => decide (a.1 ≤ b.1),
      hashTensor blake3 data entry.2 tensors.dataSectionOffset =
        .ok ⟨entry.2.name, digestOf blake3 data tensors entry.2, entry.2.dataSize⟩ := by
    intro entry hentry
    exact hashTensor_of_inBounds (h _ (mem_all.mpr ⟨entry, List.mem_mergeSort.mp hentry, rfl⟩))
  rw [computeModelManifest, mapM_of_ok hash]
  refine ⟨_, rfl, fun th => ?_⟩
  simp only [List.mem_map, List.mem_mergeSort, mem_all]
  constructor
  · rintro ⟨entry, hentry, rfl⟩
    exact ⟨entry.2, ⟨entry, hentry, rfl⟩, rfl⟩
  · rintro ⟨_, ⟨entry, hentry, rfl⟩, rfl⟩
    exact ⟨entry, hentry, rfl⟩

end Hashing

/-! ### Verification -/

section Verify

variable {Digest : Type} {blake3 : Blake3 Digest} {data : List UInt8} {tensors : TensorStore}
  {manifest : ModelHashManifest Digest}

/-- The lookup finds the names of the manifest. -/
theorem expectedMap_eq_none_iff {name : String} :
    manifest.expectedMap name = none ↔ ∀ th ∈ manifest.tensorHashes, th.name ≠ name := by
  have hfold : ∀ (hashes : List (TensorHash Digest)) (map : String → Option Digest),
      (hashes.foldl (fun (map : String → Option Digest) th =>
          Function.update map th.name (some th.hash)) map) name = none ↔
        map name = none ∧ ∀ th ∈ hashes, th.name ≠ name := by
    intro hashes
    induction hashes with
    | nil => simp
    | cons th hashes ih =>
      intro map
      rw [List.foldl_cons, ih, List.forall_mem_cons]
      by_cases hname : th.name = name
      · subst hname
        rw [Function.update_self]
        simp
      · rw [Function.update_of_ne (Ne.symm hname)]
        simp [hname]
  rw [ModelHashManifest.expectedMap, hfold]
  simp

variable [DecidableEq Digest]

theorem failureOf_eq_none_iff {actual : TensorHash Digest} :
    failureOf manifest actual = none ↔
      ∀ expected, manifest.expectedMap actual.name = some expected → actual.hash = expected := by
  unfold failureOf
  cases manifest.expectedMap actual.name with
  | none => simp
  | some expected => by_cases heq : actual.hash = expected <;> simp [heq]

/-- A tensor of the model whose digest is another one than the manifest has for its name. -/
def Differs (blake3 : Blake3 Digest) (data : List UInt8) (tensors : TensorStore)
    (manifest : ModelHashManifest Digest) (info : TensorInfo) : Prop :=
  ∃ expected, manifest.expectedMap info.name = some expected ∧
    digestOf blake3 data tensors info ≠ expected

/-- **When no failure is reported**: every tensor has its bytes, and none differs. -/
theorem verifyModel_eq_nil_iff :
    verifyModel blake3 data tensors manifest = .ok [] ↔
      ∀ info ∈ tensors.all, InBounds data info tensors.dataSectionOffset ∧
        ¬ Differs blake3 data tensors manifest info := by
  have hnone : ∀ info, failureOf manifest
      ⟨info.name, digestOf blake3 data tensors info, info.dataSize⟩ = none ↔
        ¬ Differs blake3 data tensors manifest info := by
    intro info
    rw [failureOf_eq_none_iff, Differs]
    simp only [not_exists, not_and, not_not]
  constructor
  · intro h
    obtain ⟨m, hm, hfail⟩ := except_bind_eq_ok.mp h
    have hin := inBounds_of_computeModelManifest hm
    obtain ⟨m', hm', hmem⟩ := @computeModelManifest_spec _ blake3 _ _ hin
    rw [hm] at hm'
    obtain rfl := Except.ok.inj hm'
    intro info hinfo
    refine ⟨hin info hinfo, (hnone info).mp ?_⟩
    exact List.filterMap_eq_nil_iff.mp (Except.ok.inj hfail) _ ((hmem _).mpr ⟨info, hinfo, rfl⟩)
  · intro h
    obtain ⟨m, hm, hmem⟩ := @computeModelManifest_spec _ blake3 _ _
      fun info hinfo => (h info hinfo).1
    have hnil : m.tensorHashes.filterMap (failureOf manifest) = [] := by
      refine List.filterMap_eq_nil_iff.mpr fun th hth => ?_
      obtain ⟨info, hinfo, rfl⟩ := (hmem th).mp hth
      exact (hnone info).mpr (h info hinfo).2
    rw [verifyModel, hm]
    exact congrArg Except.ok hnil

/-- The model and the manifest name the same tensors. -/
def SameNames (tensors : TensorStore) (manifest : ModelHashManifest Digest) : Prop :=
  ∀ name, (∃ info ∈ tensors.all, info.name = name) ↔
    ∃ th ∈ manifest.tensorHashes, th.name = name

/-- **What a verified model is**: the manifest names its tensors, and has the digest that is
computed for each of them. -/
structure Verified (blake3 : Blake3 Digest) (data : List UInt8) (tensors : TensorStore)
    (manifest : ModelHashManifest Digest) : Prop where
  sameNames : SameNames tensors manifest
  digests : ∀ info ∈ tensors.all, ∃ th,
    hashTensor blake3 data info tensors.dataSectionOffset = .ok th ∧
      manifest.expectedMap info.name = some th.hash

/-- A verified model has the names of the manifest, and no failure. -/
theorem verified_iff :
    Verified blake3 data tensors manifest ↔
      SameNames tensors manifest ∧ verifyModel blake3 data tensors manifest = .ok [] := by
  rw [verifyModel_eq_nil_iff]
  constructor
  · intro h
    refine ⟨h.sameNames, fun info hinfo => ?_⟩
    obtain ⟨th, hth, hmap⟩ := h.digests info hinfo
    obtain ⟨hin, rfl⟩ := hashTensor_eq_ok_iff.mp hth
    refine ⟨hin, ?_⟩
    rintro ⟨expected, hexpected, hne⟩
    exact hne (Option.some.inj (hmap.symm.trans hexpected))
  · rintro ⟨hnames, h⟩
    refine ⟨hnames, fun info hinfo => ?_⟩
    obtain ⟨hin, hsame⟩ := h info hinfo
    refine ⟨_, hashTensor_of_inBounds hin, ?_⟩
    -- the name is in the manifest, so the lookup finds a digest
    have hsome : manifest.expectedMap info.name ≠ none := by
      intro hnone
      obtain ⟨th, hth, hname⟩ := (hnames info.name).mp ⟨info, hinfo, rfl⟩
      exact expectedMap_eq_none_iff.mp hnone th hth hname
    obtain ⟨expected, hexpected⟩ := Option.ne_none_iff_exists'.mp hsome
    rw [hexpected]
    by_contra hne
    exact hsame ⟨expected, hexpected, fun heq => hne (congrArg some heq.symm)⟩

/-- **Exactly when an empty list means a verified model**: the names are the same, or a tensor
of the model is reported anyway, since its bytes are not there or its digest differs. -/
theorem verifyModel_complete_iff (blake3 : Blake3 Digest) (data : List UInt8)
    (tensors : TensorStore) (manifest : ModelHashManifest Digest) :
    (verifyModel blake3 data tensors manifest = .ok [] ↔
        Verified blake3 data tensors manifest) ↔
      SameNames tensors manifest ∨ ∃ info ∈ tensors.all,
        ¬ InBounds data info tensors.dataSectionOffset ∨
          Differs blake3 data tensors manifest info := by
  have hfails : (∃ info ∈ tensors.all, ¬ InBounds data info tensors.dataSectionOffset ∨
      Differs blake3 data tensors manifest info) ↔
        ¬ verifyModel blake3 data tensors manifest = .ok [] := by
    rw [verifyModel_eq_nil_iff]
    simp only [not_forall, not_and_or, not_not, exists_prop]
  rw [hfails, verified_iff]
  tauto

end Verify

/-! ### A tensor that is gone -/

/-- A model of four bytes, with a tensor `a` of one `f32`. -/
def sampleTensors : TensorStore :=
  ⟨AList.insert "a" ⟨"a", 1, [1], .f32, 0⟩ ∅, 0⟩

/-- **An empty list for a model that has lost a tensor.**  The manifest, whose digests are the
bytes themselves, lists `a` and `b`. -/
theorem missing_tensor_passes :
    let blake3 : Blake3 (List UInt8) := ⟨id, id⟩
    let manifest : ModelHashManifest (List UInt8) :=
      ⟨[⟨"a", [1, 2, 3, 4], 4⟩, ⟨"b", [5, 6, 7, 8], 4⟩], [1, 2, 3, 4, 5, 6, 7, 8], 8⟩
    Function.Injective blake3.hash ∧
      ¬ (verifyModel blake3 [1, 2, 3, 4] sampleTensors manifest = .ok [] ↔
        Verified blake3 [1, 2, 3, 4] sampleTensors manifest) := by
  intro blake3 manifest
  have hall : sampleTensors.all = [⟨"a", 1, [1], .f32, 0⟩] := rfl
  have hnil : verifyModel blake3 [1, 2, 3, 4] sampleTensors manifest = .ok [] := by
    rw [verifyModel_eq_nil_iff, hall]
    refine List.forall_mem_singleton.mpr ⟨⟨by decide, by decide⟩, ?_⟩
    rintro ⟨expected, hexpected, hne⟩
    exact hne (Option.some.inj hexpected)
  refine ⟨Function.injective_id, fun h => ?_⟩
  obtain ⟨info, hinfo, hname⟩ :=
    ((h.mp hnil).sameNames "b").mpr ⟨_, List.mem_cons_of_mem _ List.mem_cons_self, rfl⟩
  rw [hall, List.mem_singleton] at hinfo
  subst hinfo
  exact absurd hname (by decide)

end Integrity

end Gguf

end Oxillama
