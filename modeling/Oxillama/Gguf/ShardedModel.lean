/-
Models of several files (`oxillama-gguf/src/sharded.rs`, `ShardedGgufModel`).

`load_sharded` opens every file of the set that a path names, and registers the tensors of
all of them under one name space; a tensor is then read from the shard it was registered for.

* `load_sharded_ok` — **when a set is loaded**: every file is, all have one architecture and no
  tensor is in two of them.  The model then has the tensors of its shards and no others, and a
  tensor has the bytes that it has in its shard;
* `load_sharded_sibling` — which file of the set is named does not matter.

The order in which a hash map yields its entries is a parameter.
-/
import Mathlib
import Oxillama.Lib.Maps
import Oxillama.Gguf.Loader
import Oxillama.Gguf.ShardNames

namespace Oxillama

namespace Gguf

/-! ### The architecture of a file -/

/-- `MetadataValue::as_str`. -/
def MetadataValue.asStr : MetadataValue → Option String
  | .string s => some s
  | _ => none

/-- `MetadataStore::get_string`. -/
def MetadataStore.getString (store : MetadataStore) (key : String) : GgufResult String :=
  okOr (.invalidMetadata key "expected string value") ((store.get key).bind MetadataValue.asStr)

/-- `GgufFile::architecture`. -/
def GgufFile.architecture (file : GgufFile) : GgufResult String :=
  file.metadata.getString "general.architecture"

/-! ### Loading -/

/-- The file system: what a file holds, or the text of the error of opening it. -/
abbrev FileSystem := FilePath → Except String (List UInt8)

/-- `GgufModel::load`. -/
def GgufModel.load (fs : FileSystem) (path : FilePath) : GgufResult GgufModel :=
  match fs path with
  | .error e => .error (.mmapError e)
  | .ok data => GgufModel.fromBytes data

/-- The errors of `load_sharded`. -/
inductive ShardError
  /-- `path '{}' does not match shard naming convention '<base>-NNNNN-of-MMMMM.gguf'` -/
  | badName (path : FilePath)
  /-- An error of loading a shard. -/
  | shard (e : GgufError)
  /-- `shard {} missing general.architecture metadata` -/
  | missingArchitecture (shard : ℕ)
  /-- `shard {} architecture '{}' != shard 1 architecture '{}'` -/
  | otherArchitecture (shard : ℕ) (arch reference : String)
  /-- `ShardDuplicateTensor` -/
  | duplicateTensor (name : String)

/-- `ShardTensorRef`. -/
structure ShardTensorRef where
  shardIndex : ℕ
  info : TensorInfo

/-- `HashMap<String, ShardTensorRef>`. -/
abbrev TensorMap := AList fun _ : String => ShardTensorRef

/-- `ShardedGgufModel`. -/
structure ShardedGgufModel where
  shards : List GgufModel
  tensorMap : TensorMap
  architecture : String
  tensorCount : ℕ

/-- The entries of a store, in the order of `TensorStore::iter`. -/
abbrev StoreIter := TensorStore → List (String × TensorInfo)

namespace ShardedGgufModel

/-- The check of a shard's architecture against that of the first. -/
def checkArchitecture (reference : String) (shardIndex : ℕ) (model : GgufModel) :
    Except ShardError Unit :=
  if shardIndex = 0 then .ok ()
  else
    match model.file.architecture with
    | .error _ => .error (.missingArchitecture (shardIndex + 1))
    | .ok arch =>
      if arch ≠ reference then .error (.otherArchitecture (shardIndex + 1) arch reference)
      else .ok ()

/-- The loop of `load_sharded` for one shard. -/
def registerShard (iter : StoreIter) (reference : String) (tensorMap : TensorMap)
    (shard : GgufModel × ℕ) : Except ShardError TensorMap := do
  checkArchitecture reference shard.2 shard.1
  (iter shard.1.file.tensors).foldlM (fun tensorMap tensor =>
    insertNew .duplicateTensor tensorMap (tensor.1, ⟨shard.2, tensor.2⟩)) tensorMap

/-- `load_sharded`, with its shards loaded and the first of them at hand. -/
def combine (iter : StoreIter) (shards : List GgufModel) (first : GgufModel) :
    Except ShardError ShardedGgufModel :=
  match first.file.architecture with
  | .error _ => .error (.missingArchitecture 1)
  | .ok reference => do
    let tensorMap ← shards.zipIdx.foldlM (registerShard iter reference) ∅
    return ⟨shards, tensorMap, reference, tensorMap.keys.length⟩

/-- `ShardedGgufModel::load_sharded`; `none` is the panic of `shards[0]`. -/
def loadSharded (fs : FileSystem) (iter : StoreIter) (path : FilePath) :
    Option (Except ShardError ShardedGgufModel) :=
  match parseShardId path with
  | none => some (.error (.badName path))
  | some shardId =>
    match shardId.paths.mapM (GgufModel.load fs) with
    | .error e => some (.error (.shard e))
    | .ok shards => shards.head?.map (combine iter shards)

/-- `ShardedGgufModel::tensor_info`. -/
def tensorInfo (model : ShardedGgufModel) (name : String) : GgufResult TensorInfo :=
  okOr (.tensorNotFound name) ((model.tensorMap.lookup name).map ShardTensorRef.info)

/-- `ShardedGgufModel::tensor_data`; `none` is the panic of `self.shards[..]`. -/
def tensorData (model : ShardedGgufModel) (name : String) : Option (GgufResult (List UInt8)) :=
  match model.tensorMap.lookup name with
  | none => some (.error (.tensorNotFound name))
  | some tensorRef =>
    model.shards[tensorRef.shardIndex]?.map fun shard => shard.tensorData name

/-! ### The registry -/

/-- A hash map yields every entry once, in some order. -/
def Iterates (iter : StoreIter) : Prop :=
  ∀ store : TensorStore, (iter store).Perm (store.infos.entries.map fun entry => (entry.1, entry.2))

/-- Every shard has one architecture, and no tensor is in two. -/
structure Compatible (shards : List GgufModel) (arch : String) : Prop where
  architecture : ∀ shard ∈ shards, shard.file.architecture = .ok arch
  disjoint : shards.Pairwise fun s t => ∀ name ∈ s.file.tensors.infos, name ∉ t.file.tensors.infos

/-- What a model of several shards is. -/
structure Combines (model : ShardedGgufModel) : Prop where
  compatible : Compatible model.shards model.architecture
  registered : ∀ name tensorRef, model.tensorMap.lookup name = some tensorRef ↔
    ∃ shard, model.shards[tensorRef.shardIndex]? = some shard ∧
      shard.file.tensors.infos.lookup name = some tensorRef.info
  count : model.tensorCount = (model.shards.map fun shard => shard.file.tensors.len).sum

section Registry

variable {iter : StoreIter} {reference : String} {tensorMap tensorMap' : TensorMap}
  {shards : List GgufModel} {pairs : List (GgufModel × ℕ)}

/-- What a shard registers. -/
def refsOf (iter : StoreIter) (shard : GgufModel × ℕ) : List (String × ShardTensorRef) :=
  (iter shard.1.file.tensors).map fun tensor => (tensor.1, ⟨shard.2, tensor.2⟩)

theorem checkArchitecture_eq_ok {shardIndex : ℕ} {model : GgufModel} :
    checkArchitecture reference shardIndex model = .ok () ↔
      shardIndex = 0 ∨ model.file.architecture = .ok reference := by
  rw [checkArchitecture]
  by_cases hzero : shardIndex = 0
  · simp [hzero]
  · rw [if_neg hzero]
    cases model.file.architecture with
    | error e => simp [hzero]
    | ok arch =>
      dsimp only
      rw [ite_not, Except.ok.injEq]
      split
      · simp [*]
      · simp [*]

/-- **The loop over the shards** checks each, and takes what all of them register as new. -/
theorem registerShards_eq_ok :
    pairs.foldlM (registerShard iter reference) tensorMap = .ok tensorMap' ↔
      (∀ shard ∈ pairs, checkArchitecture reference shard.2 shard.1 = .ok ()) ∧
        (pairs.flatMap (refsOf iter)).foldlM (insertNew ShardError.duplicateTensor) tensorMap =
          .ok tensorMap' := by
  induction pairs generalizing tensorMap with
  | nil =>
    show Except.ok tensorMap = .ok tensorMap' ↔ _ ∧ Except.ok tensorMap = .ok tensorMap'
    simp
  | cons shard pairs ih =>
    rw [List.foldlM_cons, List.flatMap_cons, List.foldlM_append, List.forall_mem_cons, and_assoc,
      except_bind_eq_ok, except_bind_eq_ok]
    have hone : ∀ mid, registerShard iter reference tensorMap shard = .ok mid ↔
        checkArchitecture reference shard.2 shard.1 = .ok () ∧
          (refsOf iter shard).foldlM (insertNew ShardError.duplicateTensor) tensorMap =
            .ok mid := by
      intro mid
      rw [registerShard, except_bind_eq_ok, refsOf, List.foldlM_map]
      exact ⟨fun ⟨_, hcheck, hfold⟩ => ⟨hcheck, hfold⟩, fun ⟨hcheck, hfold⟩ => ⟨(), hcheck, hfold⟩⟩
    simp only [hone, ih]
    tauto

/-- The names of a store occur once. -/
theorem nodup_names (hiter : Iterates iter) (store : TensorStore) :
    ((iter store).map Prod.fst).Nodup := by
  refine (((hiter store).map Prod.fst).nodup_iff).mpr ?_
  rw [List.map_map]
  exact store.infos.nodupKeys

theorem mem_iter (hiter : Iterates iter) {store : TensorStore} {name : String}
    {info : TensorInfo} : (name, info) ∈ iter store ↔ store.infos.lookup name = some info := by
  rw [(hiter store).mem_iff, ← Option.mem_def, AList.mem_lookup_iff, List.mem_map]
  constructor
  · rintro ⟨⟨key, value⟩, hmem, heq⟩
    obtain ⟨rfl, rfl⟩ := Prod.mk.inj heq
    exact hmem
  · exact fun hmem => ⟨_, hmem, rfl⟩

theorem mem_names (hiter : Iterates iter) {store : TensorStore} {name : String} :
    name ∈ (iter store).map Prod.fst ↔ name ∈ store.infos := by
  rw [← AList.lookup_isSome, Option.isSome_iff_exists, List.mem_map]
  constructor
  · rintro ⟨⟨key, info⟩, hmem, rfl⟩
    exact ⟨info, (mem_iter hiter).mp hmem⟩
  · rintro ⟨info, hinfo⟩
    exact ⟨(name, info), (mem_iter hiter).mpr hinfo, rfl⟩

theorem names_of_refs (pairs : List (GgufModel × ℕ)) :
    (pairs.flatMap (refsOf iter)).map Prod.fst =
      pairs.flatMap fun shard => (iter shard.1.file.tensors).map Prod.fst := by
  rw [List.map_flatMap]
  refine List.flatMap_congr fun shard _ => ?_
  rw [refsOf, List.map_map]
  rfl

/-- **What the shards register is new**, just when no tensor is in two of them. -/
theorem nodup_refs_iff (hiter : Iterates iter) (shards : List GgufModel) :
    ((shards.zipIdx.flatMap (refsOf iter)).map Prod.fst).Nodup ↔
      shards.Pairwise fun s t =>
        ∀ name ∈ s.file.tensors.infos, name ∉ t.file.tensors.infos := by
  rw [names_of_refs, List.nodup_flatMap]
  have hnames : ∀ shard ∈ shards.zipIdx, ((iter shard.1.file.tensors).map Prod.fst).Nodup :=
    fun shard _ => nodup_names hiter shard.1.file.tensors
  refine (and_iff_right hnames).trans ?_
  have hmap : shards.Pairwise (fun s t => ∀ name ∈ s.file.tensors.infos,
      name ∉ t.file.tensors.infos) ↔ shards.zipIdx.Pairwise fun s t =>
        ∀ name ∈ s.1.file.tensors.infos, name ∉ t.1.file.tensors.infos := by
    conv_lhs => rw [← List.zipIdx_map_fst 0 shards]
    exact List.pairwise_map
  rw [hmap]
  refine List.Pairwise.iff fun s t => forall_congr' fun name => ?_
  rw [mem_names hiter, mem_names hiter]

/-- What is registered, and where. -/
theorem mem_refs (hiter : Iterates iter) {name : String} {tensorRef : ShardTensorRef} :
    (name, tensorRef) ∈ shards.zipIdx.flatMap (refsOf iter) ↔
      ∃ shard, shards[tensorRef.shardIndex]? = some shard ∧
        shard.file.tensors.infos.lookup name = some tensorRef.info := by
  rw [List.mem_flatMap]
  constructor
  · rintro ⟨⟨shard, i⟩, hshard, href⟩
    obtain ⟨⟨key, info⟩, hmem, heq⟩ := List.mem_map.mp href
    obtain ⟨rfl, rfl⟩ := Prod.mk.inj heq
    exact ⟨shard, List.mem_zipIdx_iff_getElem?.mp hshard, (mem_iter hiter).mp hmem⟩
  · rintro ⟨shard, hshard, hlookup⟩
    exact ⟨(shard, tensorRef.shardIndex), List.mem_zipIdx_iff_getElem?.mpr hshard,
      List.mem_map.mpr ⟨(name, tensorRef.info), (mem_iter hiter).mpr hlookup, rfl⟩⟩

theorem length_refs (hiter : Iterates iter) (shards : List GgufModel) :
    (shards.zipIdx.flatMap (refsOf iter)).length =
      (shards.map fun shard => shard.file.tensors.len).sum := by
  have hlens : (shards.map fun shard => shard.file.tensors.len) =
      shards.zipIdx.map fun shard => shard.1.file.tensors.len := by
    conv_lhs => rw [← List.zipIdx_map_fst 0 shards, List.map_map]
    rfl
  rw [List.length_flatMap, hlens]
  refine congrArg List.sum (List.map_congr_left fun shard _ => ?_)
  rw [refsOf, List.length_map, (hiter _).length_eq, List.length_map]
  exact (List.length_map _).symm

/-- The checks of the architectures, of the first shard on. -/
theorem checked_iff {first : GgufModel} {rest : List GgufModel} {arch : String}
    (harch : first.file.architecture = .ok arch) :
    (∀ shard ∈ (first :: rest).zipIdx, checkArchitecture arch shard.2 shard.1 = .ok ()) ↔
      ∀ shard ∈ first :: rest, shard.file.architecture = .ok arch := by
  constructor
  · intro h shard hmem
    obtain ⟨i, hi⟩ := List.mem_iff_getElem?.mp hmem
    rcases checkArchitecture_eq_ok.mp
      (h (shard, i) (List.mem_zipIdx_iff_getElem?.mpr hi)) with hzero | hok
    · obtain rfl : i = 0 := hzero
      obtain rfl := Option.some.inj hi
      exact harch
    · exact hok
  · exact fun h shard hmem =>
      checkArchitecture_eq_ok.mpr (.inr (h shard.1 (List.fst_mem_of_mem_zipIdx hmem)))

/-- **When shards are combined**, and to what. -/
theorem combine_iff (hiter : Iterates iter) {first : GgufModel} {rest : List GgufModel}
    {model : ShardedGgufModel} :
    combine iter (first :: rest) first = .ok model ↔
      model.shards = first :: rest ∧ Compatible model.shards model.architecture ∧
        model.tensorMap = insertPairs ∅ ((first :: rest).zipIdx.flatMap (refsOf iter)) ∧
        model.tensorCount = model.tensorMap.keys.length := by
  rw [combine]
  cases harch : first.file.architecture with
  | error e =>
    refine iff_of_false (by rintro ⟨⟩) fun h => ?_
    have hfirst := h.2.1.architecture first (h.1 ▸ List.mem_cons_self)
    rw [harch] at hfirst
    cases hfirst
  | ok reference =>
    dsimp only
    rw [except_bind_eq_ok]
    simp only [registerShards_eq_ok, foldlM_insertNew_eq_ok, nodup_refs_iff hiter,
      checked_iff harch]
    constructor
    · rintro ⟨tensorMap, ⟨harchs, hdisjoint, -, rfl⟩, hmodel⟩
      obtain rfl := Except.ok.inj hmodel
      exact ⟨rfl, ⟨harchs, hdisjoint⟩, rfl, rfl⟩
    · obtain ⟨shards, tensorMap, arch, count⟩ := model
      rintro ⟨rfl, hcompatible, rfl, hcount⟩
      dsimp only at hcount
      subst hcount
      have hsame := hcompatible.architecture first List.mem_cons_self
      rw [harch] at hsame
      obtain rfl := Except.ok.inj hsame
      exact ⟨_, ⟨hcompatible.architecture, hcompatible.disjoint,
        fun name _ => AList.notMem_empty name, rfl⟩, rfl⟩

end Registry

/-! ### The whole set -/

theorem forall₂_iff_mapM {ε α β : Type} {f : α → Except ε β} {xs : List α} {ys : List β} :
    xs.mapM f = .ok ys ↔ List.Forall₂ (fun x y => f x = .ok y) xs ys := by
  induction xs generalizing ys with
  | nil =>
    show Except.ok [] = Except.ok ys ↔ _
    rw [List.forall₂_nil_left_iff, Except.ok.injEq, eq_comm]
  | cons x xs ih =>
    rw [List.mapM_cons, except_bind_eq_ok, List.forall₂_cons_left_iff]
    refine exists_congr fun y => ?_
    rw [exists_and_left, except_bind_eq_ok]
    refine and_congr_right fun _ => exists_congr fun rest => and_congr ih ?_
    exact ⟨fun h => (Except.ok.inj h).symm, fun h => congrArg _ h.symm⟩

section Loading

variable {fs : FileSystem} {iter : StoreIter} {path : FilePath} {id : ShardId}

/-- What is loaded, if all files are. -/
theorem loadSharded_eq (hid : parseShardId path = some id) :
    loadSharded fs iter path =
      match id.paths.mapM (GgufModel.load fs) with
      | .error e => some (.error (.shard e))
      | .ok shards => shards.head?.map (combine iter shards) := by
  rw [loadSharded, hid]

/-- A set has a first file. -/
theorem exists_first (hid : parseShardId path = some id) {shards : List GgufModel}
    (h : List.Forall₂ (fun path shard => GgufModel.load fs path = .ok shard) id.paths shards) :
    ∃ first rest, shards = first :: rest := by
  obtain ⟨hpos, hle, -⟩ := bounds_of_parseShardId hid
  cases shards with
  | nil =>
    have hlen := h.length_eq
    rw [ShardId.paths, List.length_map, List.length_range, List.length_nil] at hlen
    omega
  | cons first rest => exact ⟨first, rest, rfl⟩

/-- A model that was combined. -/
theorem combines_of_combine (hiter : Iterates iter) {first : GgufModel} {rest : List GgufModel}
    {model : ShardedGgufModel} (h : combine iter (first :: rest) first = .ok model) :
    model.shards = first :: rest ∧ Combines model := by
  obtain ⟨hshards, hcompatible, hmap, hcount⟩ := (combine_iff hiter).mp h
  have hnodup := (nodup_refs_iff hiter model.shards).mpr hcompatible.disjoint
  rw [← hshards] at hmap
  refine ⟨hshards, hcompatible, fun name tensorRef => ?_, ?_⟩
  · rw [hmap, lookup_insertPairs_iff hnodup, mem_refs hiter]
  · rw [hcount, hmap, length_keys_insertPairs hnodup fun name _ => AList.notMem_empty name,
      length_refs hiter]
    exact Nat.zero_add _

/-- A registered tensor is read from its shard. -/
theorem Combines.read {model : ShardedGgufModel} (h : Combines model) {i : ℕ} {shard : GgufModel}
    (hshard : model.shards[i]? = some shard) {name : String}
    (hname : name ∈ shard.file.tensors.infos) :
    model.tensorInfo name = shard.file.tensors.get name ∧
      model.tensorData name = some (shard.tensorData name) := by
  obtain ⟨info, hinfo⟩ := Option.isSome_iff_exists.mp (AList.lookup_isSome.mpr hname)
  have hlookup := (h.registered name ⟨i, info⟩).mpr ⟨shard, hshard, hinfo⟩
  constructor
  · rw [tensorInfo, hlookup, TensorStore.get, hinfo]
    rfl
  · rw [tensorData, hlookup]
    dsimp only
    rw [hshard]
    rfl

/-- A name that no shard has is not found. -/
theorem Combines.not_found {model : ShardedGgufModel} (h : Combines model) {name : String}
    (hname : ∀ shard ∈ model.shards, name ∉ shard.file.tensors.infos) :
    model.tensorInfo name = .error (.tensorNotFound name) ∧
      model.tensorData name = some (.error (.tensorNotFound name)) := by
  have hlookup : model.tensorMap.lookup name = none := by
    refine Option.eq_none_iff_forall_ne_some.mpr fun tensorRef href => ?_
    obtain ⟨shard, hshard, hinfo⟩ := (h.registered name tensorRef).mp href
    refine hname shard (List.mem_of_getElem? hshard) (AList.lookup_isSome.mp ?_)
    rw [hinfo]
    rfl
  rw [tensorInfo, tensorData, hlookup]
  exact ⟨rfl, rfl⟩

/-- **When a set of shards is loaded, and what the model reads.**  Every file of the set must be
loaded, with one architecture, and no tensor may be in two of them; the model then has the
tensors of all shards, each with the bytes it has in its own, and no others. -/
theorem load_sharded_ok (hiter : Iterates iter) (hid : parseShardId path = some id) :
    loadSharded fs iter path ≠ none ∧
      ((∃ model, loadSharded fs iter path = some (.ok model)) ↔ ∃ shards arch,
        List.Forall₂ (fun path shard => GgufModel.load fs path = .ok shard) id.paths shards ∧
          Compatible shards arch) ∧
      ∀ model, loadSharded fs iter path = some (.ok model) →
        List.Forall₂ (fun path shard => GgufModel.load fs path = .ok shard) id.paths
          model.shards ∧
        Compatible model.shards model.architecture ∧
        (∀ shard ∈ model.shards, ∀ name ∈ shard.file.tensors.infos,
          model.tensorInfo name = shard.file.tensors.get name ∧
            model.tensorData name = some (shard.tensorData name)) ∧
        (∀ name, (∀ shard ∈ model.shards, name ∉ shard.file.tensors.infos) →
          model.tensorInfo name = .error (.tensorNotFound name) ∧
            model.tensorData name = some (.error (.tensorNotFound name))) ∧
        model.tensorCount = (model.shards.map fun shard => shard.file.tensors.len).sum := by
  rw [loadSharded_eq hid]
  cases hload : id.paths.mapM (GgufModel.load fs) with
  | error e =>
    refine ⟨by rintro ⟨⟩, iff_of_false (by rintro ⟨_, ⟨⟩⟩) ?_, by rintro _ ⟨⟩⟩
    rintro ⟨shards, arch, hshards, -⟩
    rw [forall₂_iff_mapM.mpr hshards] at hload
    cases hload
  | ok shards =>
    have hshards := forall₂_iff_mapM.mp hload
    obtain ⟨first, rest, rfl⟩ := exists_first hid hshards
    dsimp only [List.head?_cons, Option.map_some]
    refine ⟨by rintro ⟨⟩, ⟨?_, ?_⟩, fun model hmodel => ?_⟩
    · rintro ⟨model, hmodel⟩
      obtain ⟨hsame, hcompatible, -⟩ := (combine_iff hiter).mp (Option.some.inj hmodel)
      exact ⟨_, _, hshards, hsame ▸ hcompatible⟩
    · rintro ⟨shards', arch, hshards', hcompatible⟩
      obtain rfl := Except.ok.inj ((forall₂_iff_mapM.mpr hshards').symm.trans hload)
      have hok : combine iter (first :: rest) first = .ok ⟨first :: rest,
          insertPairs ∅ ((first :: rest).zipIdx.flatMap (refsOf iter)), arch,
          (insertPairs ∅ ((first :: rest).zipIdx.flatMap (refsOf iter))).keys.length⟩ :=
        (combine_iff hiter).mpr ⟨rfl, hcompatible, rfl, rfl⟩
      exact ⟨_, congrArg some hok⟩
    · obtain ⟨hsame, hcombines⟩ := combines_of_combine hiter (Option.some.inj hmodel)
      refine ⟨hsame ▸ hshards, hcombines.compatible, fun shard hmem name hname => ?_,
        fun name => hcombines.not_found, hcombines.count⟩
      obtain ⟨i, hi⟩ := List.mem_iff_getElem?.mp hmem
      exact hcombines.read hi hname

/-- **Any file of the set names it.** -/
theorem load_sharded_sibling (hid : parseShardId path = some id) {sibling : FilePath}
    (hmem : sibling ∈ id.paths) : loadSharded fs iter sibling = loadSharded fs iter path := by
  obtain ⟨i, hi, rfl⟩ := List.mem_map.mp hmem
  have hi := List.mem_range.mp hi
  obtain ⟨-, -, hlt⟩ := bounds_of_parseShardId hid
  rw [loadSharded_eq (parseShardId_pathForIndex (by omega) (by omega) hlt), loadSharded_eq hid]
  rfl

end Loading

/-! ### Two shards -/

/-- A file of the architecture `m`, with one tensor of two bytes. -/
def shardBytes (name : UInt8) : List UInt8 :=
  -- magic, version 3, one tensor, one entry of metadata
  [0x47, 0x47, 0x55, 0x46, 3, 0, 0, 0, 1, 0, 0, 0, 0, 0, 0, 0, 1, 0, 0, 0, 0, 0, 0, 0] ++
  -- `general.architecture`, a string of one byte
  [20, 0, 0, 0, 0, 0, 0, 0, 0x67, 0x65, 0x6e, 0x65, 0x72, 0x61, 0x6c, 0x2e, 0x61, 0x72, 0x63, 0x68,
    0x69, 0x74, 0x65, 0x63, 0x74, 0x75, 0x72, 0x65] ++ [8, 0, 0, 0, 1, 0, 0, 0, 0, 0, 0, 0, 0x6d] ++
  -- one dimension of 2, type 24 (`i8`), offset 0
  [1, 0, 0, 0, 0, 0, 0, 0, name, 1, 0, 0, 0, 2, 0, 0, 0, 0, 0, 0, 0, 24, 0, 0, 0] ++
  [0, 0, 0, 0, 0, 0, 0, 0] ++ List.replicate 30 0 ++ [7, name]

/-- The second of two shards. -/
def secondOfTwo : FilePath where
  dir := []
  fileName := some (.ofText "m-00002-of-00002.gguf".toList)

/-- Two files with different tensors. -/
def twoShards : FileSystem := fun path =>
  if path.fileName = firstOfTwo.fileName then .ok (shardBytes 0x61)
  else if path.fileName = secondOfTwo.fileName then .ok (shardBytes 0x62)
  else .error "No such file or directory"

/-- The entries as they lie in the model of the map. -/
def storedOrder : StoreIter := fun store => store.infos.entries.map fun entry => (entry.1, entry.2)

theorem load_sharded_ok_two : parseShardId firstOfTwo = some ⟨[], ['m'], 1, 2⟩ ∧
    ∃ model, loadSharded twoShards storedOrder firstOfTwo = some (.ok model) := by
  have hid : parseShardId firstOfTwo = some ⟨[], ['m'], 1, 2⟩ :=
    @parseShardId_pathForIndex ⟨[], ['m'], 1, 2⟩ 1 Nat.one_pos one_le_two (by norm_num)
  have hfiles : ((GgufFile.parse (shardBytes 0x61)).toOption.bind fun first =>
      (GgufFile.parse (shardBytes 0x62)).toOption.map fun second =>
        (first.architecture.toOption, second.architecture.toOption, first.tensors.infos.keys,
          second.tensors.infos.keys)) = some (some "m", some "m", ["a"], ["b"]) := by
    decide +kernel
  obtain ⟨first, hfirst, hfiles⟩ := Option.bind_eq_some_iff.mp hfiles
  obtain ⟨second, hsecond, hfiles⟩ := Option.map_eq_some_iff.mp hfiles
  obtain ⟨harch, harch', hkeys, hkeys'⟩ :
      first.architecture.toOption = some "m" ∧ second.architecture.toOption = some "m" ∧
        first.tensors.infos.keys = ["a"] ∧ second.tensors.infos.keys = ["b"] := by
    simpa only [Prod.mk.injEq] using hfiles
  refine ⟨hid, ((load_sharded_ok (fun store => .refl _) hid).2.1).mpr
    ⟨[⟨first, shardBytes 0x61, ∅⟩, ⟨second, shardBytes 0x62, ∅⟩], "m", ?_, ?_, ?_⟩⟩
  · refine .cons ?_ (.cons ?_ .nil)
    · exact fromBytes_eq_ok.mpr ⟨first, toOption_eq_some.mp hfirst, rfl⟩
    · exact fromBytes_eq_ok.mpr ⟨second, toOption_eq_some.mp hsecond, rfl⟩
  · simpa using ⟨toOption_eq_some.mp harch, toOption_eq_some.mp harch'⟩
  · refine List.pairwise_pair.mpr fun name hname => ?_
    rw [AList.mem_keys] at hname ⊢
    dsimp only at hname ⊢
    rw [hkeys, List.mem_singleton] at hname
    rw [hkeys', hname]
    decide

theorem load_sharded_sibling_two : secondOfTwo ≠ firstOfTwo ∧
    loadSharded twoShards storedOrder secondOfTwo =
      loadSharded twoShards storedOrder firstOfTwo := by
  have hid : parseShardId firstOfTwo = some ⟨[], ['m'], 1, 2⟩ :=
    @parseShardId_pathForIndex ⟨[], ['m'], 1, 2⟩ 1 Nat.one_pos one_le_two (by norm_num)
  refine ⟨fun h => ?_, load_sharded_sibling hid (List.mem_map.mpr ⟨1, by decide, rfl⟩)⟩
  have hname := congrArg FilePath.fileName h
  exact absurd hname (by decide)

end ShardedGgufModel

end Gguf

end Oxillama
