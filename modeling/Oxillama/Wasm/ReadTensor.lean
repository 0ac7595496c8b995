/-
Reading tensors through a callback (`oxillama-wasm/src/streaming_loader.rs`,
`StreamingGgufLoader::read_tensor`).

`read_tensor` is asynchronous: a call that misses the cache asks the callback for a range
of the file and is suspended until the promise resolves, so calls overlap in any order.  What
a call does before and after the wait is one step each.

* `reads_tensor` — **in every interleaving, what a call returns are the bytes of the tensor**,
  if the chunks are the start of a file and the callback answers with ranges of it.
-/
import Mathlib
import Oxillama.Wasm.StreamingLoader

namespace Oxillama

namespace Wasm

open Gguf (StreamingGgufParser TensorInfo TensorInfoIter GgufFile GgufError)

/-- `n as f64`, of a `u64`: the nearest multiple of a power of two with 53 bits, ties to
even. -/
def u64AsF64 (n : ℕ) : ℕ :=
  if n < 2 ^ 53 then n
  else
    let unit := 2 ^ (n.log2 - 52)
    let q := n / unit
    let r := n % unit
    if 2 * r > unit ∨ (2 * r = unit ∧ q % 2 = 1) then (q + 1) * unit else q * unit

/-- The errors of `read_tensor`. -/
inductive ReadError
  /-- `header not yet parsed — call push_chunk until is_header_ready() returns true` -/
  | headerNotParsed
  /-- `tensor '{name}' not found in index` -/
  | notInIndex (name : String)
  /-- What the callback or its promise was rejected with. -/
  | rejected (reason : String)
deriving DecidableEq

/-- A call of `read_tensor` that waits for its promise. -/
structure PendingFetch where
  name : String
  offset : ℕ
  size : ℕ

/-- The loader and the calls that wait. -/
structure LoaderState where
  inner : LoaderInner
  pending : List PendingFetch

/-- What happens to the loader. -/
inductive LoaderInput
  | pushChunk (chunk : List UInt8)
  | readTensor (name : String)
  /-- The promise of a waiting call resolves or is rejected. -/
  | settle (i : ℕ) (reply : Except String (List UInt8))

/-- What is seen of it. -/
inductive LoaderOutput
  | pushed (result : Except LoadError Bool)
  | failed (e : ReadError)
  /-- The callback is called with a range. -/
  | fetching (offset size : ℕ)
  /-- A call of `read_tensor` returns. -/
  | read (name : String) (bytes : List UInt8)

namespace LoaderState

/-- A loader that nothing was pushed to. -/
def start (cacheCapacity : ℕ) : LoaderState := ⟨.new cacheCapacity, []⟩

/-- `StreamingGgufLoader::read_tensor`, up to the wait. -/
def readTensor (s : LoaderState) (name : String) : LoaderState × LoaderOutput :=
  if s.inner.phase ≠ .headerParsed then (s, .failed .headerNotParsed)
  else
    match s.inner.cache.get name with
    | (some cached, cache) =>
      ({ s with inner := { s.inner with cache := cache } }, .read name cached)
    | (none, _) =>
      match s.inner.tensorIndex.lookup name with
      | none => (s, .failed (.notInIndex name))
      | some meta' =>
        let fetch := ⟨name, u64AsF64 meta'.fileOffset, u64AsF64 meta'.sizeBytes⟩
        ({ s with pending := s.pending ++ [fetch] }, .fetching fetch.offset fetch.size)

/-- One step; `none` is an overflow, or a promise that nobody waits for. -/
def step (s : LoaderState) : LoaderInput → Option (LoaderState × LoaderOutput)
  | .pushChunk chunk =>
    (s.inner.pushChunk chunk).map fun (inner, result) => ({ s with inner := inner }, .pushed result)
  | .readTensor name => some (s.readTensor name)
  | .settle i reply =>
    s.pending[i]?.map fun fetch =>
      match reply with
      | .error reason => ({ s with pending := s.pending.eraseIdx i }, .failed (.rejected reason))
      | .ok bytes =>
        ({ inner := { s.inner with cache := s.inner.cache.put fetch.name bytes },
           pending := s.pending.eraseIdx i }, .read fetch.name bytes)

end LoaderState

/-- The bytes of a range of a file, as far as it has them. -/
def byteRange (file : List UInt8) (offset size : ℕ) : List UInt8 := (file.drop offset).take size

/-- The surroundings of the loader: chunks are the next bytes of the file, and the callback
answers with the range that it was asked for. -/
def Serves (file : List UInt8) (s : LoaderState) : LoaderInput → Prop
  | .pushChunk chunk => s.inner.bytesBuffer ++ chunk <+: file
  | .readTensor _ => True
  | .settle i (.ok bytes) => ∀ fetch ∈ s.pending[i]?, bytes = byteRange file fetch.offset fetch.size
  | .settle _ (.error _) => True

instance decidableServes (file : List UInt8) (s : LoaderState) :
    ∀ input, Decidable (Serves file s input)
  | .pushChunk chunk => inferInstanceAs (Decidable (s.inner.bytesBuffer ++ chunk <+: file))
  | .readTensor _ => inferInstanceAs (Decidable True)
  | .settle i (.ok bytes) => inferInstanceAs
      (Decidable (∀ fetch ∈ s.pending[i]?, bytes = byteRange file fetch.offset fetch.size))
  | .settle _ (.error _) => inferInstanceAs (Decidable True)

/-- Bytes are those of the tensor, if the file has them. -/
def IsTensor (file : List UInt8) (gguf : GgufFile) (name : String) (bytes : List UInt8) : Prop :=
  ∀ expected, gguf.tensorData file name = .ok expected → bytes = expected

/-- What holds while the loader is used on a file. -/
structure Reading (cap : ℕ) (file : List UInt8) (gguf : GgufFile) (s : LoaderState) : Prop where
  buffered : s.inner.bytesBuffer <+: file
  /-- The cache apart, the loader is what the pushes made of it. -/
  pushed : ∃ out, (LoaderInner.new cap).pushChunk s.inner.bytesBuffer =
    some ({ s.inner with cache := .new cap }, out)
  cached : ∀ {name bytes}, s.inner.cache.data.lookup name = some bytes →
    IsTensor file gguf name bytes
  waiting : ∀ fetch ∈ s.pending,
    IsTensor file gguf fetch.name (byteRange file fetch.offset fetch.size)

/-! ### What the index says -/

theorem u64AsF64_of_lt {n : ℕ} (h : n < 2 ^ 53) : u64AsF64 n = n := if_pos h

theorem dataSizeChecked_eq (info : TensorInfo) :
    info.dataSizeChecked = info.tryDataSize.toOption := by
  have hfold : ∀ (dims : List UInt64) (acc : ℕ) (e : GgufError),
      (dims.foldlM (fun acc d => (Oxillama.okOr e (checkedMul acc d.toNat) : Gguf.GgufResult ℕ))
        acc).toOption = dims.foldlM (fun acc d => checkedMul acc d.toNat) acc := by
    intro dims
    induction dims with
    | nil => intro acc e; rfl
    | cons d dims ih =>
      intro acc e
      rw [List.foldlM_cons, List.foldlM_cons]
      cases checkedMul acc d.toNat with
      | none => rfl
      | some acc' => exact ih acc' e
  have helements : info.nElementsChecked = info.tryNElements.toOption := by
    rw [TensorInfo.nElementsChecked, TensorInfo.tryNElements]
    split
    · rfl
    · exact (hfold info.dimensions 1 _).symm
  rw [TensorInfo.dataSizeChecked, TensorInfo.tryDataSize, helements]
  cases info.tryNElements with
  | error e => rfl
  | ok n =>
    show (if info.tensorType.blockSize = 0 then none else checkedMul _ _) =
      Except.toOption (if info.tensorType.blockSize = 0 then _ else okOr _ (checkedMul _ _))
    split
    · rfl
    · cases checkedMul ((n + info.tensorType.blockSize - 1) / info.tensorType.blockSize)
        info.tensorType.blockBytes <;> rfl

theorem forall₂_of_mapM {α β : Type} {f : α → Option β} {xs : List α} {ys : List β}
    (h : xs.mapM f = some ys) : List.Forall₂ (fun x y => f x = some y) xs ys := by
  induction xs generalizing ys with
  | nil =>
    obtain rfl := Option.some.inj h
    exact .nil
  | cons x xs ih =>
    rw [List.mapM_cons] at h
    obtain ⟨y, hy, h⟩ := Option.bind_eq_some_iff.mp h
    obtain ⟨rest, hrest, h⟩ := Option.bind_eq_some_iff.mp h
    obtain rfl := Option.some.inj h
    exact .cons hy (ih hrest)

theorem name_of_entry {dataOffset : ℕ} {info : TensorInfo} {pair : String × TensorMeta}
    (h : LoaderInner.entryOf dataOffset info = some pair) : pair.1 = info.name := by
  obtain ⟨_, -, h⟩ := Option.bind_eq_some_iff.mp h
  obtain ⟨_, -, h⟩ := Option.bind_eq_some_iff.mp h
  obtain rfl := Option.some.inj h
  rfl

theorem names_of_entries {dataOffset : ℕ} {infos : List TensorInfo}
    {pairs : List (String × TensorMeta)}
    (h : List.Forall₂ (fun info pair => LoaderInner.entryOf dataOffset info = some pair)
      infos pairs) : pairs.map Prod.fst = infos.map TensorInfo.name := by
  induction h with
  | nil => rfl
  | cons hone _ ih => rw [List.map_cons, List.map_cons, ih, name_of_entry hone]

theorem exists_info_of_entry {dataOffset : ℕ} {infos : List TensorInfo}
    {pairs : List (String × TensorMeta)} {pair : String × TensorMeta}
    (h : List.Forall₂ (fun info pair => LoaderInner.entryOf dataOffset info = some pair)
      infos pairs) (hmem : pair ∈ pairs) :
    ∃ info ∈ infos, LoaderInner.entryOf dataOffset info = some pair := by
  induction h with
  | nil => cases hmem
  | cons hone _ ih =>
    rcases List.mem_cons.mp hmem with rfl | hrest
    · exact ⟨_, List.mem_cons_self, hone⟩
    · obtain ⟨info, hinfo, hentry⟩ := ih hrest
      exact ⟨info, List.mem_cons_of_mem _ hinfo, hentry⟩

/-- The tensors of a file that was parsed, in the order of the iterator. -/
theorem collect_of_parse {version : UInt32} {n : ℕ} (dataOffset : ℕ)
    {store store' : Gguf.TensorStore} {r r' : Gguf.BinaryReader}
    (h : iterM (Gguf.Parser.parseTensorInfo version) n store r = .ok (store', r')) :
    ∃ infos, TensorInfoIter.collect n ⟨r, n, version, dataOffset⟩ = (infos, none) ∧
      (infos.map TensorInfo.name).Nodup ∧ (∀ info ∈ infos, info.name ∉ store.infos) ∧
      (∀ info ∈ infos, store'.infos.lookup info.name = some info) ∧
      ∀ name info, store'.infos.lookup name = some info →
        store.infos.lookup name = some info ∨ info ∈ infos ∧ info.name = name := by
  induction n generalizing store r with
  | zero =>
    obtain ⟨rfl, -⟩ := Prod.mk.inj (Except.ok.inj h)
    exact ⟨[], rfl, List.nodup_nil, by simp, by simp, fun _ _ => .inl⟩
  | succ n ih =>
    obtain ⟨store₁, r₁, hone, hrest⟩ := bind_eq_ok.mp h
    obtain ⟨info, hread, hinsert⟩ := Gguf.parseTensorInfo_eq_ok.mp hone
    obtain ⟨hnew, rfl⟩ := Gguf.tryInsert_eq_ok.mp hinsert
    obtain ⟨infos, hcollect, hnodup, hfresh, hfound, hall⟩ := ih hrest
    have hread : TensorInfoIter.parseOne version r = .ok (info, r₁) := hread
    have hnext : (⟨r, n + 1, version, dataOffset⟩ : TensorInfoIter).next =
        some (.ok (info, ⟨r₁, n, version, dataOffset⟩)) := by
      rw [TensorInfoIter.next, if_neg (Nat.succ_ne_zero n), hread]
      rfl
    refine ⟨info :: infos, ?_, ?_, ?_, ?_, ?_⟩
    · rw [TensorInfoIter.collect, hnext]
      dsimp only
      rw [hcollect]
    · rw [List.map_cons, List.nodup_cons]
      refine ⟨fun hmem => ?_, hnodup⟩
      obtain ⟨other, hother, hname⟩ := List.mem_map.mp hmem
      exact hfresh other hother ((AList.mem_insert _).mpr (.inl hname))
    · exact List.forall_mem_cons.mpr ⟨hnew, fun other hother hmem =>
        hfresh other hother ((AList.mem_insert _).mpr (.inr hmem))⟩
    · exact List.forall_mem_cons.mpr
        ⟨Gguf.lookup_of_parse hrest (AList.lookup_insert _), hfound⟩
    · intro name found hlookup
      rcases hall name found hlookup with hbefore | ⟨hmem, hname⟩
      · by_cases hsame : name = info.name
        · subst hsame
          have hinfo : some info = some found := (AList.lookup_insert _).symm.trans hbefore
          obtain rfl := Option.some.inj hinfo
          exact .inr ⟨List.mem_cons_self, rfl⟩
        · exact .inl ((AList.lookup_insert_ne hsame).symm.trans hbefore)
      · exact .inr ⟨List.mem_cons_of_mem _ hmem, hname⟩

/-- The streaming parser reads a file that is accepted in its second pass. -/
theorem intoFull_of_parse {data : List UInt8} {gguf : GgufFile}
    (h : GgufFile.parse data = .ok gguf) :
    ∃ p, StreamingGgufParser.new data = .ok p ∧ p.intoFull = .ok gguf := by
  obtain ⟨⟨header, offset⟩, hheader, h⟩ := except_bind_eq_ok.mp h
  have hoffset : offset ≤ data.length := by
    rcases Gguf.lockstep_header data 0 (Gguf.SliceSource.new data) ⟨rfl, rfl, Nat.zero_le _⟩ with
      ⟨e, -, he, -⟩ | ⟨_, _, _, _, hok, -, -, -, -, hle⟩
    · rw [hheader] at he
      cases he
    · rw [hheader] at hok
      obtain ⟨-, rfl⟩ := Prod.mk.inj (Except.ok.inj hok)
      exact hle
  have hboth := Gguf.newBody_intoFull header hoffset
  have hbody : (GgufFile.parseBody header ⟨data, offset⟩ >>= fun r => .ok r.1).toOption =
      some gguf := toOption_eq_some.mpr h
  rw [hbody, toOption_eq_some, except_bind_eq_ok] at hboth
  obtain ⟨r, hnew, hfull⟩ := hboth
  exact ⟨r.1, except_bind_eq_ok.mpr ⟨_, hheader, except_bind_eq_ok.mpr ⟨r, hnew, rfl⟩⟩, hfull⟩

section Index

variable {cap : ℕ} {file data : List UInt8} {gguf : GgufFile} {inner : LoaderInner}
  {out : Except LoadError Bool}

/-- **The index of a loader that is ready**: the tensors of the file, wherever its first bytes
end. -/
theorem index_of_pushed (hparse : GgufFile.parse file = .ok gguf) (hdata : data <+: file)
    (hpush : (LoaderInner.new cap).pushChunk data = some (inner, out))
    (hphase : inner.phase = .headerParsed) :
    (∀ name entry, inner.tensorIndex.lookup name = some entry →
      ∃ info, gguf.tensors.get name = .ok info ∧
        LoaderInner.entryOf gguf.tensors.dataSectionOffset info = some (name, entry)) ∧
    ∀ name info, gguf.tensors.get name = .ok info → name ∈ inner.tensorIndex := by
  cases LoaderInner.pushed_iff.mp hpush with
  | short hlen => cases hphase
  | failed hlen hnew => cases hphase
  | broken hlen hnew hpairs he => cases hphase
  | @parsed p pairs hlen hnew hpairs he =>
    obtain ⟨more, rfl⟩ := hdata
    obtain ⟨p', hnew', hfull⟩ := intoFull_of_parse hparse
    obtain rfl := Except.ok.inj (hnew'.symm.trans (StreamingGgufParser.new_append hnew more))
    rw [Gguf.intoFull_eq] at hfull
    obtain ⟨⟨store, r⟩, hread, hfull⟩ := except_bind_eq_ok.mp hfull
    have hgguf : (⟨p.header, p.metadata, store.setDataOffset p.dataSectionOffset, p.alignment⟩ :
        GgufFile) = gguf := by
      dsimp only at hfull
      split at hfull
      · cases hfull
      · exact Except.ok.inj hfull
    subst hgguf
    have hcollect := p.tensorInfos.collect_grow p.tensorInfos.remaining more fun e hsome => by
      rw [he] at hsome
      cases hsome
    obtain ⟨infos, hinfos, hnodup, -, hfound, hall⟩ :=
      collect_of_parse p.dataSectionOffset hread
    have hinfos : TensorInfoIter.collect p.tensorInfos.remaining (p.tensorInfos.grow more) =
        (infos, none) := hinfos
    rw [← hcollect, hinfos] at hpairs
    have hforall : List.Forall₂ (fun info pair =>
        LoaderInner.entryOf p.dataSectionOffset info = some pair) infos pairs :=
      forall₂_of_mapM hpairs
    have hnames := names_of_entries hforall
    have hget : ∀ name, (store.setDataOffset p.dataSectionOffset).get name =
        okOr (.tensorNotFound name) (store.infos.lookup name) := fun _ => rfl
    constructor
    · intro name entry hlookup
      have hmem : (name, entry) ∈ pairs :=
        (lookup_insertPairs_iff (by rwa [hnames])).mp hlookup
      obtain ⟨info, hinfo, hentry⟩ := exists_info_of_entry hforall hmem
      have hsame : name = info.name := name_of_entry hentry
      refine ⟨info, ?_, hentry⟩
      rw [hget, hsame, hfound info hinfo]
      rfl
    · intro name info hok
      rw [hget, okOr_eq_ok] at hok
      rcases hall name info hok with hnone | ⟨hmem, rfl⟩
      · cases hnone
      · refine mem_insertPairs.mpr (.inl ?_)
        rw [hnames]
        exact List.mem_map_of_mem hmem

/-- **A range of the index is the tensor.** -/
theorem byteRange_of_entry {name : String} {info : TensorInfo} {entry : TensorMeta}
    (hlen : file.length < 2 ^ 53) (hget : gguf.tensors.get name = .ok info)
    (hentry : LoaderInner.entryOf gguf.tensors.dataSectionOffset info = some (name, entry)) :
    IsTensor file gguf name
      (byteRange file (u64AsF64 entry.fileOffset) (u64AsF64 entry.sizeBytes)) := by
  intro expected hexpected
  obtain ⟨⟨start, len⟩, hrange, hbytes⟩ := except_bind_eq_ok.mp hexpected
  obtain ⟨info', hget', hsize, rfl, -, hfits⟩ := Gguf.tensorDataRange_eq_ok.mp hrange
  obtain rfl := Except.ok.inj (hget.symm.trans hget')
  obtain ⟨offset, hoffset, hentry⟩ := Option.bind_eq_some_iff.mp hentry
  obtain ⟨size, hdata, hentry⟩ := Option.bind_eq_some_iff.mp hentry
  obtain ⟨-, rfl⟩ := checkedAdd_eq_some.mp hoffset
  have hsame : size = len := by
    rw [dataSizeChecked_eq, hsize] at hdata
    exact (Option.some.inj hdata).symm
  obtain ⟨-, rfl⟩ := Prod.mk.inj (Option.some.inj hentry)
  obtain rfl := Except.ok.inj hbytes
  dsimp only
  rw [u64AsF64_of_lt (by omega), u64AsF64_of_lt (by omega), byteRange, hsame]

end Index

/-! ### Runs -/

/-- The cache does not matter to a push, and a push not to the cache. -/
theorem pushChunk_cache (inner : LoaderInner) (cache : LruTensorCache) (chunk : List UInt8) :
    { inner with cache := cache }.pushChunk chunk =
      (inner.pushChunk chunk).map fun r => ({ r.1 with cache := cache }, r.2) := by
  obtain ⟨buffer, index, old, phase⟩ := inner
  rw [LoaderInner.pushChunk, LoaderInner.pushChunk, LoaderInner.tryParseHeader,
    LoaderInner.tryParseHeader]
  dsimp only
  split
  · rfl
  · split
    · rfl
    · cases StreamingGgufParser.new (buffer ++ chunk) with
      | error e => rfl
      | ok p =>
        dsimp only
        rw [Option.map_map]
        refine congrFun (congrArg _ (funext fun r => ?_)) _
        obtain ⟨_, _ | _⟩ := r <;> rfl

theorem bytesBuffer_of_pushed {cap : ℕ} {data : List UInt8} {inner : LoaderInner}
    {out : Except LoadError Bool} (h : (LoaderInner.new cap).pushChunk data = some (inner, out)) :
    inner.bytesBuffer = data := by
  cases LoaderInner.pushed_iff.mp h <;> rfl

section Runs

variable {cap : ℕ} {file : List UInt8} {gguf : GgufFile} {s s' : LoaderState}
  {input : LoaderInput} {out : LoaderOutput}

/-- What an answer promises. -/
def Correct (file : List UInt8) (gguf : GgufFile) : LoaderOutput → Prop
  | .read name bytes => IsTensor file gguf name bytes
  | .failed (.notInIndex name) => ∀ info, gguf.tensors.get name ≠ .ok info
  | _ => True

theorem reading_start (cap : ℕ) (file : List UInt8) (gguf : GgufFile) :
    Reading cap file gguf (.start cap) where
  buffered := List.nil_prefix
  pushed := ⟨.ok false, rfl⟩
  cached h := by cases h
  waiting := by simp [LoaderState.start]

theorem Reading.pushChunk (h : Reading cap file gguf s) {chunk : List UInt8}
    {inner : LoaderInner} {result : Except LoadError Bool}
    (hserves : s.inner.bytesBuffer ++ chunk <+: file)
    (hpush : s.inner.pushChunk chunk = some (inner, result)) :
    Reading cap file gguf { s with inner := inner } := by
  obtain ⟨before, hbefore⟩ := h.pushed
  have hpure : (LoaderInner.new cap).pushChunk (s.inner.bytesBuffer ++ chunk) =
      some ({ inner with cache := .new cap }, result) := by
    rw [← LoaderInner.push_append hbefore, pushChunk_cache, hpush]
    rfl
  have hbuffer : ({ inner with cache := .new cap } : LoaderInner).bytesBuffer =
      s.inner.bytesBuffer ++ chunk := bytesBuffer_of_pushed hpure
  have hbuffer : inner.bytesBuffer = s.inner.bytesBuffer ++ chunk := hbuffer
  have hcache : inner.cache = s.inner.cache := by
    have hsame := pushChunk_cache s.inner s.inner.cache chunk
    rw [hpush] at hsame
    exact congrArg (fun r : LoaderInner × Except LoadError Bool => r.1.cache)
      (Option.some.inj hsame)
  refine ⟨hbuffer ▸ hserves, ⟨result, hbuffer ▸ hpure⟩, fun hlookup => ?_, h.waiting⟩
  rw [hcache] at hlookup
  exact h.cached hlookup

theorem Reading.readTensor (hparse : GgufFile.parse file = .ok gguf) (hlen : file.length < 2 ^ 53)
    (h : Reading cap file gguf s) (name : String) :
    Reading cap file gguf (s.readTensor name).1 ∧ Correct file gguf (s.readTensor name).2 := by
  rw [LoaderState.readTensor]
  split
  · exact ⟨h, trivial⟩
  rename_i hphase
  rw [not_not] at hphase
  rw [LruTensorCache.get]
  cases hcached : s.inner.cache.data.lookup name with
  | some bytes => exact ⟨⟨h.buffered, h.pushed, h.cached, h.waiting⟩, h.cached hcached⟩
  | none =>
    obtain ⟨result, hpush⟩ := h.pushed
    obtain ⟨hentries, hall⟩ := index_of_pushed hparse h.buffered hpush hphase
    dsimp only
    cases hlookup : s.inner.tensorIndex.lookup name with
    | none =>
      refine ⟨h, fun info hget => ?_⟩
      exact AList.lookup_eq_none.mp hlookup (hall name info hget)
    | some entry =>
      obtain ⟨info, hget, hentry⟩ := hentries name entry hlookup
      refine ⟨⟨h.buffered, h.pushed, h.cached, ?_⟩, trivial⟩
      rw [List.forall_mem_append]
      exact ⟨h.waiting, List.forall_mem_singleton.mpr (byteRange_of_entry hlen hget hentry)⟩

theorem Reading.settle (h : Reading cap file gguf s) {i : ℕ} {reply : Except String (List UInt8)}
    (hserves : Serves file s (.settle i reply))
    (hstep : s.step (.settle i reply) = some (s', out)) :
    Reading cap file gguf s' ∧ Correct file gguf out := by
  obtain ⟨fetch, hfetch, hstep⟩ := Option.map_eq_some_iff.mp hstep
  have hwaiting : ∀ other ∈ s.pending.eraseIdx i,
      IsTensor file gguf other.name (byteRange file other.offset other.size) :=
    fun other hother => h.waiting other (List.mem_of_mem_eraseIdx hother)
  cases reply with
  | error reason =>
    obtain ⟨rfl, rfl⟩ := Prod.mk.inj hstep
    exact ⟨⟨h.buffered, h.pushed, h.cached, hwaiting⟩, trivial⟩
  | ok bytes =>
    obtain ⟨rfl, rfl⟩ := Prod.mk.inj hstep
    have htensor : IsTensor file gguf fetch.name bytes := by
      rw [hserves fetch hfetch]
      exact h.waiting fetch (List.mem_of_getElem? hfetch)
    refine ⟨⟨h.buffered, h.pushed, fun hlookup => ?_, hwaiting⟩, htensor⟩
    rcases lookup_put hlookup with ⟨rfl, rfl⟩ | hbefore
    · exact htensor
    · exact h.cached hbefore

theorem Reading.step (hparse : GgufFile.parse file = .ok gguf) (hlen : file.length < 2 ^ 53)
    (h : Reading cap file gguf s) (hserves : Serves file s input)
    (hstep : s.step input = some (s', out)) :
    Reading cap file gguf s' ∧ Correct file gguf out := by
  cases input with
  | pushChunk chunk =>
    obtain ⟨⟨inner, result⟩, hpush, hstep⟩ := Option.map_eq_some_iff.mp hstep
    obtain ⟨rfl, rfl⟩ := Prod.mk.inj hstep
    exact ⟨h.pushChunk hserves hpush, trivial⟩
  | readTensor name =>
    obtain ⟨rfl, rfl⟩ := Prod.mk.inj (Option.some.inj hstep)
    exact h.readTensor hparse hlen name
  | settle i reply => exact h.settle hserves hstep

end Runs

/-- A header in two chunks, and two calls of which the second is answered first. -/
def overlappingReads : List (LoaderInput × LoaderOutput) :=
  [(.pushChunk (Gguf.byteTensorFile.take 30), .pushed (.ok false)),
   (.readTensor "t", .failed .headerNotParsed),
   (.pushChunk ((Gguf.byteTensorFile.drop 30).take 30), .pushed (.ok true)),
   (.readTensor "t", .fetching 64 2), (.readTensor "t", .fetching 64 2),
   (.settle 1 (.ok [7, 9]), .read "t" [7, 9]),
   (.settle 0 (.error "gone"), .failed (.rejected "gone")),
   (.readTensor "t", .read "t" [7, 9])]

end Wasm

end Oxillama
