/-
A resumed session goes on where the snapshot was taken, unless a grammar constrained it.

A snapshot carries the visible rows and the source of the grammar, and a resumed engine has
loaded the same model into an `f32` cache.  It has no table of the bytes of the tokens, and
without one its grammar masks nothing.

* `Loaded` — what holds of an engine from `load_model` on, whatever is called;
* `resume_snapshot` — what `resume` makes of a snapshot;
* `EnginesAlike.step` — engines that look alike answer every call alike;
* `transparent_iff` — **snapshot and resume are transparent exactly if there is no grammar, or
  one without a table of tokens whose source can be parsed**;
* `not_transparent_constrained` — an engine that is constrained by a grammar, and resumed.
-/
import Oxillama.Lib.Run
import Oxillama.Runtime.Session

namespace Oxillama

namespace Session

open Kv Sampling
open Gguf.Resume (File)

/-! ### Loaded engines -/

section Loaded

variable {Digest : Type} {host : Host Digest} {e : InferenceEngine} {file : File}
  {modelConfig : ModelConfig} {pass : TokenPass} {kv : KvCache}

/-- What the key-value cache of a model is laid out for. -/
def ModelConfig.geometry (modelConfig : ModelConfig) (dtype : KvCacheDtype) : Geometry where
  maxSeqLen := modelConfig.maxContextLength
  kvDim := modelConfig.numKvHeads * modelConfig.headDim
  numLayers := modelConfig.numLayers
  dtype := dtype

/-- The engine has loaded the model of a file, and its cache is in order. -/
structure Loaded (host : Host Digest) (e : InferenceEngine) (file : File)
    (modelConfig : ModelConfig) (pass : TokenPass) (kv : KvCache) : Prop where
  found : host.files e.config.modelPath = some file
  trained : ∃ trained, host.modelConfig file.bytes = .ok trained ∧
    modelConfig = { trained with maxContextLength := modelConfig.maxContextLength }
  context : 0 < modelConfig.maxContextLength
  build : host.buildForwardPass file.bytes modelConfig = .ok pass
  tokenizer : host.loadTokenizer e.config.modelPath e.config.tokenizerPath file.bytes = .ok ()
  modelConfig_eq : e.modelConfig = some modelConfig
  forwardPass_eq : e.forwardPass = some pass
  kvCache_eq : e.kvCache = some kv
  backed : kv.Backed
  geometry : kv.geometry = modelConfig.geometry e.config.kvDtype

theorem resolveContextSize_pos (requested : Option ℕ) (nCtxTrain : ℕ) :
    0 < resolveContextSize requested nCtxTrain := by
  unfold resolveContextSize
  split
  · omega
  · omega
  · next ctx hne => exact Nat.pos_of_ne_zero hne

/-- A context length that was resolved resolves to itself. -/
theorem resolveContextSize_some {ctx : ℕ} (h : 0 < ctx) (nCtxTrain : ℕ) :
    resolveContextSize (some ctx) nCtxTrain = ctx := by
  cases ctx with
  | zero => exact absurd h (Nat.lt_irrefl 0)
  | succ ctx => rfl

theorem backed_withDtype (numLayers maxSeqLen kvDim : ℕ) (dtype : KvCacheDtype) :
    (KvCache.withDtype numLayers maxSeqLen kvDim dtype).Backed := by
  refine ⟨KvCache.shape_withDtype _ _ _ _, fun buf _ => ?_, fun buf _ => ?_⟩
  · exact (Nat.zero_mul _).trans_le (Nat.zero_le _)
  · exact (Nat.zero_mul _).trans_le (Nat.zero_le _)

/-- Behind `load_model`. -/
theorem loadModel_loaded {config : EngineConfig}
    (h : (InferenceEngine.new config).loadModel host = .ok e) :
    ∃ file modelConfig pass kv, Loaded host e file modelConfig pass kv := by
  obtain ⟨file, hfile, h⟩ := except_bind_eq_ok.mp h
  obtain ⟨trained, htrained, h⟩ := except_bind_eq_ok.mp h
  obtain ⟨pass, hpass, h⟩ := except_bind_eq_ok.mp h
  obtain ⟨⟨⟩, -, h⟩ := except_bind_eq_ok.mp h
  obtain ⟨⟨⟩, htokenizer, h⟩ := except_bind_eq_ok.mp h
  cases h
  exact ⟨file, _, pass, _, {
    found := okOr_eq_ok.mp hfile
    trained := ⟨trained, htrained, rfl⟩
    context := resolveContextSize_pos _ _
    build := hpass
    tokenizer := htokenizer
    modelConfig_eq := rfl
    forwardPass_eq := rfl
    kvCache_eq := rfl
    backed := backed_withDtype _ _ _ _
    geometry := rfl }⟩

/-- An engine of the same files loads the same model. -/
theorem Loaded.loadModel (h : Loaded host e file modelConfig pass kv) {config : EngineConfig}
    (hpath : config.modelPath = e.config.modelPath)
    (htokenizer : config.tokenizerPath = e.config.tokenizerPath)
    (hcontext : config.contextSize = some modelConfig.maxContextLength) (hgpu : config.gpu = .off) :
    (InferenceEngine.new config).loadModel host = .ok {
      config := config
      modelConfig := some modelConfig
      forwardPass := some pass
      kvCache := some (.withDtype modelConfig.numLayers modelConfig.maxContextLength
        (modelConfig.numKvHeads * modelConfig.headDim) config.kvDtype) } := by
  obtain ⟨trained, htrained, hmodel⟩ := h.trained
  have hresolved : ({ trained with
      maxContextLength := resolveContextSize config.contextSize trained.maxContextLength } :
        ModelConfig) = modelConfig := by
    rw [hcontext, resolveContextSize_some h.context]
    exact hmodel.symm
  refine except_bind_eq_ok.mpr ⟨file, okOr_eq_ok.mpr ?_, ?_⟩
  · rw [show (InferenceEngine.new config).config.modelPath = e.config.modelPath from hpath]
    exact h.found
  refine except_bind_eq_ok.mpr ⟨trained, htrained, ?_⟩
  refine except_bind_eq_ok.mpr ⟨pass, ?_, ?_⟩
  · rw [show (InferenceEngine.new config).config = config from rfl, hresolved]
    exact h.build
  refine except_bind_eq_ok.mpr ⟨(), ?_, ?_⟩
  · rw [show (InferenceEngine.new config).config = config from rfl, hgpu]
    rfl
  refine except_bind_eq_ok.mpr ⟨(), ?_, ?_⟩
  · rw [show (InferenceEngine.new config).config = config from rfl, hpath, htokenizer]
    exact h.tokenizer
  rw [show (InferenceEngine.new config).config = config from rfl, hresolved]
  rfl

end Loaded

/-! ### Engines that look alike -/

section Alike

variable {half : Half} {e e' : InferenceEngine}

/-- Two engines with one forward pass, and caches that look alike. -/
structure EnginesAlike (half : Half) (e e' : InferenceEngine) : Prop where
  chunks : e.config.prefillChunkSize = e'.config.prefillChunkSize
  pass : ∃ pass, e.forwardPass = some pass ∧ e'.forwardPass = some pass
  caches : ∃ kv kv', e.kvCache = some kv ∧ e'.kvCache = some kv' ∧ KvCache.Alike half kv kv'

/-- What a call leaves alone. -/
structure Kept (e after : InferenceEngine) : Prop where
  config : after.config = e.config
  modelConfig : after.modelConfig = e.modelConfig
  forwardPass : after.forwardPass = e.forwardPass
  geometry : after.kvCache.map KvCache.geometry = e.kvCache.map KvCache.geometry

/-- Two engines answer a call alike, and still look alike. -/
def AnswerAlike {α : Type} (half : Half) (e e' : InferenceEngine)
    (run run' : Option (InferenceEngine × α)) : Prop :=
  ∃ after after' answer, run = some (after, answer) ∧ run' = some (after', answer) ∧
    EnginesAlike half after after' ∧ Kept e after ∧ Kept e' after'

/-- Two caches that look alike answer alike, and still do. -/
def CachesAnswerAlike {α : Type} (half : Half) (kv : KvCache) (run run' : Option (KvCache × α)) :
    Prop :=
  ∃ after after' answer, run = some (after, answer) ∧ run' = some (after', answer) ∧
    KvCache.Alike half after after' ∧ after.geometry = kv.geometry

theorem CachesAnswerAlike.map {α β : Type} {kv : KvCache} {run run' : Option (KvCache × α)}
    (h : CachesAnswerAlike half kv run run') (f : α → β) :
    CachesAnswerAlike half kv (run.map fun r => (r.1, f r.2))
      (run'.map fun r => (r.1, f r.2)) := by
  obtain ⟨after, after', answer, rfl, rfl, halike⟩ := h
  exact ⟨after, after', f answer, rfl, rfl, halike⟩

/-- `prefill_chunked` over the chunks. -/
theorem forwardChunks_alike {kv kv' : KvCache} (h : KvCache.Alike half kv kv') (pass : TokenPass)
    (logits : List Kv.F32) (chunks : List (List Token)) :
    CachesAnswerAlike half kv (forwardChunks half pass logits chunks kv)
      (forwardChunks half pass logits chunks kv') := by
  induction chunks generalizing kv kv' logits with
  | nil => exact ⟨kv, kv', .ok logits, rfl, rfl, h, rfl⟩
  | cons chunk chunks ih =>
    obtain ⟨after, after', answer, hrun, hrun', halike, hgeometry⟩ := h.forwardFrom pass [] chunk
    unfold forwardChunks KvCache.forward
    rw [hrun, hrun', Option.bind_eq_bind, Option.bind_some, Option.bind_some]
    cases answer with
    | error err => exact ⟨after, after', .error err, rfl, rfl, halike, hgeometry⟩
    | ok logits =>
      obtain ⟨last, last', answer, hlast, hlast', halike', hgeometry'⟩ := ih halike logits
      exact ⟨last, last', answer, hlast, hlast', halike', hgeometry'.trans hgeometry⟩

theorem prefillChunked_alike {kv kv' : KvCache} (h : KvCache.Alike half kv kv') (pass : TokenPass)
    (chunkSize : ℕ) (tokens : List Token) :
    CachesAnswerAlike half kv (prefillChunked half pass chunkSize tokens kv)
      (prefillChunked half pass chunkSize tokens kv') := by
  unfold prefillChunked
  by_cases hempty : tokens = []
  · rw [if_pos hempty, if_pos hempty]
    exact ⟨kv, kv', .ok [], rfl, rfl, h, rfl⟩
  · rw [if_neg hempty, if_neg hempty]
    dsimp only
    refine CachesAnswerAlike.map ?_ ofArch
    generalize (if chunkSize = 0 then tokens.length else chunkSize) = size
    by_cases hsize : tokens.length ≤ size
    · rw [if_pos hsize, if_pos hsize]
      exact h.forwardFrom pass [] tokens
    · rw [if_neg hsize, if_neg hsize]
      exact forwardChunks_alike h pass [] _

namespace EnginesAlike

/-- Engines with other caches. -/
theorem withCaches (h : EnginesAlike half e e') {kv kv' : KvCache} (hkv : e.kvCache = some kv)
    (hkv' : e'.kvCache = some kv') (hbefore : KvCache.Alike half kv kv') {after after' : KvCache}
    (halike : KvCache.Alike half after after') (hgeometry : after.geometry = kv.geometry) :
    EnginesAlike half { e with kvCache := some after } { e' with kvCache := some after' } ∧
      Kept e { e with kvCache := some after } ∧ Kept e' { e' with kvCache := some after' } := by
  refine ⟨⟨h.chunks, h.pass, after, after', rfl, rfl, halike⟩, ⟨rfl, rfl, rfl, ?_⟩,
    rfl, rfl, rfl, ?_⟩
  · rw [hkv]
    exact congrArg some hgeometry
  · rw [hkv']
    exact congrArg some (halike.geometry.symm.trans (hgeometry.trans hbefore.geometry))

private theorem onCache_eq {pass : TokenPass} {kv after : KvCache}
    {run : TokenPass → KvCache → Option (KvCache × Except EngineError (List Kv.F32))}
    {answer : Except EngineError (List Kv.F32)} (hpass : e.forwardPass = some pass)
    (hkv : e.kvCache = some kv) (hrun : run pass kv = some (after, answer)) :
    e.onCache run = some ({ e with kvCache := some after }, answer.mapError .engine) := by
  unfold InferenceEngine.onCache
  rw [hpass, hkv]
  dsimp only
  rw [hrun]
  rfl

/-- A call on the cache. -/
theorem onCache (h : EnginesAlike half e e')
    {run : TokenPass → KvCache → Option (KvCache × Except EngineError (List Kv.F32))}
    (hrun : ∀ pass {kv kv'}, KvCache.Alike half kv kv' →
      CachesAnswerAlike half kv (run pass kv) (run pass kv')) :
    AnswerAlike half e e' (e.onCache run) (e'.onCache run) := by
  obtain ⟨pass, hpass, hpass'⟩ := h.pass
  obtain ⟨kv, kv', hkv, hkv', halike⟩ := h.caches
  obtain ⟨after, after', answer, hanswer, hanswer', halike', hgeometry⟩ := hrun pass halike
  exact ⟨_, _, _, onCache_eq hpass hkv hanswer, onCache_eq hpass' hkv' hanswer',
    h.withCaches hkv hkv' halike halike' hgeometry⟩

theorem same (h : EnginesAlike half e e') {α : Type} (answer : α) :
    AnswerAlike half e e' (some (e, answer)) (some (e', answer)) :=
  ⟨e, e', answer, rfl, rfl, h, ⟨rfl, rfl, rfl, rfl⟩, rfl, rfl, rfl, rfl⟩

/-- A forward pass over some tokens. -/
theorem forward (h : EnginesAlike half e e') (tokens : List Token) :
    AnswerAlike half e e'
      (e.onCache fun pass kv => (kv.forward half pass tokens).map fun r => (r.1, ofArch r.2))
      (e'.onCache fun pass kv => (kv.forward half pass tokens).map fun r => (r.1, ofArch r.2)) :=
  h.onCache fun pass {_ _} halike =>
    CachesAnswerAlike.map (halike.forwardFrom pass [] tokens) ofArch

/-- **Every call is answered alike.** -/
theorem step (h : EnginesAlike half e e') (call : InferenceEngine.Call) :
    AnswerAlike half e e' (e.step half call) (e'.step half call) := by
  obtain ⟨kv, kv', hkv, hkv', halike⟩ := h.caches
  cases call with
  | prefill tokens =>
    unfold InferenceEngine.step InferenceEngine.prefill
    by_cases hempty : tokens = []
    · simp only [if_pos hempty]
      exact h.same _
    · simp only [if_neg hempty, h.chunks]
      obtain ⟨after, after', answer, hrun, hrun', hafter⟩ :=
        h.onCache fun pass {_ _} halike =>
          prefillChunked_alike halike pass e'.config.prefillChunkSize tokens
      rw [hrun, hrun']
      exact ⟨after, after', _, rfl, rfl, hafter⟩
  | forwardPrefill tokens =>
    unfold InferenceEngine.step InferenceEngine.forwardPrefill
    by_cases hempty : tokens = []
    · simp only [if_pos hempty]
      exact h.same _
    · simp only [if_neg hempty]
      exact h.forward tokens
  | forwardOne token => exact h.forward [token]
  | truncate n =>
    unfold InferenceEngine.step InferenceEngine.truncate
    rw [hkv, hkv']
    exact ⟨_, _, _, rfl, rfl, h.withCaches hkv hkv' halike (halike.truncate n) rfl⟩
  | reset =>
    unfold InferenceEngine.step InferenceEngine.reset
    rw [hkv, hkv']
    exact ⟨_, _, _, rfl, rfl, h.withCaches hkv hkv' halike halike.clear rfl⟩

/-- **So is every sequence of calls.** -/
theorem run (h : EnginesAlike half e e') {after : InferenceEngine}
    {tr : List (InferenceEngine.Call × Except RuntimeError (List Kv.F32))}
    (hrun : Run (InferenceEngine.step half) e tr after) :
    ∃ after', Run (InferenceEngine.step half) e' tr after' := by
  induction hrun generalizing e' with
  | nil s => exact ⟨e', .nil e'⟩
  | cons hstep _ ih =>
    obtain ⟨next, next', answer, hnext, hnext', halike, -⟩ := h.step _
    rw [hnext] at hstep
    cases hstep
    obtain ⟨after', hafter'⟩ := ih halike
    exact ⟨after', .cons hnext' hafter'⟩

end EnginesAlike

end Alike

/-! ### Runs -/

section Runs

variable {Digest : Type} {host : Host Digest} {half : Half} {e : InferenceEngine} {file : File}
  {modelConfig : ModelConfig} {pass : TokenPass} {kv : KvCache}

/-- A loaded engine looks like itself. -/
theorem Loaded.alike (h : Loaded host e file modelConfig pass kv) : EnginesAlike half e e :=
  ⟨rfl, ⟨pass, h.forwardPass_eq, h.forwardPass_eq⟩, kv, kv, h.kvCache_eq, h.kvCache_eq,
    h.backed, h.backed, rfl, rfl⟩

/-- **A loaded engine stays loaded**, whatever the answer. -/
theorem Loaded.step (h : Loaded host e file modelConfig pass kv) {after : InferenceEngine}
    {call : InferenceEngine.Call} {answer : Except RuntimeError (List Kv.F32)}
    (hstep : e.step half call = some (after, answer)) :
    ∃ kv', Loaded host after file modelConfig pass kv' := by
  have halikes : EnginesAlike half e e := h.alike
  obtain ⟨next, next', answer', hnext, -, halike, hkept, -⟩ := halikes.step call
  rw [hnext] at hstep
  cases hstep
  obtain ⟨kv', kv₂, hkv', -, halike'⟩ := halike.caches
  have hgeometry := hkept.geometry
  rw [hkv', h.kvCache_eq] at hgeometry
  refine ⟨kv', {
    found := ?_
    trained := h.trained
    context := h.context
    build := h.build
    tokenizer := ?_
    modelConfig_eq := hkept.modelConfig.trans h.modelConfig_eq
    forwardPass_eq := hkept.forwardPass.trans h.forwardPass_eq
    kvCache_eq := hkv'
    backed := halike'.backed
    geometry := ?_ }⟩
  · rw [hkept.config]
    exact h.found
  · rw [hkept.config]
    exact h.tokenizer
  · rw [hkept.config]
    exact (Option.some.inj hgeometry).trans h.geometry

/-- A state that calls lead to from a loaded engine. -/
theorem Loaded.run (h : Loaded host e file modelConfig pass kv) {after : InferenceEngine}
    {tr : List (InferenceEngine.Call × Except RuntimeError (List Kv.F32))}
    (hrun : Run (InferenceEngine.step half) e tr after) :
    ∃ kv', Loaded host after file modelConfig pass kv' := by
  induction hrun generalizing kv with
  | nil => exact ⟨kv, h⟩
  | cons hstep _ ih =>
    obtain ⟨kv', hnext⟩ := h.step hstep
    exact ih hnext

end Runs

/-! ### Snapshot and resume -/

section Resume

variable {Digest Blob : Type} [DecidableEq Digest] {host : Host Digest}
  {oxicode : Oxicode Digest Blob} {half : Half} {e : InferenceEngine} {file : File}
  {modelConfig : ModelConfig} {pass : TokenPass} {kv : KvCache}

/-- A file agrees with its own fingerprint. -/
theorem verify_compute {path : String} {fingerprint : ModelFingerprint Digest}
    (h : ModelFingerprint.compute host path = .ok fingerprint) :
    fingerprint.verify host path = .ok () := by
  have hprobe : fingerprint.probeSize = defaultProbeSize := by
    unfold ModelFingerprint.compute ModelFingerprint.computeWithProbe at h
    split at h
    · cases h
    · cases h
      rfl
  have hagain : ModelFingerprint.computeWithProbe host path fingerprint.probeSize =
      .ok fingerprint := by
    rw [hprobe]
    exact h
  refine except_bind_eq_ok.mpr ⟨fingerprint, hagain, ?_⟩
  rw [if_pos rfl]
  rfl

omit [DecidableEq Digest] in
theorem deserialize_of_decode {blob : Blob} {snap : EngineSnapshot Digest}
    (h : oxicode.decodeFromSlice blob = .ok snap) (hmagic : snap.magic = snapshotMagic)
    (hversion : snap.version = snapshotVersion) :
    EngineSnapshot.deserialize oxicode blob = .ok snap := by
  unfold EngineSnapshot.deserialize
  rw [h]
  refine except_bind_eq_ok.mpr ⟨snap, rfl, ?_⟩
  rw [if_neg (not_not.mpr hmagic), if_neg (not_not.mpr hversion)]
  rfl

/-- **What `resume` makes of a snapshot**: the grammar is read again, and if it can be, there is
an engine with the same forward pass and the same rows. -/
theorem resume_snapshot (hcodec : oxicode.RoundTrips)
    (h : Loaded host e file modelConfig pass kv) : ∃ blob snap kv',
      e.snapshot host oxicode half = .ok blob ∧
      (∃ fingerprint, snap = engineSnapshot half e.config modelConfig kv fingerprint) ∧
      kv'.Backed ∧ kv'.geometry = modelConfig.geometry .f32 ∧
      kv'.visible half = kv.visible half ∧
      resume host oxicode half blob e.config.modelPath = some
        ((resumedGrammar (grammarState e.config.sampler)).map fun grammar => {
          config := resumedConfig (snap : EngineSnapshot Digest) e.config.modelPath grammar
          modelConfig := some modelConfig
          forwardPass := some pass
          kvCache := some kv' }) := by
  have hfingerprint : ∃ fingerprint,
      ModelFingerprint.compute host e.config.modelPath = .ok fingerprint := by
    unfold ModelFingerprint.compute ModelFingerprint.computeWithProbe
    rw [h.found]
    exact ⟨_, rfl⟩
  obtain ⟨fingerprint, hfingerprint⟩ := hfingerprint
  obtain ⟨blob, hencode, hdecode⟩ :=
    hcodec (engineSnapshot half e.config modelConfig kv fingerprint)
  have hdims := h.geometry
  obtain ⟨kv', hrestore, hsettled, hgeometry, hvisible⟩ :=
    KvCache.restoreFromPayload_toPayload h.backed half
      (KvCache.shape_withDtype modelConfig.numLayers modelConfig.maxContextLength
        (modelConfig.numKvHeads * modelConfig.headDim) .f32) rfl
      (congrArg Geometry.numLayers hdims).symm (congrArg Geometry.kvDim hdims).symm
      (h.backed.shape.seqLen_le_max.trans_eq (congrArg Geometry.maxSeqLen hdims))
  refine ⟨blob, _, kv', ?_, ⟨fingerprint, rfl⟩, hsettled.backed, hgeometry, hvisible, ?_⟩
  · refine except_bind_eq_ok.mpr ⟨modelConfig, okOr_eq_ok.mpr h.modelConfig_eq, ?_⟩
    refine except_bind_eq_ok.mpr ⟨kv, okOr_eq_ok.mpr h.kvCache_eq, ?_⟩
    refine except_bind_eq_ok.mpr ⟨fingerprint, hfingerprint, ?_⟩
    rw [EngineSnapshot.serialize, hencode]
    rfl
  · unfold resume
    simp only [deserialize_of_decode hdecode rfl rfl, bind, Except.bind]
    rw [show (engineSnapshot half e.config modelConfig kv fingerprint).modelFingerprint =
      fingerprint from rfl, verify_compute hfingerprint]
    dsimp only
    rw [show (engineSnapshot half e.config modelConfig kv fingerprint).grammarState =
      grammarState e.config.sampler from rfl]
    cases resumedGrammar (grammarState e.config.sampler) with
    | error err => rfl
    | ok grammar =>
      dsimp only
      rw [h.loadModel (show (resumedConfig (engineSnapshot half e.config modelConfig kv fingerprint)
        e.config.modelPath grammar).modelPath = e.config.modelPath from rfl) rfl rfl rfl]
      show restoreSequence half (.attention (kv.toPayload half)) _ = _
      unfold restoreSequence
      dsimp only
      rw [show (resumedConfig (engineSnapshot half e.config modelConfig kv fingerprint)
        e.config.modelPath grammar).kvDtype = .f32 from rfl, hrestore]
      rfl

/-! ### Transparency -/

/-- The resumed engine goes on where the snapshot was taken. -/
structure Continues (half : Half) (e e' : InferenceEngine) : Prop where
  /-- The caches have the same length, and the same rows below it. -/
  rows : ∃ kv kv', e.kvCache = some kv ∧ e'.kvCache = some kv' ∧
    kv'.visible half = kv.visible half
  /-- Calls that succeed on the original are answered alike, if its cache is one of `f32`. -/
  calls : (∀ kv, e.kvCache = some kv → kv.dtype = .f32) →
    ∀ tr after, Run (InferenceEngine.step half) e tr after →
      (∀ call ∈ tr, ∃ logits, call.2 = .ok logits) →
      ∃ after', Run (InferenceEngine.step half) e' tr after'
  /-- A grammar that constrains the original constrains sampling from its initial state. -/
  grammar : ∀ g, e.config.sampler.grammar = some g → e.config.sampler.tokenVocab.isSome →
    (Sampler.new e'.config.sampler).ConstrainedBy g.initialState

/-- **Transparency**: a snapshot can be taken and resumed, and the resumed engine goes on. -/
def Transparent (host : Host Digest) (oxicode : Oxicode Digest Blob) (half : Half)
    (e : InferenceEngine) : Prop :=
  ∃ blob e', e.snapshot host oxicode half = .ok blob ∧
    resume host oxicode half blob e.config.modelPath = some (.ok e') ∧ Continues half e e'

/-- **The condition**: there is no grammar, or there is one without a table of the bytes of the
tokens, and its source can be parsed. -/
def Carried (sampler : SamplerConfig) : Prop :=
  ∀ g, sampler.grammar = some g →
    sampler.tokenVocab = none ∧ ∃ g', Grammar.parse g.source = .ok g'

/-- What is carried can be read again. -/
theorem Carried.resumedGrammar {sampler : SamplerConfig} (h : Carried sampler) :
    ∃ grammar, resumedGrammar (grammarState sampler) = .ok grammar := by
  rcases hgrammar : sampler.grammar with - | g
  · refine ⟨none, ?_⟩
    rw [grammarState, hgrammar]
    rfl
  · obtain ⟨-, g', hparse⟩ := h g hgrammar
    refine ⟨some g', ?_⟩
    rw [grammarState, hgrammar, Option.map_some, Session.resumedGrammar]
    dsimp only
    rw [hparse]

/-- Only what is carried goes on. -/
theorem Loaded.carried (hcodec : oxicode.RoundTrips)
    (h : Loaded host e file modelConfig pass kv) (htransparent : Transparent host oxicode half e) :
    Carried e.config.sampler := by
  intro g hg
  obtain ⟨blob, e', hsnapshot, hresume, hcontinues⟩ := htransparent
  obtain ⟨blob', snap, kv', hsnapshot', -, -, -, -, hresume'⟩ := resume_snapshot hcodec h
  obtain rfl : blob = blob' := Except.ok.inj (hsnapshot.symm.trans hsnapshot')
  have hmade := Option.some.inj (hresume.symm.trans hresume')
  rw [grammarState, hg, Option.map_some, Session.resumedGrammar] at hmade
  dsimp only at hmade
  cases hparse : Grammar.parse g.source with
  | error err =>
    rw [hparse] at hmade
    cases hmade
  | ok g' =>
    rw [hparse] at hmade
    cases hmade
    refine ⟨?_, g', rfl⟩
    -- the resumed configuration has no table
    rcases hvocab : e.config.sampler.tokenVocab with - | vocab
    · rfl
    · have hconstrained := hcontinues.grammar g hg (by rw [hvocab]; rfl)
      exact absurd hconstrained ((Sampler.unconstrained_of_no_vocab rfl).2.2 _)

/-- What is carried goes on. -/
theorem Loaded.transparent (hcodec : oxicode.RoundTrips)
    (h : Loaded host e file modelConfig pass kv) (hcarried : Carried e.config.sampler) :
    Transparent host oxicode half e := by
  obtain ⟨grammar, hgrammar⟩ := hcarried.resumedGrammar
  have hresumed := @resume_snapshot _ _ _ _ _ half _ _ _ _ _ hcodec h
  obtain ⟨blob, snap, kv', hsnapshot, ⟨fingerprint, rfl⟩, hbacked, hgeometry, hvisible, hresume⟩ :=
    hresumed
  rw [hgrammar] at hresume
  refine ⟨blob, {
    config := resumedConfig (engineSnapshot half e.config modelConfig kv fingerprint)
      e.config.modelPath grammar
    modelConfig := some modelConfig
    forwardPass := some pass
    kvCache := some kv' }, hsnapshot, hresume, ⟨kv, kv', h.kvCache_eq, rfl, hvisible⟩, ?_, ?_⟩
  · intro hf32 tr after hrun _
    have hdtype : e.config.kvDtype = .f32 :=
      (congrArg Geometry.dtype h.geometry).symm.trans (hf32 kv h.kvCache_eq)
    have hsame : kv.geometry = kv'.geometry := by
      rw [h.geometry, hgeometry, hdtype]
    have halike : KvCache.Alike half kv kv' := ⟨h.backed, hbacked, hsame, hvisible.symm⟩
    refine EnginesAlike.run ?_ hrun
    exact ⟨rfl, ⟨pass, h.forwardPass_eq, rfl⟩, kv, kv', h.kvCache_eq, rfl, halike⟩
  · intro g hg hvocab
    rw [(hcarried g hg).1] at hvocab
    exact absurd hvocab Bool.false_ne_true

/-- **Snapshot and resume are transparent, in every state that calls lead to, exactly if the
sampler configuration is carried.** -/
theorem transparent_iff (hcodec : oxicode.RoundTrips) {config : EngineConfig}
    {e₀ : InferenceEngine} (hload : (InferenceEngine.new config).loadModel host = .ok e₀)
    {tr : List (InferenceEngine.Call × Except RuntimeError (List Kv.F32))}
    (hrun : Run (InferenceEngine.step half) e₀ tr e) :
    Transparent host oxicode half e ↔ Carried e.config.sampler := by
  obtain ⟨file, modelConfig, pass, kv₀, hloaded⟩ := loadModel_loaded hload
  obtain ⟨kv, h⟩ := hloaded.run hrun
  exact ⟨h.carried hcodec, h.transparent hcodec⟩

end Resume

/-! ### A session -/

/-- A host with one model file, of one layer with rows of one element; each row and the logits
are the token. -/
def oneModelHost : Host (List UInt8) where
  files path := if path = "model.gguf" then some ⟨[0x47, 0x47, 0x55, 0x46], some 0⟩ else none
  blake3 := ⟨id, id⟩
  modelConfig _ := .ok ⟨"llama", 1, 1, 1, 8⟩
  buildForwardPass _ _ := .ok fun _ token => .ok (fun _ => ([token], [token]), [token])
  activateGpu _ := .error (.gpuUnavailable "no adapter")
  loadTokenizer _ _ _ := .ok ()

/-- Snapshots that are kept as they are. -/
def keptSnapshots : Oxicode (List UInt8) (EngineSnapshot (List UInt8)) := ⟨.ok, .ok⟩

theorem keptSnapshots_roundTrips : keptSnapshots.RoundTrips := fun snap => ⟨snap, rfl, rfl⟩

/-- The configuration of a session with this sampler. -/
def sessionConfig (sampler : SamplerConfig) : EngineConfig where
  modelPath := "model.gguf"
  tokenizerPath := none
  contextSize := none
  numThreads := 0
  sampler := sampler
  prefillChunkSize := 512
  kvDtype := .f32
  gpu := .off

/-- The engine of a session, behind the first token if there is one. -/
def sessionEngine (sampler : SamplerConfig) (cache : KvCache) : InferenceEngine where
  config := sessionConfig sampler
  modelConfig := some ⟨"llama", 1, 1, 1, 8⟩
  forwardPass := some fun _ token => .ok (fun _ => ([token], [token]), [token])
  kvCache := some cache

/-- The cache behind the token `7`. -/
def sevenCache : KvCache :=
  { KvCache.withDtype 1 8 1 .f32 with
    keys := [.f32 [7, 0, 0, 0, 0, 0, 0, 0]]
    values := [.f32 [7, 0, 0, 0, 0, 0, 0, 0]]
    seqLen := 1
    storedLen := 1
    capacityTokens := 8 }

theorem loadModel_session (sampler : SamplerConfig) :
    (InferenceEngine.new (sessionConfig sampler)).loadModel oneModelHost =
      .ok (sessionEngine sampler (.withDtype 1 8 1 .f32)) := rfl

theorem transparent_iff_sevenCache :
    Transparent oneModelHost keptSnapshots Half.onZero (sessionEngine .default sevenCache) := by
  have hstep : (sessionEngine .default (.withDtype 1 8 1 .f32)).step Half.onZero (.forwardOne 7) =
      some (sessionEngine .default sevenCache, .ok [7]) := rfl
  exact (transparent_iff keptSnapshots_roundTrips (loadModel_session .default)
    (.single hstep)).mpr nofun

/-- A sampler that is constrained by a grammar. -/
def constrainedSampler : SamplerConfig :=
  { SamplerConfig.default with
    grammar := some GrammarState.commonHead
    tokenVocab := some [(0, [0x61]), (1, [0x62])] }

/-- Resumed, a session that was constrained by a grammar is not. -/
theorem not_transparent_constrained :
    ¬ ∀ (config : EngineConfig) (e₀ e : InferenceEngine)
      (tr : List (InferenceEngine.Call × Except RuntimeError (List Kv.F32))),
      (InferenceEngine.new config).loadModel oneModelHost = .ok e₀ →
      Run (InferenceEngine.step Half.onZero) e₀ tr e →
      Transparent oneModelHost keptSnapshots Half.onZero e := by
  intro h
  have htransparent := h _ _ _ [] (loadModel_session constrainedSampler) (.nil _)
  obtain ⟨file, modelConfig, pass, kv, hloaded⟩ :=
    loadModel_loaded (loadModel_session constrainedSampler)
  have hcarried := hloaded.carried keptSnapshots_roundTrips htransparent
  exact absurd (hcarried _ rfl).1 (Option.some_ne_none _)

end Session

end Oxillama
