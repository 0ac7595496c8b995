/-
Sessions of the inference engine, their snapshots and their resumption
(`oxillama-runtime/src/engine/mod.rs`, `oxillama-runtime/src/snapshot.rs`).

An engine that has loaded a model keeps its sequence in its key-value cache; the forward pass is
a `TokenPass`.  What the engine has from elsewhere is a `Host`: the files, the `blake3` crate, and
what the loaders make of the bytes of a model file.  The codec of snapshots is a parameter too.

Left out is what no function here reads: the offload policy, the metrics, the stack of adapters,
and in a snapshot the first `mirostat_mu` of a sampler.
-/
import Oxillama.Gguf.Resume
import Oxillama.Kv.Alike
import Oxillama.Runtime.PrefixPriming
import Oxillama.Sampling.Sampler

namespace Oxillama

namespace Session

open Kv Sampling
open Gguf.Resume (File)

/-- `RuntimeError`, the part of it that sessions raise. -/
inductive RuntimeError
  | modelNotLoaded
  | gpuUnavailable (reason : String)
  | modelFingerprintMismatch (expected found detail : String)
  | io (kind : String)
  | engine (e : EngineError)
  deriving DecidableEq

/-- `RuntimeError::ModelLoadError`. -/
def modelLoadError (message : String) : RuntimeError := .engine (.modelLoadError message)

/-- `RuntimeError::SnapshotIncompatible`. -/
def snapshotIncompatible (detail : String) : RuntimeError :=
  .engine (.cache (.snapshotIncompatible detail))

/-! ### The engine -/

/-- `ModelConfig`, the parts that the engine reads. -/
structure ModelConfig where
  architecture : String
  numLayers : ℕ
  numKvHeads : ℕ
  headDim : ℕ
  maxContextLength : ℕ
  deriving DecidableEq

/-- `GpuPolicy`, without the options. -/
inductive GpuPolicy
  | off
  | on
  deriving DecidableEq, Repr

/-- `EngineConfig`. -/
structure EngineConfig where
  modelPath : String
  tokenizerPath : Option String
  contextSize : Option ℕ
  numThreads : ℕ
  sampler : SamplerConfig
  prefillChunkSize : ℕ
  kvDtype : KvCacheDtype
  gpu : GpuPolicy

/-- `InferenceEngine`. -/
structure InferenceEngine where
  config : EngineConfig
  modelConfig : Option ModelConfig
  forwardPass : Option TokenPass
  kvCache : Option KvCache

/-- `InferenceEngine::new`. -/
def InferenceEngine.new (config : EngineConfig) : InferenceEngine where
  config := config
  modelConfig := none
  forwardPass := none
  kvCache := none

/-- What an engine has from elsewhere; `Digest` is the type of hashes. -/
structure Host (Digest : Type) where
  files : String → Option File
  blake3 : Gguf.Blake3 Digest
  /-- `GgufModel::load` and `ModelConfig::from_metadata`. -/
  modelConfig : List UInt8 → Except RuntimeError ModelConfig
  /-- `build_forward_pass`. -/
  buildForwardPass : List UInt8 → ModelConfig → Except RuntimeError TokenPass
  /-- `gpu_backend::activate`, for the number of layers. -/
  activateGpu : ℕ → Except RuntimeError Unit
  /-- `load_tokenizer`, for a model path, a tokenizer path and the bytes of the model file. -/
  loadTokenizer : String → Option String → List UInt8 → Except RuntimeError Unit

/-- `DEFAULT_MAX_CONTEXT`. -/
def defaultMaxContext : ℕ := 4096

/-- `resolve_context_size`. -/
def resolveContextSize (requested : Option ℕ) (nCtxTrain : ℕ) : ℕ :=
  match requested with
  | none | some 0 => max 1 (min nCtxTrain defaultMaxContext)
  | some ctx => ctx

section Loading

variable {Digest : Type} (host : Host Digest)

/-- `apply_gpu_policy`. -/
def applyGpuPolicy (policy : GpuPolicy) (numLayers : ℕ) : Except RuntimeError Unit :=
  match policy with
  | .off => .ok ()
  | .on => host.activateGpu numLayers

/-- `InferenceEngine::load_model`. -/
def InferenceEngine.loadModel (e : InferenceEngine) : Except RuntimeError InferenceEngine := do
  let file ← okOr (modelLoadError ("model file not found: " ++ e.config.modelPath))
    (host.files e.config.modelPath)
  let trained ← host.modelConfig file.bytes
  let modelConfig := { trained with
    maxContextLength := resolveContextSize e.config.contextSize trained.maxContextLength }
  let forwardPass ← host.buildForwardPass file.bytes modelConfig
  applyGpuPolicy host e.config.gpu modelConfig.numLayers
  let kvDim := modelConfig.numKvHeads * modelConfig.headDim
  let kvCache := KvCache.withDtype modelConfig.numLayers modelConfig.maxContextLength kvDim
    e.config.kvDtype
  host.loadTokenizer e.config.modelPath e.config.tokenizerPath file.bytes
  return { e with
    modelConfig := some modelConfig
    forwardPass := some forwardPass
    kvCache := some kvCache }

end Loading

/-! ### Calls -/

namespace InferenceEngine

/-- A call on the forward pass and the cache of the engine. -/
def onCache (run : TokenPass → KvCache → Option (KvCache × Except EngineError (List Kv.F32)))
    (e : InferenceEngine) : Option (InferenceEngine × Except RuntimeError (List Kv.F32)) :=
  match e.forwardPass, e.kvCache with
  | some pass, some kv =>
    (run pass kv).map fun r => ({ e with kvCache := some r.1 }, r.2.mapError .engine)
  | _, _ => some (e, .error .modelNotLoaded)

/-- `InferenceEngine::prefill`; it does not hand on the logits. -/
def prefill (half : Half) (tokens : List Token) (e : InferenceEngine) :
    Option (InferenceEngine × Except RuntimeError (List Kv.F32)) :=
  if tokens = [] then some (e, .ok [])
  else (e.onCache fun pass kv =>
    prefillChunked half pass e.config.prefillChunkSize tokens kv).map fun r =>
      (r.1, r.2.map fun _ => [])

/-- `InferenceEngine::forward_prefill`. -/
def forwardPrefill (half : Half) (tokens : List Token) (e : InferenceEngine) :
    Option (InferenceEngine × Except RuntimeError (List Kv.F32)) :=
  if tokens = [] then
    some (e, .error (modelLoadError "forward_prefill called with empty token slice"))
  else e.onCache fun pass kv => (kv.forward half pass tokens).map fun r => (r.1, ofArch r.2)

/-- `InferenceEngine::forward_one`, and `InferenceEngine::forward_decode`. -/
def forwardOne (half : Half) (token : Token) (e : InferenceEngine) :
    Option (InferenceEngine × Except RuntimeError (List Kv.F32)) :=
  e.onCache fun pass kv => (kv.forward half pass [token]).map fun r => (r.1, ofArch r.2)

/-- `InferenceEngine::truncate`. -/
def truncate (n : ℕ) (e : InferenceEngine) : InferenceEngine × Except RuntimeError (List Kv.F32) :=
  match e.kvCache with
  | some kv => ({ e with kvCache := some (kv.truncate n) }, .ok [])
  | none => (e, .error .modelNotLoaded)

/-- `InferenceEngine::reset`. -/
def reset (e : InferenceEngine) : InferenceEngine := { e with kvCache := e.kvCache.map .clear }

/-- A call that moves the sequence. -/
inductive Call
  | prefill (tokens : List Token)
  | forwardPrefill (tokens : List Token)
  | forwardOne (token : Token)
  | truncate (n : ℕ)
  | reset
  deriving DecidableEq

/-- One call and its answer, with the logits if there are any: `none` is a panic. -/
def step (half : Half) (e : InferenceEngine) :
    Call → Option (InferenceEngine × Except RuntimeError (List Kv.F32))
  | .prefill tokens => e.prefill half tokens
  | .forwardPrefill tokens => e.forwardPrefill half tokens
  | .forwardOne token => e.forwardOne half token
  | .truncate n => some (e.truncate n)
  | .reset => some (e.reset, .ok [])

end InferenceEngine

/-! ### Fingerprints -/

/-- `ModelFingerprint`. -/
structure ModelFingerprint (Digest : Type) where
  fileSize : ℕ
  mtimeSecs : UInt64
  headHash : Digest
  tailHash : Digest
  probeSize : ℕ
  deriving DecidableEq

/-- `DEFAULT_PROBE_SIZE`: 8 MiB. -/
def defaultProbeSize : ℕ := 8 * 1024 * 1024

namespace ModelFingerprint

variable {Digest : Type} (host : Host Digest)

/-- `ModelFingerprint::compute_with_probe`. -/
def computeWithProbe (path : String) (probeSize : ℕ) :
    Except RuntimeError (ModelFingerprint Digest) :=
  match host.files path with
  | none => .error (.io "NotFound")
  | some file =>
    let fileSize := file.bytes.length
    .ok {
      fileSize := fileSize
      mtimeSecs := file.mtimeSecs
      headHash := host.blake3.hash (file.bytes.take (min probeSize fileSize))
      tailHash := host.blake3.hash (file.bytes.drop (fileSize - probeSize))
      probeSize := probeSize }

/-- `ModelFingerprint::compute`. -/
def compute (path : String) : Except RuntimeError (ModelFingerprint Digest) :=
  computeWithProbe host path defaultProbeSize

/-- The first and the last eight hexadecimal digits of a hash. -/
def hashEnds (digest : Digest) : String :=
  let hex := (hexEncode (host.blake3.asBytes digest)).toList
  String.ofList (hex.take 8) ++ "..." ++ String.ofList (hex.drop (hex.length - 8))

/-- `ModelFingerprint::display`. -/
def display (fingerprint : ModelFingerprint Digest) : String :=
  s!"size={fingerprint.fileSize} mtime={fingerprint.mtimeSecs} " ++
    s!"head={hashEnds host fingerprint.headHash} tail={hashEnds host fingerprint.tailHash}"

/-- `ModelFingerprint::verify`. -/
def verify [DecidableEq Digest] (fingerprint : ModelFingerprint Digest) (path : String) :
    Except RuntimeError Unit := do
  let actual ← computeWithProbe host path fingerprint.probeSize
  if actual = fingerprint then return ()
  else throw (.modelFingerprintMismatch (fingerprint.display host) (actual.display host)
    ("model file '" ++ path ++ "' has been modified or replaced since the snapshot was taken"))

end ModelFingerprint

/-! ### Snapshots -/

/-- `SsmStatePayload`. -/
structure SsmStatePayload where
  ssmStates : List (List Kv.F32)
  step : ℕ
  deriving DecidableEq, Repr

/-- `SequenceStatePayload`. -/
inductive SequenceStatePayload
  | attention (kv : KvStatePayload)
  | mamba2 (ssm : SsmStatePayload)
  | jamba (attention : KvStatePayload) (ssm : SsmStatePayload)
  deriving DecidableEq

/-- `SamplerStatePayload`. -/
structure SamplerStatePayload where
  rngState : UInt64
  temperature : Kv.F32
  topK : ℕ
  topP : Kv.F32
  minP : Kv.F32
  repetitionPenalty : Kv.F32
  repetitionPenaltyWindow : ℕ
  seed : Option UInt64
  mirostatMode : UInt8
  mirostatTau : Kv.F32
  mirostatEta : Kv.F32
  deriving DecidableEq

/-- `GrammarStatePayload`. -/
structure GrammarStatePayload where
  grammarSource : String
  deriving DecidableEq

/-- `EngineSnapshot`. -/
structure EngineSnapshot (Digest : Type) where
  magic : List UInt8
  version : UInt32
  archId : String
  modelPath : String
  tokenizerPath : Option String
  modelFingerprint : ModelFingerprint Digest
  tokens : List Token
  sequenceState : SequenceStatePayload
  samplerState : SamplerStatePayload
  grammarState : Option GrammarStatePayload
  maxContextLength : ℕ
  numThreads : ℕ
  prefillChunkSize : ℕ

/-- `SNAPSHOT_MAGIC`: `OXISNAP1`. -/
def snapshotMagic : List UInt8 := [0x4F, 0x58, 0x49, 0x53, 0x4E, 0x41, 0x50, 0x31]

/-- `EngineSnapshot::VERSION`. -/
def snapshotVersion : UInt32 := 1

/-- The `oxicode` crate, at snapshots; `Blob` is the type of encoded snapshots. -/
structure Oxicode (Digest Blob : Type) where
  encodeToVec : EngineSnapshot Digest → Except String Blob
  decodeFromSlice : Blob → Except String (EngineSnapshot Digest)

/-- What is encoded is decoded again. -/
def Oxicode.RoundTrips {Digest Blob : Type} (oxicode : Oxicode Digest Blob) : Prop :=
  ∀ snap, ∃ blob, oxicode.encodeToVec snap = .ok blob ∧ oxicode.decodeFromSlice blob = .ok snap

/-- `GrammarError` as a text. -/
def grammarErrorText : Grammar.GrammarError → String
  | .parseError pos msg => s!"grammar parse error at position {pos}: {msg}"
  | .stuck => "grammar reached a stuck state — no valid next tokens"
  | .unknownRule rule => s!"unknown rule reference: '{rule}'"
  | .recursionLimit rule =>
    s!"grammar recursion depth limit exceeded (possible infinite recursion in rule '{rule}')"
  | .tokenTooLong len max =>
    s!"token exceeds the maximum {max} bytes verified by the grammar simulator (got {len})"
  | .unsupportedKeyword keyword reason =>
    "JSON Schema keyword `" ++ keyword ++ "` cannot be expressed as a GBNF grammar: " ++ reason

section Snapshots

variable {Digest Blob : Type} (host : Host Digest) (oxicode : Oxicode Digest Blob) (half : Half)

/-- `EngineSnapshot::serialize`. -/
def EngineSnapshot.serialize (snap : EngineSnapshot Digest) : Except RuntimeError Blob :=
  (oxicode.encodeToVec snap).mapError fun e => snapshotIncompatible ("serialization failed: " ++ e)

/-- `EngineSnapshot::deserialize`. -/
def EngineSnapshot.deserialize (blob : Blob) : Except RuntimeError (EngineSnapshot Digest) := do
  let snap ← (oxicode.decodeFromSlice blob).mapError fun e =>
    snapshotIncompatible ("deserialization failed: " ++ e)
  if snap.magic ≠ snapshotMagic then throw (snapshotIncompatible "invalid snapshot magic bytes")
  if snap.version ≠ snapshotVersion then
    throw (snapshotIncompatible
      s!"snapshot version {snap.version} is not supported (expected {snapshotVersion})")
  return snap

/-- What a snapshot has of a sampler configuration. -/
def samplerState (sampler : SamplerConfig) : SamplerStatePayload where
  rngState := sampler.seed.getD 0
  temperature := sampler.temperature
  topK := sampler.topK
  topP := sampler.topP
  minP := sampler.minP
  repetitionPenalty := sampler.repetitionPenalty
  repetitionPenaltyWindow := sampler.repetitionPenaltyWindow
  seed := sampler.seed
  mirostatMode := sampler.mirostat
  mirostatTau := sampler.mirostatTau
  mirostatEta := sampler.mirostatEta

/-- What a snapshot has of the grammar. -/
def grammarState (sampler : SamplerConfig) : Option GrammarStatePayload :=
  sampler.grammar.map fun g => ⟨g.source⟩

/-- The snapshot that `InferenceEngine::snapshot` serializes. -/
def engineSnapshot (config : EngineConfig) (modelConfig : ModelConfig) (kvCache : KvCache)
    (modelFingerprint : ModelFingerprint Digest) : EngineSnapshot Digest where
  magic := snapshotMagic
  version := snapshotVersion
  archId := modelConfig.architecture
  modelPath := config.modelPath
  tokenizerPath := config.tokenizerPath
  modelFingerprint := modelFingerprint
  tokens := []
  sequenceState := .attention (kvCache.toPayload half)
  samplerState := samplerState config.sampler
  grammarState := grammarState config.sampler
  maxContextLength := modelConfig.maxContextLength
  numThreads := config.numThreads
  prefillChunkSize := config.prefillChunkSize

/-- `InferenceEngine::snapshot`. -/
def InferenceEngine.snapshot (e : InferenceEngine) : Except RuntimeError Blob := do
  let modelConfig ← okOr .modelNotLoaded e.modelConfig
  let kvCache ← okOr .modelNotLoaded e.kvCache
  let modelFingerprint ← ModelFingerprint.compute host e.config.modelPath
  (engineSnapshot half e.config modelConfig kvCache modelFingerprint).serialize oxicode

/-- The sampler configuration of a resumed engine, before the grammar. -/
def resumedSampler (state : SamplerStatePayload) : SamplerConfig :=
  { SamplerConfig.default with
    temperature := state.temperature
    topK := state.topK
    topP := state.topP
    minP := state.minP
    repetitionPenalty := state.repetitionPenalty
    repetitionPenaltyWindow := state.repetitionPenaltyWindow
    seed := state.seed
    mirostat := state.mirostatMode
    mirostatTau := state.mirostatTau
    mirostatEta := state.mirostatEta
    grammar := none
    tokenVocab := none
    logitBias := ∅
    bannedTokens := [] }

/-- The grammar of a resumed engine. -/
def resumedGrammar (state : Option GrammarStatePayload) : Except RuntimeError (Option Grammar) :=
  match state with
  | none => .ok none
  | some state =>
    match Grammar.parse state.grammarSource with
    | .ok g => .ok (some g)
    | .error e => .error (modelLoadError
      ("failed to re-parse grammar from snapshot: " ++ grammarErrorText e))

/-- The configuration of a resumed engine. -/
def resumedConfig (snap : EngineSnapshot Digest) (modelPath : String) (grammar : Option Grammar) :
    EngineConfig where
  modelPath := modelPath
  tokenizerPath := snap.tokenizerPath
  contextSize := some snap.maxContextLength
  numThreads := snap.numThreads
  sampler := { resumedSampler snap.samplerState with grammar := grammar }
  prefillChunkSize := snap.prefillChunkSize
  kvDtype := .f32
  gpu := .off

/-- Restoring the key-value cache: `none` is a panic. -/
def restoreSequence (state : SequenceStatePayload) (e : InferenceEngine) :
    Option (Except RuntimeError InferenceEngine) :=
  match state with
  | .attention payload =>
    match e.kvCache with
    | none => some (.error .modelNotLoaded)
    | some kv =>
      (kv.restoreFromPayload half payload).map fun
        | (kv, .ok ()) => .ok { e with kvCache := some kv }
        | (_, .error err) => .error (.engine (.cache err))
  | .mamba2 _ | .jamba _ _ => some (.ok e)

/-- `InferenceEngine::resume`: `none` is a panic. -/
def resume [DecidableEq Digest] (blob : Blob) (modelPath : String) :
    Option (Except RuntimeError InferenceEngine) :=
  let loaded : Except RuntimeError (EngineSnapshot Digest × InferenceEngine) := do
    let snap ← EngineSnapshot.deserialize oxicode blob
    snap.modelFingerprint.verify host modelPath
    let grammar ← resumedGrammar snap.grammarState
    let engine ← (InferenceEngine.new (resumedConfig snap modelPath grammar)).loadModel host
    return (snap, engine)
  match loaded with
  | .error e => some (.error e)
  | .ok (snap, engine) => restoreSequence half snap.sequenceState engine

end Snapshots

end Session

end Oxillama
