/-
Prompts served through the prefix cache
(`oxillama-runtime/src/engine/mod.rs`, `InferenceEngine::prime_with_prefix`,
`oxillama-runtime/src/engine/generation.rs`, `oxillama-server/src/worker.rs`).

The engine keeps its sequence in a `KvCache` and nowhere else; its model is a
`TokenPass`.  The worker serves a prompt either from the longest cached prefix,
priming the engine with its rows and passing the rest, or from a cleared cache, and
then stores the rows of the prompt for later prompts.  What sampling decides — which
tokens the decode loop passes, and whether it ends well — comes in with the request.
-/
import Oxillama.Kv.PureForward
import Oxillama.Kv.PrefixCache
import Oxillama.Lib.Run

namespace Oxillama

namespace Kv

/-- `RuntimeError`, the part of it that priming and prefilling raise. -/
inductive EngineError
  | modelLoadError (message : String)
  | cache (e : RuntimeError)
  | arch (e : ArchError)
  deriving DecidableEq

/-- `map_err(RuntimeError::Arch)`. -/
def ofArch {α : Type} : ArchResult α → Except EngineError α
  | .ok x => .ok x
  | .error e => .error (.arch e)

/-! ### The engine -/

/-- `InferenceEngine::prime_with_prefix` on the cache of the engine. -/
def primeWithPrefix (half : Half) (pass : TokenPass) (cached : CachedKvState) (restoreTo : ℕ)
    (suffixTokens : List Token) (kv : KvCache) : Option (KvCache × Except EngineError (List F32)) :=
  if suffixTokens = [] then
    some (kv, .error (.modelLoadError
      "prime_with_prefix: suffix_tokens must contain at least one token"))
  else do
    match ← kv.restoreFromSnapshot half cached.keys cached.values restoreTo with
    | (kv, .error e) => some (kv, .error (.cache e))
    | (kv, .ok ()) => (kv.forward half pass suffixTokens).map fun r => (r.1, ofArch r.2)

/-- `tokens.chunks(size)`, for a positive size. -/
def chunksOf (size : ℕ) : List Token → List (List Token)
  | [] => []
  | token :: tokens =>
    (token :: tokens.take (size - 1)) :: chunksOf size (tokens.drop (size - 1))
termination_by tokens => tokens.length
decreasing_by
  rw [List.length_drop, List.length_cons]
  omega

/-- The loop of `prefill_chunked`. -/
def forwardChunks (half : Half) (pass : TokenPass) :
    List F32 → List (List Token) → KvCache → Option (KvCache × ArchResult (List F32))
  | logits, [], kv => some (kv, .ok logits)
  | _, chunk :: chunks, kv => do
    match ← kv.forward half pass chunk with
    | (kv, .error e) => some (kv, .error e)
    | (kv, .ok logits) => forwardChunks half pass logits chunks kv

/-- `prefill_chunked`. -/
def prefillChunked (half : Half) (pass : TokenPass) (chunkSize : ℕ) (tokens : List Token)
    (kv : KvCache) : Option (KvCache × Except EngineError (List F32)) :=
  if tokens = [] then some (kv, .ok [])
  else
    let chunkSize := if chunkSize = 0 then tokens.length else chunkSize
    (if tokens.length ≤ chunkSize then kv.forward half pass tokens
      else forwardChunks half pass [] (chunksOf chunkSize tokens) kv).map fun r => (r.1, ofArch r.2)

/-- The forward calls of `run_decode_loop`, one for each token it goes on from. -/
def decodeLoop (half : Half) (pass : TokenPass) :
    List Token → KvCache → Option (KvCache × ArchResult Unit)
  | [], kv => some (kv, .ok ())
  | token :: tokens, kv => do
    match ← kv.forward half pass [token] with
    | (kv, .error e) => some (kv, .error e)
    | (kv, .ok _) => decodeLoop half pass tokens kv

/-! ### The worker -/

/-- The cache of the engine, and the prefix cache of a namespace. -/
structure Worker where
  kv : KvCache
  prefixes : PrefixKvCache

/-- A request with its prompt as tokens, and what happens while it is served: the
tokens the decode loop passes on, whether it ends without a sampling error, and the
clocks and iteration orders of the prefix caches. -/
structure Request where
  tokens : List Token
  cachePrompt : Bool
  sampled : List Token
  completes : Bool
  lookupNow : ℕ → Instant
  scratchNow : Instant
  scratchEnv : StoreEnv
  scratchLookupNow : ℕ → Instant
  storeEnv : StoreEnv

/-- The configuration of the scratch cache of `try_prefix_cache_hit`. -/
def scratchConfig : PrefixCacheConfig where
  maxEntries := 2
  maxMemoryBytes := 2 ^ 64 - 1
  minPrefixLen := 1

namespace Worker

/-- `try_prefix_cache_hit`: the initial logits, if the engine could be primed. -/
def tryPrefixCacheHit (half : Half) (pass : TokenPass) (request : Request) (w : Worker) :
    Option (Worker × Option (List F32)) :=
  let tokens := request.tokens
  if tokens = [] then some (w, none)
  else
    let r := w.prefixes.lookup tokens request.lookupNow
    let w := { w with prefixes := r.1 }
    match r.2 with
    | none => some (w, none)
    | some (matchLen, cached) =>
      let effective := min matchLen (tokens.length - 1)
      if effective = 0 then some (w, none)
      else do
        let snap := CachedKvState.new cached.keys cached.values effective
        let (scratch, _) ← (PrefixKvCache.new scratchConfig request.scratchNow).storeSnapshot
          (tokens.take effective) snap request.scratchEnv
        match (scratch.lookup (tokens.take effective) request.scratchLookupNow).2 with
        | none => some (w, none)
        | some (_, cached) =>
          match ← primeWithPrefix half pass cached effective (tokens.drop effective) w.kv with
          | (kv, .ok logits) => some ({ w with kv := kv }, some logits)
          | (kv, .error _) => some ({ w with kv := kv }, none)

/-- `InferenceEngine::store_kv_in_prefix_cache`. -/
def storePrefixCache (half : Half) (tokens : List Token) (env : StoreEnv) (w : Worker) :
    Option Worker := do
  let (prefixes, _) ← w.prefixes.store tokens (w.kv.access half) w.kv.seqLen w.kv.kvDim
    w.kv.numLayers env
  some { w with prefixes := prefixes }

/-- The decode loop of a request on a primed engine, and the store after it. -/
def finishGenerate (half : Half) (pass : TokenPass) (request : Request) (w : Worker) :
    Option Worker := do
  match ← decodeLoop half pass request.sampled w.kv with
  | (kv, .error _) => some { w with kv := kv }
  | (kv, .ok ()) =>
    let w := { w with kv := kv }
    if request.completes && request.cachePrompt then
      w.storePrefixCache half request.tokens request.storeEnv
    else some w

/-- `run_generate`. -/
def runGenerate (half : Half) (pass : TokenPass) (chunkSize : ℕ) (request : Request) (w : Worker) :
    Option Worker := do
  let attempt := if request.cachePrompt then w.tryPrefixCacheHit half pass request
    else some (w, none)
  let (w, hit) ← attempt
  match hit with
  | some _ => w.finishGenerate half pass request
  | none =>
    let w := { w with kv := w.kv.clear }
    -- an empty prompt ends the generation before the prefill
    if request.tokens = [] then
      if request.cachePrompt then w.storePrefixCache half [] request.storeEnv else some w
    else
      match ← prefillChunked half pass chunkSize request.tokens w.kv with
      | (kv, .error _) => some { w with kv := kv }
      | (kv, .ok _) => finishGenerate half pass request { w with kv := kv }

/-! ### Histories -/

/-- What happens to a worker: a request, any other call on the cache of the engine,
or the registry dropping the namespace. -/
inductive Event
  | generate (request : Request)
  | call (call : KvCache.Call)
  | forget (now : Instant)

/-- One event: `none` is a panic. -/
def step (half : Half) (pass : TokenPass) (chunkSize : ℕ) (w : Worker) :
    Event → Option (Worker × Unit)
  | .generate request => (w.runGenerate half pass chunkSize request).map fun w => (w, ())
  | .call call => (w.kv.step half call).map fun r => ({ w with kv := r.1 }, ())
  | .forget now => some ({ w with prefixes := .new w.prefixes.config now }, ())

/-- A worker that has served nothing. -/
def start (g : Geometry) (config : PrefixCacheConfig) (now : Instant) : Worker where
  kv := .withDtype g.numLayers g.maxSeqLen g.kvDim g.dtype
  prefixes := .new config now

end Worker

end Kv

end Oxillama
