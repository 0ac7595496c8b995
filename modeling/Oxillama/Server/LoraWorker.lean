/-
The inference worker with adapters and prefix caches (`oxillama-server/src/worker.rs`,
`prefix_registry.rs`, and what `oxillama-runtime/src/engine/mod.rs` does with the stack of
adapters).

A request names adapters with their scales.  The worker looks the names up in a registry that
requests to `/admin/loras` change, attaches what it finds to the model, generates, and detaches
it.  The prefix cache it uses is the one of a namespace, which it makes of the names and scales
of the request.

The prompt of a request comes as tokens, and what happens while it is served as in the worker of
one prefix cache.  Its forward pass may panic; `run_worker` catches that and resets the engine.
-/
import Mathlib.Data.List.Sort
import Oxillama.Lib.ExactFloat
import Oxillama.Runtime.PrefixReuse
import Oxillama.Server.KeyStores

namespace Oxillama

namespace Server

open Kv (Token TokenPass KvCache Half Geometry Instant PrefixCacheConfig PrefixKvCache
  CachedKvState Worker Request)

/-! ### The namespace of a request -/

/-- The integer by which `f32::total_cmp` compares. -/
def totalKey (x : Kv.F32) : ℤ :=
  if x.toNat < 2 ^ 31 then x.toNat else -((x.toNat - 2 ^ 31 : ℕ) : ℤ) - 1

/-- `format!("{x:.6}")`. -/
def formatScale (x : Kv.F32) : String :=
  let magnitude := x.toNat % 2 ^ 31
  let sign := if x.toNat < 2 ^ 31 then "" else "-"
  if 255 * 2 ^ 23 < magnitude then "NaN"
  else if magnitude = 255 * 2 ^ 23 then sign ++ "inf"
  else
    let millionths := (nearestEven (decodeMag 23 127 magnitude * 10 ^ 6)).toNat
    let digits := (Nat.toDigits 10 (10 ^ 6 + millionths % 10 ^ 6)).tail
    sign ++ Nat.repr (millionths / 10 ^ 6) ++ "." ++ String.ofList digits

/-- The order in which `cache_namespace` sorts. -/
def PairLe (a b : String × Kv.F32) : Prop :=
  a.1 < b.1 ∨ a.1 = b.1 ∧ totalKey a.2 ≤ totalKey b.2

instance : DecidableRel PairLe := fun _ _ => inferInstanceAs (Decidable (_ ∨ _))

/-- `cache_namespace`. -/
def cacheNamespace (modelId : String) (loraSelection : List (String × Kv.F32)) : String :=
  (loraSelection.insertionSort PairLe).foldl
    (fun key pair => key ++ "|" ++ pair.1 ++ ":" ++ formatScale pair.2) modelId

/-! ### The engine -/

/-- `ForwardPass`, as far as the worker uses it: the model `M` is the weights with the adapters
that are attached to them. -/
structure ForwardPass (M A : Type) where
  applyLoraStack : List (A × Kv.F32) → M → Except String Unit × M
  unapplyAllLoras : M → M
  forward : M → TokenPass

/-- The engine and what it shares with the rest of the server. -/
structure LoraWorker (M A : Type) where
  kv : KvCache
  model : M
  loraStack : List (A × Kv.F32)
  /-- The registry of adapters, and whether its lock is poisoned. -/
  loras : AList fun _ : String => A
  poisoned : Bool
  prefixRegistry : PrefixCacheRegistry

/-- A request that generates: `Generate` or `GenerateStream`. -/
structure LoraRequest where
  request : Request
  loraSelection : List (String × Kv.F32)
  /-- The forward pass panics. -/
  panics : Bool
  /-- The clock, where the cache of the namespace is made. -/
  made : Instant

/-- What a hit hands to the engine, and the model it works with. -/
structure Hit (M : Type) where
  tokens : List Token
  cached : CachedKvState
  model : M

namespace LoraWorker

variable {M A : Type}

/-- `unapply_all_loras`. -/
def unapplyAllLoras (fp : ForwardPass M A) (s : LoraWorker M A) : LoraWorker M A :=
  { s with loraStack := [], model := fp.unapplyAllLoras s.model }

/-- `apply_lora_selection`: unknown names are skipped, and a failure leaves no adapter. -/
def applyLoraSelection (fp : ForwardPass M A) (loraSelection : List (String × Kv.F32))
    (s : LoraWorker M A) : LoraWorker M A × ℕ :=
  if loraSelection = [] then (s, 0)
  else if s.poisoned then (s, 0)
  else
    let found := loraSelection.filterMap fun (name, scale) =>
      (s.loras.lookup name).map fun lora => (lora, scale)
    let s := { s with loraStack := s.loraStack ++ found }
    if found = [] then (s, 0)
    else
      match fp.applyLoraStack s.loraStack s.model with
      | (.error _, model) => (({ s with model } : LoraWorker M A).unapplyAllLoras fp, 0)
      | (.ok (), model) => ({ s with model }, found.length)

/-- What the lookup of `try_prefix_cache_hit` hands out. -/
def hitOf (request : Request) (cache : PrefixKvCache) : Option (List Token × CachedKvState) :=
  if request.tokens = [] then none
  else
    match (cache.lookup request.tokens request.lookupNow).2 with
    | none => none
    | some (matchLen, cached) =>
      if min matchLen (request.tokens.length - 1) = 0 then none
      else some (request.tokens.take matchLen, cached)

/-- `run_generate`.  A panic comes before anything is stored, and the reset after it clears the
cache of the engine. -/
def runGenerate (half : Half) (pass : TokenPass) (chunkSize : ℕ) (r : LoraRequest) (w : Worker) :
    Option Worker :=
  if r.panics then
    some {
      kv := w.kv.clear
      prefixes :=
        if r.request.cachePrompt && !r.request.tokens.isEmpty then
          (w.prefixes.lookup r.request.tokens r.request.lookupNow).1
        else w.prefixes }
  else w.runGenerate half pass chunkSize r.request

/-- What a request does to the prefix cache of its namespace; it answers the cache of the engine
that it leaves, and the hit. -/
def onCache (half : Half) (pass : TokenPass) (chunkSize : ℕ) (r : LoraRequest) (kv : KvCache)
    (cache : PrefixKvCache) :
    Option (KvCache × Option (List Token × CachedKvState)) × PrefixKvCache :=
  match runGenerate half pass chunkSize r ⟨kv, cache⟩ with
  | some w => (some (w.kv, hitOf r.request cache), w.prefixes)
  | none => (none, cache)

/-- The generation of a request and the prefix cache of its namespace.  The calls of `with_cache`
for one request follow each other, and so are one. -/
def serve (fp : ForwardPass M A) (half : Half) (chunkSize : ℕ) (ns : String) (r : LoraRequest)
    (s : LoraWorker M A) : Option (LoraWorker M A × Option (Hit M)) :=
  let pass := fp.forward s.model
  if r.request.cachePrompt then
    let (prefixRegistry, result) :=
      s.prefixRegistry.withCache ns r.made (onCache half pass chunkSize r s.kv)
    result.map fun (kv, hit) =>
      ({ s with kv, prefixRegistry }, hit.map fun (tokens, cached) => ⟨tokens, cached, s.model⟩)
  else
    -- the prefix cache is not looked at
    (runGenerate half pass chunkSize r ⟨s.kv, .new s.prefixRegistry.config r.made⟩).map
      fun w => ({ s with kv := w.kv }, none)

/-- `process_one_request` of a request that generates, inside `catch_unwind`: after a panic the
adapters stay. -/
def generate (fp : ForwardPass M A) (half : Half) (chunkSize : ℕ) (modelId : String)
    (r : LoraRequest) (s : LoraWorker M A) : Option (LoraWorker M A × Option (Hit M)) :=
  let ns := cacheNamespace modelId r.loraSelection
  let (s, loraCount) := s.applyLoraSelection fp r.loraSelection
  (s.serve fp half chunkSize ns r).map fun (s, hit) =>
    (if loraCount > 0 && !r.panics then s.unapplyAllLoras fp else s, hit)

/-- What happens: a request that generates, any other call on the cache of the engine, and the
requests to `/admin/loras`. -/
inductive Event (A : Type)
  | generate (r : LoraRequest)
  | call (call : KvCache.Call)
  | registerLora (name : String) (lora : A)
  | unregisterLora (name : String)
  | poison

/-- One event: `none` is a panic of the storing of rows. -/
def step (fp : ForwardPass M A) (half : Half) (chunkSize : ℕ) (modelId : String)
    (s : LoraWorker M A) : Event A → Option (LoraWorker M A × Option (Hit M))
  | .generate r => s.generate fp half chunkSize modelId r
  | .call call => (s.kv.step half call).map fun r => ({ s with kv := r.1 }, none)
  | .registerLora name lora =>
    some (if name = "" || s.poisoned then s else { s with loras := s.loras.insert name lora }, none)
  | .unregisterLora name =>
    some (if s.poisoned then s else { s with loras := s.loras.erase name }, none)
  | .poison => some ({ s with poisoned := true }, none)

/-- A worker that has served nothing. -/
def start (g : Geometry) (config : PrefixCacheConfig) (maxNamespaces : ℕ) (model : M) :
    LoraWorker M A where
  kv := .withDtype g.numLayers g.maxSeqLen g.kvDim g.dtype
  model
  loraStack := []
  loras := ∅
  poisoned := false
  prefixRegistry := .new config maxNamespaces

end LoraWorker

end Server

end Oxillama
