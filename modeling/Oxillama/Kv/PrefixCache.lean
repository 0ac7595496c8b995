/-
The prefix cache (`oxillama-runtime/src/kv_cache/prefix.rs`, `PrefixKvCache`).

`PrefixKvCache` keeps a radix tree of snapshots together with a running count of
its entries and of their bytes, and evicts the least recently used entries
until both are within the configured limits.  `step` runs one call; it answers
`none` where the call panics, which is where the key-value cache handed to
`store` panics or the byte counter overflows.
-/
import Oxillama.Kv.RadixNode
import Oxillama.Lib.Usize

namespace Oxillama

namespace Kv

/-- `PrefixCacheConfig`. -/
structure PrefixCacheConfig where
  maxEntries : ℕ
  maxMemoryBytes : ℕ
  minPrefixLen : ℕ
  deriving DecidableEq, Repr

/-- `PrefixCacheConfig::default`. -/
def PrefixCacheConfig.default : PrefixCacheConfig where
  maxEntries := 256
  maxMemoryBytes := 512 * 1024 * 1024
  minPrefixLen := 4

/-- `PrefixKvCache`. -/
structure PrefixKvCache where
  root : RadixNode
  config : PrefixCacheConfig
  hitCount : ℕ
  missCount : ℕ
  entryCount : ℕ
  memoryBytes : ℕ

/-- What the environment decides in a call that stores: the reading of the
clock, and the order in which maps of children are listed. -/
structure StoreEnv where
  now : Instant
  order : IterOrder

namespace PrefixKvCache

/-- `PrefixKvCache::new`. -/
def new (config : PrefixCacheConfig) (now : Instant) : PrefixKvCache where
  root := .new [] now
  config := config
  hitCount := 0
  missCount := 0
  entryCount := 0
  memoryBytes := 0

/-- `PrefixKvCache::lookup`. -/
def lookup (tokens : List Token) (now : ℕ → Instant) (cache : PrefixKvCache) :
    PrefixKvCache × Option (ℕ × CachedKvState) :=
  if tokens = [] then
    ({ cache with missCount := cache.missCount + 1 }, none)
  else
    let r := cache.root.lookup now tokens 0
    match r.2 with
    | some (matched, kv) =>
      if cache.config.minPrefixLen ≤ matched then
        ({ cache with root := r.1, hitCount := cache.hitCount + 1 }, some (matched, kv))
      else
        ({ cache with root := r.1, missCount := cache.missCount + 1 }, none)
    | none => ({ cache with root := r.1, missCount := cache.missCount + 1 }, none)

/-- The condition of the loop of `evict_lru`. -/
def OverLimit (cache : PrefixKvCache) : Prop :=
  cache.config.maxEntries < cache.entryCount ∨ cache.config.maxMemoryBytes < cache.memoryBytes

instance (cache : PrefixKvCache) : Decidable cache.OverLimit :=
  inferInstanceAs (Decidable (_ ∨ _))

/-- `PrefixKvCache::evict_lru`, at most `fuel` tests of the loop condition:
`none` where they do not suffice. -/
def evictLru (env : StoreEnv) : ℕ → PrefixKvCache → Option PrefixKvCache
  | 0, _ => none
  | fuel + 1, cache =>
    if cache.OverLimit then
      match cache.root.evictLruOne env.order env.now with
      | (root, some freed) =>
        evictLru env fuel { cache with
          root := root
          entryCount := cache.entryCount - 1
          memoryBytes := cache.memoryBytes - freed }
      -- no evictable entry left
      | (root, none) => some { cache with root := root }
    else some cache

/-- The tree and the counters of `insert_entry` before it evicts. -/
def insertEntryCounted (tokens : List Token) (snapshot : CachedKvState) (now : Instant)
    (cache : PrefixKvCache) : Option PrefixKvCache := do
  let added := snapshot.memoryBytes
  let r := cache.root.insert tokens snapshot now
  let bytes ← checkedAdd cache.memoryBytes added
  match r.2 with
  | some replaced =>
    let bytes ← usizeSub bytes replaced.memoryBytes
    some { cache with root := r.1, memoryBytes := bytes }
  | none =>
    some { cache with root := r.1, entryCount := cache.entryCount + 1, memoryBytes := bytes }

/-- `PrefixKvCache::insert_entry`.  Every round of the eviction loop but the
last removes an entry of the tree, which bounds the fuel. -/
def insertEntry (tokens : List Token) (snapshot : CachedKvState) (env : StoreEnv)
    (cache : PrefixKvCache) : Option PrefixKvCache := do
  let cache ← cache.insertEntryCounted tokens snapshot env.now
  cache.evictLru env (cache.root.countEntries + 1)

/-- The loop of `store` over the layers: the first `needed` floats of every
layer, or `some none` where a layer is unreadable or too short. -/
def snapshotLayers (kvCache : KvCacheAccess) (needed : ℕ) :
    List ℕ → Option (Option (List (List F32) × List (List F32)))
  | [] => some (some ([], []))
  | layer :: layers => do
    match ← fetchKeys kvCache layer, ← fetchValues kvCache layer with
    | .ok k, .ok v =>
      if k.length < needed ∨ v.length < needed then some none
      else
        match ← snapshotLayers kvCache needed layers with
        | none => some none
        | some (keys, values) => some (some (k.take needed :: keys, v.take needed :: values))
    | _, _ => some none

/-- `PrefixKvCache::store`. -/
def store (tokens : List Token) (kvCache : KvCacheAccess) (seqLen kvDim numLayers : ℕ)
    (env : StoreEnv) (cache : PrefixKvCache) : Option (PrefixKvCache × Bool) :=
  if tokens.length < cache.config.minPrefixLen then some (cache, false)
  else if seqLen < tokens.length then some (cache, false)
  else do
    match ← snapshotLayers kvCache (tokens.length * kvDim) (List.range numLayers) with
    | none => some (cache, false)
    | some (keys, values) =>
      let cache ← cache.insertEntry tokens (.new keys values tokens.length) env
      some (cache, true)

/-- `PrefixKvCache::store_snapshot`. -/
def storeSnapshot (tokens : List Token) (snapshot : CachedKvState) (env : StoreEnv)
    (cache : PrefixKvCache) : Option (PrefixKvCache × Bool) :=
  if tokens.length < cache.config.minPrefixLen then some (cache, false)
  else if snapshot.seqLen ≠ tokens.length then some (cache, false)
  else do
    let cache ← cache.insertEntry tokens snapshot env
    some (cache, true)

/-- `PrefixKvCache::clear`. -/
def clear (cache : PrefixKvCache) : PrefixKvCache :=
  { cache with
    root := cache.root.clearAll
    hitCount := 0
    missCount := 0
    entryCount := 0
    memoryBytes := 0 }

/-! ### Calls -/

/-- A call, with what the environment decides in it. -/
inductive Call
  | store (tokens : List Token) (kvCache : KvCacheAccess) (seqLen kvDim numLayers : ℕ)
    (env : StoreEnv)
  | storeSnapshot (tokens : List Token) (snapshot : CachedKvState) (env : StoreEnv)
  | lookup (tokens : List Token) (now : ℕ → Instant)
  | clear

/-- What a call answers. -/
inductive Answer
  | stored (done : Bool)
  | found (hit : Option (ℕ × CachedKvState))
  | cleared
  deriving DecidableEq

/-- One call: `none` is a panic. -/
def step (cache : PrefixKvCache) : Call → Option (PrefixKvCache × Answer)
  | .store tokens kvCache seqLen kvDim numLayers env =>
    (cache.store tokens kvCache seqLen kvDim numLayers env).map fun r => (r.1, .stored r.2)
  | .storeSnapshot tokens snapshot env =>
    (cache.storeSnapshot tokens snapshot env).map fun r => (r.1, .stored r.2)
  | .lookup tokens now =>
    let r := cache.lookup tokens now
    some (r.1, .found r.2)
  | .clear => some (cache.clear, .cleared)

end PrefixKvCache

end Kv

end Oxillama
