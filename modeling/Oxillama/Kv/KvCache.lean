/-
The contiguous key-value cache
(`oxillama-runtime/src/kv_cache/mod.rs`, `KvCache`).

Three counters govern what a reader sees of the per-layer buffers: `seqLen`
tokens are committed, `storedLen` positions are visible, and the buffers are
backed for `capacityTokens` positions.  Buffers only grow and are never zeroed.

A call answers `none` where it panics, and otherwise the state with the
`ArchResult` or `RuntimeResult` of the source.  The sizes of buffers do not
wrap.
-/
import Oxillama.Kv.Storage

namespace Oxillama

namespace Kv

/-- `RuntimeError`, the part of it that restoring raises. -/
inductive RuntimeError
  | kvCacheFull (maxCtx : ℕ)
  | snapshotIncompatible (detail : String)
  deriving DecidableEq, Repr

/-- `RuntimeResult`. -/
abbrev RuntimeResult (α : Type) := Except RuntimeError α

/-- `KvCacheSnapshot`. -/
structure KvCacheSnapshot where
  keys : List (List F32)
  values : List (List F32)
  seqLen : ℕ
  deriving DecidableEq, Repr

/-- `KvStatePayload`. -/
structure KvStatePayload where
  keys : List (List F32)
  values : List (List F32)
  seqLen : ℕ
  numLayers : ℕ
  maxSeqLen : ℕ
  kvDim : ℕ
  deriving DecidableEq, Repr

/-- `KvCache`. -/
structure KvCache where
  keys : List LayerBuf
  values : List LayerBuf
  /-- Number of committed tokens. -/
  seqLen : ℕ
  /-- Number of positions that have had data written. -/
  storedLen : ℕ
  /-- Number of positions the buffers are backed for. -/
  capacityTokens : ℕ
  blockTokens : ℕ
  maxSeqLen : ℕ
  kvDim : ℕ
  numLayers : ℕ
  dtype : KvCacheDtype
  deriving DecidableEq, Repr

/-! ### Errors -/

/-- The error of a layer index past the last layer. -/
def layerOutOfRange (layer numLayers : ℕ) : ArchError :=
  .forwardPassError layer s!"layer index {layer} out of range (max {numLayers})"

/-- The error of `store_kv` at the maximum context length. -/
def kvCacheFullAt (layer seqLen maxSeqLen : ℕ) : ArchError :=
  .forwardPassError layer
    s!"KV cache full: position {seqLen} reaches the maximum context length {maxSeqLen}"

/-- The error of `store_kv` on a key or value that is too short. -/
def shortRow (layer keyLen valueLen kvDim : ℕ) : ArchError :=
  .forwardPassError layer
    s!"store_kv received a {keyLen}-element key and a {valueLen}-element value, but kv_dim is {kvDim}"

/-- `dtype_borrow_error`. -/
def dtypeBorrowError (layer : ℕ) (dtype : KvCacheDtype) (accessor what : String) : ArchError :=
  let stored := dtype.asStr
  let singular := if what = "keys" then "key" else "value"
  .forwardPassError layer
    (s!"KV cache stores {what} as {stored} — `{accessor}()` can only borrow `&[f32]` from f32 " ++
      s!"storage; use `for_each_{singular}()` or `copy_{what}_into(&mut buf)` instead")

/-- The error of a snapshot with too few layers. -/
def tooFewLayers (keyLayers valueLayers numLayers : ℕ) : RuntimeError :=
  .snapshotIncompatible
    s!"snapshot has {keyLayers} key / {valueLayers} value layers, cache has {numLayers}"

/-- The error of a snapshot whose layer `layer` is too short. -/
def shortLayer (layer keyLen valueLen seqLen kvDim copyLen : ℕ) : RuntimeError :=
  .snapshotIncompatible
    (s!"layer {layer} of the snapshot holds {keyLen} key / {valueLen} value floats but " ++
      s!"restoring {seqLen} tokens at kv_dim {kvDim} needs {copyLen}")

/-- The error of a payload made for another number of layers. -/
def layerCountMismatch (snapshotLayers cacheLayers : ℕ) : RuntimeError :=
  .snapshotIncompatible
    s!"layer count mismatch: snapshot has {snapshotLayers}, cache has {cacheLayers}"

/-- The error of a payload made for another row width. -/
def kvDimMismatch (snapshotDim cacheDim : ℕ) : RuntimeError :=
  .snapshotIncompatible s!"kv_dim mismatch: snapshot has {snapshotDim}, cache has {cacheDim}"

namespace KvCache

/-! ### Construction and growth -/

/-- `KvCache::with_dtype`. -/
def withDtype (numLayers maxSeqLen kvDim : ℕ) (dtype : KvCacheDtype) : KvCache where
  keys := List.replicate numLayers (.new dtype)
  values := List.replicate numLayers (.new dtype)
  seqLen := 0
  storedLen := 0
  capacityTokens := 0
  blockTokens := max 1 (min defaultBlockTokens (max maxSeqLen 1))
  maxSeqLen := maxSeqLen
  kvDim := kvDim
  numLayers := numLayers
  dtype := dtype

/-- `KvCache::new`. -/
def new (numLayers maxSeqLen kvDim : ℕ) : KvCache := withDtype numLayers maxSeqLen kvDim .f32

/-- The capacity `ensure_capacity` grows to. -/
def growTarget (tokens : ℕ) (cache : KvCache) : ℕ :=
  let blocks := (tokens + cache.blockTokens - 1) / cache.blockTokens
  max (min (blocks * cache.blockTokens) cache.maxSeqLen) tokens

/-- `KvCache::ensure_capacity`. -/
def ensureCapacity (tokens : ℕ) (cache : KvCache) : KvCache :=
  if tokens ≤ cache.capacityTokens then cache
  else
    let target := cache.growTarget tokens
    { cache with
      keys := cache.keys.map (.growTo (target * cache.kvDim))
      values := cache.values.map (.growTo (target * cache.kvDim))
      capacityTokens := target }

/-! ### Resets -/

/-- `KvCache::clear`. -/
def clear (cache : KvCache) : KvCache := { cache with seqLen := 0, storedLen := 0 }

/-- `KvCache::clear_and_release`. -/
def clearAndRelease (cache : KvCache) : KvCache :=
  { cache with
    seqLen := 0
    storedLen := 0
    capacityTokens := 0
    keys := cache.keys.map fun _ => .new cache.dtype
    values := cache.values.map fun _ => .new cache.dtype }

/-- `KvCache::truncate`. -/
def truncate (n : ℕ) (cache : KvCache) : KvCache :=
  let n := min n cache.seqLen
  { cache with seqLen := n, storedLen := n }

/-- `KvCache::advance`. -/
def advance (cache : KvCache) : KvCache :=
  if cache.seqLen < cache.maxSeqLen then
    { cache with
      seqLen := cache.seqLen + 1
      storedLen := max cache.storedLen (cache.seqLen + 1) }
  else cache

/-! ### Writing -/

/-- `bufs[layer].write_at(offset, src)`. -/
def writeLayer (half : Half) (layer offset : ℕ) (src : List F32) (bufs : List LayerBuf) :
    Option (List LayerBuf) := do
  let buf ← bufs[layer]?
  let buf ← buf.writeAt half offset src
  some (bufs.set layer buf)

/-- `KvCache::store_kv`. -/
def storeKv (half : Half) (layer : ℕ) (key value : List F32) (cache : KvCache) :
    Option (KvCache × ArchResult Unit) :=
  if cache.numLayers ≤ layer then
    some (cache, .error (layerOutOfRange layer cache.numLayers))
  else if cache.maxSeqLen ≤ cache.seqLen then
    some (cache, .error (kvCacheFullAt layer cache.seqLen cache.maxSeqLen))
  else if key.length < cache.kvDim ∨ value.length < cache.kvDim then
    some (cache, .error (shortRow layer key.length value.length cache.kvDim))
  else do
    let grown := cache.ensureCapacity (cache.seqLen + 1)
    let offset := cache.seqLen * cache.kvDim
    let keys ← writeLayer half layer offset (key.take cache.kvDim) grown.keys
    let values ← writeLayer half layer offset (value.take cache.kvDim) grown.values
    some ({ grown with
      keys := keys
      values := values
      storedLen := max cache.storedLen (cache.seqLen + 1) }, .ok ())

/-- The copying loop of `restore_from_snapshot`, for the key or the value buffers. -/
def writeLayers (half : Half) (copyLen : ℕ) :
    List LayerBuf → List (List F32) → Option (List LayerBuf)
  | buf :: bufs, src :: srcs => do
    let buf ← buf.writeAt half 0 (src.take copyLen)
    let bufs ← writeLayers half copyLen bufs srcs
    some (buf :: bufs)
  | bufs, _ => some bufs

/-- A layer of the snapshot carries fewer than `copyLen` floats. -/
def layerIsShort (keys values : List (List F32)) (copyLen layer : ℕ) : Bool :=
  (keys.getD layer []).length < copyLen || (values.getD layer []).length < copyLen

/-- `KvCache::restore_from_snapshot`. -/
def restoreFromSnapshot (half : Half) (keys values : List (List F32)) (seqLen : ℕ)
    (cache : KvCache) : Option (KvCache × RuntimeResult Unit) :=
  if cache.maxSeqLen < seqLen then some (cache, .error (.kvCacheFull cache.maxSeqLen))
  else if keys.length < cache.numLayers ∨ values.length < cache.numLayers then
    some (cache, .error (tooFewLayers keys.length values.length cache.numLayers))
  else
    let copyLen := seqLen * cache.kvDim
    match (List.range cache.numLayers).find? (layerIsShort keys values copyLen) with
    | some layer =>
      some (cache, .error (shortLayer layer (keys.getD layer []).length
        (values.getD layer []).length seqLen cache.kvDim copyLen))
    | none => do
      let grown := cache.ensureCapacity seqLen
      let keyBufs ← writeLayers half copyLen grown.keys keys
      let valueBufs ← writeLayers half copyLen grown.values values
      some ({ grown with
        keys := keyBufs
        values := valueBufs
        seqLen := seqLen
        storedLen := seqLen }, .ok ())

/-- `KvCache::restore_from_payload`. -/
def restoreFromPayload (half : Half) (payload : KvStatePayload) (cache : KvCache) :
    Option (KvCache × RuntimeResult Unit) :=
  if payload.numLayers ≠ cache.numLayers then
    some (cache, .error (layerCountMismatch payload.numLayers cache.numLayers))
  else if payload.kvDim ≠ cache.kvDim then
    some (cache, .error (kvDimMismatch payload.kvDim cache.kvDim))
  else cache.restoreFromSnapshot half payload.keys payload.values payload.seqLen

/-! ### Reading -/

/-- `KvCache::snapshot_truncated`. -/
def snapshotTruncated (half : Half) (n : ℕ) (cache : KvCache) : KvCacheSnapshot where
  keys := cache.keys.map (LayerBuf.toF32PrefixVec half (min n cache.seqLen * cache.kvDim))
  values := cache.values.map (LayerBuf.toF32PrefixVec half (min n cache.seqLen * cache.kvDim))
  seqLen := min n cache.seqLen

/-- The body of `get_keys` and `get_values` over the buffers they read. -/
def getRows (accessor what : String) (bufs : List LayerBuf) (layer : ℕ) (cache : KvCache) :
    Option (ArchResult (List F32)) :=
  if cache.numLayers ≤ layer then some (.error (layerOutOfRange layer cache.numLayers))
  else do
    let buf ← bufs[layer]?
    match buf.asF32Prefix (cache.storedLen * cache.kvDim) with
    | some slice => some (.ok slice)
    | none => some (.error (dtypeBorrowError layer cache.dtype accessor what))

/-- `KvCache::get_keys`. -/
def getKeys (layer : ℕ) (cache : KvCache) : Option (ArchResult (List F32)) :=
  cache.getRows "get_keys" "keys" cache.keys layer

/-- `KvCache::get_values`. -/
def getValues (layer : ℕ) (cache : KvCache) : Option (ArchResult (List F32)) :=
  cache.getRows "get_values" "values" cache.values layer

/-- The body of `copy_keys_into` and `copy_values_into`: what the destination
holds afterwards. -/
def copyInto (half : Half) (bufs : List LayerBuf) (layer : ℕ) (cache : KvCache) :
    Option (ArchResult (List F32)) :=
  if cache.numLayers ≤ layer then some (.error (layerOutOfRange layer cache.numLayers))
  else do
    let buf ← bufs[layer]?
    some (.ok (buf.toF32PrefixVec half (cache.storedLen * cache.kvDim)))

/-- `KvCache::copy_keys_into`. -/
def copyKeysInto (half : Half) (layer : ℕ) (cache : KvCache) : Option (ArchResult (List F32)) :=
  cache.copyInto half cache.keys layer

/-- `KvCache::copy_values_into`. -/
def copyValuesInto (half : Half) (layer : ℕ) (cache : KvCache) : Option (ArchResult (List F32)) :=
  cache.copyInto half cache.values layer

/-- `KvCache::for_each_row` over the buffers it reads. -/
def forEachRow (half : Half) (bufs : List LayerBuf) (layer : ℕ) (cache : KvCache) :
    Option (ArchResult Visits) :=
  if cache.numLayers ≤ layer then some (.error (layerOutOfRange layer cache.numLayers))
  else if cache.kvDim = 0 then some (.ok [])
  else do
    let buf ← bufs[layer]?
    match buf.asF32Prefix (cache.storedLen * cache.kvDim) with
    | some all => some (.ok (rowsOf cache.kvDim all))
    | none =>
      let visits ← (List.range cache.storedLen).mapM fun pos =>
        (buf.readRow half (pos * cache.kvDim) cache.kvDim).map fun row => (pos, row)
      some (.ok visits)

/-- `KvCache::for_each_key`. -/
def forEachKey (half : Half) (layer : ℕ) (cache : KvCache) : Option (ArchResult Visits) :=
  cache.forEachRow half cache.keys layer

/-- `KvCache::for_each_value`. -/
def forEachValue (half : Half) (layer : ℕ) (cache : KvCache) : Option (ArchResult Visits) :=
  cache.forEachRow half cache.values layer

/-- `KvCache` as a `dyn KvCacheAccess`. -/
def access (half : Half) (cache : KvCache) : KvCacheAccess where
  seqLen := cache.seqLen
  kvDim := cache.kvDim
  getKeys layer := cache.getKeys layer
  getValues layer := cache.getValues layer
  forEachKey layer := cache.forEachKey half layer
  forEachValue layer := cache.forEachValue half layer

/-! ### Calls -/

/-- A call that changes the cache. -/
inductive Call
  | storeKv (layer : ℕ) (key value : List F32)
  | advance
  | truncate (n : ℕ)
  | clear
  | clearAndRelease
  | restoreFromSnapshot (keys values : List (List F32)) (seqLen : ℕ)
  | restoreFromPayload (payload : KvStatePayload)
  deriving DecidableEq

/-- What a call answers. -/
inductive Answer
  | stored (result : ArchResult Unit)
  | restored (result : RuntimeResult Unit)
  | done

/-- One call: `none` is a panic. -/
def step (half : Half) (cache : KvCache) : Call → Option (KvCache × Answer)
  | .storeKv layer key value => (cache.storeKv half layer key value).map fun r => (r.1, .stored r.2)
  | .advance => some (cache.advance, .done)
  | .truncate n => some (cache.truncate n, .done)
  | .clear => some (cache.clear, .done)
  | .clearAndRelease => some (cache.clearAndRelease, .done)
  | .restoreFromSnapshot keys values seqLen =>
    (cache.restoreFromSnapshot half keys values seqLen).map fun r => (r.1, .restored r.2)
  | .restoreFromPayload payload =>
    (cache.restoreFromPayload half payload).map fun r => (r.1, .restored r.2)

end KvCache

end Kv

end Oxillama
