/-
The two stores of the server that keep a bounded number of keys: the per-key rate limiter
(`oxillama-server/src/rate_limit.rs`) and the registry of prefix caches
(`oxillama-server/src/prefix_registry.rs`).

Each call of either is a visit of a `BoundedStore`.  The limiter keeps a hash of the key in
its map and the sixteen hexadecimal digits of the hash in its LRU queue; the registry keeps
the name of the namespace in both.

* `PerKeyRateLimiter.checkKey_visit`, `PrefixCacheRegistry.withCache_visit` — the code does
  what a visit does;
* `bounded_key_stores` — **both stores stay bounded**, their queues list exactly the keys of
  their maps, and a new key evicts exactly the least recently touched one.

Each call is taken as a whole, and a lock that a panic has poisoned is entered all the same.
-/
import Oxillama.Kv.PrefixCache
import Oxillama.Lib.BoundedStore
import Oxillama.Lib.Bytes
import Oxillama.Lib.Run
import Oxillama.Server.LruQueue

namespace Oxillama

namespace Server

open Kv (PrefixCacheConfig PrefixKvCache Instant)

/-! ### The per-key rate limiter -/

/-- `TokenBucket`. -/
structure TokenBucket where
  tokens : Float
  capacity : Float
  rate : Float
  lastRefill : Instant

namespace TokenBucket

/-- `TokenBucket::new`. -/
def new (capacity rate : Float) (now : Instant) : TokenBucket where
  tokens := capacity
  capacity
  rate
  lastRefill := now

/-- `f64::min`, which prefers a number. -/
def f64Min (a b : Float) : Float :=
  if a.isNaN then b else if b.isNaN then a else if a ≤ b then a else b

/-- `TokenBucket::refill`; the clock counts nanoseconds. -/
def refill (now : Instant) (bucket : TokenBucket) : TokenBucket :=
  let nanos := now - bucket.lastRefill
  let elapsed := Float.ofNat (nanos / 10 ^ 9) + Float.ofNat (nanos % 10 ^ 9) / Float.ofNat (10 ^ 9)
  { bucket with
    tokens := f64Min (bucket.tokens + elapsed * bucket.rate) bucket.capacity
    lastRefill := now }

/-- `TokenBucket::try_acquire`. -/
def tryAcquire (now : Instant) (bucket : TokenBucket) : TokenBucket × Except Float Unit :=
  let bucket := bucket.refill now
  if 1.0 ≤ bucket.tokens then ({ bucket with tokens := bucket.tokens - 1.0 }, .ok ())
  else
    let deficit := 1.0 - bucket.tokens
    (bucket, .error (deficit / bucket.rate))

end TokenBucket

/-- `MAX_RATE_LIMIT_KEY_LEN`. -/
def maxRateLimitKeyLen : ℕ := 256

/-- `lru_key`: `format!("{hash:016x}")`. -/
def lruKey (hash : UInt64) : String := String.ofList (hexDigits 16 hash.toNat)

/-- `u64::from_str_radix(s, 16)`. -/
def fromStrRadix16 (s : String) : Option UInt64 :=
  let digits :=
    match s.toList with
    | '+' :: digits => digits
    | digits => digits
  if digits.isEmpty then none else (readHex digits).map UInt64.ofNat

/-- `PerKeyRateLimiter`. -/
structure PerKeyRateLimiter where
  buckets : AList fun _ : UInt64 => TokenBucket
  lru : LruQueue
  maxEntries : ℕ
  defaultCapacity : Float
  defaultRate : Float
  overrides : AList fun _ : String => Float × Float

namespace PerKeyRateLimiter

/-- `PerKeyRateLimiter::with_max_entries`, and `with_overrides` on it. -/
def withMaxEntries (defaultCapacity defaultRate : Float) (maxEntries : ℕ)
    (overrides : AList fun _ : String => Float × Float) : PerKeyRateLimiter :=
  let maxEntries := max maxEntries 1
  { buckets := ∅
    lru := .withCapacity maxEntries
    maxEntries
    defaultCapacity
    defaultRate
    overrides }

/-- `touch_lru`. -/
def touchLru (hash : UInt64) (limiter : PerKeyRateLimiter) : PerKeyRateLimiter :=
  { limiter with lru := limiter.lru.touch (lruKey hash) }

/-- `touch_lru_and_evict_if_full`. -/
def touchLruAndEvictIfFull (hash : UInt64) (limiter : PerKeyRateLimiter) : PerKeyRateLimiter :=
  let lru := limiter.lru.touch (lruKey hash)
  if limiter.maxEntries < lru.len then
    match lru.evictLru with
    | (none, lru) => { limiter with lru }
    | (some evicted, lru) =>
      match fromStrRadix16 evicted with
      | none => { limiter with lru }
      | some evictedHash =>
        { limiter with
          lru
          buckets :=
            if evictedHash ≠ hash then limiter.buckets.erase evictedHash else limiter.buckets }
  else { limiter with lru }

/-- `check_key`.  `hashKey` is `DefaultHasher`; `made` is what the clock says when a bucket is
made, and `now` what it says at the `try_acquire`. -/
def checkKey (hashKey : String → UInt64) (key : String) (made now : Instant)
    (limiter : PerKeyRateLimiter) : PerKeyRateLimiter × Bool :=
  if maxRateLimitKeyLen < key.utf8ByteSize then (limiter, true)
  else
    let hash := hashKey key
    match limiter.buckets.lookup hash with
    | some bucket =>
      let (bucket, allowed) := bucket.tryAcquire now
      let limiter := { limiter with buckets := limiter.buckets.insert hash bucket }
      (limiter.touchLru hash, allowed.isOk)
    | none =>
      let (capacity, rate) :=
        (limiter.overrides.lookup key).getD (limiter.defaultCapacity, limiter.defaultRate)
      let limiter :=
        if hash ∉ limiter.buckets then limiter.touchLruAndEvictIfFull hash else limiter
      let bucket := (limiter.buckets.lookup hash).getD (.new capacity rate made)
      let (bucket, allowed) := bucket.tryAcquire now
      ({ limiter with buckets := limiter.buckets.insert hash bucket }, allowed.isOk)

/-- One call: the key, and the two readings of the clock. -/
def step (hashKey : String → UInt64) (limiter : PerKeyRateLimiter)
    (call : String × Instant × Instant) : Option (PerKeyRateLimiter × Bool) :=
  some (limiter.checkKey hashKey call.1 call.2.1 call.2.2)

/-- The hash a call touches: none, where the key is too long to be tracked. -/
def touches (hashKey : String → UInt64) (key : String) : Option UInt64 :=
  if maxRateLimitKeyLen < key.utf8ByteSize then none else some (hashKey key)

end PerKeyRateLimiter

/-! ### The registry of prefix caches -/

/-- `RegistryInner`. -/
structure RegistryInner where
  caches : AList fun _ : String => PrefixKvCache
  lru : LruQueue

/-- `PrefixCacheRegistry`. -/
structure PrefixCacheRegistry where
  inner : RegistryInner
  config : PrefixCacheConfig
  maxNamespaces : ℕ

namespace PrefixCacheRegistry

/-- `PrefixCacheRegistry::new`. -/
def new (config : PrefixCacheConfig) (maxNamespaces : ℕ) : PrefixCacheRegistry :=
  let maxNamespaces := max maxNamespaces 1
  { inner := { caches := ∅, lru := .withCapacity maxNamespaces }
    config
    maxNamespaces }

/-- `with_cache`: `f` works on the cache of the namespace, which is made if there is none. -/
def withCache {R : Type} (ns : String) (made : Instant) (f : PrefixKvCache → R × PrefixKvCache)
    (registry : PrefixCacheRegistry) : PrefixCacheRegistry × R :=
  let inner := { registry.inner with lru := registry.inner.lru.touch ns }
  let inner : RegistryInner :=
    if ns ∉ inner.caches ∧ registry.maxNamespaces < inner.lru.len then
      match inner.lru.evictLru with
      | (none, lru) => { inner with lru }
      | (some evicted, lru) =>
        { lru, caches := if evicted ≠ ns then inner.caches.erase evicted else inner.caches }
    else inner
  let cache := (inner.caches.lookup ns).getD (.new registry.config made)
  let (out, cache) := f cache
  ({ registry with inner := { inner with caches := inner.caches.insert ns cache } }, out)

/-- One call: the namespace, the clock, and what is done to the cache. -/
def step (registry : PrefixCacheRegistry)
    (call : String × Instant × (PrefixKvCache → PrefixKvCache)) :
    Option (PrefixCacheRegistry × Unit) :=
  some (registry.withCache call.1 call.2.1 fun cache => ((), call.2.2 cache))

end PrefixCacheRegistry

/-! ### Both are bounded stores -/

theorem fromStrRadix16_lruKey (hash : UInt64) : fromStrRadix16 (lruKey hash) = some hash := by
  have hlen := length_hexDigits 16 hash.toNat
  have hread := readHex_hexDigits (w := 16) (by norm_num) hash.toNat
  have hlt : hash.toNat < 16 ^ 16 := by
    have := hash.toNat_lt
    omega
  rw [Nat.mod_eq_of_lt hlt] at hread
  -- no digit is a plus sign
  have hplus : ∀ digits, hexDigits 16 hash.toNat ≠ '+' :: digits := by
    intro digits heq
    rw [heq] at hread
    cases hread
  rw [fromStrRadix16, lruKey, String.toList_ofList]
  split
  · rename_i digits heq
    exact absurd heq (hplus digits)
  · rw [if_neg, hread, Option.map_some, UInt64.ofNat_toNat]
    intro hempty
    rw [List.isEmpty_iff.mp hempty] at hlen
    cases hlen

theorem lruKey_injective : Function.Injective lruKey := by
  intro a b h
  have hread := congrArg fromStrRadix16 h
  rwa [fromStrRadix16_lruKey, fromStrRadix16_lruKey, Option.some.injEq] at hread

theorem map_touch {κ κ' : Type} [DecidableEq κ] [DecidableEq κ'] {g : κ → κ'}
    (hg : Function.Injective g) (k : κ) (lru : List κ) :
    (touch k lru).map g = touch (g k) (lru.map g) := by
  rw [touch, touch, List.map_append, List.map_singleton, List.filter_map]
  congr 2
  refine List.filter_congr fun a _ => ?_
  simp [hg.eq_iff]

/-- A visit to a new key. -/
theorem visit_of_new {κ β : Type} [DecidableEq κ] {max : ℕ} {k : κ} {s : BoundedStore κ β}
    (hnew : k ∉ s.entries) (init : β) (f : β → β) :
    s.visit max k init f =
      let s₁ : BoundedStore κ β := ⟨s.entries, touch k s.lru⟩
      let s₂ := if max < s₁.lru.length then s₁.evictFront k else s₁
      ⟨s₂.entries.insert k (f ((s₂.entries.lookup k).getD init)), s₂.lru⟩ := by
  simp only [BoundedStore.visit, hnew, not_false_eq_true, true_and]

namespace PerKeyRateLimiter

/-- The limiter keeps the store: the same buckets, and the digits of the hashes in the queue. -/
structure Keeps (limiter : PerKeyRateLimiter) (s : BoundedStore UInt64 TokenBucket) : Prop where
  buckets : limiter.buckets = s.entries
  lru : limiter.lru.inner = s.lru.map lruKey

variable {limiter : PerKeyRateLimiter} {s : BoundedStore UInt64 TokenBucket}

theorem Keeps.inner_touch (h : limiter.Keeps s) (hash : UInt64) :
    (limiter.lru.touch (lruKey hash)).inner = (touch hash s.lru).map lruKey := by
  rw [LruQueue.inner_touch, h.lru, map_touch lruKey_injective]

/-- What is evicted in the queue is evicted in the map. -/
theorem Keeps.touchLruAndEvictIfFull (h : limiter.Keeps s) (hash : UInt64) :
    (limiter.touchLruAndEvictIfFull hash).Keeps
      (if limiter.maxEntries < (touch hash s.lru).length then
        BoundedStore.evictFront hash ⟨s.entries, touch hash s.lru⟩
      else ⟨s.entries, touch hash s.lru⟩) := by
  have hinner := h.inner_touch hash
  have hlen : (limiter.lru.touch (lruKey hash)).len = (touch hash s.lru).length := by
    rw [LruQueue.len, hinner, List.length_map]
  rw [PerKeyRateLimiter.touchLruAndEvictIfFull, hlen]
  by_cases hfull : limiter.maxEntries < (touch hash s.lru).length
  · rw [if_pos hfull, if_pos hfull, BoundedStore.evictFront, LruQueue.evictLru, hinner]
    cases htouch : touch hash s.lru with
    | nil => exact ⟨h.buckets, hinner.trans (by rw [htouch])⟩
    | cons victim rest =>
      simp only [List.map_cons, fromStrRadix16_lruKey]
      refine ⟨?_, rfl⟩
      by_cases heq : victim = hash
      · simp only [heq, ne_eq, not_true_eq_false, if_false, if_true]
        exact h.buckets
      · simp only [heq, ne_eq, not_false_eq_true, if_true, if_false]
        rw [h.buckets]
  · rw [if_neg hfull, if_neg hfull]
    exact ⟨h.buckets, hinner⟩

theorem maxEntries_touchLruAndEvictIfFull (hash : UInt64) (limiter : PerKeyRateLimiter) :
    (limiter.touchLruAndEvictIfFull hash).maxEntries = limiter.maxEntries := by
  rw [PerKeyRateLimiter.touchLruAndEvictIfFull]
  split
  · split
    · rfl
    · split <;> rfl
  · rfl

theorem maxEntries_checkKey (hashKey : String → UInt64) (key : String) (made now : Instant)
    (limiter : PerKeyRateLimiter) :
    (limiter.checkKey hashKey key made now).1.maxEntries = limiter.maxEntries := by
  rw [checkKey]
  by_cases hlen : maxRateLimitKeyLen < key.utf8ByteSize
  · rw [if_pos hlen]
  · rw [if_neg hlen]
    cases hlookup : limiter.buckets.lookup (hashKey key) with
    | some bucket =>
      dsimp only
      rw [hlookup]
      rfl
    | none =>
      dsimp only
      rw [hlookup, if_pos (AList.lookup_eq_none.mp hlookup)]
      exact maxEntries_touchLruAndEvictIfFull _ _

/-- **A call is a visit** to the hash of its key. -/
theorem Keeps.checkKey_visit (h : limiter.Keeps s) (hashKey : String → UInt64) {key : String}
    (hlen : ¬ maxRateLimitKeyLen < key.utf8ByteSize) (made now : Instant) :
    ∃ init f, (limiter.checkKey hashKey key made now).1.Keeps
      (s.visit limiter.maxEntries (hashKey key) init f) := by
  let rates := (limiter.overrides.lookup key).getD (limiter.defaultCapacity, limiter.defaultRate)
  refine ⟨.new rates.1 rates.2 made, fun bucket => (bucket.tryAcquire now).1, ?_⟩
  rw [checkKey, if_neg hlen]
  dsimp only
  cases hlookup : limiter.buckets.lookup (hashKey key) with
  | some bucket =>
    have hentry : s.entries.lookup (hashKey key) = some bucket := by rw [← h.buckets, hlookup]
    have hmem : hashKey key ∈ s.entries :=
      AList.lookup_isSome.mp (Option.isSome_of_eq_some hentry)
    rw [BoundedStore.visit_of_room _ _ (.inl hmem), hentry, Option.getD_some]
    refine ⟨?_, h.inner_touch (hashKey key)⟩
    show limiter.buckets.insert _ _ = s.entries.insert _ _
    rw [h.buckets]
  | none =>
    have hnew : hashKey key ∉ limiter.buckets := AList.lookup_eq_none.mp hlookup
    have hevict := h.touchLruAndEvictIfFull (hashKey key)
    rw [if_pos hnew, visit_of_new (by rwa [← h.buckets])]
    refine ⟨?_, hevict.lru⟩
    show (limiter.touchLruAndEvictIfFull (hashKey key)).buckets.insert _ _ = _
    rw [hevict.buckets]

end PerKeyRateLimiter

namespace PrefixCacheRegistry

/-- The registry keeps the store. -/
structure Keeps (registry : PrefixCacheRegistry) (s : BoundedStore String PrefixKvCache) :
    Prop where
  caches : registry.inner.caches = s.entries
  lru : registry.inner.lru.inner = s.lru

variable {registry : PrefixCacheRegistry} {s : BoundedStore String PrefixKvCache}

/-- **A call is a visit** to its namespace. -/
theorem Keeps.withCache_visit {R : Type} (h : registry.Keeps s) (ns : String) (made : Instant)
    (f : PrefixKvCache → R × PrefixKvCache) :
    (registry.withCache ns made f).1.Keeps
      (s.visit registry.maxNamespaces ns (.new registry.config made) fun cache => (f cache).2) := by
  have hinner : (registry.inner.lru.touch ns).inner = touch ns s.lru := by
    rw [LruQueue.inner_touch, h.lru]
  have hlen : (registry.inner.lru.touch ns).len = (touch ns s.lru).length := by
    rw [LruQueue.len, hinner]
  rw [withCache, BoundedStore.visit]
  simp only [h.caches, hlen]
  by_cases hfull : ns ∉ s.entries ∧ registry.maxNamespaces < (touch ns s.lru).length
  · rw [if_pos hfull, if_pos hfull, BoundedStore.evictFront, LruQueue.evictLru, hinner]
    cases htouch : touch ns s.lru with
    | nil => exact ⟨rfl, hinner.trans htouch⟩
    | cons victim rest =>
      by_cases heq : victim = ns
      · simp only [heq, ne_eq, not_true_eq_false, if_false, if_true]
        exact ⟨rfl, rfl⟩
      · simp only [heq, ne_eq, not_false_eq_true, if_true, if_false]
        exact ⟨rfl, rfl⟩
  · rw [if_neg hfull, if_neg hfull]
    exact ⟨rfl, hinner⟩

end PrefixCacheRegistry

/-! ### Runs -/

/-- The limiter keeps a store of the hashes that the calls have touched. -/
def PerKeyRateLimiter.Follows (hashKey : String → UInt64) (maxEntries : ℕ)
    (calls : List ((String × Instant × Instant) × Bool)) (limiter : PerKeyRateLimiter) : Prop :=
  limiter.maxEntries = maxEntries ∧
    ∃ s, limiter.Keeps s ∧ s.Inv maxEntries (calls.filterMap fun e => touches hashKey e.1.1)

theorem PerKeyRateLimiter.follows_run {hashKey : String → UInt64} {capacity rate : Float}
    {maxEntries : ℕ} {overrides : AList fun _ : String => Float × Float}
    {limiter : PerKeyRateLimiter} {calls : List ((String × Instant × Instant) × Bool)}
    (hr : Run (step hashKey) (withMaxEntries capacity rate maxEntries overrides) calls limiter) :
    Follows hashKey (max maxEntries 1) calls limiter := by
  have hstart : Follows hashKey (max maxEntries 1) []
      (withMaxEntries capacity rate maxEntries overrides) :=
    ⟨rfl, ⟨∅, []⟩, ⟨rfl, rfl⟩, BoundedStore.inv_empty _⟩
  refine hr.traceInvariant ?_ hstart
  rintro calls limiter ⟨key, made, now⟩ limiter' out ⟨hmax, s, hkeeps, hinv⟩ hs
  obtain rfl : (limiter.checkKey hashKey key made now).1 = limiter' :=
    congrArg Prod.fst (Option.some.inj hs)
  refine ⟨(maxEntries_checkKey _ _ _ _ _).trans hmax, ?_⟩
  rw [List.filterMap_append]
  by_cases hlen : maxRateLimitKeyLen < key.utf8ByteSize
  · refine ⟨s, ?_, ?_⟩
    · rw [checkKey, if_pos hlen]
      exact hkeeps
    · rw [List.filterMap_cons_none (by rw [touches, if_pos hlen]), List.filterMap_nil,
        List.append_nil]
      exact hinv
  · obtain ⟨init, f, hkeeps'⟩ := hkeeps.checkKey_visit hashKey hlen made now
    refine ⟨_, hkeeps', ?_⟩
    rw [List.filterMap_cons_some (by rw [touches, if_neg hlen]), List.filterMap_nil, hmax]
    exact BoundedStore.inv_visit (by omega) hinv _ _ _

/-- The registry keeps a store of the namespaces that the calls have touched. -/
def PrefixCacheRegistry.Follows (maxNamespaces : ℕ)
    (calls : List ((String × Instant × (PrefixKvCache → PrefixKvCache)) × Unit))
    (registry : PrefixCacheRegistry) : Prop :=
  registry.maxNamespaces = maxNamespaces ∧
    ∃ s, registry.Keeps s ∧ s.Inv maxNamespaces (calls.map fun e => e.1.1)

theorem PrefixCacheRegistry.follows_run {config : PrefixCacheConfig} {maxNamespaces : ℕ}
    {registry : PrefixCacheRegistry}
    {calls : List ((String × Instant × (PrefixKvCache → PrefixKvCache)) × Unit)}
    (hr : Run step (new config maxNamespaces) calls registry) :
    Follows (max maxNamespaces 1) calls registry := by
  have hstart : Follows (max maxNamespaces 1) [] (new config maxNamespaces) :=
    ⟨rfl, ⟨∅, []⟩, ⟨rfl, rfl⟩, BoundedStore.inv_empty _⟩
  refine hr.traceInvariant ?_ hstart
  rintro calls registry ⟨ns, made, f⟩ registry' out ⟨hmax, s, hkeeps, hinv⟩ hs
  obtain rfl : (registry.withCache ns made fun cache => ((), f cache)).1 = registry' :=
    congrArg Prod.fst (Option.some.inj hs)
  refine ⟨hmax, _, hkeeps.withCache_visit ns made _, ?_⟩
  rw [List.map_append, hmax]
  exact BoundedStore.inv_visit (by omega) hinv _ _ _

/-- **Both stores stay bounded and LRU.**  After every run of calls the queue lists the keys
of the map, each once, and they are at most the configured maximum, or one where that is 0;
and a call admits its key as `Admits` says: every other key keeps its bucket or cache, except
that a new key in a full store takes the place of the least recently touched one.  A key too
long to be tracked changes nothing. -/
theorem bounded_key_stores {hashKey : String → UInt64} {capacity rate : Float}
    {maxEntries : ℕ} {overrides : AList fun _ : String => Float × Float}
    {limiter : PerKeyRateLimiter} {calls : List ((String × Instant × Instant) × Bool)}
    (hl : Run (PerKeyRateLimiter.step hashKey)
      (.withMaxEntries capacity rate maxEntries overrides) calls limiter)
    {config : PrefixCacheConfig} {maxNamespaces : ℕ} {registry : PrefixCacheRegistry}
    {uses : List ((String × Instant × (PrefixKvCache → PrefixKvCache)) × Unit)}
    (hr : Run PrefixCacheRegistry.step (.new config maxNamespaces) uses registry) :
    ((limiter.lru.inner.Nodup ∧ limiter.lru.inner.Perm (limiter.buckets.keys.map lruKey)) ∧
      limiter.buckets.keys.length ≤ max maxEntries 1 ∧
      ∀ key made now,
        if maxRateLimitKeyLen < key.utf8ByteSize then
          (limiter.checkKey hashKey key made now).1 = limiter
        else
          Admits (max maxEntries 1)
            (calls.filterMap fun e => PerKeyRateLimiter.touches hashKey e.1.1) (hashKey key)
            limiter.buckets (limiter.checkKey hashKey key made now).1.buckets) ∧
    (registry.inner.lru.inner.Nodup ∧
        registry.inner.lru.inner.Perm registry.inner.caches.keys) ∧
      registry.inner.caches.keys.length ≤ max maxNamespaces 1 ∧
      ∀ ns made (f : PrefixKvCache → PrefixKvCache),
        Admits (max maxNamespaces 1) (uses.map fun e => e.1.1) ns registry.inner.caches
          (registry.withCache ns made fun cache => ((), f cache)).1.inner.caches := by
  obtain ⟨hmax, s, hkeeps, hinv⟩ := PerKeyRateLimiter.follows_run hl
  obtain ⟨hmax', s', hkeeps', hinv'⟩ := PrefixCacheRegistry.follows_run hr
  refine ⟨⟨⟨?_, ?_⟩, ?_, ?_⟩, ⟨?_, ?_⟩, ?_, ?_⟩
  · rw [hkeeps.lru]
    exact hinv.tracks.nodup.map lruKey_injective
  · rw [hkeeps.lru, hkeeps.buckets]
    exact hinv.tracks.perm.map lruKey
  · rw [hkeeps.buckets]
    exact hinv.bounded
  · intro key made now
    split
    · rename_i hlen
      rw [PerKeyRateLimiter.checkKey, if_pos hlen]
    · rename_i hlen
      obtain ⟨init, f, hvisit⟩ := hkeeps.checkKey_visit hashKey hlen made now
      rw [hvisit.buckets, hkeeps.buckets, hmax]
      exact BoundedStore.admits_visit (by omega) hinv _ _ _
  · rw [hkeeps'.lru]
    exact hinv'.tracks.nodup
  · rw [hkeeps'.lru, hkeeps'.caches]
    exact hinv'.tracks.perm
  · rw [hkeeps'.caches]
    exact hinv'.bounded
  · intro ns made f
    rw [(hkeeps'.withCache_visit ns made _).caches, hkeeps'.caches, hmax']
    exact BoundedStore.admits_visit (by omega) hinv' _ _ _

/-- Two keys in a limiter with room for one, and two namespaces in a registry with room for
one. -/
theorem bounded_key_stores_of_one :
    ∃ limiter registry calls uses,
      Run (PerKeyRateLimiter.step fun key => if key = "a" then 1 else 2)
        (.withMaxEntries 2.0 1.0 1 ∅) calls limiter ∧
      Run PrefixCacheRegistry.step (.new .default 0) uses registry ∧
      calls.length = 2 ∧ uses.length = 2 ∧
      limiter.buckets.keys.length ≤ 1 ∧ registry.inner.caches.keys.length ≤ 1 := by
  have hl : Run (PerKeyRateLimiter.step fun key => if key = "a" then 1 else 2)
      (.withMaxEntries 2.0 1.0 1 ∅) _ _ :=
    .cons (i := ("a", 0, 0)) rfl (.cons (i := ("b", 1, 1)) rfl (.nil _))
  have hr : Run PrefixCacheRegistry.step (.new .default 0) _ _ :=
    .cons (i := ("base", 0, id)) rfl (.cons (i := ("base|lora:1.000000", 1, id)) rfl (.nil _))
  have hbounded := bounded_key_stores hl hr
  exact ⟨_, _, _, _, hl, hr, rfl, rfl, hbounded.1.2.1, hbounded.2.2.1⟩

end Server

end Oxillama
