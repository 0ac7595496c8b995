/-
The prefix cache as a finite map.

`StoredMap` is what the cache is for: a finite map from token sequences to
snapshots, which a call that stores extends and `clear` empties.  While the map
itself stays within the limits nothing is ever evicted, and the radix tree holds
exactly the map (`Refines`, kept by every call: `refines_step`).  A lookup is
then the longest key of the map that is a prefix of the query
(`lookup_longest`), with one exception that the source tests for first: the
empty query finds nothing, not even a snapshot stored under the empty key.
-/
import Mathlib.Algebra.GroupWithZero.Nat
import Mathlib.Data.List.AList
import Oxillama.Kv.Eviction

namespace Oxillama

namespace Kv

namespace PrefixKvCache

open RadixNode

/-! ### The map -/

/-- The snapshots a cache without limits would hold. -/
abbrev StoredMap := AList fun _ : List Token => CachedKvState

/-- The map after a call. -/
def StoredMap.after (config : PrefixCacheConfig) (m : StoredMap) (call : Call) : StoredMap :=
  match call with
  | .clear => ∅
  | call => match call.stores config with
    | some (tokens, snapshot) => m.insert tokens snapshot
    | none => m

theorem StoredMap.after_of_ne {config : PrefixCacheConfig} {m : StoredMap} {call : Call}
    (h : call ≠ .clear) :
    m.after config call = match call.stores config with
      | some (tokens, snapshot) => m.insert tokens snapshot
      | none => m := by
  cases call with
  | clear => exact absurd rfl h
  | store _ _ _ _ _ _ => rfl
  | storeSnapshot _ _ _ => rfl
  | lookup _ _ => rfl

/-- The map after a sequence of calls. -/
def storedMap (config : PrefixCacheConfig) (calls : List Call) : StoredMap :=
  calls.foldl (StoredMap.after config) ∅

/-- The map has room within the limits. -/
def StoredMap.Fits (config : PrefixCacheConfig) (m : StoredMap) : Prop :=
  m.entries.length ≤ config.maxEntries ∧
    (m.entries.map fun row => row.2.memoryBytes).sum ≤ config.maxMemoryBytes

/-- The limits are never exceeded: the map fits after every call. -/
def NeverExceeded (config : PrefixCacheConfig) (calls : List Call) : Prop :=
  ∀ done, done <+: calls → (storedMap config done).Fits config

/-- `lookup(q)` is the longest stored key of sufficient length that is a prefix of `q`. -/
def LookupIsLongest (cache : PrefixKvCache) (m : StoredMap) (q : List Token) : Prop :=
  ∀ now n kv, (cache.lookup q now).2 = some (n, kv) ↔
    ∃ key, key <+: q ∧ cache.config.minPrefixLen ≤ key.length ∧ key.length = n ∧
      m.lookup key = some kv ∧
      ∀ key', key' <+: q → cache.config.minPrefixLen ≤ key'.length → key' ∈ m → key'.length ≤ n

/-! ### The refinement -/

/-- The tree holds the map. -/
structure Refines (config : PrefixCacheConfig) (cache : PrefixKvCache) (m : StoredMap) : Prop where
  accounted : Accounted config cache
  stored : cache.root.snapshots.Perm m.entries
  lengths : ∀ row ∈ m.entries, config.minPrefixLen ≤ row.1.length ∧ row.2.seqLen = row.1.length

theorem refines_new (config : PrefixCacheConfig) (now : Instant) :
    Refines config (new config now) ∅ where
  accounted := accounted_new config now
  stored := .refl _
  lengths := fun _ h => absurd h List.not_mem_nil

theorem Refines.lookup_eq {config : PrefixCacheConfig} {cache : PrefixKvCache} {m : StoredMap}
    (h : Refines config cache m) (key : List Token) :
    cache.root.snapshots.dlookup key = m.lookup key :=
  List.perm_dlookup key (nodupKeys_snapshots h.accounted.exact.wellFormed) h.stored

/-- The counters of a tree that holds the map are those of the map. -/
private theorem counters_of_stored {cache : PrefixKvCache} {m : StoredMap} (h : cache.Exact)
    (hstored : cache.root.snapshots.Perm m.entries) :
    cache.entryCount = m.entries.length ∧
      cache.memoryBytes = (m.entries.map fun row => row.2.memoryBytes).sum := by
  constructor
  · rw [h.entryCount_rows, ← hstored.length_eq, snapshots, Rows.mapVal, List.length_map]
  · rw [h.memoryBytes_rows, ← (hstored.map _).sum_nat, snapshots, Rows.mapVal, List.map_map]
    rfl

/-- Where the map has room for an insertion, the insertion evicts nothing. -/
private theorem refines_insertEntry {config : PrefixCacheConfig} {cache cache' : PrefixKvCache}
    {m : StoredMap} {tokens : List Token} {snapshot : CachedKvState} {env : StoreEnv}
    (h : Refines config cache m) (hmin : config.minPrefixLen ≤ tokens.length)
    (hlen : snapshot.seqLen = tokens.length)
    (hfits : StoredMap.Fits config (m.insert tokens snapshot))
    (hins : cache.insertEntry tokens snapshot env = some cache') :
    Refines config cache' (m.insert tokens snapshot) := by
  obtain ⟨counted, hcounted, hevict⟩ := Option.bind_eq_some_iff.mp hins
  obtain ⟨hexact, hconfig⟩ := exact_insertEntryCounted h.accounted.exact hcounted
  have hroot := root_insertEntryCounted hcounted
  have hexact₀ := h.accounted.exact
  have hrows := (insert_spec hexact₀.wellFormed
    (.inl hexact₀.rootTokens : Enters cache.root tokens) snapshot env.now).inserted.rows
  have hstored : counted.root.snapshots.Perm (m.insert tokens snapshot).entries := by
    have hkinsert := Rows.kinsert_mapVal Prod.fst tokens (snapshot, env.now) cache.root.rows
    have hmap : counted.root.snapshots.Perm (cache.root.snapshots.kinsert tokens snapshot) := by
      rw [hroot]
      exact (hrows.map _).trans (.of_eq hkinsert.symm)
    exact hmap.trans (List.Perm.kinsert (nodupKeys_snapshots hexact₀.wellFormed) h.stored)
  -- the counters are those of the map, so the loop condition fails at once
  have hnot : ¬ counted.OverLimit := by
    obtain ⟨hcount, hbytes⟩ := counters_of_stored hexact hstored
    rw [not_overLimit, WithinLimits, hconfig, h.accounted.config_eq, hcount, hbytes]
    exact hfits
  rw [evictLru, if_neg hnot] at hevict
  obtain rfl := Option.some.inj hevict
  refine ⟨(insertEntry_spec h.accounted hins).1, hstored, fun row hrow => ?_⟩
  rw [AList.entries_insert, List.mem_cons] at hrow
  rcases hrow with rfl | hrow
  · exact ⟨hmin, hlen⟩
  · exact h.lengths row ((List.kerase_sublist tokens m.entries).mem hrow)

private theorem refines_lookup {config : PrefixCacheConfig} {cache : PrefixKvCache}
    {m : StoredMap} (h : Refines config cache m) (tokens : List Token) (now : ℕ → Instant) :
    Refines config (cache.lookup tokens now).1 m where
  accounted := accounted_lookup h.accounted tokens now
  stored := by
    have hroot : (cache.lookup tokens now).1.root.snapshots = cache.root.snapshots := by
      rw [lookup]
      split
      · rfl
      · have hsame := (lookup_same now tokens 0 cache.root).snapshots
        dsimp only
        split
        · split <;> exact hsame
        · exact hsame
    exact hroot ▸ h.stored
  lengths := h.lengths

/-- **Every call refines the map**, as long as the map fits. -/
theorem refines_step {config : PrefixCacheConfig} {cache cache' : PrefixKvCache} {m : StoredMap}
    {call : Call} {answer : Answer} (h : Refines config cache m)
    (hfits : StoredMap.Fits config (m.after config call))
    (hstep : cache.step call = some (cache', answer)) :
    Refines config cache' (m.after config call) := by
  have hconfig := h.accounted.config_eq
  rcases step_cases hstep with ⟨tokens, now, rfl, rfl⟩ | ⟨rfl, rfl⟩ | ⟨hclear, hnone, rfl⟩ |
    ⟨tokens, snapshot, env, hclear, hsome, hins⟩
  · exact refines_lookup h tokens now
  · exact ⟨accounted_clear h.accounted, .refl _, fun _ hrow => absurd hrow List.not_mem_nil⟩
  · rw [hconfig] at hnone
    rw [StoredMap.after_of_ne hclear, hnone]
    exact h
  · rw [hconfig] at hsome
    rw [StoredMap.after_of_ne hclear, hsome] at hfits ⊢
    obtain ⟨hmin, hlen⟩ := Call.length_of_stores hsome
    exact refines_insertEntry h hmin hlen hfits hins

theorem storedMap_append_single (config : PrefixCacheConfig) (calls : List Call) (call : Call) :
    storedMap config (calls ++ [call]) = (storedMap config calls).after config call := by
  simp [storedMap]

/-- A run within the limits holds the map of its calls. -/
theorem refines_run {config : PrefixCacheConfig} {now : Instant} {tr : List (Call × Answer)}
    {cache : PrefixKvCache} (hr : Run step (new config now) tr cache)
    (hfits : NeverExceeded config (tr.map Prod.fst)) :
    Refines config cache (storedMap config (tr.map Prod.fst)) := by
  have hstart : NeverExceeded config (([] : List (Call × Answer)).map Prod.fst) →
      Refines config (new config now) (storedMap config []) := fun _ => refines_new config now
  refine hr.traceInvariant
    (P := fun done cache => NeverExceeded config (done.map Prod.fst) →
      Refines config cache (storedMap config (done.map Prod.fst))) ?_ hstart hfits
  intro done cache call cache' answer ih hstep hfits
  rw [List.map_append, List.map_cons, List.map_nil] at hfits ⊢
  have hlast := hfits _ (List.prefix_refl _)
  rw [storedMap_append_single] at hlast ⊢
  exact refines_step (ih fun calls hcalls => hfits calls (hcalls.trans (List.prefix_append _ _)))
    hlast hstep

/-! ### Lookups -/

/-- In a cache that holds the map, a non-empty query finds its longest stored prefix. -/
theorem Refines.lookupIsLongest {config : PrefixCacheConfig} {cache : PrefixKvCache}
    {m : StoredMap} (h : Refines config cache m) {q : List Token} (hq : q ≠ []) :
    LookupIsLongest cache m q := by
  intro now n kv
  have hmin : ∀ {key}, key ∈ m → cache.config.minPrefixLen ≤ key.length := by
    intro key hkey
    obtain ⟨kv', hrow⟩ := List.mem_keys.mp hkey
    rw [h.accounted.config_eq]
    exact (h.lengths _ hrow).1
  have hanswer : (cache.lookup q now).2 =
      (longestPrefix (fun key => m.lookup key) q).filter fun r =>
        cache.config.minPrefixLen ≤ r.1 := by
    rw [lookup_snd, if_neg hq, lookup_found h.accounted.exact.wellFormed, answer,
      longestPrefix_congr fun key _ => h.lookup_eq key]
    simp
  rw [hanswer, Option.filter_eq_some_iff, longestPrefix_eq_some_iff]
  constructor
  · rintro ⟨⟨key, hkey, hlen, hkv, hmax⟩, hn⟩
    refine ⟨key, hkey, ?_, hlen, hkv, fun key' hkey' _ hmem =>
      hmax key' hkey' (AList.lookup_isSome.mpr hmem)⟩
    rw [hlen]
    exact of_decide_eq_true hn
  · rintro ⟨key, hkey, hn, hlen, hkv, hmax⟩
    refine ⟨⟨key, hkey, hlen, hkv, fun key' hkey' hsome => ?_⟩, decide_eq_true (hlen ▸ hn)⟩
    have hmem := AList.lookup_isSome.mp hsome
    exact hmax key' hkey' (hmin hmem) hmem

/-- What a lookup finds covers exactly what it matched. -/
theorem Refines.seqLen_of_lookup {config : PrefixCacheConfig} {cache : PrefixKvCache}
    {m : StoredMap} (h : Refines config cache m) {q : List Token} {now : ℕ → Instant} {n : ℕ}
    {kv : CachedKvState} (hfound : (cache.lookup q now).2 = some (n, kv)) : n = kv.seqLen := by
  have hq : q ≠ [] := by
    rintro rfl
    cases hfound
  obtain ⟨key, -, -, hlen, hkv, -⟩ := (h.lookupIsLongest hq now n kv).mp hfound
  rw [← hlen, (h.lengths ⟨key, kv⟩ (List.of_mem_dlookup hkv)).2]

/-- **The prefix cache refines a finite map.**  While the limits are never
exceeded, a non-empty query finds its longest stored prefix with the snapshot
stored last under it, the empty query finds nothing, and what is found covers
exactly what was matched. -/
theorem lookup_refines_map {config : PrefixCacheConfig} {now : Instant}
    {tr : List (Call × Answer)} {cache : PrefixKvCache} (hr : Run step (new config now) tr cache)
    (hfits : NeverExceeded config (tr.map Prod.fst)) :
    (∀ q, q ≠ [] → LookupIsLongest cache (storedMap config (tr.map Prod.fst)) q) ∧
    (∀ now, (cache.lookup [] now).2 = none) ∧
    ∀ q now n kv, (cache.lookup q now).2 = some (n, kv) → n = kv.seqLen := by
  have h := refines_run hr hfits
  exact ⟨fun q hq => h.lookupIsLongest hq, fun _ => rfl, fun q now n kv => h.seqLen_of_lookup⟩

/-- Two keys on one path, the longer one first, and a query that leaves it
between them. -/
theorem lookup_refines_map_nested : ∃ cache,
    Run step (new ⟨4, 64, 1⟩ 0)
      [(.storeSnapshot [1, 2, 3] (.new [[7, 8, 9]] [[7, 8, 9]] 3) (asStored 1), .stored true),
        (.storeSnapshot [1, 2] (.new [[7, 8]] [[7, 8]] 2) (asStored 2), .stored true)] cache ∧
    (cache.lookup [1, 2, 9] fun _ => 3).2 = some (2, .new [[7, 8]] [[7, 8]] 2) ∧
    (cache.lookup [] fun _ => 3).2 = none := by
  have hr : ∃ cache, Run step (new ⟨4, 64, 1⟩ 0)
      [(.storeSnapshot [1, 2, 3] (.new [[7, 8, 9]] [[7, 8, 9]] 3) (asStored 1), .stored true),
        (.storeSnapshot [1, 2] (.new [[7, 8]] [[7, 8]] 2) (asStored 2), .stored true)] cache :=
    ⟨_, .cons rfl (.cons rfl (.nil _))⟩
  obtain ⟨cache, hr⟩ := hr
  have hfits : NeverExceeded ⟨4, 64, 1⟩
      [.storeSnapshot [1, 2, 3] (.new [[7, 8, 9]] [[7, 8, 9]] 3) (asStored 1),
        .storeSnapshot [1, 2] (.new [[7, 8]] [[7, 8]] 2) (asStored 2)] := by
    intro done hdone
    rcases List.prefix_cons_iff.mp hdone with rfl | ⟨done₁, rfl, hdone₁⟩
    · exact ⟨by decide, by decide⟩
    · rcases List.prefix_cons_iff.mp hdone₁ with rfl | ⟨done₂, rfl, hdone₂⟩
      · exact ⟨by decide, by decide⟩
      · rw [List.prefix_nil.mp hdone₂]
        exact ⟨by decide, by decide⟩
  obtain ⟨hlookup, hempty, -⟩ := lookup_refines_map hr hfits
  have hconfig := (accounted_run hr).config_eq
  refine ⟨cache, hr, (hlookup [1, 2, 9] (by decide) _ 2 _).mpr ⟨[1, 2], by decide, ?_, rfl, rfl,
    fun key hkey _ hmem => ?_⟩, hempty _⟩
  · rw [hconfig]
    decide
  · -- of the prefixes of the query only the whole of it is longer, and it is not stored
    by_contra hlong
    have hall : key = [1, 2, 9] := hkey.eq_of_length_le (not_le.mp hlong)
    subst hall
    revert hmem
    decide

/-- **The empty query is the exception**: a snapshot stored under the empty key
is a prefix of every query, and the empty one does not find it. -/
theorem not_lookup_refines_map_empty : ¬ ∀ (config : PrefixCacheConfig) (now : Instant)
    (tr : List (Call × Answer)) (cache : PrefixKvCache), Run step (new config now) tr cache →
    NeverExceeded config (tr.map Prod.fst) →
    ∀ q, LookupIsLongest cache (storedMap config (tr.map Prod.fst)) q := by
  intro hall
  have hr : ∃ cache, Run step (new ⟨1, 0, 0⟩ 0)
      [(.storeSnapshot [] (.new [] [] 0) (asStored 1), .stored true)] cache :=
    ⟨_, .single rfl⟩
  obtain ⟨cache, hr⟩ := hr
  have hfits : NeverExceeded ⟨1, 0, 0⟩ [.storeSnapshot [] (.new [] [] 0) (asStored 1)] := by
    intro done hdone
    rcases List.prefix_cons_iff.mp hdone with rfl | ⟨done₁, rfl, hdone₁⟩
    · exact ⟨by decide, by decide⟩
    · rw [List.prefix_nil.mp hdone₁]
      exact ⟨by decide, by decide⟩
  have hfound := (hall _ 0 _ cache hr hfits [] (fun _ => 2) 0 (.new [] [] 0)).mpr
    ⟨[], List.nil_prefix, ?_, rfl, rfl, fun key hkey _ _ => hkey.length_le⟩
  · cases hfound
  · rw [(accounted_run hr).config_eq]
    exact Nat.zero_le _

end PrefixKvCache

end Kv

end Oxillama
