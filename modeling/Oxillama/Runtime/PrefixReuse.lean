/-
Priming from a cached prefix against prefilling the whole prompt.

Every entry of the prefix cache holds the rows of its key: what a pass over the key
leaves on an empty cache (`Prefilled`).  Storing keeps that, because the rows stored
for a prompt are the first rows of the prompt and everything sampled after it;
evictions, lookups and anything else done to the engine's cache keep it as well.

* `primeWithPrefix_spec` — priming from such an entry answers and leaves what a pass
  over the whole prompt does;
* `Serves` — the invariant, along every history of a worker;
* `prime_eq_prefill` — priming and prefilling cannot be told apart.
-/
import Mathlib
import Oxillama.Runtime.PrefixPriming
import Oxillama.Kv.Eviction

namespace Oxillama

namespace Kv

open KvCache

section Priming

variable {half : Half} {g : Geometry} {pass : TokenPass}

/-- The snapshot has the rows of a pass over `key`. -/
def Prefilled (half : Half) (g : Geometry) (pass : TokenPass) (key : List Token)
    (cached : CachedKvState) : Prop :=
  ∃ v logits, passTokens half g pass [] key Visible.empty = (v, .ok logits) ∧
    v.seqLen = key.length ∧
    cached.keys = (List.range g.numLayers).map v.keys ∧
    cached.values = (List.range g.numLayers).map v.values

/-! ### Restoring -/

private theorem getD_map_range {f : ℕ → List F32} {n layer : ℕ} (h : layer < n) :
    ((List.range n).map f).getD layer [] = f layer := by
  rw [List.getD_eq_getElem?_getD, List.getElem?_map, List.getElem?_range h]
  rfl

/-- The rows of a snapshot of tidy rows, restored. -/
private theorem ofSnapshot_eq_first {v : Visible} (hv : v.Tidy half g) (n : ℕ) :
    Visible.ofSnapshot half g ((List.range g.numLayers).map v.keys)
      ((List.range g.numLayers).map v.values) n = v.first g.kvDim n := by
  have hrow : ∀ {f : ℕ → List F32} {layer : ℕ},
      (f layer).length = (if layer < g.numLayers then v.seqLen * g.kvDim else 0) →
      (f layer).map (half.round g.dtype) = f layer →
      (if layer < g.numLayers then
        ((((List.range g.numLayers).map f).getD layer []).take (n * g.kvDim)).map
          (half.round g.dtype) else []) = (f layer).take (n * g.kvDim) := by
    intro f layer hlen hround
    by_cases hlayer : layer < g.numLayers
    · rw [if_pos hlayer, getD_map_range hlayer, List.map_take, hround]
    · rw [if_neg hlayer] at hlen ⊢
      rw [List.length_eq_zero_iff.mp hlen, List.take_nil]
  rw [Visible.ofSnapshot, Visible.first]
  congr 1
  · exact funext fun layer => hrow (hv.keys layer) (hv.keys_round layer)
  · exact funext fun layer => hrow (hv.values layer) (hv.values_round layer)

/-- **Restoring the first rows of an entry** gives the state after passing as many
tokens of its key. -/
theorem Prefilled.restore {key : List Token} {cached : CachedKvState}
    (h : Prefilled half g pass key cached) (hhalf : half.Exact) {kv : KvCache} (hkv : kv.Shape)
    (hgeom : kv.geometry = g) {n : ℕ} (hn : n ≤ key.length) :
    ∃ after logits,
      kv.restoreFromSnapshot half cached.keys cached.values n = some (after, .ok ()) ∧
      after.Settled ∧ after.geometry = g ∧
      passTokens half g pass [] (key.take n) Visible.empty = (after.visible half, .ok logits) := by
  obtain ⟨v, logits, hpass, hlen, hkeys, hvalues⟩ := h
  have htidy : v.Tidy half g := by
    have := Visible.tidy_empty.after (g := g) hhalf pass [] key
    rwa [hpass] at this
  have hn' : kv.numLayers = g.numLayers := congrArg Geometry.numLayers hgeom
  have hd : kv.kvDim = g.kvDim := congrArg Geometry.kvDim hgeom
  have hmax : kv.maxSeqLen = g.maxSeqLen := congrArg Geometry.maxSeqLen hgeom
  have hle : n * g.kvDim ≤ v.seqLen * g.kvDim := Nat.mul_le_mul_right _ (by omega)
  have hr : kv.Restorable cached.keys cached.values n := by
    refine ⟨?_, ?_, ?_⟩
    · have := htidy.seqLen_le
      omega
    · rw [hkeys, hvalues, List.length_map, List.length_map, List.length_range]
      exact ⟨hn'.le, hn'.le⟩
    · intro layer hlayer
      rw [hn'] at hlayer
      have hk := htidy.keys layer
      have hv := htidy.values layer
      rw [if_pos hlayer] at hk hv
      rw [hkeys, hvalues, getD_map_range hlayer, getD_map_range hlayer, hk, hv, hd]
      exact ⟨hle, hle⟩
  obtain ⟨after, hres, hsettled, hgeom', hvisible⟩ := restoreFromSnapshot_visible hkv half hr
  obtain ⟨logits', htake⟩ := passTokens_take hhalf hpass (hlen ▸ hn)
  refine ⟨after, logits', hres, hsettled, hgeom'.trans hgeom, ?_⟩
  rw [htake, hvisible, hgeom, hkeys, hvalues, ofSnapshot_eq_first htidy]

/-! ### Passing the rest -/

/-- **Priming** from the rows of a prefix passes the whole prompt. -/
theorem primeWithPrefix_spec {key tokens : List Token} {cached : CachedKvState}
    (h : Prefilled half g pass key cached) (hhalf : half.Exact) {kv : KvCache} (hkv : kv.Shape)
    (hgeom : kv.geometry = g) {n : ℕ} (hn : n ≤ key.length) (hkey : key <+: tokens)
    (hlt : n < tokens.length) :
    ∃ primed answer, primeWithPrefix half pass cached n (tokens.drop n) kv =
        some (primed, ofArch answer) ∧
      Passed half g (passTokens half g pass [] tokens Visible.empty) primed answer := by
  obtain ⟨after, logits, hres, hsettled, hgeom', hpass⟩ := h.restore hhalf hkv hgeom hn
  have hsuffix : tokens.drop n ≠ [] := fun hnil => by
    have := List.length_drop (i := n) (l := tokens)
    rw [hnil, List.length_nil] at this
    omega
  have htake : key.take n = tokens.take n := by
    obtain ⟨rest, rfl⟩ := hkey
    rw [List.take_append_of_le_length hn]
  have hwhole : passTokens half g pass [] tokens Visible.empty =
      passTokens half g pass [] (tokens.drop n) (after.visible half) := by
    have happ : passTokens half g pass [] (tokens.take n ++ tokens.drop n) Visible.empty = _ :=
      passTokens_append [] _ _ _
    rw [List.take_append_drop, ← htake, hpass] at happ
    exact happ.trans (passTokens_logits hsuffix logits [] _)
  obtain ⟨primed, answer, hrun, hpassed⟩ := forwardFrom_spec hsettled half pass [] (tokens.drop n)
  rw [hgeom', ← hwhole] at hpassed
  refine ⟨primed, answer, ?_, hpassed⟩
  rw [primeWithPrefix, if_neg hsuffix, hres]
  show (after.forward half pass (tokens.drop n)).map _ = _
  rw [KvCache.forward, hrun]
  rfl

/-! ### Prefilling -/

/-- A forward call goes on from the one before it. -/
private theorem forwardFrom_append (logits : List F32) (tokens tokens' : List Token)
    (kv : KvCache) :
    kv.forwardFrom half pass logits (tokens ++ tokens') = (do
      match ← kv.forwardFrom half pass logits tokens with
      | (kv, .error e) => some (kv, .error e)
      | (kv, .ok logits) => kv.forwardFrom half pass logits tokens') := by
  induction tokens generalizing kv logits with
  | nil => rfl
  | cons token tokens ih =>
    rw [List.cons_append, forwardFrom, forwardFrom]
    cases kv.forwardToken half pass token with
    | none => rfl
    | some r =>
      obtain ⟨kv', result⟩ := r
      cases result with
      | error e => rfl
      | ok logits' => exact ih logits' kv'

private theorem forward_eq_forwardFrom {tokens : List Token} (h : tokens ≠ []) (logits : List F32)
    (kv : KvCache) : kv.forward half pass tokens = kv.forwardFrom half pass logits tokens := by
  cases tokens with
  | nil => exact absurd rfl h
  | cons token tokens => rfl

/-- Chunks passed one after the other are one pass. -/
private theorem forwardChunks_eq {chunks : List (List Token)} (h : ∀ chunk ∈ chunks, chunk ≠ [])
    (logits : List F32) (kv : KvCache) :
    forwardChunks half pass logits chunks kv = kv.forwardFrom half pass logits chunks.flatten := by
  induction chunks generalizing kv logits with
  | nil => rfl
  | cons chunk chunks ih =>
    have hrest := fun chunk hmem => h chunk (List.mem_cons_of_mem _ hmem)
    rw [forwardChunks, List.flatten_cons, forwardFrom_append,
      forward_eq_forwardFrom (h chunk List.mem_cons_self) logits]
    cases kv.forwardFrom half pass logits chunk with
    | none => rfl
    | some r =>
      obtain ⟨kv', result⟩ := r
      cases result with
      | error e => rfl
      | ok logits' => exact ih hrest logits' kv'

private theorem chunksOf_spec (size : ℕ) (tokens : List Token) :
    (chunksOf size tokens).flatten = tokens ∧ ∀ chunk ∈ chunksOf size tokens, chunk ≠ [] := by
  induction tokens using chunksOf.induct size with
  | case1 =>
    rw [chunksOf]
    exact ⟨rfl, fun _ hmem => absurd hmem List.not_mem_nil⟩
  | case2 token tokens ih =>
    rw [chunksOf]
    constructor
    · rw [List.flatten_cons, ih.1, List.cons_append, List.take_append_drop]
    · intro chunk hmem
      rcases List.mem_cons.mp hmem with rfl | hmem
      · exact List.cons_ne_nil _ _
      · exact ih.2 chunk hmem

/-- **Prefilling** in chunks of any size passes the whole prompt. -/
theorem prefillChunked_spec (half : Half) (pass : TokenPass) {kv : KvCache} (h : kv.Settled)
    (hgeom : kv.geometry = g)
    (chunkSize : ℕ) {tokens : List Token} (htokens : tokens ≠ []) :
    ∃ filled answer, prefillChunked half pass chunkSize tokens kv =
        some (filled, ofArch answer) ∧
      Passed half g (passTokens half g pass [] tokens (kv.visible half)) filled answer := by
  obtain ⟨filled, answer, hrun, hpassed⟩ := forwardFrom_spec h half pass [] tokens
  rw [hgeom] at hpassed
  refine ⟨filled, answer, ?_, hpassed⟩
  rw [prefillChunked, if_neg htokens]
  dsimp only
  generalize (if chunkSize = 0 then tokens.length else chunkSize) = size
  split
  · rw [KvCache.forward, hrun]
    rfl
  · obtain ⟨hflat, hnonempty⟩ := chunksOf_spec size tokens
    rw [forwardChunks_eq hnonempty, hflat, hrun]
    rfl

/-- The decode loop passes its tokens one after the other. -/
private theorem decodeLoop_eq (logits : List F32) (tokens : List Token) (kv : KvCache) :
    decodeLoop half pass tokens kv =
      (kv.forwardFrom half pass logits tokens).map fun r => (r.1, r.2.map fun _ => ()) := by
  induction tokens generalizing kv logits with
  | nil => rfl
  | cons token tokens ih =>
    rw [decodeLoop, KvCache.forward, forwardFrom, forwardFrom]
    cases kv.forwardToken half pass token with
    | none => rfl
    | some r =>
      obtain ⟨kv', result⟩ := r
      cases result with
      | error e => rfl
      | ok logits' => exact ih logits' kv'

/-! ### Storing -/

/-- What the loop of `store` reads of a settled cache. -/
private theorem snapshotLayers_of_settled {kv : KvCache} (h : kv.Settled) {n : ℕ}
    (hn : n ≤ kv.seqLen) {layers : List ℕ} (hlayers : ∀ layer ∈ layers, layer < kv.numLayers) :
    PrefixKvCache.snapshotLayers (kv.access half) (n * kv.kvDim) layers =
      some (some (layers.map ((kv.visible half).first kv.kvDim n).keys,
        layers.map ((kv.visible half).first kv.kvDim n).values)) := by
  induction layers with
  | nil => rfl
  | cons layer layers ih =>
    have hlayer := hlayers layer List.mem_cons_self
    obtain ⟨hkeys, hvalues⟩ := fetch_of_settled h half hlayer
    have hle : n * kv.kvDim ≤ kv.seqLen * kv.kvDim := Nat.mul_le_mul_right _ hn
    have hklen : ((kv.visible half).keys layer).length = kv.seqLen * kv.kvDim :=
      length_layerRows (h.shape.keys.length ▸ hlayer) h.keys
    have hvlen : ((kv.visible half).values layer).length = kv.seqLen * kv.kvDim :=
      length_layerRows (h.shape.values.length ▸ hlayer) h.values
    rw [PrefixKvCache.snapshotLayers, hkeys, hvalues]
    simp only [Option.bind_eq_bind, Option.bind_some]
    rw [if_neg (by omega), ih fun layer hmem => hlayers layer (List.mem_cons_of_mem _ hmem)]
    rfl

/-- **The rows stored for a prompt** are those of a pass over it, whatever was passed
after it. -/
theorem prefilled_of_stores (hhalf : half.Exact) {kv : KvCache} (h : kv.Settled)
    (hgeom : kv.geometry = g) {tokens sampled : List Token} {logits : List F32}
    (hpass : passTokens half g pass [] (tokens ++ sampled) Visible.empty =
      (kv.visible half, .ok logits)) {config : PrefixCacheConfig} {env : StoreEnv}
    {tokens' : List Token} {snapshot : CachedKvState}
    (hstores : (PrefixKvCache.Call.store tokens (kv.access half) kv.seqLen kv.kvDim kv.numLayers
      env).stores config = some (tokens', snapshot)) :
    Prefilled half g pass tokens' snapshot := by
  have hd : kv.kvDim = g.kvDim := congrArg Geometry.kvDim hgeom
  have hn : kv.numLayers = g.numLayers := congrArg Geometry.numLayers hgeom
  rw [PrefixKvCache.Call.stores] at hstores
  split at hstores
  · cases hstores
  split at hstores
  · cases hstores
  rename_i hlen
  have hle : tokens.length ≤ kv.seqLen := not_lt.mp hlen
  rw [snapshotLayers_of_settled h hle fun layer hmem => List.mem_range.mp hmem] at hstores
  obtain ⟨rfl, rfl⟩ := Prod.mk.inj (Option.some.inj hstores)
  obtain ⟨logits', htake⟩ := passTokens_take hhalf hpass hle
  rw [List.take_append_of_le_length le_rfl, List.take_length] at htake
  refine ⟨_, logits', htake, rfl, ?_, ?_⟩
  · rw [hd, hn]
    rfl
  · rw [hd, hn]
    rfl

end Priming

/-! ### Histories of a worker -/

namespace Worker

/-- What holds of a worker between two events. -/
structure Serves (half : Half) (g : Geometry) (pass : TokenPass) (config : PrefixCacheConfig)
    (w : Worker) : Prop where
  shape : w.kv.Shape
  geometry : w.kv.geometry = g
  accounted : PrefixKvCache.Accounted config w.prefixes
  entries : w.prefixes.Holds (Prefilled half g pass)

section Histories

variable {half : Half} {g : Geometry} {pass : TokenPass} {config : PrefixCacheConfig}
  {w w' : Worker} {request : Request}

theorem serves_start (half : Half) (g : Geometry) (pass : TokenPass) (config : PrefixCacheConfig)
    (now : Instant) : (start g config now).Serves half g pass config where
  shape := shape_withDtype _ _ _ _
  geometry := rfl
  accounted := PrefixKvCache.accounted_new config now
  entries := PrefixKvCache.holds_new _ config now

/-- What the scratch cache hands back has the rows that were put into it. -/
private theorem scratch_rows {tokens query : List Token} {snap found : CachedKvState}
    {now : Instant} {env : StoreEnv} {lookupNow : ℕ → Instant} {scratch : PrefixKvCache}
    {done : Bool} {matched : ℕ}
    (hstore : (PrefixKvCache.new scratchConfig now).storeSnapshot tokens snap env =
      some (scratch, done))
    (hl : (scratch.lookup query lookupNow).2 = some (matched, found)) :
    found.keys = snap.keys ∧ found.values = snap.values := by
  have hacc := PrefixKvCache.accounted_new scratchConfig now
  have hstep : (PrefixKvCache.new scratchConfig now).step (.storeSnapshot tokens snap env) =
      some (scratch, .stored done) := by
    rw [PrefixKvCache.step, hstore]
    rfl
  have hholds : scratch.Holds fun _ kv => kv.keys = snap.keys ∧ kv.values = snap.values := by
    refine (PrefixKvCache.holds_new _ scratchConfig now).step hacc ?_ hstep
    intro tokens' snapshot hstores
    rw [PrefixKvCache.Call.stores] at hstores
    split at hstores
    · cases hstores
    split at hstores
    · cases hstores
    · obtain ⟨-, rfl⟩ := Prod.mk.inj (Option.some.inj hstores)
      exact ⟨rfl, rfl⟩
  obtain ⟨-, -, -, hrows⟩ := hholds.lookup (PrefixKvCache.accounted_step hacc hstep) hl
  exact hrows

private theorem prefilled_congr {key : List Token} {cached cached' : CachedKvState}
    (h : Prefilled half g pass key cached) (hkeys : cached'.keys = cached.keys)
    (hvalues : cached'.values = cached.values) : Prefilled half g pass key cached' := by
  obtain ⟨v, logits, hpass, hlen, hk, hv⟩ := h
  exact ⟨v, logits, hpass, hlen, hkeys.trans hk, hvalues.trans hv⟩

/-- **A hit** leaves the engine after a pass over the whole prompt. -/
theorem Serves.tryPrefixCacheHit (h : w.Serves half g pass config) (hhalf : half.Exact)
    {hit : Option (List F32)} (hrun : w.tryPrefixCacheHit half pass request = some (w', hit)) :
    w'.Serves half g pass config ∧ ∀ logits, hit = some logits →
      Passed half g (passTokens half g pass [] request.tokens Visible.empty) w'.kv
        (.ok logits) := by
  rw [Worker.tryPrefixCacheHit] at hrun
  dsimp only at hrun
  split at hrun
  · obtain ⟨rfl, rfl⟩ := Prod.mk.inj (Option.some.inj hrun)
    exact ⟨h, fun _ hhit => nomatch hhit⟩
  rename_i htokens
  have hlookup : ({ w with prefixes := (w.prefixes.lookup request.tokens request.lookupNow).1 }
      : Worker).Serves half g pass config :=
    ⟨h.shape, h.geometry, PrefixKvCache.accounted_lookup h.accounted _ _,
      h.entries.after_lookup _ _⟩
  cases hfound : (w.prefixes.lookup request.tokens request.lookupNow).2 with
  | none =>
    rw [hfound] at hrun
    obtain ⟨rfl, rfl⟩ := Prod.mk.inj (Option.some.inj hrun)
    exact ⟨hlookup, fun _ hhit => nomatch hhit⟩
  | some r =>
    obtain ⟨matchLen, cached⟩ := r
    rw [hfound] at hrun
    dsimp only at hrun
    split at hrun
    · obtain ⟨rfl, rfl⟩ := Prod.mk.inj (Option.some.inj hrun)
      exact ⟨hlookup, fun _ hhit => nomatch hhit⟩
    obtain ⟨⟨scratch, done⟩, hstore, hrun⟩ := Option.bind_eq_some_iff.mp hrun
    dsimp only at hrun
    cases hscratch : (scratch.lookup (request.tokens.take
        (min matchLen (request.tokens.length - 1))) request.scratchLookupNow).2 with
    | none =>
      rw [hscratch] at hrun
      obtain ⟨rfl, rfl⟩ := Prod.mk.inj (Option.some.inj hrun)
      exact ⟨hlookup, fun _ hhit => nomatch hhit⟩
    | some r =>
      obtain ⟨matched, found⟩ := r
      rw [hscratch] at hrun
      dsimp only at hrun
      obtain ⟨hkeys, hvalues⟩ := scratch_rows hstore hscratch
      obtain ⟨key, hkey, hmatch, hprefilled⟩ := h.entries.lookup h.accounted hfound
      have hpos : 0 < request.tokens.length := List.length_pos_of_ne_nil htokens
      obtain ⟨primed, answer, hprime, hpassed⟩ := primeWithPrefix_spec
        (prefilled_congr hprefilled hkeys hvalues) hhalf h.shape h.geometry
        (show min matchLen (request.tokens.length - 1) ≤ key.length by omega) hkey (by omega)
      have hserves : ({ kv := primed
                        prefixes := (w.prefixes.lookup request.tokens request.lookupNow).1 }
          : Worker).Serves half g pass config :=
        ⟨hpassed.shape, hpassed.geometry, hlookup.accounted, hlookup.entries⟩
      rw [hprime] at hrun
      cases answer with
      | error e =>
        obtain ⟨rfl, rfl⟩ := Prod.mk.inj (Option.some.inj hrun)
        exact ⟨hserves, fun _ hhit => nomatch hhit⟩
      | ok logits =>
        obtain ⟨rfl, rfl⟩ := Prod.mk.inj (Option.some.inj hrun)
        refine ⟨hserves, fun logits' hhit => ?_⟩
        obtain rfl := Option.some.inj hhit
        exact hpassed

/-- Storing the rows of the prompt after a generation. -/
theorem Serves.storePrefixCache (h : w.Serves half g pass config) (hhalf : half.Exact)
    (hsettled : w.kv.Settled) {tokens sampled : List Token} {logits : List F32}
    (hpass : passTokens half g pass [] (tokens ++ sampled) Visible.empty =
      (w.kv.visible half, .ok logits)) {env : StoreEnv}
    (hrun : w.storePrefixCache half tokens env = some w') : w'.Serves half g pass config := by
  obtain ⟨⟨prefixes, done⟩, hstore, hrun⟩ := Option.bind_eq_some_iff.mp hrun
  obtain rfl := Option.some.inj hrun
  have hstep : w.prefixes.step (.store tokens (w.kv.access half) w.kv.seqLen w.kv.kvDim
      w.kv.numLayers env) = some (prefixes, .stored done) := by
    rw [PrefixKvCache.step, hstore]
    rfl
  refine ⟨h.shape, h.geometry, PrefixKvCache.accounted_step h.accounted hstep, ?_⟩
  refine h.entries.step h.accounted (fun tokens' snapshot hstores => ?_) hstep
  exact prefilled_of_stores hhalf hsettled h.geometry hpass hstores

/-- **The decode loop** passes what was sampled after the prompt. -/
theorem Serves.finishGenerate (h : w.Serves half g pass config) (hhalf : half.Exact)
    {logits : List F32}
    (hpassed : Passed half g (passTokens half g pass [] request.tokens Visible.empty) w.kv
      (.ok logits)) (hrun : w.finishGenerate half pass request = some w') :
    w'.Serves half g pass config := by
  obtain ⟨after, answer, hforward, hafter⟩ :=
    forwardFrom_spec (hpassed.settled logits rfl) half pass logits request.sampled
  rw [hpassed.geometry] at hafter
  have hserves : ({ w with kv := after } : Worker).Serves half g pass config :=
    ⟨hafter.shape, hafter.geometry, h.accounted, h.entries⟩
  rw [Worker.finishGenerate, decodeLoop_eq logits, hforward] at hrun
  cases answer with
  | error e =>
    obtain rfl := Option.some.inj hrun
    exact hserves
  | ok logits' =>
    replace hrun : (if request.completes && request.cachePrompt then
        ({ w with kv := after } : Worker).storePrefixCache half request.tokens request.storeEnv
        else some { w with kv := after }) = some w' := hrun
    split at hrun
    · have hwhole : passTokens half g pass [] (request.tokens ++ request.sampled) Visible.empty =
          (after.visible half, .ok logits') := by
        rw [passTokens_append, hpassed.eq]
        exact hafter.eq
      exact hserves.storePrefixCache hhalf (hafter.settled logits' rfl) hwhole hrun
    · obtain rfl := Option.some.inj hrun
      exact hserves

/-- **One generation** keeps the invariant. -/
theorem Serves.runGenerate (h : w.Serves half g pass config) (hhalf : half.Exact) {chunkSize : ℕ}
    (hrun : w.runGenerate half pass chunkSize request = some w') :
    w'.Serves half g pass config := by
  rw [Worker.runGenerate] at hrun
  obtain ⟨⟨hit, logits?⟩, hfirst, hrun⟩ := Option.bind_eq_some_iff.mp hrun
  -- the attempt to hit the cache, or nothing
  have hattempt : hit.Serves half g pass config ∧ ∀ logits, logits? = some logits →
      Passed half g (passTokens half g pass [] request.tokens Visible.empty) hit.kv
        (.ok logits) := by
    split at hfirst
    · exact h.tryPrefixCacheHit hhalf hfirst
    · obtain ⟨rfl, rfl⟩ := Prod.mk.inj (Option.some.inj hfirst)
      exact ⟨h, fun _ hhit => nomatch hhit⟩
  obtain ⟨hserves, hhit⟩ := hattempt
  cases logits? with
  | some logits => exact hserves.finishGenerate hhalf (hhit logits rfl) hrun
  | none =>
    have hsettled := settled_clear hserves.shape
    have hcleared : ({ hit with kv := hit.kv.clear } : Worker).Serves half g pass config :=
      ⟨hsettled.shape, hserves.geometry, hserves.accounted, hserves.entries⟩
    dsimp only at hrun
    split at hrun
    · split at hrun
      · have hnothing : passTokens half g pass [] ([] ++ []) Visible.empty =
            (hit.kv.clear.visible half, .ok []) := by
          rw [visible_clear]
          rfl
        exact hcleared.storePrefixCache hhalf hsettled hnothing hrun
      · obtain rfl := Option.some.inj hrun
        exact hcleared
    · rename_i htokens
      obtain ⟨filled, answer, hprefill, hpassed⟩ :=
        prefillChunked_spec half pass hsettled hcleared.geometry chunkSize htokens
      rw [visible_clear] at hpassed
      rw [hprefill] at hrun
      have hfilled : ({ hit with kv := filled } : Worker).Serves half g pass config :=
        ⟨hpassed.shape, hpassed.geometry, hserves.accounted, hserves.entries⟩
      cases answer with
      | error e =>
        obtain rfl := Option.some.inj hrun
        exact hfilled
      | ok logits => exact hfilled.finishGenerate hhalf hpassed hrun

/-- **Every event** keeps the invariant. -/
theorem serves_step (hhalf : half.Exact) {chunkSize : ℕ} {event : Event} {answer : Unit}
    (h : w.Serves half g pass config)
    (hstep : w.step half pass chunkSize event = some (w', answer)) :
    w'.Serves half g pass config := by
  cases event with
  | generate request =>
    obtain ⟨after, hrun, heq⟩ := Option.map_eq_some_iff.mp hstep
    obtain ⟨rfl, -⟩ := Prod.mk.inj heq
    exact h.runGenerate hhalf hrun
  | call call =>
    obtain ⟨⟨kv, result⟩, hcall, heq⟩ := Option.map_eq_some_iff.mp hstep
    obtain ⟨rfl, -⟩ := Prod.mk.inj heq
    obtain ⟨kv', result', hcall', hshape, -⟩ := shape_step h.shape half call
    obtain ⟨rfl, -⟩ := Prod.mk.inj (Option.some.inj (hcall.symm.trans hcall'))
    exact ⟨hshape, (geometry_step h.shape hcall).trans h.geometry, h.accounted, h.entries⟩
  | forget now =>
    obtain ⟨rfl, -⟩ := Prod.mk.inj (Option.some.inj hstep)
    rw [h.accounted.config_eq]
    exact ⟨h.shape, h.geometry, PrefixKvCache.accounted_new config now,
      PrefixKvCache.holds_new _ config now⟩

/-- A worker keeps the invariant along every history. -/
theorem serves_run (hhalf : half.Exact) {chunkSize : ℕ} {now : Instant}
    {tr : List (Event × Unit)} (hrun : Run (step half pass chunkSize) (start g config now) tr w) :
    w.Serves half g pass config :=
  hrun.invariant (serves_step hhalf) (serves_start half g pass config now)

/-! ### Priming against prefilling -/

/-- Two caches that hold the same sequence: as many tokens, with the same rows below
them. -/
structure SameSequence (half : Half) (a b : KvCache) : Prop where
  seqLen : a.seqLen = b.seqLen
  rows : a.visible half = b.visible half

/-- Two caches that are read alike. -/
structure SameReads (half : Half) (a b : KvCache) : Prop where
  numLayers : a.numLayers = b.numLayers
  reads : ∀ layer < a.numLayers,
    fetchKeys (a.access half) layer = fetchKeys (b.access half) layer ∧
      fetchValues (a.access half) layer = fetchValues (b.access half) layer

private theorem sameReads_of_settled {a b : KvCache} (ha : a.Settled) (hb : b.Settled)
    (hgeom : a.geometry = b.geometry) (h : a.visible half = b.visible half) :
    SameReads half a b := by
  have hn : a.numLayers = b.numLayers := congrArg Geometry.numLayers hgeom
  refine ⟨hn, fun layer hlayer => ?_⟩
  obtain ⟨hk, hv⟩ := fetch_of_settled ha half hlayer
  obtain ⟨hk', hv'⟩ := fetch_of_settled hb half (hn ▸ hlayer)
  rw [hk, hv, hk', hv', h]
  exact ⟨rfl, rfl⟩

/-- Two passes over the same tokens cannot be told apart. -/
private theorem same_of_passed {after : Visible × ArchResult (List F32)} {a b : KvCache}
    {answer answer' : ArchResult (List F32)} (ha : Passed half g after a answer)
    (hb : Passed half g after b answer') :
    answer = answer' ∧ SameSequence half a b ∧ ∀ logits, answer = .ok logits →
      SameReads half a b := by
  obtain rfl : answer = answer' := ha.answers.trans hb.answers.symm
  have hvisible := ha.visible.trans hb.visible.symm
  refine ⟨rfl, ⟨congrArg Visible.seqLen hvisible, hvisible⟩, fun logits hok => ?_⟩
  exact sameReads_of_settled (ha.settled logits hok) (hb.settled logits hok)
    (ha.geometry.trans hb.geometry.symm) hvisible

/-- **Prefix reuse equals full prefill.**  After every history of a worker and for
every prompt, priming the engine from what the prefix cache finds and passing the rest
answers the logits, or the error, of clearing the cache and prefilling the whole prompt,
and leaves the same sequence; and so does every hit of `try_prefix_cache_hit`. -/
theorem prime_eq_prefill (hhalf : half.Exact) {chunkSize : ℕ} {now : Instant}
    {tr : List (Event × Unit)} (hrun : Run (step half pass chunkSize) (start g config now) tr w)
    (request : Request) :
    (∀ lookupNow matched cached n,
      (w.prefixes.lookup request.tokens lookupNow).2 = some (matched, cached) →
      n ≤ matched → n < request.tokens.length →
      ∃ primed filled result,
        primeWithPrefix half pass cached n (request.tokens.drop n) w.kv = some (primed, result) ∧
        prefillChunked half pass chunkSize request.tokens w.kv.clear = some (filled, result) ∧
        SameSequence half primed filled ∧
        ∀ logits, result = .ok logits → SameReads half primed filled) ∧
    ∀ w' logits, w.tryPrefixCacheHit half pass request = some (w', some logits) →
      ∃ filled,
        prefillChunked half pass chunkSize request.tokens w.kv.clear =
          some (filled, .ok logits) ∧
        SameSequence half w'.kv filled ∧ SameReads half w'.kv filled := by
  have hserves := serves_run hhalf hrun
  have hprefill : request.tokens ≠ [] → ∃ filled answer,
      prefillChunked half pass chunkSize request.tokens w.kv.clear =
        some (filled, ofArch answer) ∧
      Passed half g (passTokens half g pass [] request.tokens Visible.empty) filled answer := by
    intro htokens
    obtain ⟨filled, answer, hfill, hpassed⟩ := prefillChunked_spec half pass
      (settled_clear hserves.shape) hserves.geometry chunkSize htokens
    rw [visible_clear] at hpassed
    exact ⟨filled, answer, hfill, hpassed⟩
  constructor
  · intro lookupNow matched cached n hlookup hn hlt
    obtain ⟨key, hkey, hmatch, hprefilled⟩ := hserves.entries.lookup hserves.accounted hlookup
    have htokens : request.tokens ≠ [] := List.ne_nil_of_length_pos (by omega)
    obtain ⟨primed, answer, hprime, hprimed⟩ := primeWithPrefix_spec hprefilled hhalf hserves.shape
      hserves.geometry (hmatch ▸ hn) hkey hlt
    obtain ⟨filled, answer', hfill, hfilled⟩ := hprefill htokens
    obtain ⟨rfl, hsame, hreads⟩ := same_of_passed hprimed hfilled
    refine ⟨primed, filled, ofArch answer, hprime, hfill, hsame, fun logits hok => ?_⟩
    cases answer with
    | error e => cases hok
    | ok logits' => exact hreads logits' rfl
  · intro w' logits hhit
    have htokens : request.tokens ≠ [] := by
      intro hnil
      rw [Worker.tryPrefixCacheHit, if_pos hnil] at hhit
      cases hhit
    obtain ⟨-, hpassed⟩ := hserves.tryPrefixCacheHit hhalf hhit
    obtain ⟨filled, answer, hfill, hfilled⟩ := hprefill htokens
    obtain ⟨rfl, hsame, hreads⟩ := same_of_passed (hpassed logits rfl) hfilled
    exact ⟨filled, hfill, hsame, hreads logits rfl⟩

end Histories

/-- A model of one layer that stores its tokens and answers with the number of rows. -/
def countingPass : TokenPass :=
  fun v token => .ok (fun _ => ([token], [token]), [.ofNat v.seqLen])

/-- A request for `tokens` that samples `sampled`, at time `now`. -/
def requestAt (now : Instant) (tokens sampled : List Token) : Request where
  tokens := tokens
  cachePrompt := true
  sampled := sampled
  completes := true
  lookupNow _ := now
  scratchNow := now
  scratchEnv := PrefixKvCache.asStored now
  scratchLookupNow _ := now
  storeEnv := PrefixKvCache.asStored now

/-- The prompt `[1, 2]` is served and stored; `[1, 2, 5]` extends it. -/
theorem prime_eq_prefill_extended : ∃ w w' filled,
    Run (step .onZero countingPass 0) (start ⟨8, 1, 1, .f16⟩ ⟨4, 64, 1⟩ 0)
      [(.generate (requestAt 1 [1, 2] [7]), ())] w ∧
    w.tryPrefixCacheHit .onZero countingPass (requestAt 2 [1, 2, 5] []) = some (w', some [2]) ∧
    prefillChunked .onZero countingPass 0 [1, 2, 5] w.kv.clear = some (filled, .ok [2]) ∧
    w'.kv.seqLen = filled.seqLen ∧ w'.kv.seqLen = 3 := by
  have heval : (((start ⟨8, 1, 1, .f16⟩ ⟨4, 64, 1⟩ 0).runGenerate .onZero countingPass 0
      (requestAt 1 [1, 2] [7])).bind fun w =>
        w.tryPrefixCacheHit .onZero countingPass (requestAt 2 [1, 2, 5] [])).map
          (fun r => (r.2, r.1.kv.seqLen)) = some (some [2], 3) := by decide_cbv
  obtain ⟨⟨w', hit⟩, hboth, hanswer⟩ := Option.map_eq_some_iff.mp heval
  obtain ⟨w, hserved, hhit⟩ := Option.bind_eq_some_iff.mp hboth
  obtain ⟨rfl, hlen⟩ := Prod.mk.inj hanswer
  have hrun : Run (step .onZero countingPass 0) (start ⟨8, 1, 1, .f16⟩ ⟨4, 64, 1⟩ 0)
      [(.generate (requestAt 1 [1, 2] [7]), ())] w :=
    .single (by rw [step, hserved]; rfl)
  have hexact : Half.onZero.Exact := ⟨fun _ => rfl⟩
  obtain ⟨-, hhits⟩ := prime_eq_prefill hexact hrun (requestAt 2 [1, 2, 5] [])
  obtain ⟨filled, hfill, hsame, -⟩ := hhits w' [2] hhit
  exact ⟨w, w', filled, hrun, hhit, hfill, hsame.seqLen, hlen⟩

end Worker

end Kv

end Oxillama
