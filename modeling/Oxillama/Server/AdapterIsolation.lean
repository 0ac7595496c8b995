/-
Prefix caches and the adapters in force.

The namespace of a request is made of the names and scales it asks for.  What is in force while
it runs is what the registry had for those names, if the model took it, on top of what an
earlier request left behind.

* `PrefixCacheRegistry.All.withCache` — what holds of every cache of the registry is kept by a
  call that keeps it for its own cache;
* `LoraWorker.computed_of_respects` — **where the requests of a namespace all find the same model
  in force, a hit hands out rows computed under it**;
* `LoraWorker.unknown_then_registered` — a hit with the rows of the bare model.
-/
import Mathlib
import Oxillama.Server.LoraWorker

namespace Oxillama

namespace Server

open Kv (Token TokenPass KvCache Half Geometry Instant PrefixCacheConfig PrefixKvCache
  CachedKvState Worker Request Prefilled)

/-! ### The caches of a registry -/

namespace PrefixCacheRegistry

/-- `P` holds of every namespace and its cache. -/
def All (P : String → PrefixKvCache → Prop) (registry : PrefixCacheRegistry) : Prop :=
  ∀ ns cache, registry.inner.caches.lookup ns = some cache → P ns cache

variable {P : String → PrefixKvCache → Prop} {registry : PrefixCacheRegistry}

theorem all_new (P : String → PrefixKvCache → Prop) (config : PrefixCacheConfig)
    (maxNamespaces : ℕ) : (new config maxNamespaces).All P := by
  intro ns cache h
  rw [new, AList.lookup_empty] at h
  cases h

/-- The registry with a namespace touched, and another one evicted if that is needed. -/
def enter (ns : String) (registry : PrefixCacheRegistry) : RegistryInner :=
  let inner := { registry.inner with lru := registry.inner.lru.touch ns }
  if ns ∉ inner.caches ∧ registry.maxNamespaces < inner.lru.len then
    match inner.lru.evictLru with
    | (none, lru) => { inner with lru }
    | (some evicted, lru) =>
      { lru, caches := if evicted ≠ ns then inner.caches.erase evicted else inner.caches }
  else inner

theorem lookup_of_enter {ns k : String} {cache : PrefixKvCache}
    (h : (registry.enter ns).caches.lookup k = some cache) :
    registry.inner.caches.lookup k = some cache := by
  rw [enter] at h
  dsimp only at h
  split at h
  · split at h
    · exact h
    · rename_i evicted lru _
      dsimp only at h
      split at h
      · by_cases hk : k = evicted
        · rw [hk, AList.lookup_erase] at h
          cases h
        · rwa [AList.lookup_erase_ne hk] at h
      · exact h
  · exact h

/-- **A call on a namespace** keeps what holds of every cache, and answers what it answers on one
of them. -/
theorem All.withCache (h : registry.All P) {R : Type} {ns : String} {made : Instant}
    {f : PrefixKvCache → R × PrefixKvCache} (hnew : P ns (.new registry.config made))
    (hf : ∀ cache, P ns cache → P ns (f cache).2) :
    (registry.withCache ns made f).1.All P ∧
      (registry.withCache ns made f).1.config = registry.config ∧
      ∃ cache, P ns cache ∧ (registry.withCache ns made f).2 = (f cache).1 := by
  let cache := ((registry.enter ns).caches.lookup ns).getD (.new registry.config made)
  have hcache : P ns cache := by
    show P ns (((registry.enter ns).caches.lookup ns).getD _)
    cases hlookup : (registry.enter ns).caches.lookup ns with
    | none => exact hnew
    | some found => exact h ns found (lookup_of_enter hlookup)
  refine ⟨?_, rfl, cache, hcache, rfl⟩
  intro k found hk
  replace hk : ((registry.enter ns).caches.insert ns (f cache).2).lookup k = some found := hk
  by_cases heq : k = ns
  · subst heq
    rw [AList.lookup_insert] at hk
    obtain rfl := Option.some.inj hk
    exact hf cache hcache
  · rw [AList.lookup_insert_ne heq] at hk
    exact h k found (lookup_of_enter hk)

end PrefixCacheRegistry

/-! ### The adapters in force -/

namespace LoraWorker

variable {M A : Type} {fp : ForwardPass M A} {half : Half} {g : Geometry} {chunkSize : ℕ}
  {modelId : String} {config : PrefixCacheConfig} {owner : String → M} {s s' : LoraWorker M A}
  {r : LoraRequest} {hit : Option (Hit M)}

/-- The model in force for a selection of adapters. -/
def inForce (fp : ForwardPass M A) (loraSelection : List (String × Kv.F32))
    (s : LoraWorker M A) : M :=
  (s.applyLoraSelection fp loraSelection).1.model

/-- **The condition on an event**: a request that uses the prefix cache finds the model in force
that belongs to its namespace. -/
def Respects (fp : ForwardPass M A) (modelId : String) (owner : String → M)
    (s : LoraWorker M A) : Event A → Prop
  | .generate r => r.request.cachePrompt = true →
      s.inForce fp r.loraSelection = owner (cacheNamespace modelId r.loraSelection)
  | _ => True

instance [DecidableEq M] : DecidablePred (s.Respects fp modelId owner)
  | .generate _ => inferInstanceAs (Decidable (_ → _))
  | .call _ | .registerLora .. | .unregisterLora _ | .poison => .isTrue trivial

end LoraWorker

/-- **The rows of a hit are those of the model in force**: what a pass of that model over the
tokens leaves. -/
def Hit.ComputedUnder {M A : Type} (fp : ForwardPass M A) (half : Half) (g : Geometry)
    (hit : Hit M) : Prop :=
  Prefilled half g (fp.forward hit.model) hit.tokens hit.cached

namespace LoraWorker

variable {M A : Type} {fp : ForwardPass M A} {half : Half} {g : Geometry} {chunkSize : ℕ}
  {modelId : String} {config : PrefixCacheConfig} {owner : String → M} {s s' : LoraWorker M A}
  {r : LoraRequest} {hit : Option (Hit M)}

/-- The adapters are attached to the model, and nothing else is touched. -/
theorem applyLoraSelection_rest (fp : ForwardPass M A) (loraSelection : List (String × Kv.F32))
    (s : LoraWorker M A) :
    (s.applyLoraSelection fp loraSelection).1.kv = s.kv ∧
      (s.applyLoraSelection fp loraSelection).1.prefixRegistry = s.prefixRegistry := by
  rw [applyLoraSelection]
  split
  · exact ⟨rfl, rfl⟩
  · split
    · exact ⟨rfl, rfl⟩
    · dsimp only
      split
      · exact ⟨rfl, rfl⟩
      · split <;> exact ⟨rfl, rfl⟩

/-- What holds of the cache of a namespace: its rows are those of the model of the namespace. -/
def Belongs (fp : ForwardPass M A) (half : Half) (g : Geometry) (config : PrefixCacheConfig)
    (model : M) (cache : PrefixKvCache) : Prop :=
  PrefixKvCache.Accounted config cache ∧ cache.Holds (Prefilled half g (fp.forward model))

/-- What holds of the worker between two events. -/
structure Isolated (fp : ForwardPass M A) (half : Half) (g : Geometry)
    (config : PrefixCacheConfig) (owner : String → M) (s : LoraWorker M A) : Prop where
  shape : s.kv.Shape
  geometry : s.kv.geometry = g
  config_eq : s.prefixRegistry.config = config
  caches : s.prefixRegistry.All fun ns => Belongs fp half g config (owner ns)

theorem isolated_start (fp : ForwardPass M A) (half : Half) (g : Geometry)
    (config : PrefixCacheConfig) (owner : String → M) (maxNamespaces : ℕ) (model : M) :
    (start g config maxNamespaces model : LoraWorker M A).Isolated fp half g config owner where
  shape := KvCache.shape_withDtype _ _ _ _
  geometry := rfl
  config_eq := rfl
  caches := PrefixCacheRegistry.all_new _ _ _

/-- **One generation**, or the panic of one, on a cache with the rows of its model. -/
theorem serves_runGenerate (hhalf : half.Exact) {pass : TokenPass} {w w' : Worker}
    (h : w.Serves half g pass config)
    (hrun : runGenerate half pass chunkSize r w = some w') : w'.Serves half g pass config := by
  rw [runGenerate] at hrun
  split at hrun
  · obtain rfl := Option.some.inj hrun
    refine ⟨(KvCache.settled_clear h.shape).shape, h.geometry, ?_, ?_⟩
    · dsimp only
      split
      · exact PrefixKvCache.accounted_lookup h.accounted _ _
      · exact h.accounted
    · dsimp only
      split
      · exact h.entries.after_lookup _ _
      · exact h.entries
  · exact h.runGenerate hhalf hrun

/-- What a lookup hands out has the rows of the model of the cache. -/
theorem prefilled_of_hitOf {pass : TokenPass} {cache : PrefixKvCache}
    (hacc : PrefixKvCache.Accounted config cache) (h : cache.Holds (Prefilled half g pass))
    {request : Request} {tokens : List Token} {cached : CachedKvState}
    (hhit : hitOf request cache = some (tokens, cached)) :
    Prefilled half g pass tokens cached := by
  rw [hitOf] at hhit
  split at hhit
  · cases hhit
  cases hlookup : (cache.lookup request.tokens request.lookupNow).2 with
  | none =>
    rw [hlookup] at hhit
    cases hhit
  | some found =>
    obtain ⟨matchLen, cached'⟩ := found
    rw [hlookup] at hhit
    dsimp only at hhit
    split at hhit
    · cases hhit
    · obtain ⟨rfl, rfl⟩ := Prod.mk.inj (Option.some.inj hhit)
      obtain ⟨key, hkey, hlen, hprefilled⟩ := h.lookup hacc hlookup
      rw [← hlen, ← List.prefix_iff_eq_take.mp hkey]
      exact hprefilled

/-- **A generation on the cache of a namespace**, under its model. -/
theorem belongs_onCache (hhalf : half.Exact) {model : M} {kv : KvCache} (hshape : kv.Shape)
    (hgeometry : kv.geometry = g) {cache : PrefixKvCache}
    (h : Belongs fp half g config model cache) :
    Belongs fp half g config model (onCache half (fp.forward model) chunkSize r kv cache).2 ∧
      ∀ kv' hit, (onCache half (fp.forward model) chunkSize r kv cache).1 = some (kv', hit) →
        kv'.Shape ∧ kv'.geometry = g ∧ hit = hitOf r.request cache := by
  have hserves : (⟨kv, cache⟩ : Worker).Serves half g (fp.forward model) config :=
    ⟨hshape, hgeometry, h.1, h.2⟩
  rw [onCache]
  cases hrun : runGenerate half (fp.forward model) chunkSize r ⟨kv, cache⟩ with
  | none => exact ⟨h, fun kv' hit hresult => by cases hresult⟩
  | some w =>
    have hw := serves_runGenerate hhalf hserves hrun
    refine ⟨⟨hw.accounted, hw.entries⟩, fun kv' hit hresult => ?_⟩
    obtain ⟨rfl, rfl⟩ := Prod.mk.inj (Option.some.inj hresult)
    exact ⟨hw.shape, hw.geometry, rfl⟩

/-- **A generation** on the caches of the registry, under the model of its namespace if it uses
the prefix cache. -/
theorem isolated_serve (hhalf : half.Exact) (h : s.Isolated fp half g config owner) {ns : String}
    (howner : r.request.cachePrompt = true → s.model = owner ns)
    (hrun : s.serve fp half chunkSize ns r = some (s', hit)) :
    s'.Isolated fp half g config owner ∧ ∀ found ∈ hit, found.ComputedUnder fp half g := by
  rw [serve] at hrun
  split at hrun
  · rename_i hprompt
    rw [howner hprompt] at hrun
    obtain ⟨⟨kv, answer⟩, hresult, heq⟩ := Option.map_eq_some_iff.mp hrun
    obtain ⟨rfl, rfl⟩ := Prod.mk.inj heq
    have hnew : Belongs fp half g config (owner ns) (.new s.prefixRegistry.config r.made) := by
      rw [h.config_eq]
      exact ⟨PrefixKvCache.accounted_new _ _, PrefixKvCache.holds_new _ _ _⟩
    obtain ⟨hall, hconfig, cache, hcache, hout⟩ := h.caches.withCache hnew
      fun cache hcache => (belongs_onCache hhalf h.shape h.geometry hcache).1
    obtain ⟨hshape, hgeometry, rfl⟩ :=
      (belongs_onCache hhalf h.shape h.geometry hcache).2 kv answer (hout.symm.trans hresult)
    refine ⟨⟨hshape, hgeometry, hconfig.trans h.config_eq, hall⟩, ?_⟩
    intro found hfound
    obtain ⟨⟨tokens, cached⟩, hhit, rfl⟩ := Option.map_eq_some_iff.mp hfound
    exact prefilled_of_hitOf hcache.1 hcache.2 hhit
  · obtain ⟨w, hserved, heq⟩ := Option.map_eq_some_iff.mp hrun
    obtain ⟨rfl, rfl⟩ := Prod.mk.inj heq
    rw [h.config_eq] at hserved
    have hw := serves_runGenerate hhalf (g := g) ⟨h.shape, h.geometry,
      PrefixKvCache.accounted_new _ _, PrefixKvCache.holds_new _ _ _⟩ hserved
    exact ⟨⟨hw.shape, hw.geometry, h.config_eq, h.caches⟩, fun found hfound => nomatch hfound⟩

/-- **One request.**  Where it finds the model of its namespace in force, the caches keep the rows
of their models, and a hit has those of the model in force. -/
theorem isolated_generate (hhalf : half.Exact) (h : s.Isolated fp half g config owner)
    (hguard : s.Respects fp modelId owner (.generate r))
    (hrun : s.generate fp half chunkSize modelId r = some (s', hit)) :
    s'.Isolated fp half g config owner ∧ ∀ found ∈ hit, found.ComputedUnder fp half g := by
  obtain ⟨hkv, hregistry⟩ := applyLoraSelection_rest fp r.loraSelection s
  rw [generate] at hrun
  rw [Respects, inForce] at hguard
  generalize s.applyLoraSelection fp r.loraSelection = applied at hrun hguard hkv hregistry
  obtain ⟨s₁, loraCount⟩ := applied
  obtain ⟨⟨served, found⟩, hserved, heq⟩ := Option.map_eq_some_iff.mp hrun
  obtain ⟨rfl, rfl⟩ := Prod.mk.inj heq
  have happlied : s₁.Isolated fp half g config owner := by
    refine ⟨?_, ?_, ?_, ?_⟩
    · rw [hkv]
      exact h.shape
    · rw [hkv]
      exact h.geometry
    · rw [hregistry]
      exact h.config_eq
    · rw [hregistry]
      exact h.caches
  obtain ⟨hisolated, hhit⟩ := isolated_serve hhalf happlied hguard hserved
  refine ⟨?_, hhit⟩
  -- detaching the adapters touches neither the cache of the engine nor the prefix caches
  split
  · exact ⟨hisolated.shape, hisolated.geometry, hisolated.config_eq, hisolated.caches⟩
  · exact hisolated

/-- **One event.** -/
theorem isolated_step (hhalf : half.Exact) {event : Event A}
    (h : s.Isolated fp half g config owner) (hguard : s.Respects fp modelId owner event)
    (hs : s.step fp half chunkSize modelId event = some (s', hit)) :
    s'.Isolated fp half g config owner ∧ ∀ found ∈ hit, found.ComputedUnder fp half g := by
  cases event with
  | generate r => exact isolated_generate hhalf h hguard hs
  | call call =>
    obtain ⟨⟨kv, answer⟩, hcall, heq⟩ := Option.map_eq_some_iff.mp hs
    obtain ⟨rfl, rfl⟩ := Prod.mk.inj heq
    obtain ⟨kv', answer', hcall', hshape, -⟩ := KvCache.shape_step h.shape half call
    obtain ⟨rfl, -⟩ := Prod.mk.inj (Option.some.inj (hcall.symm.trans hcall'))
    exact ⟨⟨hshape, (KvCache.geometry_step h.shape hcall).trans h.geometry, h.config_eq,
      h.caches⟩, fun found hfound => nomatch hfound⟩
  | registerLora name lora =>
    obtain ⟨rfl, rfl⟩ := Prod.mk.inj (Option.some.inj hs)
    refine ⟨?_, fun found hfound => nomatch hfound⟩
    split
    · exact h
    · exact ⟨h.shape, h.geometry, h.config_eq, h.caches⟩
  | unregisterLora name =>
    obtain ⟨rfl, rfl⟩ := Prod.mk.inj (Option.some.inj hs)
    refine ⟨?_, fun found hfound => nomatch hfound⟩
    split
    · exact h
    · exact ⟨h.shape, h.geometry, h.config_eq, h.caches⟩
  | poison =>
    obtain ⟨rfl, rfl⟩ := Prod.mk.inj (Option.some.inj hs)
    exact ⟨⟨h.shape, h.geometry, h.config_eq, h.caches⟩, fun found hfound => nomatch hfound⟩

/-- **A prefix-cache hit never crosses adapters**, in every run in which the requests that use the
prefix cache find the model in force that belongs to their namespace. -/
theorem computed_of_respects (hhalf : half.Exact) {maxNamespaces : ℕ} {model : M}
    {tr : List (Event A × Option (Hit M))}
    (hr : Run (step fp half chunkSize modelId) (start g config maxNamespaces model) tr s)
    (hmeet : StepsMeet (step fp half chunkSize modelId) (Respects fp modelId owner)
      (start g config maxNamespaces model) (tr.map Prod.fst)) :
    ∀ e ∈ tr, ∀ hit ∈ e.2, hit.ComputedUnder fp half g := by
  have hnone : ∀ e ∈ ([] : List (Event A × Option (Hit M))), ∀ hit ∈ e.2,
      hit.ComputedUnder fp half g :=
    fun e he => absurd he List.not_mem_nil
  have hend := hr.traceInvariant_of_stepsMeet
    (P := fun tr s => s.Isolated fp half g config owner ∧
      ∀ e ∈ tr, ∀ hit ∈ e.2, hit.ComputedUnder fp half g) ?_ hmeet
    ⟨isolated_start fp half g config owner maxNamespaces model, hnone⟩
  · exact hend.2
  · rintro tr s event s' hit ⟨h, htrace⟩ hguard hs
    obtain ⟨h', hhit⟩ := isolated_step hhalf h hguard hs
    refine ⟨h', fun e he => ?_⟩
    rcases List.mem_append.mp he with he | he
    · exact htrace e he
    · rw [List.mem_singleton.mp he]
      exact hhit

/-- A model of one layer whose adapters are numbers, which it adds to the rows. -/
def addingModel : ForwardPass (List UInt32) UInt32 where
  applyLoraStack entries model := (.ok (), model ++ entries.map Prod.fst)
  unapplyAllLoras _ := []
  forward model := fun v token =>
    .ok (fun _ => ([token + model.sum], [token]), [.ofNat v.seqLen])

/-- A request at time `now` that asks for the adapter `a`, with the scale one. -/
def requestWithA (now : Instant) (tokens : List Token) : LoraRequest where
  request := Worker.requestAt now tokens [7]
  loraSelection := [("a", 0x3F800000)]
  panics := false
  made := now

/-- The prompt `[1, 2]` is served and stored, and `[1, 2, 5]` extends it. -/
def extendedPrompt : List (Event UInt32) :=
  [.generate (requestWithA 1 [1, 2]), .generate (requestWithA 2 [1, 2, 5])]

/-- The hits of a trace: the tokens, the keys and the model. -/
def hitsOf (tr : List (Event UInt32 × Option (Hit (List UInt32)))) :
    List (List Token × List (List Kv.F32) × List UInt32) :=
  tr.filterMap fun e => e.2.map fun hit => (hit.tokens, hit.cached.keys, hit.model)

/-- The adapter is registered first, and both requests find it. -/
theorem computed_of_respects_registered : ∃ tr s,
    Run (step addingModel .onZero 0 "m") (start ⟨8, 1, 1, .f32⟩ ⟨4, 64, 1⟩ 2 []) tr s ∧
      ∃ e ∈ tr, ∃ hit ∈ e.2, hit.tokens = [1, 2] ∧
        hit.ComputedUnder addingModel .onZero ⟨8, 1, 1, .f32⟩ := by
  have heval : ((runInputs (step addingModel .onZero 0 "m")
      (start ⟨8, 1, 1, .f32⟩ ⟨4, 64, 1⟩ 2 []) (.registerLora "a" 10 :: extendedPrompt)).map
        fun r => hitsOf r.1) = some [([1, 2], [[11, 12]], [10])] := by decide_cbv
  have hmeet : StepsMeet (step addingModel .onZero 0 "m") (Respects addingModel "m" fun _ => [10])
      (start ⟨8, 1, 1, .f32⟩ ⟨4, 64, 1⟩ 2 []) (.registerLora "a" 10 :: extendedPrompt) :=
    stepsMeet_of_meets (by decide_cbv)
  obtain ⟨⟨tr, s⟩, hruns, hhits⟩ := Option.map_eq_some_iff.mp heval
  rw [← map_fst_of_runInputs hruns] at hmeet
  have hexact : Half.onZero.Exact := ⟨fun _ => rfl⟩
  have hr := run_of_runInputs hruns
  have hcomputed := computed_of_respects hexact hr hmeet
  have hmem : ([1, 2], [[11, 12]], [10]) ∈ hitsOf tr := by
    rw [hhits]
    exact List.mem_singleton_self _
  obtain ⟨e, he, hhit⟩ := List.mem_filterMap.mp hmem
  obtain ⟨hit, hhit, heq⟩ := Option.map_eq_some_iff.mp hhit
  exact ⟨tr, s, hr, e, he, hit, hhit, congrArg Prod.fst heq, hcomputed e he hit hhit⟩

/-- **A hit that crosses adapters.**  The adapter is registered between the requests: the first one
ran on the bare model, and its rows are handed to the second one. -/
theorem unknown_then_registered : ∃ tr s,
    runInputs (step addingModel .onZero 0 "m") (start ⟨8, 1, 1, .f32⟩ ⟨4, 64, 1⟩ 2 [])
        [.generate (requestWithA 1 [1, 2]), .registerLora "a" 10,
          .generate (requestWithA 2 [1, 2, 5])] = some (tr, s) ∧
      ∃ e ∈ tr, ∃ hit ∈ e.2, hit.model = [10] ∧ hit.cached.keys = [[1, 2]] ∧
        ¬ hit.ComputedUnder addingModel .onZero ⟨8, 1, 1, .f32⟩ := by
  have heval : ((runInputs (step addingModel .onZero 0 "m")
      (start ⟨8, 1, 1, .f32⟩ ⟨4, 64, 1⟩ 2 [])
        [.generate (requestWithA 1 [1, 2]), .registerLora "a" 10,
          .generate (requestWithA 2 [1, 2, 5])]).map
        fun r => hitsOf r.1) = some [([1, 2], [[1, 2]], [10])] := by decide_cbv
  obtain ⟨⟨tr, s⟩, hruns, hhits⟩ := Option.map_eq_some_iff.mp heval
  have hmem : ([1, 2], [[1, 2]], [10]) ∈ hitsOf tr := by
    rw [hhits]
    exact List.mem_singleton_self _
  obtain ⟨e, he, hhit⟩ := List.mem_filterMap.mp hmem
  obtain ⟨hit, hhit, heq⟩ := Option.map_eq_some_iff.mp hhit
  obtain ⟨htokens, heq⟩ := Prod.mk.inj heq
  obtain ⟨hkeys, hmodel⟩ := Prod.mk.inj heq
  refine ⟨tr, s, hruns, e, he, hit, hhit, hmodel, hkeys, ?_⟩
  rintro ⟨v, logits, hpass, -, hrows, -⟩
  rw [hmodel, htokens] at hpass
  -- a pass with the adapter adds ten to each key
  have hcomputed : v.keys 0 = [11, 12] := by
    have hfirst := congrArg (fun after => after.1.keys 0) hpass
    exact hfirst.symm.trans (by decide_cbv)
  rw [hkeys] at hrows
  have hfirst : [[1, 2]] = [v.keys 0] := hrows
  rw [hcomputed] at hfirst
  exact absurd hfirst (by decide)

end LoraWorker

end Server

end Oxillama
