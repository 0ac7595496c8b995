/-
The multi-model pool (`oxillama-server/src/router/pool.rs`) and the admin routes that load
and unload its models (`oxillama-server/src/admin/routes.rs`).

A call that panics answers `none`: sums of bytes are checked in this crate.

* `ModelPool.evictLoop_stable` — the eviction loop ends within as many rounds as the LRU
  queue is long, and one round more;
* `ModelPool.Inv` — the queue holds exactly the loaded models, each once, they are at most
  `capacity`, and their memory is within the budget;
* `ModelPool.inv_step` — every call keeps all that, whatever the other counters say.
-/
import Oxillama.Lib.Maps
import Oxillama.Lib.Run
import Oxillama.Lib.Usize
import Oxillama.Server.LruQueue

namespace Oxillama

namespace Server

/-- `LoadedModel`, without the engine. -/
structure LoadedModel where
  lastUsed : ℕ
  memBytes : ℕ
  inflight : ℕ
deriving DecidableEq

/-- `ModelSpec`. -/
structure ModelSpec where
  path : String
  quant : Option String
deriving DecidableEq

/-- `ModelLoader`: the registered models. -/
abbrev ModelLoader := AList fun _ : String => ModelSpec

/-- `PendingStatus`. -/
inductive PendingStatus
  | loading
  | failed (reason : String)
deriving DecidableEq

/-- `PendingEntry`. -/
structure PendingEntry where
  status : PendingStatus
  memBytes : ℕ
deriving DecidableEq

/-- The errors of the pool. -/
inductive ServerError
  | invalidRequest (message : String)
  | runtime (message : String)
deriving DecidableEq

/-- `ModelPool`. -/
structure ModelPool where
  loaded : AList fun _ : String => LoadedModel
  pending : AList fun _ : String => PendingEntry
  lru : LruQueue
  capacity : ℕ
  memBudgetBytes : ℕ
  loader : ModelLoader

/-- What the environment decides when a model is loaded: the time, the size of the file if
its metadata can be read, and whether the engine loads it. -/
structure LoadEnv where
  now : ℕ
  fileSize : Option ℕ
  outcome : Except String Unit

/-- `estimate_mem_bytes`. -/
def estimateMemBytes (fileSize : Option ℕ) : ℕ :=
  saturatingAdd (fileSize.getD 0 % 2 ^ 64) (64 * 1024 * 1024)

namespace ModelPool

/-- `ModelPool::new`. -/
def new (capacity memBudgetMb : ℕ) : ModelPool where
  loaded := ∅
  pending := ∅
  lru := .withCapacity capacity
  capacity
  memBudgetBytes := min (memBudgetMb * (1024 * 1024)) (2 ^ 64 - 1)
  loader := ∅

/-- `touch_lru`. -/
def touchLru (modelId : String) (pool : ModelPool) : ModelPool :=
  { pool with lru := pool.lru.touch modelId }

/-- The bytes of all loaded models. -/
def memTotal (pool : ModelPool) : ℕ := mapSum LoadedModel.memBytes pool.loaded

/-- `current_mem_bytes`. -/
def currentMemBytes (pool : ModelPool) : Option ℕ :=
  if pool.memTotal < 2 ^ 64 then some pool.memTotal else none

/-- `evict_one`. -/
def evictOne (pool : ModelPool) : ModelPool × Except ServerError Unit :=
  match pool.lru.evictLru with
  | (none, _) => (pool, .error (.invalidRequest "no model to evict — pool is empty"))
  | (some victim, lru) =>
    let pool := { pool with lru }
    let inflight := ((pool.loaded.lookup victim).map LoadedModel.inflight).getD 0
    if 0 < inflight then
      (pool.touchLru victim, .error (.invalidRequest
        ("cannot evict '" ++ victim ++ "': " ++ toString inflight ++ " request(s) in flight")))
    else ({ pool with loaded := pool.loaded.erase victim }, .ok ())

/-- The loop of `evict_until_budget`; `none` also when `rounds` rounds are not enough. -/
def evictLoop (needed : ℕ) : ℕ → ModelPool → Option (ModelPool × Except ServerError Unit)
  | 0, _ => none
  | rounds + 1, pool => do
    let current ← pool.currentMemBytes
    let wanted ← usizeAdd current needed
    if pool.memBudgetBytes < wanted then
      match pool.evictOne with
      | (pool, .error _) =>
        some (pool, .error (.invalidRequest
          "memory budget exceeded and no evictable model found"))
      | (pool, .ok ()) => evictLoop needed rounds pool
    else some (pool, .ok ())

/-- `evict_until_budget`; the rounds are enough (`evictLoop_stable`). -/
def evictUntilBudget (needed : ℕ) (pool : ModelPool) :
    Option (ModelPool × Except ServerError Unit) :=
  if pool.memBudgetBytes = 0 then some (pool, .ok ())
  else evictLoop needed (pool.lru.len + 1) pool

/-- What `acquire` and `mark_ready` do first: room within the budget, and room for one more
model. -/
def makeRoom (needed : ℕ) (pool : ModelPool) : Option (ModelPool × Except ServerError Unit) :=
  match pool.evictUntilBudget needed with
  | none => none
  | some (pool, .error e) => some (pool, .error e)
  | some (pool, .ok ()) =>
    if pool.capacity ≤ pool.loaded.keys.length then some pool.evictOne else some (pool, .ok ())

/-- What `acquire` and `mark_ready` do last. -/
def insertLoaded (modelId : String) (model : LoadedModel) (pool : ModelPool) : ModelPool :=
  touchLru modelId { pool with loaded := pool.loaded.insert modelId model }

/-- `acquire`; the handle it answers is the entry of `modelId`. -/
def acquire (modelId : String) (extLoader : Option ModelLoader) (env : LoadEnv)
    (pool : ModelPool) : Option (ModelPool × Except ServerError Unit) :=
  match pool.loaded.lookup modelId with
  | some model =>
    let model :=
      { model with inflight := saturatingAdd model.inflight 1, lastUsed := env.now }
    some ({ pool.touchLru modelId with loaded := pool.loaded.insert modelId model }, .ok ())
  | none =>
    match (extLoader.getD pool.loader).lookup modelId with
    | none =>
      some (pool, .error (.invalidRequest ("model '" ++ modelId ++ "' is not registered")))
    | some _ =>
      let estimatedMem := estimateMemBytes env.fileSize
      match pool.makeRoom estimatedMem with
      | none => none
      | some (pool, .error e) => some (pool, .error e)
      | some (pool, .ok ()) =>
        match env.outcome with
        | .error message => some (pool, .error (.runtime message))
        | .ok () =>
          some (pool.insertLoaded modelId
            { lastUsed := env.now, memBytes := estimatedMem, inflight := 1 }, .ok ())

/-- `release`. -/
def release (modelId : String) (pool : ModelPool) : ModelPool :=
  match pool.loaded.lookup modelId with
  | some model =>
    { pool with
      loaded := pool.loaded.insert modelId { model with inflight := model.inflight - 1 } }
  | none => pool

/-- `unload`. -/
def unload (modelId : String) (pool : ModelPool) : ModelPool × Except ServerError Unit :=
  if modelId ∉ pool.loaded then
    (pool, .error (.invalidRequest ("model '" ++ modelId ++ "' is not loaded")))
  else
    ({ pool with
      loaded := pool.loaded.erase modelId
      pending := pool.pending.erase modelId
      lru := pool.lru.remove modelId }, .ok ())

/-- `mark_loading`. -/
def markLoading (modelId : String) (pool : ModelPool) : ModelPool :=
  { pool with pending := pool.pending.insert modelId ⟨.loading, 0⟩ }

/-- `loader_register`. -/
def loaderRegister (modelId : String) (spec : ModelSpec) (pool : ModelPool) : ModelPool :=
  { pool with loader := pool.loader.insert modelId spec }

/-- `mark_ready`. -/
def markReady (modelId : String) (memBytes now : ℕ) (pool : ModelPool) :
    Option (ModelPool × Except ServerError Unit) :=
  match pool.makeRoom memBytes with
  | none => none
  | some (pool, .error e) => some (pool, .error e)
  | some (pool, .ok ()) =>
    let pool := pool.insertLoaded modelId { lastUsed := now, memBytes, inflight := 0 }
    some ({ pool with pending := pool.pending.erase modelId }, .ok ())

/-- `mark_failed`. -/
def markFailed (modelId reason : String) (pool : ModelPool) : ModelPool :=
  match pool.pending.lookup modelId with
  | some entry =>
    { pool with pending := pool.pending.insert modelId { entry with status := .failed reason } }
  | none => pool

/-- The calls on a pool, those of the admin routes among them: `admin_load_model` marks the
model as loading and registers it, and its background task calls `mark_ready` with no bytes,
or `mark_failed`; `admin_unload_model` calls `unload`. -/
inductive Call
  | acquire (modelId : String) (extLoader : Option ModelLoader) (env : LoadEnv)
  | release (modelId : String)
  | unload (modelId : String)
  | markReady (modelId : String) (memBytes now : ℕ)
  | markFailed (modelId reason : String)
  | adminLoad (modelId : String) (spec : ModelSpec)
  | adminLoaded (modelId : String) (now : ℕ)

/-- One call. -/
def step (pool : ModelPool) : Call → Option (ModelPool × Except ServerError Unit)
  | .acquire modelId extLoader env => pool.acquire modelId extLoader env
  | .release modelId => some (pool.release modelId, .ok ())
  | .unload modelId => some (pool.unload modelId)
  | .markReady modelId memBytes now => pool.markReady modelId memBytes now
  | .markFailed modelId reason => some (pool.markFailed modelId reason, .ok ())
  | .adminLoad modelId spec =>
    some ((pool.markLoading modelId).loaderRegister modelId spec, .ok ())
  | .adminLoaded modelId now => pool.markReady modelId 0 now

/-! ### The invariant -/

/-- The queue holds exactly the loaded models, they are at most `capacity`, and their memory
is within the budget, if there is one. -/
structure Inv (pool : ModelPool) : Prop where
  tracks : Tracks pool.lru.inner pool.loaded.keys
  room : pool.loaded.keys.length ≤ pool.capacity
  memory : pool.memBudgetBytes = 0 ∨ pool.memTotal ≤ pool.memBudgetBytes

theorem inv_new (capacity memBudgetMb : ℕ) : (new capacity memBudgetMb).Inv where
  tracks := .nil
  room := Nat.zero_le _
  memory := .inr (Nat.zero_le _)

/-- What an eviction leaves alone: the limits and the loader, the models that stay, and every
model whose counter is not 0. -/
structure EvictedTo (pool pool' : ModelPool) : Prop where
  capacity : pool'.capacity = pool.capacity
  budget : pool'.memBudgetBytes = pool.memBudgetBytes
  bytes : pool'.memTotal ≤ pool.memTotal
  stays : ∀ id model, pool'.loaded.lookup id = some model → pool.loaded.lookup id = some model
  idle : ∀ id model, pool.loaded.lookup id = some model → id ∉ pool'.loaded →
    model.inflight = 0

namespace EvictedTo

theorem refl (pool : ModelPool) : EvictedTo pool pool where
  capacity := rfl
  budget := rfl
  bytes := le_rfl
  stays _ _ h := h
  idle _ _ h hgone :=
    absurd (AList.lookup_isSome.mp (Option.isSome_of_eq_some h)) hgone

theorem trans {pool pool' pool'' : ModelPool} (h : EvictedTo pool pool')
    (h' : EvictedTo pool' pool'') : EvictedTo pool pool'' where
  capacity := h'.capacity.trans h.capacity
  budget := h'.budget.trans h.budget
  bytes := Nat.le_trans h'.bytes h.bytes
  stays id model hid := h.stays id model (h'.stays id model hid)
  idle id model hid hgone := by
    cases hlookup : pool'.loaded.lookup id with
    | none => exact h.idle id model hid (AList.lookup_eq_none.mp hlookup)
    | some model' =>
      obtain rfl := Option.some.inj ((h.stays id model' hlookup).symm.trans hid)
      exact h'.idle id model' hlookup hgone

end EvictedTo

/-- Taking a model away leaves no more bytes. -/
theorem memTotal_erase_le (pool : ModelPool) (id : String) :
    mapSum LoadedModel.memBytes (pool.loaded.erase id) ≤ pool.memTotal := by
  cases hlookup : pool.loaded.lookup id with
  | none =>
    rw [erase_of_notMem (AList.lookup_eq_none.mp hlookup)]
    exact le_rfl
  | some model =>
    have hsum := mapSum_erase LoadedModel.memBytes hlookup
    rw [memTotal]
    omega

/-- **One eviction** keeps the invariant; where it succeeds a model is gone that no request
was counted for. -/
theorem evictOne_spec {pool pool' : ModelPool} {out : Except ServerError Unit} (h : pool.Inv)
    (hevict : pool.evictOne = (pool', out)) :
    pool'.Inv ∧ EvictedTo pool pool' ∧
      (out = .ok () → pool'.loaded.keys.length < pool.loaded.keys.length) := by
  have htracks := h.tracks
  cases hlru : pool.lru.inner with
  | nil =>
    rw [evictOne, LruQueue.evictLru, hlru] at hevict
    obtain ⟨rfl, rfl⟩ := Prod.mk.inj hevict
    exact ⟨h, .refl pool, fun hout => by cases hout⟩
  | cons victim rest =>
    rw [evictOne, LruQueue.evictLru, hlru] at hevict
    rw [hlru] at htracks
    have hmem : victim ∈ pool.loaded.keys := htracks.mem_iff.mp List.mem_cons_self
    obtain ⟨model, hlookup⟩ : ∃ model, pool.loaded.lookup victim = some model :=
      Option.isSome_iff_exists.mp (AList.lookup_isSome.mpr (AList.mem_keys.mpr hmem))
    dsimp only at hevict
    rw [hlookup, Option.map_some, Option.getD_some] at hevict
    split at hevict
    · -- the victim is busy: it goes to the other end of the queue
      obtain ⟨rfl, rfl⟩ := Prod.mk.inj hevict
      refine ⟨⟨?_, h.room, h.memory⟩, ⟨rfl, rfl, le_rfl, fun _ _ hid => hid,
        (EvictedTo.refl pool).idle⟩, fun hout => by cases hout⟩
      have hpush := htracks.pop.insert victim
      have hperm := List.perm_cons_erase hmem
      refine ⟨hpush.nodup, hpush.perm.trans ?_⟩
      rw [List.erase_of_not_mem fun hin => ?_]
      · exact hperm.symm
      · exact (pool.loaded.keys_nodup.mem_erase_iff.mp hin).1 rfl
    · rename_i hidle
      obtain ⟨rfl, rfl⟩ := Prod.mk.inj hevict
      have hlen : (pool.loaded.keys.erase victim).length < pool.loaded.keys.length := by
        rw [List.length_erase_of_mem hmem]
        have := List.length_pos_of_mem hmem
        omega
      refine ⟨⟨?_, ?_, ?_⟩, ⟨rfl, rfl, memTotal_erase_le pool victim, ?_, ?_⟩, fun _ => ?_⟩
      · show Tracks rest (pool.loaded.erase victim).keys
        rw [AList.keys_erase]
        exact htracks.pop
      · show (pool.loaded.erase victim).keys.length ≤ pool.capacity
        rw [AList.keys_erase]
        exact Nat.le_trans (Nat.le_of_lt hlen) h.room
      · exact h.memory.imp_right (Nat.le_trans (memTotal_erase_le pool victim))
      · intro id model' hid
        have hne : id ≠ victim := by
          rintro rfl
          have hgone : (pool.loaded.erase id).lookup id = none := AList.lookup_erase id _
          cases hgone.symm.trans hid
        exact (AList.lookup_erase_ne hne).symm.trans hid
      · intro id model' hid hgone
        by_cases hne : id = victim
        · subst hne
          obtain rfl := Option.some.inj (hlookup.symm.trans hid)
          omega
        · refine absurd (AList.mem_erase.mpr ⟨hne, ?_⟩) hgone
          exact AList.lookup_isSome.mp (Option.isSome_of_eq_some hid)
      · show (pool.loaded.erase victim).keys.length < _
        rw [AList.keys_erase]
        exact hlen

/-- A successful eviction takes the front of the queue away. -/
theorem lru_evictOne {pool pool' : ModelPool} (h : pool.evictOne = (pool', .ok ())) :
    pool'.lru.len < pool.lru.len := by
  cases hlru : pool.lru.inner with
  | nil =>
    rw [evictOne, LruQueue.evictLru, hlru] at h
    cases h
  | cons victim rest =>
    rw [evictOne, LruQueue.evictLru, hlru] at h
    dsimp only at h
    split at h
    · cases h
    · obtain ⟨rfl, -⟩ := Prod.mk.inj h
      show rest.length < pool.lru.inner.length
      rw [hlru, List.length_cons]
      omega

/-- **The rounds are enough**: more of them change nothing. -/
theorem evictLoop_stable (needed : ℕ) {rounds : ℕ} {pool : ModelPool}
    (h : pool.lru.len < rounds) :
    evictLoop needed rounds pool = evictLoop needed (pool.lru.len + 1) pool := by
  induction rounds using Nat.strong_induction_on generalizing pool with
  | _ rounds ih =>
    obtain ⟨rounds, rfl⟩ : ∃ r, rounds = r + 1 := ⟨rounds - 1, by omega⟩
    rw [evictLoop, evictLoop]
    cases hevict : pool.evictOne with
    | mk pool' out =>
      cases out with
      | error e => rfl
      | ok u =>
        have hlen := lru_evictOne hevict
        have hrest : evictLoop needed rounds pool' = evictLoop needed pool.lru.len pool' := by
          rw [ih rounds (by omega) (by omega)]
          rcases Nat.lt_or_ge pool.lru.len (rounds + 1) with hlt | hge
          · exact (ih pool.lru.len hlt hlen).symm
          · omega
        simp only [hrest]

/-- **The loop** keeps the invariant; where it succeeds the bytes fit. -/
theorem evictLoop_spec {needed rounds : ℕ} {pool pool' : ModelPool}
    {out : Except ServerError Unit} (h : pool.Inv)
    (hloop : evictLoop needed rounds pool = some (pool', out)) :
    pool'.Inv ∧ EvictedTo pool pool' ∧
      (out = .ok () → pool'.memTotal + needed ≤ pool'.memBudgetBytes) := by
  induction rounds generalizing pool with
  | zero => cases hloop
  | succ rounds ih =>
    rw [evictLoop] at hloop
    obtain ⟨current, hcurrent, hloop⟩ := Option.bind_eq_some_iff.mp hloop
    obtain ⟨wanted, hwanted, hloop⟩ := Option.bind_eq_some_iff.mp hloop
    have htotal : current = pool.memTotal := by
      rw [currentMemBytes] at hcurrent
      split at hcurrent
      · exact (Option.some.inj hcurrent).symm
      · cases hcurrent
    have hsum : wanted = current + needed := by
      rw [usizeAdd] at hwanted
      split at hwanted
      · exact (Option.some.inj hwanted).symm
      · cases hwanted
    split at hloop
    · cases hevict : pool.evictOne with
      | mk pool₁ out₁ =>
        obtain ⟨hinv, hto, -⟩ := evictOne_spec h hevict
        rw [hevict] at hloop
        cases out₁ with
        | error e =>
          obtain ⟨rfl, rfl⟩ := Prod.mk.inj (Option.some.inj hloop)
          exact ⟨hinv, hto, fun hout => by cases hout⟩
        | ok u =>
          obtain ⟨hinv', hto', hfits⟩ := ih hinv hloop
          exact ⟨hinv', hto.trans hto', hfits⟩
    · obtain ⟨rfl, rfl⟩ := Prod.mk.inj (Option.some.inj hloop)
      exact ⟨h, .refl pool, fun _ => by omega⟩

/-- The same of the loop with its rounds, where a budget of 0 is none. -/
theorem evictUntilBudget_spec {needed : ℕ} {pool pool' : ModelPool}
    {out : Except ServerError Unit} (h : pool.Inv)
    (hbudget : pool.evictUntilBudget needed = some (pool', out)) :
    pool'.Inv ∧ EvictedTo pool pool' ∧ (out = .ok () →
      pool'.memBudgetBytes = 0 ∨ pool'.memTotal + needed ≤ pool'.memBudgetBytes) := by
  rw [evictUntilBudget] at hbudget
  split at hbudget
  · rename_i hzero
    obtain ⟨rfl, rfl⟩ := Prod.mk.inj (Option.some.inj hbudget)
    exact ⟨h, .refl pool, fun _ => .inl hzero⟩
  · obtain ⟨hinv, hto, hfits⟩ := evictLoop_spec h hbudget
    exact ⟨hinv, hto, fun hout => .inr (hfits hout)⟩

/-- **Making room** keeps the invariant; where it succeeds there is room for one more model
with the bytes asked for. -/
theorem makeRoom_spec {needed : ℕ} {pool pool' : ModelPool} {out : Except ServerError Unit}
    (h : pool.Inv) (hroom : pool.makeRoom needed = some (pool', out)) :
    pool'.Inv ∧ EvictedTo pool pool' ∧
      (out = .ok () → pool'.loaded.keys.length < pool'.capacity ∧
        (pool'.memBudgetBytes = 0 ∨ pool'.memTotal + needed ≤ pool'.memBudgetBytes)) := by
  rw [makeRoom] at hroom
  cases hbudget : pool.evictUntilBudget needed with
  | none =>
    rw [hbudget] at hroom
    cases hroom
  | some result =>
    obtain ⟨pool₁, out₁⟩ := result
    rw [hbudget] at hroom
    obtain ⟨hinv, hto, hfits⟩ := evictUntilBudget_spec h hbudget
    cases out₁ with
    | error e =>
      obtain ⟨rfl, rfl⟩ := Prod.mk.inj (Option.some.inj hroom)
      exact ⟨hinv, hto, fun hout => by cases hout⟩
    | ok u =>
      dsimp only at hroom
      split at hroom
      · obtain ⟨hinv', hto', hshrinks⟩ := evictOne_spec hinv (Option.some.inj hroom)
        refine ⟨hinv', hto.trans hto', fun hout => ⟨?_, ?_⟩⟩
        · have := hshrinks hout
          have := hinv.room
          rw [hto'.capacity]
          omega
        · rw [hto'.budget]
          have hbytes := hto'.bytes
          exact (hfits rfl).imp_right fun hle => by omega
      · obtain ⟨rfl, rfl⟩ := Prod.mk.inj (Option.some.inj hroom)
        exact ⟨hinv, hto, fun _ => ⟨by omega, hfits rfl⟩⟩

/-- **A new entry**, once there is room for it, keeps the invariant. -/
theorem Inv.insertLoaded {pool : ModelPool} (h : pool.Inv) (id : String) (model : LoadedModel)
    (hroom : pool.loaded.keys.length < pool.capacity)
    (hmem : pool.memBudgetBytes = 0 ∨
      pool.memTotal + model.memBytes ≤ pool.memBudgetBytes) :
    (pool.insertLoaded id model).Inv where
  tracks := by
    show Tracks (touch id pool.lru.inner) (pool.loaded.insert id model).keys
    rw [AList.keys_insert]
    exact h.tracks.insert id
  room := by
    show (pool.loaded.insert id model).keys.length ≤ pool.capacity
    rw [AList.keys_insert, List.length_cons]
    have := List.length_erase_le (a := id) (l := pool.loaded.keys)
    omega
  memory := by
    refine hmem.imp_right fun hle => ?_
    have hsum : (pool.insertLoaded id model).memTotal =
        model.memBytes + mapSum LoadedModel.memBytes (pool.loaded.erase id) :=
      mapSum_insert LoadedModel.memBytes pool.loaded id model
    have hold := memTotal_erase_le pool id
    rw [hsum]
    show _ ≤ pool.memBudgetBytes
    omega

/-- Changing the entry of a loaded model, but not its bytes. -/
theorem Inv.update {pool : ModelPool} (h : pool.Inv) {id : String} {model : LoadedModel}
    (hlookup : pool.loaded.lookup id = some model) (model' : LoadedModel)
    (hbytes : model'.memBytes = model.memBytes) :
    Tracks pool.lru.inner (pool.loaded.insert id model').keys ∧
      (pool.loaded.insert id model').keys.length ≤ pool.capacity ∧
      (pool.memBudgetBytes = 0 ∨
        mapSum LoadedModel.memBytes (pool.loaded.insert id model') ≤ pool.memBudgetBytes) := by
  have hmem : id ∈ pool.loaded.keys :=
    AList.mem_keys.mp (AList.lookup_isSome.mp (Option.isSome_of_eq_some hlookup))
  have hperm : (pool.loaded.insert id model').keys.Perm pool.loaded.keys := by
    rw [AList.keys_insert]
    exact (List.perm_cons_erase hmem).symm
  refine ⟨⟨h.tracks.nodup, h.tracks.perm.trans hperm.symm⟩, ?_, ?_⟩
  · rw [hperm.length_eq]
    exact h.room
  · rw [mapSum_insert, hbytes, mapSum_erase LoadedModel.memBytes hlookup]
    exact h.memory

theorem inv_acquire {pool pool' : ModelPool} {id : String} {ext : Option ModelLoader}
    {env : LoadEnv} {out : Except ServerError Unit} (h : pool.Inv)
    (hcall : pool.acquire id ext env = some (pool', out)) : pool'.Inv := by
  rw [acquire] at hcall
  cases hlookup : pool.loaded.lookup id with
  | some model =>
    rw [hlookup] at hcall
    obtain ⟨rfl, rfl⟩ := Prod.mk.inj (Option.some.inj hcall)
    obtain ⟨htracks, hroom, hmem⟩ := h.update hlookup
      { model with inflight := saturatingAdd model.inflight 1, lastUsed := env.now } rfl
    refine ⟨?_, hroom, hmem⟩
    have hin : id ∈ (pool.loaded.insert id { model with
        inflight := saturatingAdd model.inflight 1, lastUsed := env.now }).keys :=
      AList.mem_keys.mp ((AList.mem_insert _).mpr (.inl rfl))
    exact htracks.touch hin
  | none =>
    rw [hlookup] at hcall
    dsimp only at hcall
    split at hcall
    · obtain ⟨rfl, rfl⟩ := Prod.mk.inj (Option.some.inj hcall)
      exact h
    · split at hcall
      · cases hcall
      · rename_i hroom
        obtain ⟨rfl, rfl⟩ := Prod.mk.inj (Option.some.inj hcall)
        exact (makeRoom_spec h hroom).1
      · rename_i hroom
        obtain ⟨hinv, -, hfits⟩ := makeRoom_spec h hroom
        split at hcall
        · obtain ⟨rfl, rfl⟩ := Prod.mk.inj (Option.some.inj hcall)
          exact hinv
        · obtain ⟨rfl, rfl⟩ := Prod.mk.inj (Option.some.inj hcall)
          exact hinv.insertLoaded id _ (hfits rfl).1 (hfits rfl).2

theorem inv_markReady {pool pool' : ModelPool} {id : String} {memBytes now : ℕ}
    {out : Except ServerError Unit} (h : pool.Inv)
    (hcall : pool.markReady id memBytes now = some (pool', out)) : pool'.Inv := by
  rw [markReady] at hcall
  split at hcall
  · cases hcall
  · rename_i hroom
    obtain ⟨rfl, rfl⟩ := Prod.mk.inj (Option.some.inj hcall)
    exact (makeRoom_spec h hroom).1
  · rename_i hroom
    obtain ⟨hinv, -, hfits⟩ := makeRoom_spec h hroom
    obtain ⟨rfl, rfl⟩ := Prod.mk.inj (Option.some.inj hcall)
    have hinsert := hinv.insertLoaded id ⟨now, memBytes, 0⟩ (hfits rfl).1 (hfits rfl).2
    exact ⟨hinsert.tracks, hinsert.room, hinsert.memory⟩

/-- **Every call keeps the invariant.** -/
theorem inv_step {pool pool' : ModelPool} {call : Call} {out : Except ServerError Unit}
    (h : pool.Inv) (hs : pool.step call = some (pool', out)) : pool'.Inv := by
  cases call with
  | acquire id ext env => exact inv_acquire h hs
  | markReady id memBytes now => exact inv_markReady h hs
  | adminLoaded id now => exact inv_markReady h hs
  | adminLoad id spec =>
    obtain ⟨rfl, rfl⟩ := Prod.mk.inj (Option.some.inj hs)
    exact ⟨h.tracks, h.room, h.memory⟩
  | markFailed id reason =>
    obtain ⟨rfl, rfl⟩ := Prod.mk.inj (Option.some.inj hs)
    rw [markFailed]
    split
    · exact ⟨h.tracks, h.room, h.memory⟩
    · exact h
  | release id =>
    obtain ⟨rfl, rfl⟩ := Prod.mk.inj (Option.some.inj hs)
    rw [release]
    split
    · rename_i model hlookup
      obtain ⟨htracks, hroom, hmem⟩ := h.update hlookup
        { model with inflight := model.inflight - 1 } rfl
      exact ⟨htracks, hroom, hmem⟩
    · exact h
  | unload id =>
    rw [step, unload] at hs
    split at hs
    · obtain ⟨rfl, rfl⟩ := Prod.mk.inj (Option.some.inj hs)
      exact h
    · obtain ⟨rfl, rfl⟩ := Prod.mk.inj (Option.some.inj hs)
      refine ⟨?_, ?_, ?_⟩
      · show Tracks (pool.lru.inner.filter (· ≠ id)) (pool.loaded.erase id).keys
        rw [AList.keys_erase]
        exact h.tracks.remove id
      · show (pool.loaded.erase id).keys.length ≤ pool.capacity
        rw [AList.keys_erase]
        exact Nat.le_trans List.length_erase_le h.room
      · exact h.memory.imp_right (Nat.le_trans (memTotal_erase_le pool id))

end ModelPool

end Server

end Oxillama
