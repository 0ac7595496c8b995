/-
The in-flight counters of the model pool against the acquisitions outstanding.

* `Watched` — a pool together with what its callers hold: how often each model has been
  acquired and not yet released, and whether a model was ever evicted that someone held;
* `Watched.Guard` — no acquisition is outstanding when a new entry is put in for a model,
  and a counter has room for one more;
* `Watched.holds_iff_guarded` — **the pool's invariant holds in every state of a run exactly
  if every call meets its guard**;
* `Watched.ready_twice_and_unloaded` — a model marked ready twice is evicted while it is in
  use, and one that is unloaded and loaded again starts with a counter of 0.
-/
import Oxillama.Server.ModelPool

namespace Oxillama

namespace Server

/-- A pool, the outstanding acquisitions of each model, and whether a model with outstanding
acquisitions has been evicted. -/
structure Watched where
  pool : ModelPool
  held : String → ℕ
  busyEvicted : Bool

namespace Watched

/-- `ModelPool::new`. -/
def new (capacity memBudgetMb : ℕ) : Watched := ⟨.new capacity memBudgetMb, fun _ => 0, false⟩

/-- The bytes a call makes room for, if it does. -/
def wants (pool : ModelPool) : ModelPool.Call → Option ℕ
  | .acquire id extLoader env =>
    if id ∈ pool.loaded then none
    else ((extLoader.getD pool.loader).lookup id).map fun _ => estimateMemBytes env.fileSize
  | .markReady _ memBytes _ => some memBytes
  | .adminLoaded _ _ => some 0
  | _ => none

/-- The models a call evicts. -/
def evicted (pool : ModelPool) (call : ModelPool.Call) : List String :=
  match (wants pool call).bind pool.makeRoom with
  | none => []
  | some (pool', _) => pool.loaded.keys.filter fun id => id ∉ pool'.loaded

/-- What the callers hold after a call: an `acquire` that succeeds is outstanding until a
`release`. -/
def heldAfter (held : String → ℕ) : ModelPool.Call → Except ServerError Unit → String → ℕ
  | .acquire id _ _, .ok () => Function.update held id (held id + 1)
  | .release id, _ => Function.update held id (held id - 1)
  | _, _ => held

/-- One call. -/
def step (w : Watched) (call : ModelPool.Call) :
    Option (Watched × Except ServerError Unit) :=
  (w.pool.step call).map fun (pool, out) =>
    ({ pool
       held := heldAfter w.held call out
       busyEvicted := w.busyEvicted || (evicted w.pool call).any fun id => decide (0 < w.held id) },
      out)

/-- Each loaded model's counter is the number of its outstanding acquisitions. -/
def Counts (pool : ModelPool) (held : String → ℕ) : Prop :=
  ∀ id model, pool.loaded.lookup id = some model → model.inflight = held id

/-- **The invariant of the pool and its callers.** -/
structure Holds (w : Watched) : Prop where
  inv : w.pool.Inv
  counts : Counts w.pool w.held
  spared : w.busyEvicted = false

/-- There is room for `needed` more bytes, or it can be made. -/
def HasRoom (pool : ModelPool) (needed : ℕ) : Prop :=
  ∃ pool', pool.makeRoom needed = some (pool', .ok ())

/-- **The guard of a call.**  An `acquire` of a loaded model finds a counter that is not at
its maximum; an `acquire` that loads its model, and a `mark_ready`, find no outstanding
acquisition of it, unless there is no room for it. -/
def Guard (w : Watched) : ModelPool.Call → Prop
  | .acquire id extLoader env =>
    if id ∈ w.pool.loaded then w.held id < 2 ^ 64 - 1
    else (extLoader.getD w.pool.loader).lookup id ≠ none →
      HasRoom w.pool (estimateMemBytes env.fileSize) → env.outcome = .ok () → w.held id = 0
  | .markReady id memBytes _ => HasRoom w.pool memBytes → w.held id = 0
  | .adminLoaded id _ => HasRoom w.pool 0 → w.held id = 0
  | _ => True

theorem holds_new (capacity memBudgetMb : ℕ) : (new capacity memBudgetMb).Holds where
  inv := ModelPool.inv_new capacity memBudgetMb
  counts := fun _ _ h => by cases h
  spared := rfl

/-! ### What evictions do to the counters -/

theorem mem_of_lookup {pool : ModelPool} {id : String} {model : LoadedModel}
    (h : pool.loaded.lookup id = some model) : id ∈ pool.loaded :=
  AList.lookup_isSome.mp (Option.isSome_of_eq_some h)

/-- The models that stay keep their counters. -/
theorem Counts.evictedTo {pool pool' : ModelPool} {held : String → ℕ} (h : Counts pool held)
    (hto : ModelPool.EvictedTo pool pool') : Counts pool' held :=
  fun id model hid => h id model (hto.stays id model hid)

/-- **No call evicts a model that is held**, as long as the counters are right. -/
theorem Holds.spares {w : Watched} (h : w.Holds) (call : ModelPool.Call) :
    (evicted w.pool call).any (fun id => decide (0 < w.held id)) = false := by
  rw [evicted]
  split
  · rfl
  · rename_i pool' out hroom
    obtain ⟨needed, -, hroom⟩ := Option.bind_eq_some_iff.mp hroom
    obtain ⟨-, hto, -⟩ := ModelPool.makeRoom_spec h.inv hroom
    rw [List.any_eq_false]
    intro id hid
    rw [List.mem_filter, decide_eq_true_eq] at hid
    obtain ⟨model, hlookup⟩ := Option.isSome_iff_exists.mp
      (AList.lookup_isSome.mpr (AList.mem_keys.mpr hid.1))
    have hidle := hto.idle id model hlookup hid.2
    have hcount := h.counts id model hlookup
    simp only [decide_eq_true_eq]
    omega

/-- After a call from a state that holds, only the counters can be wrong. -/
theorem holds_iff_counts {w w' : Watched} {call : ModelPool.Call}
    {out : Except ServerError Unit} (h : w.Holds) (hs : w.step call = some (w', out)) :
    w'.Holds ↔ Counts w'.pool w'.held := by
  refine ⟨Holds.counts, fun hcounts => ?_⟩
  obtain ⟨⟨pool, out'⟩, hstep, heq⟩ := Option.map_eq_some_iff.mp hs
  cases heq
  refine ⟨ModelPool.inv_step h.inv hstep, hcounts, ?_⟩
  show (w.busyEvicted || _) = false
  rw [h.spared, h.spares, Bool.false_or]

/-- A new entry for a model: its counter has to be the number of acquisitions, and the
others are right already. -/
theorem counts_insert {loaded : AList fun _ : String => LoadedModel} {pool pool' : ModelPool}
    {held : String → ℕ} (hloaded : pool.loaded = loaded) {id : String} {model : LoadedModel}
    (hpool : pool'.loaded = loaded.insert id model) {n : ℕ} (h : Counts pool held) :
    Counts pool' (Function.update held id n) ↔ model.inflight = n := by
  subst hloaded
  constructor
  · intro hcounts
    have hnew := hcounts id model (by rw [hpool, AList.lookup_insert])
    rwa [Function.update_self] at hnew
  · intro hmodel k model' hk
    rw [hpool] at hk
    by_cases hkid : k = id
    · subst hkid
      rw [AList.lookup_insert] at hk
      obtain rfl := Option.some.inj hk
      rw [Function.update_self]
      exact hmodel
    · rw [AList.lookup_insert_ne hkid] at hk
      rw [Function.update_of_ne hkid]
      exact h k model' hk

/-! ### The guards are exact -/

/-- Loading a model, or marking it ready, with the counter at `n` and the callers at
`held id + n`. -/
theorem counts_insertLoaded {w : Watched} {pool₁ pool' : ModelPool} {needed n : ℕ}
    {id : String} {model : LoadedModel} (h : w.Holds)
    (hroom : w.pool.makeRoom needed = some (pool₁, .ok ()))
    (hpool : pool'.loaded = pool₁.loaded.insert id model) (hmodel : model.inflight = n) :
    Counts pool' (Function.update w.held id (w.held id + n)) ↔ w.held id = 0 := by
  obtain ⟨-, hto, -⟩ := ModelPool.makeRoom_spec h.inv hroom
  rw [counts_insert rfl hpool (h.counts.evictedTo hto), hmodel]
  omega

theorem guard_acquire {w w' : Watched} {id : String} {extLoader : Option ModelLoader}
    {env : LoadEnv} {out : Except ServerError Unit} (h : w.Holds)
    (hs : w.step (.acquire id extLoader env) = some (w', out)) :
    Counts w'.pool w'.held ↔ w.Guard (.acquire id extLoader env) := by
  obtain ⟨⟨pool, out'⟩, hstep, heq⟩ := Option.map_eq_some_iff.mp hs
  cases heq
  rw [ModelPool.step, ModelPool.acquire] at hstep
  rw [Guard]
  cases hlookup : w.pool.loaded.lookup id with
  | some model =>
    rw [hlookup] at hstep
    rw [if_pos (mem_of_lookup hlookup)]
    obtain ⟨rfl, rfl⟩ := Prod.mk.inj (Option.some.inj hstep)
    have hcount := h.counts id model hlookup
    refine (counts_insert rfl rfl h.counts).trans ?_
    show saturatingAdd model.inflight 1 = w.held id + 1 ↔ _
    rw [saturatingAdd, hcount]
    omega
  | none =>
    rw [hlookup] at hstep
    rw [if_neg (AList.lookup_eq_none.mp hlookup)]
    dsimp only at hstep
    cases hspec : (extLoader.getD w.pool.loader).lookup id with
    | none =>
      rw [hspec] at hstep
      obtain ⟨rfl, rfl⟩ := Prod.mk.inj (Option.some.inj hstep)
      exact ⟨fun _ hne => absurd rfl hne, fun _ => h.counts⟩
    | some spec =>
      rw [hspec] at hstep
      dsimp only at hstep
      cases hroom : w.pool.makeRoom (estimateMemBytes env.fileSize) with
      | none =>
        rw [hroom] at hstep
        cases hstep
      | some result =>
        obtain ⟨pool₁, out₁⟩ := result
        rw [hroom] at hstep
        have hkept : Counts pool₁ w.held :=
          h.counts.evictedTo (ModelPool.makeRoom_spec h.inv hroom).2.1
        cases out₁ with
        | error e =>
          obtain ⟨rfl, rfl⟩ := Prod.mk.inj (Option.some.inj hstep)
          refine ⟨fun _ _ hhas => ?_, fun _ => hkept⟩
          obtain ⟨pool', hok⟩ := hhas
          cases hroom.symm.trans hok
        | ok u =>
          dsimp only at hstep
          cases houtcome : env.outcome with
          | error message =>
            rw [houtcome] at hstep
            obtain ⟨rfl, rfl⟩ := Prod.mk.inj (Option.some.inj hstep)
            exact ⟨fun _ _ _ hok => (by cases hok), fun _ => hkept⟩
          | ok u =>
            rw [houtcome] at hstep
            obtain ⟨rfl, rfl⟩ := Prod.mk.inj (Option.some.inj hstep)
            refine Iff.trans (b := w.held id = 0) (counts_insertLoaded h hroom rfl rfl) ?_
            exact ⟨fun hzero _ _ _ => hzero,
              fun hguard => hguard (by simp) ⟨pool₁, hroom⟩ rfl⟩

theorem guard_markReady {w : Watched} {pool : ModelPool} {id : String} {memBytes now : ℕ}
    {out : Except ServerError Unit} (h : w.Holds)
    (hcall : w.pool.markReady id memBytes now = some (pool, out)) :
    Counts pool w.held ↔ (HasRoom w.pool memBytes → w.held id = 0) := by
  rw [ModelPool.markReady] at hcall
  cases hroom : w.pool.makeRoom memBytes with
  | none =>
    rw [hroom] at hcall
    cases hcall
  | some result =>
    obtain ⟨pool₁, out₁⟩ := result
    rw [hroom] at hcall
    cases out₁ with
    | error e =>
      obtain ⟨rfl, rfl⟩ := Prod.mk.inj (Option.some.inj hcall)
      refine ⟨fun _ hhas => ?_, fun _ => ?_⟩
      · obtain ⟨pool', hok⟩ := hhas
        cases hroom.symm.trans hok
      · exact h.counts.evictedTo (ModelPool.makeRoom_spec h.inv hroom).2.1
    | ok u =>
      obtain ⟨rfl, rfl⟩ := Prod.mk.inj (Option.some.inj hcall)
      have hcounts : Counts { pool₁.insertLoaded id ⟨now, memBytes, 0⟩ with
          pending := pool₁.pending.erase id } (Function.update w.held id (w.held id + 0)) ↔
            w.held id = 0 :=
        counts_insertLoaded h hroom rfl rfl
      rw [Nat.add_zero, Function.update_eq_self] at hcounts
      exact hcounts.trans ⟨fun hzero _ => hzero, fun hguard => hguard ⟨pool₁, hroom⟩⟩

/-- **A call keeps the invariant exactly if it meets its guard.** -/
theorem guard_exact {w w' : Watched} {call : ModelPool.Call} {out : Except ServerError Unit}
    (h : w.Holds) (hs : w.step call = some (w', out)) : w'.Holds ↔ w.Guard call := by
  rw [holds_iff_counts h hs]
  cases call with
  | acquire id extLoader env => exact guard_acquire h hs
  | markReady id memBytes now =>
    obtain ⟨⟨pool, out'⟩, hstep, heq⟩ := Option.map_eq_some_iff.mp hs
    cases heq
    exact guard_markReady h hstep
  | adminLoaded id now =>
    obtain ⟨⟨pool, out'⟩, hstep, heq⟩ := Option.map_eq_some_iff.mp hs
    cases heq
    exact guard_markReady h hstep
  | adminLoad id spec =>
    obtain ⟨⟨pool, out'⟩, hstep, heq⟩ := Option.map_eq_some_iff.mp hs
    cases heq
    obtain ⟨rfl, rfl⟩ := Prod.mk.inj (Option.some.inj hstep)
    exact iff_of_true h.counts trivial
  | markFailed id reason =>
    obtain ⟨⟨pool, out'⟩, hstep, heq⟩ := Option.map_eq_some_iff.mp hs
    cases heq
    obtain ⟨rfl, rfl⟩ := Prod.mk.inj (Option.some.inj hstep)
    refine iff_of_true ?_ trivial
    show Counts (w.pool.markFailed id reason) w.held
    rw [ModelPool.markFailed]
    split
    · exact h.counts
    · exact h.counts
  | release id =>
    obtain ⟨⟨pool, out'⟩, hstep, heq⟩ := Option.map_eq_some_iff.mp hs
    cases heq
    obtain ⟨rfl, rfl⟩ := Prod.mk.inj (Option.some.inj hstep)
    refine iff_of_true ?_ trivial
    show Counts (w.pool.release id) (Function.update w.held id (w.held id - 1))
    cases hlookup : w.pool.loaded.lookup id with
    | some model =>
      have hcount := h.counts id model hlookup
      have hpool : (w.pool.release id).loaded =
          w.pool.loaded.insert id { model with inflight := model.inflight - 1 } := by
        rw [ModelPool.release, hlookup]
      refine (counts_insert rfl hpool h.counts).mpr ?_
      show model.inflight - 1 = w.held id - 1
      rw [hcount]
    | none =>
      rw [ModelPool.release, hlookup]
      intro k model hk
      have hne : k ≠ id := by
        rintro rfl
        cases hlookup.symm.trans hk
      rw [Function.update_of_ne hne]
      exact h.counts k model hk
  | unload id =>
    obtain ⟨⟨pool, out'⟩, hstep, heq⟩ := Option.map_eq_some_iff.mp hs
    cases heq
    refine iff_of_true ?_ trivial
    rw [ModelPool.step, ModelPool.unload] at hstep
    split at hstep
    · obtain ⟨rfl, rfl⟩ := Prod.mk.inj (Option.some.inj hstep)
      exact h.counts
    · obtain ⟨rfl, rfl⟩ := Prod.mk.inj (Option.some.inj hstep)
      intro k model hk
      have hne : k ≠ id := by
        rintro rfl
        have hgone : (w.pool.loaded.erase k).lookup k = none := AList.lookup_erase k _
        cases hgone.symm.trans hk
      exact h.counts k model ((AList.lookup_erase_ne hne).symm.trans hk)

/-- A call that panics meets its guard: it panics before there is room. -/
theorem guard_of_panic {w : Watched} {call : ModelPool.Call} (hs : w.step call = none) :
    w.Guard call := by
  have hstep : w.pool.step call = none := Option.map_eq_none_iff.mp hs
  have hnone : ∀ {needed}, w.pool.makeRoom needed = none → ¬ HasRoom w.pool needed := by
    rintro needed hroom ⟨pool', hok⟩
    cases hroom.symm.trans hok
  cases call with
  | acquire id extLoader env =>
    rw [ModelPool.step, ModelPool.acquire] at hstep
    rw [Guard]
    split at hstep
    · cases hstep
    · rename_i hlookup
      rw [if_neg (AList.lookup_eq_none.mp hlookup)]
      split at hstep
      · cases hstep
      · cases hroom : w.pool.makeRoom (estimateMemBytes env.fileSize) with
        | none => exact fun _ hhas => absurd hhas (hnone hroom)
        | some result =>
          obtain ⟨pool₁, out₁⟩ := result
          dsimp only at hstep
          rw [hroom] at hstep
          cases out₁ with
          | error e => cases hstep
          | ok u =>
            dsimp only at hstep
            split at hstep
            · cases hstep
            · cases hstep
  | markReady id memBytes now =>
    rw [ModelPool.step, ModelPool.markReady] at hstep
    split at hstep
    · rename_i hroom
      exact fun hhas => absurd hhas (hnone hroom)
    · cases hstep
    · cases hstep
  | adminLoaded id now =>
    rw [ModelPool.step, ModelPool.markReady] at hstep
    split at hstep
    · rename_i hroom
      exact fun hhas => absurd hhas (hnone hroom)
    · cases hstep
    · cases hstep
  | adminLoad | markFailed | release | unload => trivial

/-- **The pool's invariant, exactly.**  The queue is a duplicate-free permutation of the
loaded models, they and their memory are within the limits, each counter is the number of
outstanding acquisitions and no model with one was evicted, in every state of a run, exactly
if every call of the run meets its guard. -/
theorem holds_iff_guarded (capacity memBudgetMb : ℕ) (calls : List ModelPool.Call) :
    Always step Holds (new capacity memBudgetMb) calls ↔
      StepsMeet step Guard (new capacity memBudgetMb) calls :=
  always_iff_stepsMeet (J := fun _ => True) (fun _ _ => trivial)
    (fun _ _ hs => guard_of_panic hs) (fun _ h hs => guard_exact h hs) trivial
    (holds_new capacity memBudgetMb) calls

/-- A model is loaded, acquired and marked ready again; two others are loaded. -/
def readyTwice : List ModelPool.Call :=
  [.adminLoaded "a" 0, .acquire "a" none ⟨1, none, .ok ()⟩, .adminLoaded "a" 2,
    .adminLoaded "b" 3, .adminLoaded "c" 4]

/-- A model is unloaded and loaded again while it is held. -/
def reloaded : List ModelPool.Call :=
  [.adminLoaded "a" 0, .acquire "a" none ⟨1, none, .ok ()⟩, .unload "a", .adminLoaded "a" 2]

/-- **A second `mark_ready` forgets the requests, and so do an unload and a load**, here in a
pool with room for two models. -/
theorem ready_twice_and_unloaded :
    (∃ tr w, runInputs step (new 2 0) readyTwice = some (tr, w) ∧
      w.held "a" = 1 ∧ w.busyEvicted = true) ∧
    ∃ tr w, runInputs step (new 2 0) reloaded = some (tr, w) ∧
      w.held "a" = 1 ∧ w.pool.loaded.lookup "a" = some ⟨2, 0, 0⟩ :=
  ⟨⟨_, _, rfl, rfl, rfl⟩, _, _, rfl, rfl, rfl⟩

end Watched

end Server

end Oxillama
