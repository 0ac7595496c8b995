/-
When the model pool can make room (`oxillama-server/src/router/pool.rs`, over the LRU queue
of `router/eviction.rs`).

An eviction takes the front of the LRU queue.  The loop goes on as long as the front is idle,
and gives up at the first model in flight, with the idle models behind it untouched and those
before it gone.

* `ModelPool.idleFront` — the models an eviction loop can reach;
* `ModelPool.evictLoop_reaches` — the loop makes the bytes fit if they fit without these, and
  otherwise evicts all of them and fails;
* `ModelPool.makeRoom_exact` — the same for both limits;
* `ModelPool.available_atomic_iff` — the reachable pools and sizes for which room is made
  whenever the models in flight leave it, and nothing is evicted in vain.
-/
import Oxillama.Server.ModelPool

namespace Oxillama

namespace Server

namespace ModelPool

/-! ### What the models in flight leave -/

/-- The bytes of the models in flight. -/
def busyBytes (pool : ModelPool) : ℕ :=
  mapSum (fun model => if 0 < model.inflight then model.memBytes else 0) pool.loaded

/-- The number of the models in flight. -/
def busyCount (pool : ModelPool) : ℕ :=
  mapSum (fun model => if 0 < model.inflight then 1 else 0) pool.loaded

/-- The models in flight alone leave too little: no place, or too few bytes of the budget. -/
def TooLittle (pool : ModelPool) (needed : ℕ) : Prop :=
  pool.capacity ≤ pool.busyCount ∨
    pool.memBudgetBytes ≠ 0 ∧ pool.memBudgetBytes < pool.busyBytes + needed

instance (pool : ModelPool) (needed : ℕ) : Decidable (pool.TooLittle needed) :=
  inferInstanceAs (Decidable (pool.capacity ≤ pool.busyCount ∨
    pool.memBudgetBytes ≠ 0 ∧ pool.memBudgetBytes < pool.busyBytes + needed))

/-- **Eviction is available and atomic** for a size: room is made unless the models in flight
leave too little, and where it is not made the loaded models are those of before. -/
structure AvailableAtomic (pool : ModelPool) (needed : ℕ) : Prop where
  available : (∃ pool', pool.makeRoom needed = some (pool', .ok ())) ∨ pool.TooLittle needed
  atomic : ∀ pool' e, pool.makeRoom needed = some (pool', .error e) → pool'.loaded = pool.loaded

/-! ### What evictions can reach -/

/-- No request for the model is in flight. -/
def idle (pool : ModelPool) (modelId : String) : Bool :=
  decide (((pool.loaded.lookup modelId).map LoadedModel.inflight).getD 0 = 0)

/-- The idle models that stand before the first one in flight. -/
def idleFront (pool : ModelPool) : List String := pool.lru.inner.takeWhile pool.idle

/-- The models that are left without these. -/
def left (pool : ModelPool) : AList fun _ : String => LoadedModel :=
  pool.idleFront.foldl (fun loaded modelId => loaded.erase modelId) pool.loaded

/-- Without the idle models at the front there is a place and enough of the budget. -/
def RoomLeft (pool : ModelPool) (needed : ℕ) : Prop :=
  pool.left.keys.length < pool.capacity ∧
    (pool.memBudgetBytes = 0 ∨
      mapSum LoadedModel.memBytes pool.left + needed ≤ pool.memBudgetBytes)

instance (pool : ModelPool) (needed : ℕ) : Decidable (pool.RoomLeft needed) :=
  inferInstanceAs (Decidable (pool.left.keys.length < pool.capacity ∧
    (pool.memBudgetBytes = 0 ∨
      mapSum LoadedModel.memBytes pool.left + needed ≤ pool.memBudgetBytes)))

/-- **The condition**: the idle models at the front leave enough room, or there are none and
the models in flight leave too little.  Where the sum of the bytes overflows, only the last
is of use. -/
def RoomMeets (pool : ModelPool) (needed : ℕ) : Prop :=
  if pool.memBudgetBytes ≠ 0 ∧ 2 ^ 64 ≤ pool.memTotal + needed then pool.TooLittle needed
  else pool.RoomLeft needed ∨ pool.idleFront = [] ∧ pool.TooLittle needed

instance (pool : ModelPool) (needed : ℕ) : Decidable (pool.RoomMeets needed) :=
  inferInstanceAs (Decidable (if pool.memBudgetBytes ≠ 0 ∧ 2 ^ 64 ≤ pool.memTotal + needed
    then pool.TooLittle needed
    else pool.RoomLeft needed ∨ pool.idleFront = [] ∧ pool.TooLittle needed))

variable {pool pool' : ModelPool} {needed : ℕ}

theorem foldl_erase_le (ids : List String) (loaded : AList fun _ : String => LoadedModel) :
    (ids.foldl (fun loaded modelId => loaded.erase modelId) loaded).keys.length ≤
        loaded.keys.length ∧
      mapSum LoadedModel.memBytes
          (ids.foldl (fun loaded modelId => loaded.erase modelId) loaded) ≤
        mapSum LoadedModel.memBytes loaded := by
  induction ids generalizing loaded with
  | nil => exact ⟨le_rfl, le_rfl⟩
  | cons id ids ih =>
    obtain ⟨hcount, hbytes⟩ := ih (loaded.erase id)
    have hbytes' : mapSum LoadedModel.memBytes (loaded.erase id) ≤
        mapSum LoadedModel.memBytes loaded := by
      by_cases hmem : id ∈ loaded
      · obtain ⟨model, hlookup⟩ := Option.isSome_iff_exists.1 (AList.lookup_isSome.2 hmem)
        have := mapSum_erase LoadedModel.memBytes hlookup
        omega
      · rw [erase_of_notMem hmem]
    have hcount' : (loaded.erase id).keys.length ≤ loaded.keys.length := by
      rw [AList.keys_erase]
      exact List.length_erase_le
    rw [List.foldl_cons]
    omega

theorem takeWhile_congr {p q : String → Bool} {ids : List String} (h : ∀ id ∈ ids, p id = q id) :
    ids.takeWhile p = ids.takeWhile q := by
  induction ids with
  | nil => rfl
  | cons id ids ih =>
    rw [List.takeWhile_cons, List.takeWhile_cons, h id List.mem_cons_self,
      ih fun id' hmem => h id' (List.mem_cons_of_mem _ hmem)]

theorem left_le (pool : ModelPool) :
    pool.left.keys.length ≤ pool.loaded.keys.length ∧
      mapSum LoadedModel.memBytes pool.left ≤ pool.memTotal :=
  foldl_erase_le pool.idleFront pool.loaded

theorem left_of_nil (h : pool.idleFront = []) : pool.left = pool.loaded := by
  rw [left, h]
  rfl

/-- An idle model at the front is loaded. -/
theorem mem_of_idleFront {id : String} {ids : List String} (h : pool.Inv)
    (hfront : pool.idleFront = id :: ids) : id ∈ pool.loaded := by
  have hmem : id ∈ pool.lru.inner := by
    refine (List.takeWhile_subset pool.idle) ?_
    rw [← idleFront, hfront]
    exact List.mem_cons_self
  exact AList.mem_keys.2 (h.tracks.mem_iff.1 hmem)

/-- With an idle model at the front, something is gone without the idle models. -/
theorem left_lt (h : pool.Inv) (hfront : pool.idleFront ≠ []) :
    pool.left.keys.length < pool.loaded.keys.length := by
  obtain ⟨id, ids, hids⟩ := List.exists_cons_of_ne_nil hfront
  have hmem := AList.mem_keys.1 (mem_of_idleFront h hids)
  have hle := (foldl_erase_le ids (pool.loaded.erase id)).1
  have hpos := List.length_pos_of_mem hmem
  rw [AList.keys_erase, List.length_erase_of_mem hmem] at hle
  rw [left, hids, List.foldl_cons]
  omega

/-! ### One eviction -/

/-- With no idle model at the front there is nothing to evict. -/
theorem evictOne_of_nil (hfront : pool.idleFront = []) :
    ∃ pool' e, pool.evictOne = (pool', .error e) ∧ pool'.loaded = pool.loaded := by
  rcases hlru : pool.lru.inner with - | ⟨victim, rest⟩
  · refine ⟨pool, .invalidRequest "no model to evict — pool is empty", ?_, rfl⟩
    rw [evictOne, LruQueue.evictLru, hlru]
  · rw [idleFront, hlru, List.takeWhile_cons] at hfront
    split at hfront
    · exact absurd hfront (List.cons_ne_nil _ _)
    · rename_i hbusy
      rw [idle, decide_eq_true_eq] at hbusy
      rw [evictOne, LruQueue.evictLru, hlru]
      dsimp only
      rw [if_pos (by omega)]
      exact ⟨_, _, rfl, rfl⟩

/-- **An idle model at the front** goes, and those behind it are then at the front. -/
theorem evictOne_of_cons {id : String} {ids : List String} (h : pool.Inv)
    (hfront : pool.idleFront = id :: ids) :
    ∃ pool', pool.evictOne = (pool', .ok ()) ∧ pool'.left = pool.left := by
  rcases hlru : pool.lru.inner with - | ⟨victim, rest⟩
  · rw [idleFront, hlru] at hfront
    cases hfront
  · have hnodup : victim ∉ rest := by
      have := h.tracks.nodup
      rw [hlru] at this
      exact (List.nodup_cons.1 this).1
    have hfront' := hfront
    rw [idleFront, hlru, List.takeWhile_cons] at hfront'
    split at hfront'
    · rename_i hidle
      obtain ⟨rfl, hids⟩ := List.cons.inj hfront'
      rw [idle, decide_eq_true_eq] at hidle
      rw [evictOne, LruQueue.evictLru, hlru]
      dsimp only
      rw [if_neg (by omega)]
      refine ⟨_, rfl, ?_⟩
      -- the models behind the victim are as idle as before
      have hrest : rest.takeWhile (idle { pool with
          lru := ⟨rest⟩, loaded := pool.loaded.erase victim }) = rest.takeWhile pool.idle := by
        refine takeWhile_congr fun id' hmem => ?_
        have hne : id' ≠ victim := fun heq => hnodup (heq ▸ hmem)
        rw [idle, idle, AList.lookup_erase_ne hne]
      rw [left, left, hfront, List.foldl_cons, ← hids, ← hrest]
      rfl
    · cases hfront'

/-! ### Making room -/

theorem currentMemBytes_add (hsum : pool.memTotal + needed < 2 ^ 64) :
    pool.currentMemBytes = some pool.memTotal ∧
      usizeAdd pool.memTotal needed = some (pool.memTotal + needed) := by
  rw [currentMemBytes, usizeAdd, if_pos (by omega), if_pos hsum]
  exact ⟨rfl, rfl⟩

/-- **The loop**, where the sums do not overflow: the bytes are made to fit if they fit without
the idle models at the front, with nothing evicted if they fit anyway; otherwise all of these
are evicted, and the loop fails. -/
theorem evictLoop_reaches {rounds : ℕ} (h : pool.Inv) (hrounds : pool.lru.len < rounds)
    (hsum : pool.memTotal + needed < 2 ^ 64) :
    (mapSum LoadedModel.memBytes pool.left + needed ≤ pool.memBudgetBytes →
      ∃ pool', evictLoop needed rounds pool = some (pool', .ok ()) ∧ pool'.left = pool.left ∧
        (pool' = pool ∨ pool'.loaded.keys.length < pool.loaded.keys.length)) ∧
    (pool.memBudgetBytes < mapSum LoadedModel.memBytes pool.left + needed →
      ∃ pool' e, evictLoop needed rounds pool = some (pool', .error e) ∧
        pool'.loaded = pool.left) := by
  induction rounds generalizing pool with
  | zero => omega
  | succ rounds ih =>
    obtain ⟨hcurrent, hwanted⟩ := currentMemBytes_add hsum
    have hleft := pool.left_le.2
    rw [evictLoop, hcurrent]
    simp only [Option.bind_eq_bind, Option.bind_some, hwanted]
    by_cases hfits : pool.memBudgetBytes < pool.memTotal + needed
    · rw [if_pos hfits]
      rcases hfront : pool.idleFront with - | ⟨id, ids⟩
      · obtain ⟨pool₁, e, hevict, hloaded⟩ := evictOne_of_nil hfront
        rw [hevict, left_of_nil hfront]
        refine ⟨fun hle => ?_, fun _ => ⟨pool₁, _, rfl, hloaded⟩⟩
        exact absurd hle (Nat.not_le_of_lt hfits)
      · obtain ⟨pool₁, hevict, hleft₁⟩ := evictOne_of_cons h hfront
        obtain ⟨hinv₁, hto, hless⟩ := evictOne_spec h hevict
        have hrounds₁ := lru_evictOne hevict
        have hbytes := hto.bytes
        obtain ⟨hok, herror⟩ := ih hinv₁ (by omega) (by omega)
        rw [hleft₁, hto.budget] at hok herror
        rw [hevict]
        refine ⟨fun hle => ?_, herror⟩
        obtain ⟨pool', hloop, hleft', hless'⟩ := hok hle
        refine ⟨pool', hloop, hleft', .inr ?_⟩
        have := hless rfl
        rcases hless' with rfl | hless'
        · exact this
        · omega
    · rw [if_neg hfits]
      refine ⟨fun _ => ⟨pool, rfl, rfl, .inl rfl⟩, fun hlt => ?_⟩
      omega

/-- The first half of making room, where its sums do not overflow. -/
theorem evictUntilBudget_reaches (h : pool.Inv)
    (hsum : pool.memBudgetBytes ≠ 0 → pool.memTotal + needed < 2 ^ 64) :
    (pool.memBudgetBytes = 0 ∨
        mapSum LoadedModel.memBytes pool.left + needed ≤ pool.memBudgetBytes →
      ∃ pool', pool.evictUntilBudget needed = some (pool', .ok ()) ∧ pool'.left = pool.left ∧
        (pool' = pool ∨ pool'.loaded.keys.length < pool.loaded.keys.length)) ∧
    (pool.memBudgetBytes ≠ 0 ∧
        pool.memBudgetBytes < mapSum LoadedModel.memBytes pool.left + needed →
      ∃ pool' e, pool.evictUntilBudget needed = some (pool', .error e) ∧
        pool'.loaded = pool.left) := by
  rw [evictUntilBudget]
  split
  · rename_i hzero
    exact ⟨fun _ => ⟨pool, rfl, rfl, .inl rfl⟩, fun hne => absurd hzero hne.1⟩
  · rename_i hne
    obtain ⟨hok, herror⟩ := evictLoop_reaches h (Nat.lt_succ_self _) (hsum hne)
    exact ⟨fun hle => hok (hle.resolve_left hne), fun hlt => herror hlt.2⟩

/-- **Making room**, where its sums do not overflow: it succeeds exactly if the idle models at
the front leave enough room, and a failure leaves the loaded models alone exactly if there
are none. -/
theorem makeRoom_exact (h : pool.Inv)
    (hsum : pool.memBudgetBytes ≠ 0 → pool.memTotal + needed < 2 ^ 64) :
    (pool.RoomLeft needed ∧ ∃ pool', pool.makeRoom needed = some (pool', .ok ())) ∨
      ¬ pool.RoomLeft needed ∧ ∃ pool' e, pool.makeRoom needed = some (pool', .error e) ∧
        (pool'.loaded = pool.loaded ↔ pool.idleFront = []) := by
  obtain ⟨hok, herror⟩ := evictUntilBudget_reaches h hsum
  have hunchanged : pool.left = pool.loaded ↔ pool.idleFront = [] := by
    refine ⟨fun heq => ?_, left_of_nil⟩
    by_contra hne
    have := left_lt h hne
    rw [heq] at this
    omega
  by_cases hbudget : pool.memBudgetBytes = 0 ∨
      mapSum LoadedModel.memBytes pool.left + needed ≤ pool.memBudgetBytes
  · obtain ⟨pool₁, hevict, hleft₁, hless⟩ := hok hbudget
    have hroom := h.room
    have hcapacity := (evictUntilBudget_spec h hevict).2.1.capacity
    rw [makeRoom, hevict]
    dsimp only
    split
    · rename_i hfull
      -- the pool is full only if nothing has been evicted for the bytes
      obtain rfl : pool₁ = pool := by
        rcases hless with heq | hless
        · exact heq
        · omega
      rcases hfront : pool₁.idleFront with - | ⟨id, ids⟩
      · obtain ⟨pool', e, hevict', hloaded⟩ := evictOne_of_nil hfront
        refine .inr ⟨fun hroom' => ?_, pool', e, by rw [hevict'], by simp [hloaded]⟩
        have hlt := hroom'.1
        rw [left_of_nil hfront] at hlt
        omega
      · obtain ⟨pool', hevict', -⟩ := evictOne_of_cons h hfront
        have hlt := left_lt h (hfront ▸ List.cons_ne_nil id ids)
        exact .inl ⟨⟨by omega, hbudget⟩, pool', by rw [hevict']⟩
    · rename_i hplace
      have hle := pool₁.left_le.1
      rw [hleft₁] at hle
      exact .inl ⟨⟨by omega, hbudget⟩, pool₁, rfl⟩
  · obtain ⟨hne, hlt⟩ := not_or.1 hbudget
    obtain ⟨pool', e, hevict, hloaded⟩ := herror ⟨hne, Nat.lt_of_not_le hlt⟩
    refine .inr ⟨fun hroom => hbudget hroom.2, pool', e, ?_, ?_⟩
    · rw [makeRoom, hevict]
    · rw [hloaded]
      exact hunchanged

/-- Where the sum overflows, making room panics. -/
theorem makeRoom_of_overflow (hbudget : pool.memBudgetBytes ≠ 0)
    (hsum : 2 ^ 64 ≤ pool.memTotal + needed) : pool.makeRoom needed = none := by
  have hloop : evictLoop needed (pool.lru.len + 1) pool = none := by
    rw [evictLoop, currentMemBytes]
    split
    · rw [Option.bind_eq_bind, Option.bind_some, usizeAdd, if_neg (by omega)]
      rfl
    · rfl
  rw [makeRoom, evictUntilBudget, if_neg hbudget, hloop]

/-- **For every reachable pool and every size**: room is made unless the models in flight
leave too little, with no model evicted in vain, exactly if the condition is met. -/
theorem available_atomic_iff {capacity memBudgetMb : ℕ}
    {tr : List (Call × Except ServerError Unit)}
    (hrun : Run step (new capacity memBudgetMb) tr pool) (needed : ℕ) :
    pool.AvailableAtomic needed ↔ pool.RoomMeets needed := by
  have h : pool.Inv := hrun.invariant inv_step (inv_new capacity memBudgetMb)
  rw [RoomMeets]
  split
  · rename_i hsum
    have hnone := makeRoom_of_overflow hsum.1 hsum.2
    refine ⟨fun ⟨hok, _⟩ => ?_, fun hless => ⟨.inr hless, fun pool' e herror => ?_⟩⟩
    · rcases hok with ⟨pool', hok⟩ | hless
      · rw [hnone] at hok
        cases hok
      · exact hless
    · rw [hnone] at herror
      cases herror
  · rename_i hsum
    have hexact := makeRoom_exact h fun hbudget => Nat.lt_of_not_le fun hle => hsum ⟨hbudget, hle⟩
    rcases hexact with ⟨hleft, pool₁, hok⟩ | ⟨hleft, pool₁, e₁, herror, hsame⟩
    · refine ⟨fun _ => .inl hleft, fun _ => ⟨.inl ⟨pool₁, hok⟩, fun pool' e herror => ?_⟩⟩
      rw [hok] at herror
      cases herror
    · constructor
      · intro ⟨hok, hatomic⟩
        refine .inr ⟨hsame.1 (hatomic pool₁ e₁ herror), ?_⟩
        rcases hok with ⟨pool', hok⟩ | hless
        · rw [herror] at hok
          cases hok
        · exact hless
      · rintro (hroom | ⟨hnil, hless⟩)
        · exact absurd hroom hleft
        · refine ⟨.inr hless, fun pool' e herror' => ?_⟩
          rw [herror] at herror'
          cases herror'
          exact hsame.2 hnil

/-- A model is in flight, and a second one is idle behind it. -/
def idleBehind : List Call :=
  [.adminLoaded "a" 0, .acquire "a" none ⟨1, none, .ok ()⟩, .adminLoaded "b" 2]

/-- Of two models of 64 MiB the one used first is idle, and the other one is in flight. -/
def idleBefore : List Call :=
  [.adminLoad "a" ⟨"a.gguf", none⟩, .acquire "a" none ⟨1, some 0, .ok ()⟩, .release "a",
    .adminLoad "b" ⟨"b.gguf", none⟩, .acquire "b" none ⟨2, some 0, .ok ()⟩]

/-- Two idle models leave room for a third one. -/
theorem available_twoIdle : ∃ tr pool,
    runInputs step (new 2 0) [.adminLoaded "a" 0, .adminLoaded "b" 1] = some (tr, pool) ∧
      pool.AvailableAtomic 0 := by
  obtain ⟨⟨tr, pool⟩, hrun⟩ : ∃ reached, runInputs step (new 2 0)
      [.adminLoaded "a" 0, .adminLoaded "b" 1] = some reached := ⟨_, rfl⟩
  refine ⟨tr, pool, hrun, (available_atomic_iff (run_of_runInputs hrun) 0).2 ?_⟩
  cases hrun
  decide

/-- **A model in flight at the front blocks** the idle ones behind it, here in a pool with two
places; and where it stands behind an idle one, that one is **evicted in vain**, here for
150 MiB of a budget of 200. -/
theorem blocked_and_in_vain :
    (∃ tr pool pool' e, runInputs step (new 2 0) idleBehind = some (tr, pool) ∧
      ¬ pool.TooLittle 0 ∧ pool.makeRoom 0 = some (pool', .error e)) ∧
    ∃ tr pool pool' e, runInputs step (new 2 200) idleBefore = some (tr, pool) ∧
      157286400 ≤ pool.memBudgetBytes ∧ pool.makeRoom 157286400 = some (pool', .error e) ∧
      pool.loaded.keys = ["b", "a"] ∧ pool'.loaded.keys = ["b"] :=
  ⟨⟨_, _, _, _, rfl, by decide, rfl⟩, _, _, _, _, rfl, by decide, rfl, rfl, rfl⟩

end ModelPool

end Server

end Oxillama
