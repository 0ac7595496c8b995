/-
Caches that look alike.

A failed forward pass may leave a row behind the committed ones; no later call can tell, because
that row is written before it is read.  `settle` takes it away, so whatever is known of settled
caches carries over (`Backed`).

* `Backed.forwardFrom` — a forward pass on any backed cache refines the pass on visible rows;
* `Alike.forwardFrom`, `Alike.truncate`, `Alike.clear` — caches that look alike are answered
  alike, and still look alike;
* `restoreFromPayload_toPayload` — an `f32` cache restored from the payload of another one shows
  the same rows, whatever the element type of the other.
-/
import Oxillama.Kv.PureForward

namespace Oxillama

namespace Kv

namespace KvCache

/-- `KvCache::to_payload`. -/
def toPayload (half : Half) (cache : KvCache) : KvStatePayload where
  keys := cache.keys.map (LayerBuf.toF32PrefixVec half (cache.seqLen * cache.kvDim))
  values := cache.values.map (LayerBuf.toF32PrefixVec half (cache.seqLen * cache.kvDim))
  seqLen := cache.seqLen
  numLayers := cache.numLayers
  maxSeqLen := cache.maxSeqLen
  kvDim := cache.kvDim

/-- The cache without a row behind the committed ones. -/
def settle (cache : KvCache) : KvCache := { cache with storedLen := cache.seqLen }

/-- All committed rows are backed. -/
structure Backed (cache : KvCache) : Prop where
  shape : cache.Shape
  keys : ∀ buf ∈ cache.keys, cache.seqLen * cache.kvDim ≤ buf.len
  values : ∀ buf ∈ cache.values, cache.seqLen * cache.kvDim ≤ buf.len

theorem Settled.backed {cache : KvCache} (h : cache.Settled) : cache.Backed :=
  ⟨h.shape, h.keys, h.values⟩

theorem Backed.settled {cache : KvCache} (h : cache.Backed) : cache.settle.Settled where
  shape := { h.shape with seqLen_le := le_rfl, storedLen_le := Nat.le_succ _ }
  stored := rfl
  keys := h.keys
  values := h.values

/-! ### A row behind the committed ones -/

/-- The second cache is the first one with another number of stored rows, none or one behind the
committed ones. -/
def Near (cache other : KvCache) : Prop :=
  ∃ stored, other = { cache with storedLen := stored } ∧
    cache.seqLen ≤ cache.storedLen ∧ cache.storedLen ≤ cache.seqLen + 1 ∧
    cache.seqLen ≤ stored ∧ stored ≤ cache.seqLen + 1

section Near

variable {cache other after : KvCache} {half : Half} {pass : TokenPass}

theorem Backed.near (h : cache.Backed) : Near cache.settle cache :=
  ⟨cache.storedLen, rfl, le_rfl, Nat.le_succ _, h.shape.seqLen_le, h.shape.storedLen_le⟩

/-- A cache near a backed one is backed. -/
theorem Near.backed (h : Near cache other) (hcache : cache.Backed) : other.Backed := by
  obtain ⟨stored, rfl, -, -, hlow, hhigh⟩ := h
  exact ⟨{ hcache.shape with seqLen_le := hlow, storedLen_le := hhigh }, hcache.keys,
    hcache.values⟩

private theorem ensureCapacity_stored (cache : KvCache) (stored tokens : ℕ) :
    ({ cache with storedLen := stored } : KvCache).ensureCapacity tokens =
      { cache.ensureCapacity tokens with storedLen := stored } := by
  unfold ensureCapacity
  split
  · rfl
  · rfl

theorem Near.storeKv (h : Near cache other) {layer : ℕ} {key value : List F32}
    {answer : ArchResult Unit} (hrun : cache.storeKv half layer key value = some (after, answer)) :
    ∃ after', other.storeKv half layer key value = some (after', answer) ∧ Near after after' := by
  have hnear := h
  obtain ⟨stored, rfl, hlow, hhigh, hlow', hhigh'⟩ := h
  unfold KvCache.storeKv at hrun ⊢
  by_cases hlayer : cache.numLayers ≤ layer
  · rw [if_pos hlayer] at hrun ⊢
    cases hrun
    exact ⟨_, rfl, hnear⟩
  by_cases hroom : cache.maxSeqLen ≤ cache.seqLen
  · rw [if_neg hlayer, if_pos hroom] at hrun ⊢
    cases hrun
    exact ⟨_, rfl, hnear⟩
  by_cases hshort : key.length < cache.kvDim ∨ value.length < cache.kvDim
  · rw [if_neg hlayer, if_neg hroom, if_pos hshort] at hrun ⊢
    cases hrun
    exact ⟨_, rfl, hnear⟩
  -- both caches store the row at the current position, and then have the same rows
  rw [if_neg hlayer, if_neg hroom, if_neg hshort] at hrun ⊢
  obtain ⟨keys, hkeys, hrun⟩ := Option.bind_eq_some_iff.mp hrun
  obtain ⟨values, hvalues, hrun⟩ := Option.bind_eq_some_iff.mp hrun
  cases hrun
  refine ⟨{ cache.ensureCapacity (cache.seqLen + 1) with
    keys := keys
    values := values
    storedLen := max stored (cache.seqLen + 1) }, ?_, ?_⟩
  · dsimp only
    rw [ensureCapacity_stored]
    exact Option.bind_eq_some_iff.mpr ⟨keys, hkeys, Option.bind_eq_some_iff.mpr
      ⟨values, hvalues, rfl⟩⟩
  · have hseq : (cache.ensureCapacity (cache.seqLen + 1)).seqLen = cache.seqLen := by
      unfold ensureCapacity
      split
      · rfl
      · rfl
    refine ⟨_, rfl, ?_, ?_, ?_, ?_⟩
    all_goals
      dsimp only
      rw [hseq]
      omega

theorem Near.storeRows (h : Near cache other) {rows : ℕ → KvRow} {n : ℕ}
    {answer : ArchResult Unit} (hrun : cache.storeRows half rows n = some (after, answer)) :
    ∃ after', other.storeRows half rows n = some (after', answer) ∧ Near after after' := by
  induction n generalizing after answer with
  | zero =>
    cases hrun
    exact ⟨other, rfl, h⟩
  | succ n ih =>
    obtain ⟨⟨stored, result⟩, hstored, hrun⟩ := Option.bind_eq_some_iff.mp hrun
    obtain ⟨stored', hstored', hnear⟩ := ih hstored
    rw [KvCache.storeRows, hstored', Option.bind_eq_bind, Option.bind_some]
    cases result with
    | error e =>
      cases hrun
      exact ⟨stored', rfl, hnear⟩
    | ok u => exact hnear.storeKv hrun

theorem Near.advance (h : Near cache other) : Near cache.advance other.advance := by
  have hnear := h
  obtain ⟨stored, rfl, hlow, hhigh, hlow', hhigh'⟩ := h
  unfold KvCache.advance
  by_cases hroom : cache.seqLen < cache.maxSeqLen
  · rw [if_pos hroom, if_pos (show cache.seqLen < cache.maxSeqLen from hroom)]
    refine ⟨_, rfl, ?_, ?_, ?_, ?_⟩
    all_goals
      dsimp only
      omega
  · rw [if_neg hroom, if_neg (show ¬ cache.seqLen < cache.maxSeqLen from hroom)]
    exact hnear

theorem Near.forwardToken (h : Near cache other) {token : Token} {answer : ArchResult (List F32)}
    (hrun : cache.forwardToken half pass token = some (after, answer)) :
    ∃ after', other.forwardToken half pass token = some (after', answer) ∧ Near after after' := by
  have hvisible : other.visible half = cache.visible half := by
    obtain ⟨stored, rfl, -⟩ := h
    rfl
  have hlayers : other.numLayers = cache.numLayers := by
    obtain ⟨stored, rfl, -⟩ := h
    rfl
  unfold KvCache.forwardToken at hrun ⊢
  rw [hvisible]
  cases hpass : pass (cache.visible half) token with
  | error e =>
    rw [hpass] at hrun
    cases hrun
    exact ⟨other, rfl, h⟩
  | ok computed =>
    obtain ⟨rows, logits⟩ := computed
    rw [hpass] at hrun
    obtain ⟨⟨stored, result⟩, hstored, hrun⟩ := Option.bind_eq_some_iff.mp hrun
    obtain ⟨stored', hstored', hnear⟩ := h.storeRows hstored
    dsimp only
    rw [hlayers, hstored', Option.bind_eq_bind, Option.bind_some]
    cases result with
    | error e =>
      cases hrun
      exact ⟨stored', rfl, hnear⟩
    | ok u =>
      cases hrun
      exact ⟨stored'.advance, rfl, hnear.advance⟩

theorem Near.forwardFrom (h : Near cache other) {logits : List F32} {tokens : List Token}
    {answer : ArchResult (List F32)}
    (hrun : cache.forwardFrom half pass logits tokens = some (after, answer)) :
    ∃ after', other.forwardFrom half pass logits tokens = some (after', answer) ∧
      Near after after' := by
  induction tokens generalizing cache other logits with
  | nil =>
    cases hrun
    exact ⟨other, rfl, h⟩
  | cons token tokens ih =>
    obtain ⟨⟨next, result⟩, hnext, hrun⟩ := Option.bind_eq_some_iff.mp hrun
    obtain ⟨next', hnext', hnear⟩ := h.forwardToken hnext
    rw [KvCache.forwardFrom, hnext', Option.bind_eq_bind, Option.bind_some]
    cases result with
    | error e =>
      cases hrun
      exact ⟨next', rfl, hnear⟩
    | ok logits => exact ih hnear hrun

end Near

/-! ### Backed caches -/

section Backed

variable {cache after : KvCache} {half : Half} {pass : TokenPass}

theorem Filled.rows_backed {rows : ℕ → KvRow} {n : ℕ} (h : Filled half rows n cache after) :
    after.Backed := by
  have hd : after.kvDim = cache.kvDim := congrArg Geometry.kvDim h.geometry
  refine ⟨h.shape, ?_, ?_⟩
  · rw [h.seqLen, hd]
    exact h.keysRoom
  · rw [h.seqLen, hd]
    exact h.valuesRoom

/-- Even where it fails, a token leaves the committed rows backed. -/
theorem Settled.backed_forwardToken (h : cache.Settled) {token : Token}
    {answer : ArchResult (List F32)}
    (hrun : cache.forwardToken half pass token = some (after, answer)) : after.Backed := by
  have hwhole := hrun
  unfold forwardToken at hrun
  cases hpass : pass (cache.visible half) token with
  | error e =>
    rw [hpass] at hrun
    cases hrun
    exact h.backed
  | ok computed =>
    obtain ⟨rows, logits⟩ := computed
    rw [hpass] at hrun
    obtain ⟨⟨stored, result⟩, hstored, hrun⟩ := Option.bind_eq_some_iff.mp hrun
    rcases storeRows_spec h half rows cache.numLayers with
      ⟨e, m, filled, -, hfill, hfilled⟩ | ⟨hans, filled, hfill, hfilled⟩
    · rw [hfill] at hstored
      cases hstored
      cases hrun
      exact hfilled.rows_backed
    · rw [hfill] at hstored
      cases hstored
      cases hrun
      exact (hfilled.advance h hans).1.backed

theorem Settled.backed_forwardFrom (h : cache.Settled) {logits : List F32} {tokens : List Token}
    {answer : ArchResult (List F32)}
    (hrun : cache.forwardFrom half pass logits tokens = some (after, answer)) : after.Backed := by
  induction tokens generalizing cache logits with
  | nil =>
    cases hrun
    exact h.backed
  | cons token tokens ih =>
    obtain ⟨⟨next, result⟩, hnext, hrun⟩ := Option.bind_eq_some_iff.mp hrun
    obtain ⟨next', answer', hspec, hpassed⟩ := forwardToken_spec h half pass token
    rw [hspec] at hnext
    cases hnext
    cases result with
    | error e =>
      cases hrun
      exact h.backed_forwardToken hspec
    | ok logits => exact ih (hpassed.settled _ rfl) hrun

/-- **A forward pass on a backed cache** answers what the pass on visible rows answers, leaves
the rows that it leaves, and these are backed. -/
theorem Backed.forwardFrom (h : cache.Backed) (half : Half) (pass : TokenPass) (logits : List F32)
    (tokens : List Token) : ∃ after answer,
      cache.forwardFrom half pass logits tokens = some (after, answer) ∧ after.Backed ∧
      Passed half cache.geometry
        (passTokens half cache.geometry pass logits tokens (cache.visible half))
        after.settle answer := by
  obtain ⟨after, answer, hrun, hpassed⟩ := forwardFrom_spec h.settled half pass logits tokens
  obtain ⟨after', hrun', hnear⟩ := h.near.forwardFrom hrun
  have hbacked := hnear.backed (h.settled.backed_forwardFrom hrun)
  refine ⟨after', answer, hrun', hbacked, ?_⟩
  obtain ⟨stored, rfl, -⟩ := hnear
  exact ⟨hpassed.answers, hpassed.geometry, hbacked.settled.shape, hpassed.visible,
    fun _ _ => hbacked.settled⟩

theorem Backed.truncate (h : cache.Backed) (n : ℕ) : (cache.truncate n).Backed := by
  have hle : min n cache.seqLen * cache.kvDim ≤ cache.seqLen * cache.kvDim :=
    Nat.mul_le_mul_right _ (Nat.min_le_right _ _)
  exact ⟨shape_truncate h.shape n, fun buf hbuf => hle.trans (h.keys buf hbuf),
    fun buf hbuf => hle.trans (h.values buf hbuf)⟩

end Backed

/-- What is left of the visible rows behind `truncate`. -/
theorem visible_truncate (half : Half) (n : ℕ) (cache : KvCache) :
    (cache.truncate n).visible half =
      (cache.visible half).first cache.kvDim (min n cache.seqLen) := by
  have hle : min n cache.seqLen * cache.kvDim ≤ cache.seqLen * cache.kvDim :=
    Nat.mul_le_mul_right _ (Nat.min_le_right _ _)
  have hrows : ∀ bufs layer, layerRows half (min n cache.seqLen * cache.kvDim) layer bufs =
      (layerRows half (cache.seqLen * cache.kvDim) layer bufs).take
        (min n cache.seqLen * cache.kvDim) :=
    fun bufs layer => (take_layerRows hle).symm
  simp only [visible, truncate, Visible.first, hrows]

/-! ### Caches that look alike -/

/-- Two caches of one configuration with the same rows to see. -/
structure Alike (half : Half) (cache other : KvCache) : Prop where
  backed : cache.Backed
  backed' : other.Backed
  geometry : cache.geometry = other.geometry
  visible : cache.visible half = other.visible half

namespace Alike

variable {half : Half} {cache other : KvCache}

/-- **They pass alike.** -/
theorem forwardFrom (h : Alike half cache other) (pass : TokenPass) (logits : List F32)
    (tokens : List Token) : ∃ after after' answer,
      cache.forwardFrom half pass logits tokens = some (after, answer) ∧
      other.forwardFrom half pass logits tokens = some (after', answer) ∧
      Alike half after after' ∧ after.geometry = cache.geometry := by
  obtain ⟨after, answer, hrun, hbacked, hpassed⟩ :=
    h.backed.forwardFrom half pass logits tokens
  obtain ⟨after', answer', hrun', hbacked', hpassed'⟩ :=
    h.backed'.forwardFrom half pass logits tokens
  rw [← h.geometry, ← h.visible] at hpassed'
  obtain rfl : answer = answer' := hpassed.answers.trans hpassed'.answers.symm
  have hgeometry : after.geometry = after'.geometry :=
    (show after.geometry = cache.geometry from hpassed.geometry).trans
      (show after'.geometry = cache.geometry from hpassed'.geometry).symm
  exact ⟨after, after', answer, hrun, hrun', ⟨hbacked, hbacked', hgeometry,
    hpassed.visible.trans hpassed'.visible.symm⟩, hpassed.geometry⟩

theorem truncate (h : Alike half cache other) (n : ℕ) :
    Alike half (cache.truncate n) (other.truncate n) := by
  have hdim : cache.kvDim = other.kvDim := congrArg Geometry.kvDim h.geometry
  have hseq : cache.seqLen = other.seqLen := congrArg Visible.seqLen h.visible
  refine ⟨h.backed.truncate n, h.backed'.truncate n, h.geometry, ?_⟩
  rw [visible_truncate, visible_truncate, h.visible, hdim, hseq]

theorem clear (h : Alike half cache other) : Alike half cache.clear other.clear := by
  refine ⟨(settled_clear h.backed.shape).backed, (settled_clear h.backed'.shape).backed,
    h.geometry, ?_⟩
  rw [visible_clear, visible_clear]

end Alike

/-! ### Payloads -/

private theorem getD_prefixVecs (half : Half) (stop layer : ℕ) (bufs : List LayerBuf) :
    (bufs.map (LayerBuf.toF32PrefixVec half stop)).getD layer [] =
      layerRows half stop layer bufs := by
  rw [layerRows, List.getD_eq_getElem?_getD, List.getElem?_map]

/-- **A payload carries the visible rows** to an `f32` cache with room for them. -/
theorem restoreFromPayload_toPayload {cache fresh : KvCache} (h : cache.Backed) (half : Half)
    (hfresh : fresh.Shape) (hdtype : fresh.dtype = .f32)
    (hlayers : fresh.numLayers = cache.numLayers) (hdim : fresh.kvDim = cache.kvDim)
    (hroom : cache.seqLen ≤ fresh.maxSeqLen) : ∃ after,
      fresh.restoreFromPayload half (cache.toPayload half) = some (after, .ok ()) ∧
      after.Settled ∧ after.geometry = fresh.geometry ∧
      after.visible half = cache.visible half := by
  have hkeys := h.shape.keys.length
  have hvalues := h.shape.values.length
  have hr : fresh.Restorable (cache.toPayload half).keys (cache.toPayload half).values
      cache.seqLen := by
    refine ⟨hroom, ⟨?_, ?_⟩, fun layer hlayer => ⟨?_, ?_⟩⟩
    · exact (hlayers.trans hkeys.symm).trans (List.length_map _).symm |>.le
    · exact (hlayers.trans hvalues.symm).trans (List.length_map _).symm |>.le
    · rw [toPayload, getD_prefixVecs, hdim]
      exact (length_layerRows (by omega) h.keys).ge
    · rw [toPayload, getD_prefixVecs, hdim]
      exact (length_layerRows (by omega) h.values).ge
  obtain ⟨after, hrun, hsettled, hgeometry, hvisible⟩ := restoreFromSnapshot_visible hfresh half hr
  refine ⟨after, ?_, hsettled, hgeometry, ?_⟩
  · have hlayers' : ¬ (cache.toPayload half).numLayers ≠ fresh.numLayers := not_not.mpr hlayers.symm
    have hdim' : ¬ (cache.toPayload half).kvDim ≠ fresh.kvDim := not_not.mpr hdim.symm
    rw [restoreFromPayload, if_neg hlayers', if_neg hdim']
    exact hrun
  · -- what an `f32` cache reads back is what was written
    have hround : half.round fresh.geometry.dtype = id := by
      rw [show fresh.geometry.dtype = .f32 from hdtype]
      rfl
    have hrows : ∀ {bufs : List LayerBuf}, bufs.length = cache.numLayers → ∀ layer,
        (if layer < fresh.geometry.numLayers then
          (((bufs.map (LayerBuf.toF32PrefixVec half (cache.seqLen * cache.kvDim))).getD layer
            []).take (cache.seqLen * fresh.geometry.kvDim)).map (half.round fresh.geometry.dtype)
            else []) =
          layerRows half (cache.seqLen * cache.kvDim) layer bufs := by
      intro bufs hlen layer
      rw [hround, List.map_id, getD_prefixVecs, show fresh.geometry.kvDim = cache.kvDim from hdim,
        show fresh.geometry.numLayers = cache.numLayers from hlayers, take_layerRows le_rfl]
      split
      · rfl
      · next hlayer => exact (layerRows_of_le (hlen.trans_le (not_lt.mp hlayer))).symm
    rw [hvisible, Visible.ofSnapshot, visible]
    congr 1
    · exact funext (hrows hkeys)
    · exact funext (hrows hvalues)

end KvCache

end Kv

end Oxillama
