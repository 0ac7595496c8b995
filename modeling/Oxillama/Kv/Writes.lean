/-
Which positions of a key-value cache a forward pass writes
(`oxillama-runtime/src/kv_cache/mod.rs`).

`store_kv` writes the row at `seq_len`.  A buffer that is too short for it first grows by zeros,
which may reach beyond that row.

* `LayerBuf.Untouched k` — from element `k` on a buffer is as it was, but for such zeros;
* `UntouchedFrom p` — so are all buffers of a cache from position `p` on;
* `untouched_forward` — **a forward pass of one token** touches nothing behind its position.
-/
import Oxillama.Kv.PureForward

namespace Oxillama

namespace Kv

namespace LayerBuf

variable {half : Half} {k m n offset : ℕ} {src : List F32} {buf buf' buf'' : LayerBuf}

/-- The elements from `k` on. -/
def after (k : ℕ) : LayerBuf → LayerBuf
  | .f32 v => .f32 (v.drop k)
  | .f16 v => .f16 (v.drop k)

/-- From element `k` on `buf'` is `buf`, but for zeros at its end. -/
def Untouched (k : ℕ) (buf buf' : LayerBuf) : Prop := ∃ n, buf'.after k = (buf.after k).growTo n

theorem growTo_zero (buf : LayerBuf) : buf.growTo 0 = buf := by
  cases buf <;> simp [growTo]

theorem growTo_growTo (m n : ℕ) (buf : LayerBuf) :
    (buf.growTo m).growTo n = buf.growTo (max m n) := by
  have hlength (l : ℕ) : m - l + (n - (l + (m - l))) = max m n - l := by omega
  cases buf with
  | f32 v =>
    simp only [growTo, List.append_assoc, List.length_append, List.length_replicate,
      List.replicate_append_replicate, hlength]
  | f16 v =>
    simp only [growTo, List.append_assoc, List.length_append, List.length_replicate,
      List.replicate_append_replicate, hlength]

theorem after_growTo (k n : ℕ) (buf : LayerBuf) :
    (buf.growTo n).after k = (buf.after k).growTo (n - k) := by
  have hlength (l : ℕ) : n - l - (k - l) = n - k - (l - k) := by omega
  cases buf with
  | f32 v =>
    simp only [growTo, after, List.drop_append, List.drop_replicate, List.length_drop, hlength]
  | f16 v =>
    simp only [growTo, after, List.drop_append, List.drop_replicate, List.length_drop, hlength]

theorem untouched_refl (k : ℕ) (buf : LayerBuf) : Untouched k buf buf := ⟨0, (growTo_zero _).symm⟩

theorem Untouched.trans (h : Untouched k buf buf') (h' : Untouched k buf' buf'') :
    Untouched k buf buf'' := by
  obtain ⟨m, hm⟩ := h
  obtain ⟨n, hn⟩ := h'
  exact ⟨max m n, by rw [hn, hm, growTo_growTo]⟩

theorem untouched_growTo (k n : ℕ) (buf : LayerBuf) : Untouched k buf (buf.growTo n) :=
  ⟨n - k, after_growTo k n buf⟩

theorem drop_overwrite {α : Type} {v src : List α} (hin : offset + src.length ≤ v.length)
    (hk : offset + src.length ≤ k) : (overwrite v offset src).drop k = v.drop k := by
  refine List.ext_getElem? fun i => ?_
  rw [List.getElem?_drop, List.getElem?_drop, getElem?_overwrite hin, if_neg (by omega)]

/-- A write before element `k`. -/
theorem untouched_writeAt (hwrite : buf.writeAt half offset src = some buf')
    (hk : offset + src.length ≤ k) : Untouched k buf buf' := by
  refine ⟨0, ?_⟩
  rw [growTo_zero]
  cases buf with
  | f32 v =>
    obtain ⟨hin, heq⟩ := Option.ite_none_right_eq_some.1 hwrite
    obtain rfl := Option.some.inj heq
    exact congrArg f32 (drop_overwrite hin hk)
  | f16 v =>
    obtain ⟨hin, heq⟩ := Option.ite_none_right_eq_some.1 hwrite
    obtain rfl := Option.some.inj heq
    rw [← List.length_map half.fromF32] at hin hk
    exact congrArg f16 (drop_overwrite hin hk)

end LayerBuf

namespace KvCache

variable {half : Half} {p n layer : ℕ} {cache cache' cache'' : KvCache}
  {bufs bufs' bufs'' : List LayerBuf}

/-! ### Buffers of all layers -/

/-- The buffers of all layers are untouched from element `k` on. -/
structure LayersUntouched (k : ℕ) (bufs bufs' : List LayerBuf) : Prop where
  length : bufs'.length = bufs.length
  layer : ∀ (layer : ℕ) (buf buf' : LayerBuf), bufs[layer]? = some buf →
    bufs'[layer]? = some buf' →
    buf.Untouched k buf'

theorem layersUntouched_refl (k : ℕ) (bufs : List LayerBuf) : LayersUntouched k bufs bufs where
  length := rfl
  layer layer buf buf' hbuf hbuf' := by
    obtain rfl := Option.some.inj (hbuf.symm.trans hbuf')
    exact LayerBuf.untouched_refl k buf

theorem LayersUntouched.trans {k : ℕ} (h : LayersUntouched k bufs bufs')
    (h' : LayersUntouched k bufs' bufs'') : LayersUntouched k bufs bufs'' where
  length := h'.length.trans h.length
  layer layer buf buf'' hbuf hbuf'' := by
    have hlt : layer < bufs'.length := by
      rw [h.length]
      exact (List.getElem?_eq_some_iff.1 hbuf).1
    have hbuf' : bufs'[layer]? = some bufs'[layer] := List.getElem?_eq_getElem hlt
    exact (h.layer layer buf _ hbuf hbuf').trans (h'.layer layer _ buf'' hbuf' hbuf'')

theorem layersUntouched_growTo (k n : ℕ) (bufs : List LayerBuf) :
    LayersUntouched k bufs (bufs.map (.growTo n)) where
  length := List.length_map _
  layer layer buf buf' hbuf hbuf' := by
    rw [List.getElem?_map, hbuf] at hbuf'
    obtain rfl := Option.some.inj hbuf'
    exact LayerBuf.untouched_growTo k n buf

theorem layersUntouched_writeLayer {k offset : ℕ} {src : List F32}
    (hwrite : writeLayer half n offset src bufs = some bufs') (hk : offset + src.length ≤ k) :
    LayersUntouched k bufs bufs' := by
  obtain ⟨buf, hbuf, hwrite⟩ := Option.bind_eq_some_iff.1 hwrite
  obtain ⟨written, hwritten, hset⟩ := Option.bind_eq_some_iff.1 hwrite
  obtain rfl := Option.some.inj hset
  refine ⟨List.length_set, fun layer old new hold hnew => ?_⟩
  by_cases hlayer : n = layer
  · subst hlayer
    rw [List.getElem?_set_self (List.getElem?_eq_some_iff.1 hbuf).1] at hnew
    obtain rfl := Option.some.inj hnew
    obtain rfl := Option.some.inj (hbuf.symm.trans hold)
    exact LayerBuf.untouched_writeAt hwritten hk
  · rw [List.getElem?_set_ne hlayer] at hnew
    obtain rfl := Option.some.inj (hold.symm.trans hnew)
    exact LayerBuf.untouched_refl k old

/-! ### The cache -/

/-- A cache whose positions from `p` on are untouched. -/
structure UntouchedFrom (p : ℕ) (cache cache' : KvCache) : Prop where
  kvDim : cache'.kvDim = cache.kvDim
  keys : LayersUntouched (p * cache.kvDim) cache.keys cache'.keys
  values : LayersUntouched (p * cache.kvDim) cache.values cache'.values

theorem untouchedFrom_refl (p : ℕ) (cache : KvCache) : UntouchedFrom p cache cache :=
  ⟨rfl, layersUntouched_refl _ _, layersUntouched_refl _ _⟩

theorem UntouchedFrom.trans (h : UntouchedFrom p cache cache')
    (h' : UntouchedFrom p cache' cache'') : UntouchedFrom p cache cache'' := by
  have hkeys := h'.keys
  have hvalues := h'.values
  rw [h.kvDim] at hkeys hvalues
  exact ⟨h'.kvDim.trans h.kvDim, h.keys.trans hkeys, h.values.trans hvalues⟩

theorem untouched_ensureCapacity (p tokens : ℕ) (cache : KvCache) :
    UntouchedFrom p cache (cache.ensureCapacity tokens) := by
  rw [ensureCapacity]
  split
  · exact untouchedFrom_refl p cache
  · exact ⟨rfl, layersUntouched_growTo _ _ _, layersUntouched_growTo _ _ _⟩

/-- **A stored row** touches nothing behind its position. -/
theorem untouched_storeKv {key value : List F32} {answer : ArchResult Unit} (hp : cache.seqLen < p)
    (hstore : cache.storeKv half layer key value = some (cache', answer)) :
    UntouchedFrom p cache cache' ∧ cache'.seqLen = cache.seqLen := by
  have hsame (e : ArchError)
      (h : some (cache, (.error e : ArchResult Unit)) = some (cache', answer)) :
      UntouchedFrom p cache cache' ∧ cache'.seqLen = cache.seqLen := by
    obtain ⟨rfl, -⟩ := Prod.mk.inj (Option.some.inj h)
    exact ⟨untouchedFrom_refl p cache, rfl⟩
  rw [storeKv] at hstore
  split at hstore
  · exact hsame _ hstore
  · split at hstore
    · exact hsame _ hstore
    · split at hstore
      · exact hsame _ hstore
      · obtain ⟨keys, hkeys, hstore⟩ := Option.bind_eq_some_iff.1 hstore
        obtain ⟨values, hvalues, hpair⟩ := Option.bind_eq_some_iff.1 hstore
        obtain ⟨rfl, -⟩ := Prod.mk.inj (Option.some.inj hpair)
        have hgrown := untouched_ensureCapacity p (cache.seqLen + 1) cache
        have hend (row : List F32) :
            cache.seqLen * cache.kvDim + (row.take cache.kvDim).length ≤ p * cache.kvDim := by
          have hrow := List.length_take_le cache.kvDim row
          have hmul := Nat.mul_le_mul_right cache.kvDim (Nat.succ_le_of_lt hp)
          rw [Nat.succ_mul] at hmul
          omega
        have hseq : (cache.ensureCapacity (cache.seqLen + 1)).seqLen = cache.seqLen := by
          rw [ensureCapacity]
          split
          · rfl
          · rfl
        exact ⟨⟨hgrown.kvDim, hgrown.keys.trans (layersUntouched_writeLayer hkeys (hend key)),
          hgrown.values.trans (layersUntouched_writeLayer hvalues (hend value))⟩, hseq⟩

/-- All layers of a token. -/
theorem untouched_storeRows {rows : ℕ → KvRow} {answer : ArchResult Unit} (hp : cache.seqLen < p)
    (hstore : cache.storeRows half rows n = some (cache', answer)) :
    UntouchedFrom p cache cache' ∧ cache'.seqLen = cache.seqLen := by
  induction n generalizing cache' answer with
  | zero =>
    obtain ⟨rfl, -⟩ := Prod.mk.inj (Option.some.inj hstore)
    exact ⟨untouchedFrom_refl p cache, rfl⟩
  | succ n ih =>
    rw [storeRows] at hstore
    obtain ⟨⟨stored, result⟩, hrows, hstore⟩ := Option.bind_eq_some_iff.1 hstore
    obtain ⟨huntouched, hseq⟩ := ih hrows
    rcases result with e | done
    · obtain ⟨rfl, -⟩ := Prod.mk.inj (Option.some.inj hstore)
      exact ⟨huntouched, hseq⟩
    · obtain ⟨hlast, hseq'⟩ := untouched_storeKv (hseq ▸ hp) hstore
      exact ⟨huntouched.trans hlast, hseq'.trans hseq⟩

theorem untouched_advance (p : ℕ) (cache : KvCache) : UntouchedFrom p cache cache.advance := by
  rw [advance]
  split
  · exact ⟨rfl, layersUntouched_refl _ _, layersUntouched_refl _ _⟩
  · exact untouchedFrom_refl p cache

theorem untouched_forwardToken {pass : TokenPass} {token : Token} {answer : ArchResult (List F32)}
    (hp : cache.seqLen < p)
    (hforward : cache.forwardToken half pass token = some (cache', answer)) :
    UntouchedFrom p cache cache' := by
  rw [forwardToken] at hforward
  split at hforward
  · obtain ⟨rfl, -⟩ := Prod.mk.inj (Option.some.inj hforward)
    exact untouchedFrom_refl p cache
  · obtain ⟨⟨stored, result⟩, hrows, hforward⟩ := Option.bind_eq_some_iff.1 hforward
    have huntouched := (untouched_storeRows hp hrows).1
    rcases result with e | done
    · obtain ⟨rfl, -⟩ := Prod.mk.inj (Option.some.inj hforward)
      exact huntouched
    · obtain ⟨rfl, -⟩ := Prod.mk.inj (Option.some.inj hforward)
      exact huntouched.trans (untouched_advance p stored)

/-- **A forward pass of one token** touches nothing behind its position. -/
theorem untouched_forward {pass : TokenPass} {token : Token} {answer : ArchResult (List F32)}
    (hp : cache.seqLen < p) (hforward : cache.forward half pass [token] = some (cache', answer)) :
    UntouchedFrom p cache cache' := by
  rw [forward, forwardFrom] at hforward
  obtain ⟨⟨passed, result⟩, htoken, hforward⟩ := Option.bind_eq_some_iff.1 hforward
  have huntouched := untouched_forwardToken hp htoken
  rcases result with e | logits
  · obtain ⟨rfl, -⟩ := Prod.mk.inj (Option.some.inj hforward)
    exact huntouched
  · obtain ⟨rfl, -⟩ := Prod.mk.inj (Option.some.inj hforward)
    exact huntouched

end KvCache

end Kv

end Oxillama
