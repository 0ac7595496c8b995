/-
The representation invariant of the key-value cache.

Its three counters are documented to satisfy `seq_len <= stored_len` and
`stored_len <= capacity_tokens <= max_seq_len`, with every buffer backed for
`capacity_tokens` rows.  All of it but `stored_len <= capacity_tokens` holds
whatever is called (`Shape`, `shape_step`).  The missing inequality is what makes
the reads whole (`sound_iff`), and one call can break it: `advance` where the
next position is not backed, because it moves `stored_len` and does not grow the
buffers (`sound_along_iff`).
-/
import Oxillama.Kv.KvCache
import Oxillama.Lib.Run

namespace Oxillama

namespace Kv

namespace KvCache

/-! ### Buffers -/

/-- `n` buffers of one element type, each with room for `room` elements. -/
structure Backs (n room : ℕ) (dtype : KvCacheDtype) (bufs : List LayerBuf) : Prop where
  length : bufs.length = n
  dtype : ∀ buf ∈ bufs, buf.dtype = dtype
  room : ∀ buf ∈ bufs, room ≤ buf.len

section Buffers

variable {n room : ℕ} {dtype : KvCacheDtype} {bufs : List LayerBuf}

theorem backs_new (n : ℕ) (dtype : KvCacheDtype) :
    Backs n 0 dtype (List.replicate n (.new dtype)) where
  length := List.length_replicate
  dtype buf hbuf := by rw [List.eq_of_mem_replicate hbuf, LayerBuf.dtype_new]
  room _ _ := Nat.zero_le _

theorem Backs.release (h : Backs n room dtype bufs) :
    Backs n 0 dtype (bufs.map fun _ => .new dtype) where
  length := by rw [List.length_map, h.length]
  dtype buf hbuf := by
    obtain ⟨-, -, rfl⟩ := List.mem_map.mp hbuf
    exact LayerBuf.dtype_new dtype
  room _ _ := Nat.zero_le _

theorem Backs.growTo (h : Backs n room dtype bufs) (room' : ℕ) :
    Backs n room' dtype (bufs.map (.growTo room')) where
  length := by rw [List.length_map, h.length]
  dtype buf' hbuf' := by
    obtain ⟨buf, hbuf, rfl⟩ := List.mem_map.mp hbuf'
    rw [LayerBuf.dtype_growTo, h.dtype buf hbuf]
  room buf' hbuf' := by
    obtain ⟨buf, hbuf, rfl⟩ := List.mem_map.mp hbuf'
    rw [LayerBuf.len_growTo]
    exact Nat.le_max_left _ _

theorem Backs.mono (h : Backs n room dtype bufs) {room' : ℕ} (hle : room' ≤ room) :
    Backs n room' dtype bufs :=
  ⟨h.length, h.dtype, fun buf hbuf => hle.trans (h.room buf hbuf)⟩

theorem Backs.getElem? (h : Backs n room dtype bufs) {layer : ℕ} (hlayer : layer < n) :
    ∃ buf, bufs[layer]? = some buf ∧ buf.dtype = dtype ∧ room ≤ buf.len := by
  have hlt : layer < bufs.length := h.length ▸ hlayer
  exact ⟨bufs[layer], List.getElem?_eq_getElem hlt, h.dtype _ (List.getElem_mem hlt),
    h.room _ (List.getElem_mem hlt)⟩

/-- Writing within the room of a layer. -/
theorem Backs.writeLayer (h : Backs n room dtype bufs) (half : Half)
    {layer offset : ℕ} {src : List F32}
    (hlayer : layer < n) (hroom : offset + src.length ≤ room) :
    ∃ bufs', writeLayer half layer offset src bufs = some bufs' ∧ Backs n room dtype bufs' := by
  obtain ⟨buf, hget, htype, hlen⟩ := h.getElem? hlayer
  obtain ⟨buf', hwrite, hlen', htype'⟩ :=
    LayerBuf.writeAt_of_le half (hroom.trans hlen)
  refine ⟨bufs.set layer buf', by simp [KvCache.writeLayer, hget, hwrite], ?_, ?_, ?_⟩
  · rw [List.length_set, h.length]
  · intro b hb
    rcases List.mem_or_eq_of_mem_set hb with hb | rfl
    · exact h.dtype b hb
    · rw [htype', htype]
  · intro b hb
    rcases List.mem_or_eq_of_mem_set hb with hb | rfl
    · exact h.room b hb
    · rw [hlen']
      exact hlen

/-- Writing the start of every layer. -/
theorem Backs.writeLayers (h : Backs n room dtype bufs) (half : Half) {copyLen : ℕ}
    (hroom : copyLen ≤ room) (srcs : List (List F32)) :
    ∃ bufs', writeLayers half copyLen bufs srcs = some bufs' ∧ Backs n room dtype bufs' := by
  induction bufs generalizing n srcs with
  | nil => exact ⟨[], by cases srcs <;> rfl, h⟩
  | cons buf bufs ih =>
    cases srcs with
    | nil => exact ⟨_, rfl, h⟩
    | cons src srcs =>
      obtain ⟨n, rfl⟩ : ∃ m, n = m + 1 := ⟨bufs.length, h.length.symm⟩
      have htail : Backs n room dtype bufs :=
        ⟨Nat.succ_inj.mp h.length, fun b hb => h.dtype b (List.mem_cons_of_mem _ hb),
          fun b hb => h.room b (List.mem_cons_of_mem _ hb)⟩
      have hfits : 0 + (src.take copyLen).length ≤ buf.len := by
        have := h.room buf List.mem_cons_self
        rw [List.length_take]
        omega
      obtain ⟨buf', hwrite, hlen', htype'⟩ := LayerBuf.writeAt_of_le half hfits
      obtain ⟨bufs', hwrites, htail'⟩ := ih htail srcs
      refine ⟨buf' :: bufs', by simp [KvCache.writeLayers, hwrite, hwrites], ?_, ?_, ?_⟩
      · rw [List.length_cons, htail'.length]
      · rintro b (_ | ⟨_, hb⟩)
        · rw [htype']
          exact h.dtype buf List.mem_cons_self
        · exact htail'.dtype b hb
      · rintro b (_ | ⟨_, hb⟩)
        · rw [hlen']
          exact h.room buf List.mem_cons_self
        · exact htail'.room b hb

end Buffers

/-! ### What always holds -/

/-- Everything of the documented invariant that no call can break. -/
structure Shape (cache : KvCache) : Prop where
  keys : Backs cache.numLayers (cache.capacityTokens * cache.kvDim) cache.dtype cache.keys
  values : Backs cache.numLayers (cache.capacityTokens * cache.kvDim) cache.dtype cache.values
  seqLen_le : cache.seqLen ≤ cache.storedLen
  storedLen_le : cache.storedLen ≤ cache.seqLen + 1
  seqLen_le_max : cache.seqLen ≤ cache.maxSeqLen
  capacity_le : cache.capacityTokens ≤ cache.maxSeqLen

theorem shape_withDtype (numLayers maxSeqLen kvDim : ℕ) (dtype : KvCacheDtype) :
    (withDtype numLayers maxSeqLen kvDim dtype).Shape where
  keys := by simpa [withDtype] using backs_new numLayers dtype
  values := by simpa [withDtype] using backs_new numLayers dtype
  seqLen_le := le_rfl
  storedLen_le := Nat.zero_le _
  seqLen_le_max := Nat.zero_le _
  capacity_le := Nat.zero_le _

theorem le_growTarget (tokens : ℕ) (cache : KvCache) : tokens ≤ cache.growTarget tokens :=
  Nat.le_max_right _ _

theorem growTarget_le {tokens : ℕ} {cache : KvCache} (h : tokens ≤ cache.maxSeqLen) :
    cache.growTarget tokens ≤ cache.maxSeqLen :=
  Nat.max_le.mpr ⟨Nat.min_le_right _ _, h⟩

/-- Growing changes the buffers and the capacity only, and backs what it is asked for. -/
structure Grown (tokens : ℕ) (cache grown : KvCache) : Prop where
  result : cache.ensureCapacity tokens = grown
  shape : grown.Shape
  backed : tokens ≤ grown.capacityTokens
  mono : cache.capacityTokens ≤ grown.capacityTokens
  rest : grown = { cache with
    keys := grown.keys
    values := grown.values
    capacityTokens := grown.capacityTokens }

theorem ensureCapacity_grown {cache : KvCache} (h : cache.Shape) {tokens : ℕ}
    (hmax : tokens ≤ cache.maxSeqLen) : Grown tokens cache (cache.ensureCapacity tokens) := by
  by_cases hle : tokens ≤ cache.capacityTokens
  · have hsame : cache.ensureCapacity tokens = cache := if_pos hle
    rw [hsame]
    exact ⟨hsame, h, hle, le_rfl, rfl⟩
  · have hgrow : cache.ensureCapacity tokens = _ := if_neg hle
    rw [hgrow]
    refine ⟨hgrow, ⟨h.keys.growTo _, h.values.growTo _, h.seqLen_le, h.storedLen_le,
      h.seqLen_le_max, growTarget_le hmax⟩, le_growTarget tokens cache, ?_, rfl⟩
    exact (Nat.le_of_lt (not_le.mp hle)).trans (le_growTarget tokens cache)

/-! ### The calls -/

/-- `store_kv` accepts a call. -/
structure Accepts (cache : KvCache) (layer : ℕ) (key value : List F32) : Prop where
  layer : layer < cache.numLayers
  room : cache.seqLen < cache.maxSeqLen
  key : cache.kvDim ≤ key.length
  value : cache.kvDim ≤ value.length

/-- The state after `store_kv` accepted a call. -/
def afterStore (grown : KvCache) (keys values : List LayerBuf) : KvCache :=
  { grown with
    keys := keys
    values := values
    storedLen := max grown.storedLen (grown.seqLen + 1) }

/-- `store_kv` went through: the buffers grew for one more position, and one row
of one layer was written there. -/
structure StoredKv (half : Half) (layer : ℕ) (key value : List F32) (cache grown : KvCache)
    (keys values : List LayerBuf) : Prop where
  growth : Grown (cache.seqLen + 1) cache grown
  writeKeys : writeLayer half layer (cache.seqLen * cache.kvDim) (key.take cache.kvDim) grown.keys =
    some keys
  writeValues : writeLayer half layer (cache.seqLen * cache.kvDim) (value.take cache.kvDim)
    grown.values = some values
  result : cache.storeKv half layer key value = some (afterStore grown keys values, .ok ())
  shape : (afterStore grown keys values).Shape

/-- **What `store_kv` does**: it refuses and changes nothing, or it goes through. -/
theorem storeKv_spec {cache : KvCache} (h : cache.Shape) (half : Half) (layer : ℕ)
    (key value : List F32) :
    (¬ cache.Accepts layer key value ∧
      ∃ e, cache.storeKv half layer key value = some (cache, .error e)) ∨
    (cache.Accepts layer key value ∧
      ∃ grown keys values, StoredKv half layer key value cache grown keys values) := by
  by_cases hlayer : cache.numLayers ≤ layer
  · exact .inl ⟨fun ha => absurd ha.layer (not_lt.mpr hlayer), _, if_pos hlayer⟩
  by_cases hroom : cache.maxSeqLen ≤ cache.seqLen
  · exact .inl ⟨fun ha => absurd ha.room (not_lt.mpr hroom),
      kvCacheFullAt layer cache.seqLen cache.maxSeqLen,
      by rw [storeKv, if_neg hlayer, if_pos hroom]⟩
  by_cases hshort : key.length < cache.kvDim ∨ value.length < cache.kvDim
  · exact .inl ⟨fun ha => hshort.elim (not_lt.mpr ha.key) (not_lt.mpr ha.value),
      shortRow layer key.length value.length cache.kvDim,
      by rw [storeKv, if_neg hlayer, if_neg hroom, if_pos hshort]⟩
  rw [not_le] at hlayer hroom
  rw [not_or, not_lt, not_lt] at hshort
  refine .inr ⟨⟨hlayer, hroom, hshort.1, hshort.2⟩, ?_⟩
  obtain ⟨grown, hens⟩ : ∃ grown, cache.ensureCapacity (cache.seqLen + 1) = grown := ⟨_, rfl⟩
  have hgrown := ensureCapacity_grown h (Nat.succ_le_of_lt hroom)
  rw [hens] at hgrown
  have ⟨_, hshape, hbacked, _, hrest⟩ := hgrown
  have hn : grown.numLayers = cache.numLayers := by rw [hrest]
  have hd : grown.kvDim = cache.kvDim := by rw [hrest]
  have hseq : grown.seqLen = cache.seqLen := by rw [hrest]
  have hstored : grown.storedLen = cache.storedLen := by rw [hrest]
  have hfits : ∀ src : List F32, cache.seqLen * cache.kvDim + (src.take cache.kvDim).length ≤
      grown.capacityTokens * grown.kvDim := by
    intro src
    have hmul := Nat.mul_le_mul_right cache.kvDim hbacked
    rw [Nat.add_one_mul] at hmul
    rw [hd, List.length_take]
    omega
  obtain ⟨keys, hkeys, hbacks⟩ :=
    hshape.keys.writeLayer half (hn ▸ hlayer) (hfits key)
  obtain ⟨values, hvalues, hbacks'⟩ :=
    hshape.values.writeLayer half (hn ▸ hlayer) (hfits value)
  refine ⟨grown, keys, values, hgrown, hkeys, hvalues, ?_,
    ⟨hbacks, hbacks', ?_, ?_, hshape.seqLen_le_max, hshape.capacity_le⟩⟩
  · rw [storeKv, if_neg (not_le.mpr hlayer), if_neg (not_le.mpr hroom),
      if_neg (by rw [not_or, not_lt, not_lt]; exact hshort)]
    simp [hens, hkeys, hvalues, afterStore, hseq, hstored]
  · exact hshape.seqLen_le.trans (Nat.le_max_left _ _)
  · exact Nat.max_le.mpr ⟨hshape.storedLen_le, le_rfl⟩

/-- `restore_from_snapshot` accepts a snapshot. -/
structure Restorable (cache : KvCache) (keys values : List (List F32)) (seqLen : ℕ) : Prop where
  room : seqLen ≤ cache.maxSeqLen
  layers : cache.numLayers ≤ keys.length ∧ cache.numLayers ≤ values.length
  rows : ∀ layer < cache.numLayers, seqLen * cache.kvDim ≤ (keys.getD layer []).length ∧
    seqLen * cache.kvDim ≤ (values.getD layer []).length

/-- The state after `restore_from_snapshot` accepted a snapshot. -/
def afterRestore (grown : KvCache) (keys values : List LayerBuf) (seqLen : ℕ) : KvCache :=
  { grown with
    keys := keys
    values := values
    seqLen := seqLen
    storedLen := seqLen }

/-- `restore_from_snapshot` went through: the buffers grew for the snapshot, and
its rows were written from the start of every layer. -/
structure Restored (half : Half) (keys values : List (List F32)) (seqLen : ℕ)
    (cache grown : KvCache) (keyBufs valueBufs : List LayerBuf) : Prop where
  growth : Grown seqLen cache grown
  writeKeys : writeLayers half (seqLen * cache.kvDim) grown.keys keys = some keyBufs
  writeValues : writeLayers half (seqLen * cache.kvDim) grown.values values = some valueBufs
  result : cache.restoreFromSnapshot half keys values seqLen =
    some (afterRestore grown keyBufs valueBufs seqLen, .ok ())
  shape : (afterRestore grown keyBufs valueBufs seqLen).Shape

theorem layerIsShort_eq_false {keys values : List (List F32)} {copyLen layer : ℕ} :
    layerIsShort keys values copyLen layer = false ↔
      copyLen ≤ (keys.getD layer []).length ∧ copyLen ≤ (values.getD layer []).length := by
  rw [layerIsShort, Bool.or_eq_false_iff, decide_eq_false_iff_not, decide_eq_false_iff_not, not_lt,
    not_lt]

/-- **What `restore_from_snapshot` does**: it refuses and changes nothing, or it
goes through. -/
theorem restoreFromSnapshot_spec {cache : KvCache} (h : cache.Shape) (half : Half)
    (keys values : List (List F32)) (seqLen : ℕ) :
    (¬ cache.Restorable keys values seqLen ∧
      ∃ e, cache.restoreFromSnapshot half keys values seqLen = some (cache, .error e)) ∨
    (cache.Restorable keys values seqLen ∧
      ∃ grown keyBufs valueBufs,
        Restored half keys values seqLen cache grown keyBufs valueBufs) := by
  by_cases hroom : cache.maxSeqLen < seqLen
  · exact .inl ⟨fun hr => absurd hr.room (not_le.mpr hroom), _, if_pos hroom⟩
  by_cases hlayers : keys.length < cache.numLayers ∨ values.length < cache.numLayers
  · exact .inl ⟨fun hr => hlayers.elim (not_lt.mpr hr.layers.1) (not_lt.mpr hr.layers.2),
      tooFewLayers keys.length values.length cache.numLayers,
      by rw [restoreFromSnapshot, if_neg hroom, if_pos hlayers]⟩
  cases hfind : (List.range cache.numLayers).find?
      (layerIsShort keys values (seqLen * cache.kvDim)) with
  | some layer =>
    refine .inl ⟨fun hr => ?_, shortLayer layer (keys.getD layer []).length
      (values.getD layer []).length seqLen cache.kvDim (seqLen * cache.kvDim), ?_⟩
    · have hlayer := List.mem_range.mp (List.mem_of_find?_eq_some hfind)
      have hlong := layerIsShort_eq_false.mpr (hr.rows layer hlayer)
      rw [List.find?_some hfind] at hlong
      cases hlong
    · rw [restoreFromSnapshot, if_neg hroom, if_neg hlayers]
      simp only [hfind]
  | none =>
    have hrestore : cache.Restorable keys values seqLen := by
      rw [not_or, not_lt, not_lt] at hlayers
      refine ⟨not_lt.mp hroom, hlayers, fun layer hlayer => layerIsShort_eq_false.mp ?_⟩
      exact Bool.eq_false_iff.mpr (List.find?_eq_none.mp hfind layer (List.mem_range.mpr hlayer))
    refine .inr ⟨hrestore, ?_⟩
    obtain ⟨grown, hens⟩ : ∃ grown, cache.ensureCapacity seqLen = grown := ⟨_, rfl⟩
    have hgrown := ensureCapacity_grown h hrestore.room
    rw [hens] at hgrown
    have ⟨_, hshape, hbacked, _, hrest⟩ := hgrown
    have hd : grown.kvDim = cache.kvDim := by rw [hrest]
    have hmax : grown.maxSeqLen = cache.maxSeqLen := by rw [hrest]
    have hfits : seqLen * cache.kvDim ≤ grown.capacityTokens * grown.kvDim :=
      hd ▸ Nat.mul_le_mul_right cache.kvDim hbacked
    obtain ⟨keyBufs, hkeys, hbacks⟩ := hshape.keys.writeLayers half hfits keys
    obtain ⟨valueBufs, hvalues, hbacks'⟩ := hshape.values.writeLayers half hfits values
    refine ⟨grown, keyBufs, valueBufs, hgrown, hkeys, hvalues, ?_,
      ⟨hbacks, hbacks', le_rfl, Nat.le_succ _, hmax ▸ hrestore.room, hshape.capacity_le⟩⟩
    rw [restoreFromSnapshot, if_neg hroom, if_neg hlayers]
    simp only [hfind]
    simp [hens, hkeys, hvalues, afterRestore]

/-- A payload is refused, or its snapshot is restored. -/
theorem restoreFromPayload_cases (half : Half) (payload : KvStatePayload) (cache : KvCache) :
    (∃ e, cache.restoreFromPayload half payload = some (cache, .error e)) ∨
      cache.restoreFromPayload half payload =
        cache.restoreFromSnapshot half payload.keys payload.values payload.seqLen := by
  rw [restoreFromPayload]
  split
  · exact .inl ⟨_, rfl⟩
  · split
    · exact .inl ⟨_, rfl⟩
    · exact .inr rfl

theorem shape_clear {cache : KvCache} (h : cache.Shape) : cache.clear.Shape :=
  ⟨h.keys, h.values, le_rfl, Nat.zero_le _, Nat.zero_le _, h.capacity_le⟩

theorem shape_truncate {cache : KvCache} (h : cache.Shape) (n : ℕ) : (cache.truncate n).Shape :=
  ⟨h.keys, h.values, le_rfl, Nat.le_succ _, (Nat.min_le_right _ _).trans h.seqLen_le_max,
    h.capacity_le⟩

theorem shape_clearAndRelease {cache : KvCache} (h : cache.Shape) :
    cache.clearAndRelease.Shape where
  keys := by simpa [clearAndRelease] using h.keys.release
  values := by simpa [clearAndRelease] using h.values.release
  seqLen_le := le_rfl
  storedLen_le := Nat.zero_le _
  seqLen_le_max := Nat.zero_le _
  capacity_le := Nat.zero_le _

theorem shape_advance {cache : KvCache} (h : cache.Shape) : cache.advance.Shape := by
  rw [advance]
  split
  · rename_i hlt
    exact ⟨h.keys, h.values, Nat.le_max_right _ _,
      Nat.max_le.mpr ⟨h.storedLen_le.trans (Nat.le_succ _), Nat.le_succ _⟩, hlt, h.capacity_le⟩
  · exact h

/-- **No call panics or breaks the shape**; whether the visible rows stay backed is
decided by `advance` alone. -/
theorem shape_step {cache : KvCache} (h : cache.Shape) (half : Half) (call : Call) :
    ∃ cache' answer, cache.step half call = some (cache', answer) ∧ cache'.Shape ∧
      (cache.storedLen ≤ cache.capacityTokens → call ≠ .advance →
        cache'.storedLen ≤ cache'.capacityTokens) := by
  have hrestore : ∀ keys values seqLen, ∃ cache' result,
      cache.restoreFromSnapshot half keys values seqLen = some (cache', result) ∧ cache'.Shape ∧
      (cache.storedLen ≤ cache.capacityTokens → cache'.storedLen ≤ cache'.capacityTokens) := by
    intro keys values seqLen
    rcases restoreFromSnapshot_spec h half keys values seqLen with
      ⟨-, e, heq⟩ | ⟨-, grown, keyBufs, valueBufs, hr⟩
    · exact ⟨cache, _, heq, h, id⟩
    · exact ⟨_, _, hr.result, hr.shape, fun _ => hr.growth.backed⟩
  cases call with
  | storeKv layer key value =>
    rcases storeKv_spec h half layer key value with
      ⟨-, e, heq⟩ | ⟨-, grown, keys, values, hs⟩
    · exact ⟨cache, .stored (.error e), by simp [step, heq], h, fun hb _ => hb⟩
    · refine ⟨_, .stored (.ok ()), by rw [step, hs.result]; rfl, hs.shape, fun hb _ => ?_⟩
      obtain ⟨-, -, hbacked, hmono, hrest⟩ := hs.growth
      have hseq : grown.seqLen = cache.seqLen := by rw [hrest]
      have hstored : grown.storedLen = cache.storedLen := by rw [hrest]
      show max grown.storedLen (grown.seqLen + 1) ≤ grown.capacityTokens
      rw [hseq, hstored]
      exact Nat.max_le.mpr ⟨hb.trans hmono, hbacked⟩
  | advance => exact ⟨_, _, rfl, shape_advance h, fun _ hne => absurd rfl hne⟩
  | truncate n =>
    refine ⟨_, _, rfl, shape_truncate h n, fun hb _ => ?_⟩
    exact ((Nat.min_le_right _ _).trans h.seqLen_le).trans hb
  | clear => exact ⟨_, _, rfl, shape_clear h, fun _ _ => Nat.zero_le _⟩
  | clearAndRelease => exact ⟨_, _, rfl, shape_clearAndRelease h, fun _ _ => Nat.zero_le _⟩
  | restoreFromSnapshot keys values seqLen =>
    obtain ⟨cache', result, heq, hshape, hbacked⟩ := hrestore keys values seqLen
    exact ⟨cache', .restored result, by simp [step, heq], hshape, fun hb _ => hbacked hb⟩
  | restoreFromPayload payload =>
    rcases restoreFromPayload_cases half payload cache with ⟨e, heq⟩ | heq
    · exact ⟨cache, .restored (.error e), by simp [step, heq], h, fun hb _ => hb⟩
    · obtain ⟨cache', result, heq', hshape, hbacked⟩ :=
        hrestore payload.keys payload.values payload.seqLen
      exact ⟨cache', .restored result, by simp [step, heq, heq'], hshape, fun hb _ => hbacked hb⟩

/-! ### Whole reads -/

/-- A borrowing read of `layer` gives all visible rows, or refuses because of the
element type. -/
def WholeBorrow (cache : KvCache) (read : Option (ArchResult (List F32))) : Prop :=
  match cache.dtype with
  | .f32 => ∃ slice, read = some (.ok slice) ∧ slice.length = cache.storedLen * cache.kvDim
  | .f16 => ∃ e, read = some (.error e)

/-- A copying read gives all visible rows. -/
def WholeCopy (cache : KvCache) (read : Option (ArchResult (List F32))) : Prop :=
  ∃ slice, read = some (.ok slice) ∧ slice.length = cache.storedLen * cache.kvDim

/-- An iteration visits all visible rows in order, whole; rows without elements
are not visited. -/
def WholeVisits (cache : KvCache) (read : Option (ArchResult Visits)) : Prop :=
  ∃ visits, read = some (.ok visits) ∧
    (0 < cache.kvDim → visits.map Prod.fst = List.range cache.storedLen) ∧
    ∀ visit ∈ visits, visit.2.length = cache.kvDim

/-- The documented invariant, and every read of a layer whole. -/
structure Sound (half : Half) (cache : KvCache) : Prop where
  seqLen_le : cache.seqLen ≤ cache.storedLen
  storedLen_le : cache.storedLen ≤ cache.seqLen + 1
  backed : cache.storedLen ≤ cache.capacityTokens
  capacity_le : cache.capacityTokens ≤ cache.maxSeqLen
  keys : cache.keys.length = cache.numLayers ∧
    ∀ buf ∈ cache.keys, cache.capacityTokens * cache.kvDim ≤ buf.len
  values : cache.values.length = cache.numLayers ∧
    ∀ buf ∈ cache.values, cache.capacityTokens * cache.kvDim ≤ buf.len
  getKeys : ∀ layer < cache.numLayers, cache.WholeBorrow (cache.getKeys layer)
  getValues : ∀ layer < cache.numLayers, cache.WholeBorrow (cache.getValues layer)
  copyKeysInto : ∀ layer < cache.numLayers, cache.WholeCopy (cache.copyKeysInto half layer)
  copyValuesInto : ∀ layer < cache.numLayers, cache.WholeCopy (cache.copyValuesInto half layer)
  forEachKey : ∀ layer < cache.numLayers, cache.WholeVisits (cache.forEachKey half layer)
  forEachValue : ∀ layer < cache.numLayers, cache.WholeVisits (cache.forEachValue half layer)

section Reads

variable {cache : KvCache} {bufs : List LayerBuf} {layer : ℕ}

private theorem length_prefix {v : List F32} {stop : ℕ} (h : stop ≤ v.length) :
    (v.take (min stop v.length)).length = stop := by
  rw [List.length_take]
  omega

private theorem wholeBorrow_getRows (accessor what : String)
    (h : Backs cache.numLayers (cache.capacityTokens * cache.kvDim) cache.dtype bufs)
    (hbacked : cache.storedLen ≤ cache.capacityTokens) (hlayer : layer < cache.numLayers) :
    cache.WholeBorrow (cache.getRows accessor what bufs layer) := by
  obtain ⟨buf, hget, htype, hroom⟩ := h.getElem? hlayer
  have hstop := (Nat.mul_le_mul_right cache.kvDim hbacked).trans hroom
  rw [getRows, if_neg (not_le.mpr hlayer), hget, WholeBorrow, ← htype]
  cases buf with
  | f32 v =>
    exact ⟨_, rfl, length_prefix hstop⟩
  | f16 v => exact ⟨_, rfl⟩

private theorem wholeCopy_copyInto (half : Half)
    (h : Backs cache.numLayers (cache.capacityTokens * cache.kvDim) cache.dtype bufs)
    (hbacked : cache.storedLen ≤ cache.capacityTokens) (hlayer : layer < cache.numLayers) :
    cache.WholeCopy (cache.copyInto half bufs layer) := by
  obtain ⟨buf, hget, -, hroom⟩ := h.getElem? hlayer
  have hstop := (Nat.mul_le_mul_right cache.kvDim hbacked).trans hroom
  refine ⟨buf.toF32PrefixVec half (cache.storedLen * cache.kvDim), ?_,
    LayerBuf.length_toF32PrefixVec half hstop⟩
  rw [copyInto, if_neg (not_le.mpr hlayer), hget]
  rfl

/-- A loop over positions whose body always succeeds collects one result for each. -/
private theorem mapM_rows {f : ℕ → Option (List F32)} {d : ℕ} (n : ℕ)
    (hf : ∀ pos < n, ∃ row, f pos = some row ∧ row.length = d) :
    ∃ visits : Visits, (List.range n).mapM (fun pos => (f pos).map fun row => (pos, row)) =
      some visits ∧ visits.map Prod.fst = List.range n ∧ ∀ visit ∈ visits, visit.2.length = d := by
  induction n with
  | zero => exact ⟨[], rfl, rfl, by simp⟩
  | succ n ih =>
    obtain ⟨visits, hvisits, hfst, hlen⟩ := ih fun pos hpos => hf pos (Nat.lt_succ_of_lt hpos)
    obtain ⟨row, hrow, hd⟩ := hf n (Nat.lt_succ_self n)
    refine ⟨visits ++ [(n, row)], ?_, ?_, ?_⟩
    · simp [List.range_succ, hvisits, hrow]
    · rw [List.map_append, hfst, List.range_succ]
      rfl
    · intro visit hvisit
      rcases List.mem_append.mp hvisit with hvisit | hvisit
      · exact hlen visit hvisit
      · rw [List.mem_singleton.mp hvisit]
        exact hd

private theorem wholeVisits_forEachRow (half : Half)
    (h : Backs cache.numLayers (cache.capacityTokens * cache.kvDim) cache.dtype bufs)
    (hbacked : cache.storedLen ≤ cache.capacityTokens) (hlayer : layer < cache.numLayers) :
    cache.WholeVisits (cache.forEachRow half bufs layer) := by
  obtain ⟨buf, hget, -, hroom⟩ := h.getElem? hlayer
  have hstop := (Nat.mul_le_mul_right cache.kvDim hbacked).trans hroom
  rw [forEachRow, if_neg (not_le.mpr hlayer)]
  by_cases hd : cache.kvDim = 0
  · rw [if_pos hd]
    exact ⟨[], rfl, fun hpos => absurd hd hpos.ne', by simp⟩
  · rw [if_neg hd, hget]
    have hrow : ∀ pos < cache.storedLen, (pos + 1) * cache.kvDim ≤ buf.len := fun pos hpos =>
      (Nat.mul_le_mul_right cache.kvDim hpos).trans hstop
    cases buf with
    | f32 v =>
      have hlen := length_prefix (v := v) hstop
      refine ⟨_, rfl, fun hpos => ?_, fun visit hvisit => ?_⟩
      · rw [rowsOf_of_length hpos hlen, List.map_map]
        exact List.map_id _
      · rw [rowsOf_of_length (Nat.pos_of_ne_zero hd) hlen] at hvisit
        obtain ⟨r, hr, rfl⟩ := List.mem_map.mp hvisit
        refine length_row ?_
        rw [hlen]
        exact Nat.mul_le_mul_right cache.kvDim (List.mem_range.mp hr)
    | f16 v =>
      obtain ⟨visits, hvisits, hfst, hlen⟩ := mapM_rows (d := cache.kvDim) cache.storedLen
        fun pos hpos => LayerBuf.readRow_of_le half
          (show pos * cache.kvDim + cache.kvDim ≤ (LayerBuf.f16 v).len by
            rw [← Nat.add_one_mul]
            exact hrow pos hpos)
      refine ⟨visits, ?_, fun _ => hfst, hlen⟩
      simp [LayerBuf.asF32Prefix, hvisits]

end Reads

/-- Of the invariant and the reads only one inequality is ever in question. -/
theorem sound_iff {cache : KvCache} (h : cache.Shape) (half : Half) :
    cache.Sound half ↔ cache.storedLen ≤ cache.capacityTokens :=
  ⟨Sound.backed, fun hbacked =>
    { seqLen_le := h.seqLen_le
      storedLen_le := h.storedLen_le
      backed := hbacked
      capacity_le := h.capacity_le
      keys := ⟨h.keys.length, h.keys.room⟩
      values := ⟨h.values.length, h.values.room⟩
      getKeys := fun _ => wholeBorrow_getRows _ _ h.keys hbacked
      getValues := fun _ => wholeBorrow_getRows _ _ h.values hbacked
      copyKeysInto := fun _ => wholeCopy_copyInto half h.keys hbacked
      copyValuesInto := fun _ => wholeCopy_copyInto half h.values hbacked
      forEachKey := fun _ => wholeVisits_forEachRow half h.keys hbacked
      forEachValue := fun _ => wholeVisits_forEachRow half h.values hbacked }⟩

/-! ### Runs -/

/-- `advance` moves over a position the buffers are backed for, or does nothing. -/
def AdvancesBacked (cache : KvCache) (call : Call) : Prop :=
  call = .advance → cache.seqLen < cache.capacityTokens ∨ cache.seqLen = cache.maxSeqLen

/-- One step keeps the invariant exactly where `advance` finds its position backed. -/
theorem sound_step_iff {cache cache' : KvCache} {half : Half} {call : Call} {answer : Answer}
    (h : cache.Shape) (hsound : cache.Sound half)
    (hstep : cache.step half call = some (cache', answer)) :
    cache'.Sound half ↔ cache.AdvancesBacked call := by
  obtain ⟨cache₁, answer₁, heq, hshape, hkeeps⟩ := shape_step h half call
  obtain ⟨rfl, rfl⟩ := Prod.mk.inj (Option.some.inj (heq.symm.trans hstep))
  rw [sound_iff hshape]
  by_cases hcall : call = .advance
  · subst hcall
    obtain ⟨rfl, -⟩ := Prod.mk.inj (Option.some.inj hstep)
    have hmax := h.seqLen_le_max
    have hbacked := hsound.backed
    rw [AdvancesBacked, advance]
    split
    · rename_i hlt
      dsimp only
      constructor
      · intro hle _
        exact .inl ((Nat.le_max_right _ _).trans hle)
      · intro hadv
        rcases hadv rfl with hlt' | heq'
        · exact Nat.max_le.mpr ⟨hbacked, hlt'⟩
        · exact absurd heq' hlt.ne
    · rename_i hge
      exact ⟨fun _ _ => .inr (le_antisymm hmax (not_lt.mp hge)), fun _ => hbacked⟩
  · exact ⟨fun _ hadv => absurd hadv hcall, fun _ => hkeeps hsound.backed hcall⟩

/-- **The invariant holds along a run exactly if `advance` is never called on a
position without storage.** -/
theorem sound_along_iff (half : Half) (numLayers maxSeqLen kvDim : ℕ) (dtype : KvCacheDtype)
    (calls : List Call) :
    Along (step half) (Sound half) (withDtype numLayers maxSeqLen kvDim dtype) calls ↔
      StepsMeet (step half) AdvancesBacked (withDtype numLayers maxSeqLen kvDim dtype) calls := by
  have hshape := shape_withDtype numLayers maxSeqLen kvDim dtype
  refine along_iff_stepsMeet (J := Shape) ?_ ?_ ?_ hshape ((sound_iff hshape half).mpr le_rfl)
    calls
  · intro cache call cache' answer h hstep
    obtain ⟨cache₁, answer₁, heq, hshape', -⟩ := shape_step h half call
    obtain ⟨rfl, -⟩ := Prod.mk.inj (Option.some.inj (heq.symm.trans hstep))
    exact hshape'
  · intro cache call h _
    obtain ⟨cache', answer, heq, -⟩ := shape_step h half call
    exact ⟨cache', answer, heq⟩
  · exact sound_step_iff

/-- One `advance` on a fresh cache: one position counts as stored, none is backed. -/
theorem not_sound_along_advance : ¬ ∀ (half : Half) (numLayers maxSeqLen kvDim : ℕ)
    (dtype : KvCacheDtype) (calls : List Call),
    Along (step half) (Sound half) (withDtype numLayers maxSeqLen kvDim dtype) calls := by
  intro hall
  obtain ⟨-, cache', answer, hstep, hsound⟩ := hall .onZero 1 8 4 .f16 [.advance]
  obtain ⟨rfl, -⟩ := Prod.mk.inj (Option.some.inj hstep)
  exact absurd hsound.backed (by decide)

end KvCache

end Kv

end Oxillama
