/-
What a reader sees of the contiguous key-value cache.

`Visible` is a cache without its buffers: the number of committed tokens and, for
every layer, the elements of their rows as `f32`.  Rows of an `f16` cache read back
rounded (`Half.round`).

* `layerRows_growTo`, `layerRows_writeLayer`, `layerRows_writeLayers` — what each
  buffer operation does to the elements below a position;
* `Settled` — between two tokens: no row is stored past the committed ones, and all
  committed rows are backed.
-/
import Oxillama.Kv.KvInvariant
import Oxillama.Kv.History

namespace Oxillama

namespace Kv

/-! ### Rounding -/

/-- What an element reads back as after it was stored. -/
def Half.round (half : Half) : KvCacheDtype → F32 → F32
  | .f32, x => x
  | .f16, x => half.toF32 (half.fromF32 x)

/-- Storing what was read changes nothing: every `f16` is an `f32`. -/
structure Half.Exact (half : Half) : Prop where
  round_trip : ∀ h, half.toF32 (half.fromF32 (half.toF32 h)) = half.toF32 h

theorem Half.Exact.round_round {half : Half} (h : half.Exact) (dtype : KvCacheDtype) (x : F32) :
    half.round dtype (half.round dtype x) = half.round dtype x := by
  cases dtype with
  | f32 => rfl
  | f16 => exact h.round_trip _

namespace LayerBuf

theorem toF32PrefixVec_zero (half : Half) (buf : LayerBuf) : buf.toF32PrefixVec half 0 = [] := by
  cases buf <;> simp [toF32PrefixVec]

theorem toF32PrefixVec_growTo (half : Half) {stop : ℕ} {buf : LayerBuf} (h : stop ≤ buf.len)
    (n : ℕ) : (buf.growTo n).toF32PrefixVec half stop = buf.toF32PrefixVec half stop := by
  have htake : ∀ {α : Type} (v : List α) (zero : α), stop ≤ v.length →
      (v ++ List.replicate (n - v.length) zero).take
        (min stop (v ++ List.replicate (n - v.length) zero).length) =
      v.take (min stop v.length) := by
    intro α v zero hstop
    rw [Nat.min_eq_left hstop, Nat.min_eq_left (by rw [List.length_append]; omega),
      List.take_append_of_le_length hstop]
  cases buf with
  | f32 v => exact htake v 0 h
  | f16 v => exact congrArg (List.map half.toF32) (htake v 0 h)

/-- The elements below a position are those of any longer piece. -/
theorem take_toF32PrefixVec (half : Half) {stop stop' : ℕ} {buf : LayerBuf} (h : stop ≤ stop') :
    (buf.toF32PrefixVec half stop').take stop = buf.toF32PrefixVec half stop := by
  have htake : ∀ {α : Type} (v : List α),
      (v.take (min stop' v.length)).take stop = v.take (min stop v.length) := by
    intro α v
    rw [List.take_take, List.take_eq_take_iff]
    omega
  cases buf with
  | f32 v => exact htake v
  | f16 v => rw [toF32PrefixVec, toF32PrefixVec, ← List.map_take, htake]

private theorem take_overwrite {α : Type} {v src : List α} {offset : ℕ}
    (h : offset + src.length ≤ v.length) :
    (∀ stop ≤ offset, (overwrite v offset src).take stop = v.take stop) ∧
      (overwrite v offset src).take (offset + src.length) = v.take offset ++ src := by
  have hfront : (v.take offset).length = offset := List.length_take_of_le (by omega)
  constructor
  · intro stop hstop
    rw [overwrite, List.append_assoc, List.take_append_of_le_length (by omega), List.take_take,
      Nat.min_eq_left hstop]
  · rw [overwrite, List.take_left' (by rw [List.length_append, hfront])]

/-- **A write** keeps what stands before it and reads back rounded. -/
theorem toF32PrefixVec_writeAt {half : Half} {offset : ℕ} {src : List F32} {buf buf' : LayerBuf}
    (h : buf.writeAt half offset src = some buf') :
    (∀ stop ≤ offset, buf'.toF32PrefixVec half stop = buf.toF32PrefixVec half stop) ∧
      buf'.toF32PrefixVec half (offset + src.length) =
        buf.toF32PrefixVec half offset ++ src.map (half.round buf.dtype) := by
  cases buf with
  | f32 v =>
    rw [writeAt] at h
    split at h
    · rename_i hfits
      obtain rfl := Option.some.inj h
      have hlen := length_overwrite hfits
      obtain ⟨hkeep, hwrite⟩ := take_overwrite hfits
      constructor
      · intro stop hstop
        simp only [toF32PrefixVec]
        rw [Nat.min_eq_left (by omega), Nat.min_eq_left (by omega), hkeep stop hstop]
      · simp only [toF32PrefixVec]
        rw [Nat.min_eq_left (by omega), Nat.min_eq_left (by omega), hwrite]
        exact congrArg _ (List.map_id' src).symm
    · cases h
  | f16 v =>
    rw [writeAt] at h
    split at h
    · rename_i hfits
      obtain rfl := Option.some.inj h
      have hmap : (src.map half.fromF32).length = src.length := List.length_map _
      have hfits' : offset + (src.map half.fromF32).length ≤ v.length := by omega
      have hlen := length_overwrite hfits'
      obtain ⟨hkeep, hwrite⟩ := take_overwrite hfits'
      rw [hmap] at hwrite
      constructor
      · intro stop hstop
        simp only [toF32PrefixVec]
        rw [Nat.min_eq_left (by omega), Nat.min_eq_left (by omega), hkeep stop hstop]
      · simp only [toF32PrefixVec]
        rw [Nat.min_eq_left (by omega), Nat.min_eq_left (by omega), hwrite, List.map_append,
          List.map_map]
        rfl
    · cases h

end LayerBuf

namespace KvCache

/-! ### The elements of a layer -/

/-- The first `stop` elements of a layer, as `f32`. -/
def layerRows (half : Half) (stop layer : ℕ) (bufs : List LayerBuf) : List F32 :=
  (bufs[layer]?.map (LayerBuf.toF32PrefixVec half stop)).getD []

section Layers

variable {half : Half} {n room stop layer : ℕ} {dtype : KvCacheDtype} {bufs bufs' : List LayerBuf}

theorem layerRows_of_le (h : bufs.length ≤ layer) : layerRows half stop layer bufs = [] := by
  rw [layerRows, List.getElem?_eq_none h]
  rfl

theorem layerRows_of_getElem? {buf : LayerBuf} (h : bufs[layer]? = some buf) :
    layerRows half stop layer bufs = buf.toF32PrefixVec half stop := by
  rw [layerRows, h]
  rfl

theorem length_layerRows (hlayer : layer < bufs.length) (h : ∀ buf ∈ bufs, stop ≤ buf.len) :
    (layerRows half stop layer bufs).length = stop := by
  rw [layerRows_of_getElem? (List.getElem?_eq_getElem hlayer)]
  exact LayerBuf.length_toF32PrefixVec half (h _ (List.getElem_mem hlayer))

theorem take_layerRows {stop' : ℕ} (h : stop ≤ stop') :
    (layerRows half stop' layer bufs).take stop = layerRows half stop layer bufs := by
  rw [layerRows, layerRows]
  cases bufs[layer]? with
  | none => exact List.take_nil
  | some buf => exact LayerBuf.take_toF32PrefixVec half h

theorem layerRows_growTo (h : ∀ buf ∈ bufs, stop ≤ buf.len) (m : ℕ) :
    layerRows half stop layer (bufs.map (.growTo m)) = layerRows half stop layer bufs := by
  by_cases hlayer : layer < bufs.length
  · have hget := List.getElem?_eq_getElem hlayer
    have hgrown : (bufs.map (.growTo m))[layer]? = some (bufs[layer].growTo m) := by
      rw [List.getElem?_map, hget]
      rfl
    rw [layerRows_of_getElem? hget, layerRows_of_getElem? hgrown]
    exact LayerBuf.toF32PrefixVec_growTo half (h _ (List.getElem_mem hlayer)) m
  · rw [layerRows_of_le (by rw [List.length_map]; omega), layerRows_of_le (by omega)]

/-- Writing to one layer leaves the others and what stands before the write. -/
theorem layerRows_writeLayer {offset layer' : ℕ} {src : List F32}
    (h : writeLayer half layer offset src bufs = some bufs')
    (hkeep : layer' ≠ layer ∨ stop ≤ offset) :
    layerRows half stop layer' bufs' = layerRows half stop layer' bufs := by
  obtain ⟨buf, hget, h⟩ := Option.bind_eq_some_iff.mp h
  obtain ⟨buf', hwrite, h⟩ := Option.bind_eq_some_iff.mp h
  obtain rfl := Option.some.inj h
  by_cases hlayer : layer' = layer
  · subst hlayer
    have hstop : stop ≤ offset := by omega
    have hset : (bufs.set layer' buf')[layer']? = some buf' :=
      List.getElem?_set_self (List.getElem?_eq_some_iff.mp hget).1
    rw [layerRows_of_getElem? hget, layerRows_of_getElem? hset]
    exact (LayerBuf.toF32PrefixVec_writeAt hwrite).1 stop hstop
  · rw [layerRows, layerRows, List.getElem?_set_ne (Ne.symm hlayer)]

/-- What was written stands behind what stood before it. -/
theorem layerRows_writeLayer_self {offset : ℕ} {src : List F32}
    (hdtype : ∀ buf ∈ bufs, buf.dtype = dtype)
    (h : writeLayer half layer offset src bufs = some bufs') :
    layerRows half (offset + src.length) layer bufs' =
      layerRows half offset layer bufs ++ src.map (half.round dtype) := by
  obtain ⟨buf, hget, h⟩ := Option.bind_eq_some_iff.mp h
  obtain ⟨buf', hwrite, h⟩ := Option.bind_eq_some_iff.mp h
  obtain rfl := Option.some.inj h
  have hset : (bufs.set layer buf')[layer]? = some buf' :=
    List.getElem?_set_self (List.getElem?_eq_some_iff.mp hget).1
  rw [layerRows_of_getElem? hget, layerRows_of_getElem? hset,
    ← hdtype buf (List.mem_of_getElem? hget)]
  exact (LayerBuf.toF32PrefixVec_writeAt hwrite).2

/-- Writing the start of every layer. -/
theorem layerRows_writeLayers {copyLen : ℕ} {srcs : List (List F32)}
    (hdtype : ∀ buf ∈ bufs, buf.dtype = dtype)
    (h : writeLayers half copyLen bufs srcs = some bufs') (hlayer : layer < bufs.length)
    (hsrcs : bufs.length ≤ srcs.length) (hlong : copyLen ≤ (srcs.getD layer []).length) :
    layerRows half copyLen layer bufs' =
      ((srcs.getD layer []).take copyLen).map (half.round dtype) := by
  induction bufs generalizing layer srcs bufs' with
  | nil => exact absurd hlayer (Nat.not_lt_zero _)
  | cons buf bufs ih =>
    cases srcs with
    | nil => exact absurd hsrcs (Nat.not_succ_le_zero _)
    | cons src srcs =>
      obtain ⟨buf', hwrite, h⟩ := Option.bind_eq_some_iff.mp h
      obtain ⟨rest, hrest, h⟩ := Option.bind_eq_some_iff.mp h
      obtain rfl := Option.some.inj h
      rw [List.length_cons] at hlayer hsrcs
      rw [List.length_cons] at hsrcs
      cases layer with
      | zero =>
        have hwritten := (LayerBuf.toF32PrefixVec_writeAt hwrite).2
        have hsrc : (src.take copyLen).length = copyLen := List.length_take_of_le hlong
        rw [hsrc, Nat.zero_add, hdtype buf List.mem_cons_self] at hwritten
        rw [LayerBuf.toF32PrefixVec_zero, List.nil_append] at hwritten
        exact hwritten
      | succ layer =>
        have hlong' : copyLen ≤ (srcs.getD layer []).length := hlong
        have hlayer' : layerRows half copyLen layer rest =
            ((srcs.getD layer []).take copyLen).map (half.round dtype) :=
          ih (fun b hb => hdtype b (List.mem_cons_of_mem _ hb)) hrest (by omega) (by omega) hlong'
        exact hlayer'

end Layers

end KvCache

/-! ### The visible cache -/

/-- The committed tokens of a cache: how many, and the elements of their rows. -/
structure Visible where
  seqLen : ℕ
  keys : ℕ → List F32
  values : ℕ → List F32

/-- What no call changes. -/
structure Geometry where
  maxSeqLen : ℕ
  kvDim : ℕ
  numLayers : ℕ
  dtype : KvCacheDtype
  deriving DecidableEq

namespace Visible

/-- No token. -/
def empty : Visible := ⟨0, fun _ => [], fun _ => []⟩

/-- One more token, with a row for each layer. -/
def push (half : Half) (g : Geometry) (rows : ℕ → KvRow) (v : Visible) : Visible where
  seqLen := v.seqLen + 1
  keys layer := if layer < g.numLayers then
    v.keys layer ++ ((rows layer).1.take g.kvDim).map (half.round g.dtype) else v.keys layer
  values layer := if layer < g.numLayers then
    v.values layer ++ ((rows layer).2.take g.kvDim).map (half.round g.dtype) else v.values layer

/-- The first `n` tokens. -/
def first (d n : ℕ) (v : Visible) : Visible where
  seqLen := n
  keys layer := (v.keys layer).take (n * d)
  values layer := (v.values layer).take (n * d)

/-- The rows of a snapshot, as they read back after a restore. -/
def ofSnapshot (half : Half) (g : Geometry) (keys values : List (List F32)) (seqLen : ℕ) :
    Visible where
  seqLen := seqLen
  keys layer := if layer < g.numLayers then
    ((keys.getD layer []).take (seqLen * g.kvDim)).map (half.round g.dtype) else []
  values layer := if layer < g.numLayers then
    ((values.getD layer []).take (seqLen * g.kvDim)).map (half.round g.dtype) else []

end Visible

namespace KvCache

/-- The configuration of a cache. -/
def geometry (cache : KvCache) : Geometry where
  maxSeqLen := cache.maxSeqLen
  kvDim := cache.kvDim
  numLayers := cache.numLayers
  dtype := cache.dtype

/-- What a reader sees of the committed tokens. -/
def visible (half : Half) (cache : KvCache) : Visible where
  seqLen := cache.seqLen
  keys layer := layerRows half (cache.seqLen * cache.kvDim) layer cache.keys
  values layer := layerRows half (cache.seqLen * cache.kvDim) layer cache.values

/-- Between two tokens: no row is stored past the committed ones, and these are
backed. -/
structure Settled (cache : KvCache) : Prop where
  shape : cache.Shape
  stored : cache.storedLen = cache.seqLen
  keys : ∀ buf ∈ cache.keys, cache.seqLen * cache.kvDim ≤ buf.len
  values : ∀ buf ∈ cache.values, cache.seqLen * cache.kvDim ≤ buf.len

/-! ### Starting over -/

theorem layerRows_zero (half : Half) (layer : ℕ) (bufs : List LayerBuf) :
    layerRows half 0 layer bufs = [] := by
  rw [layerRows]
  cases bufs[layer]? with
  | none => rfl
  | some buf => exact LayerBuf.toF32PrefixVec_zero half buf

/-- A cleared cache is settled and shows nothing. -/
theorem settled_clear {cache : KvCache} (h : cache.Shape) : cache.clear.Settled where
  shape := shape_clear h
  stored := rfl
  keys buf _ := by
    rw [show cache.clear.seqLen = 0 from rfl, Nat.zero_mul]
    exact Nat.zero_le _
  values buf _ := by
    rw [show cache.clear.seqLen = 0 from rfl, Nat.zero_mul]
    exact Nat.zero_le _

theorem visible_clear (half : Half) (cache : KvCache) :
    cache.clear.visible half = Visible.empty := by
  simp only [visible, clear, Nat.zero_mul, layerRows_zero, Visible.empty]

/-- **A restore** leaves exactly the rows of the snapshot. -/
theorem restoreFromSnapshot_visible {cache : KvCache} (h : cache.Shape) (half : Half)
    {keys values : List (List F32)} {seqLen : ℕ} (hr : cache.Restorable keys values seqLen) :
    ∃ after, cache.restoreFromSnapshot half keys values seqLen = some (after, .ok ()) ∧
      after.Settled ∧ after.geometry = cache.geometry ∧
      after.visible half = .ofSnapshot half cache.geometry keys values seqLen := by
  rcases restoreFromSnapshot_spec h half keys values seqLen with
    ⟨hnot, -⟩ | ⟨-, grown, keyBufs, valueBufs, hs⟩
  · exact absurd hr hnot
  obtain ⟨-, hshape, hbacked, -, hrest⟩ := hs.growth
  have hd : grown.kvDim = cache.kvDim := by rw [hrest]
  have hn : grown.numLayers = cache.numLayers := by rw [hrest]
  have ht : grown.dtype = cache.dtype := by rw [hrest]
  have hgeom : grown.geometry = cache.geometry := by rw [hrest]; rfl
  have hroom : seqLen * grown.kvDim ≤ grown.capacityTokens * grown.kvDim :=
    Nat.mul_le_mul_right _ hbacked
  refine ⟨_, hs.result, ⟨hs.shape, rfl, ?_, ?_⟩, hgeom, ?_⟩
  · exact fun buf hbuf => hroom.trans (hs.shape.keys.room buf hbuf)
  · exact fun buf hbuf => hroom.trans (hs.shape.values.room buf hbuf)
  · have hkeys : keyBufs.length = cache.numLayers := hs.shape.keys.length.trans hn
    have hvalues : valueBufs.length = cache.numLayers := hs.shape.values.length.trans hn
    have hgrownKeys := hshape.keys.length.trans hn
    have hgrownValues := hshape.values.length.trans hn
    rw [visible, Visible.ofSnapshot]
    dsimp only [afterRestore, geometry]
    rw [hd]
    congr 1
    · funext layer
      by_cases hlayer : layer < cache.numLayers
      · have hrows := layerRows_writeLayers (fun buf hbuf => (hshape.keys.dtype buf hbuf).trans ht)
          hs.writeKeys (by omega) (hgrownKeys.trans_le hr.layers.1) (hr.rows layer hlayer).1
        exact hrows.trans (if_pos hlayer).symm
      · exact (layerRows_of_le (by omega)).trans (if_neg hlayer).symm
    · funext layer
      by_cases hlayer : layer < cache.numLayers
      · have hrows := layerRows_writeLayers
          (fun buf hbuf => (hshape.values.dtype buf hbuf).trans ht)
          hs.writeValues (by omega) (hgrownValues.trans_le hr.layers.2) (hr.rows layer hlayer).2
        exact hrows.trans (if_pos hlayer).symm
      · exact (layerRows_of_le (by omega)).trans (if_neg hlayer).symm

/-- No call changes the configuration. -/
theorem geometry_step {cache cache' : KvCache} (h : cache.Shape) {half : Half} {call : Call}
    {answer : Answer} (hstep : cache.step half call = some (cache', answer)) :
    cache'.geometry = cache.geometry := by
  have hrestore : ∀ {keys values : List (List F32)} {seqLen : ℕ} {after : KvCache}
      {result : RuntimeResult Unit},
      cache.restoreFromSnapshot half keys values seqLen = some (after, result) →
      after.geometry = cache.geometry := by
    intro keys values seqLen after result hres
    by_cases hr : cache.Restorable keys values seqLen
    · obtain ⟨after', hres', -, hgeom, -⟩ := restoreFromSnapshot_visible h half hr
      obtain ⟨rfl, -⟩ := Prod.mk.inj (Option.some.inj (hres.symm.trans hres'))
      exact hgeom
    · rcases restoreFromSnapshot_spec h half keys values seqLen with ⟨-, e, hres'⟩ | ⟨hr', -⟩
      · obtain ⟨rfl, -⟩ := Prod.mk.inj (Option.some.inj (hres.symm.trans hres'))
        rfl
      · exact absurd hr' hr
  cases call with
  | storeKv layer key value =>
    obtain ⟨⟨after, result⟩, hres, heq⟩ := Option.map_eq_some_iff.mp hstep
    obtain ⟨rfl, -⟩ := Prod.mk.inj heq
    rcases storeKv_spec h half layer key value with ⟨-, e, hres'⟩ | ⟨-, grown, keys, values, hs⟩
    · obtain ⟨rfl, -⟩ := Prod.mk.inj (Option.some.inj (hres.symm.trans hres'))
      rfl
    · obtain ⟨rfl, -⟩ := Prod.mk.inj (Option.some.inj (hres.symm.trans hs.result))
      have hrest := hs.growth.rest
      show grown.geometry = cache.geometry
      rw [hrest]
      rfl
  | advance =>
    obtain ⟨rfl, -⟩ := Prod.mk.inj (Option.some.inj hstep)
    rw [advance]
    split <;> rfl
  | truncate n =>
    obtain ⟨rfl, -⟩ := Prod.mk.inj (Option.some.inj hstep)
    rfl
  | clear =>
    obtain ⟨rfl, -⟩ := Prod.mk.inj (Option.some.inj hstep)
    rfl
  | clearAndRelease =>
    obtain ⟨rfl, -⟩ := Prod.mk.inj (Option.some.inj hstep)
    rfl
  | restoreFromSnapshot keys values seqLen =>
    obtain ⟨⟨after, result⟩, hres, heq⟩ := Option.map_eq_some_iff.mp hstep
    obtain ⟨rfl, -⟩ := Prod.mk.inj heq
    exact hrestore hres
  | restoreFromPayload payload =>
    obtain ⟨⟨after, result⟩, hres, heq⟩ := Option.map_eq_some_iff.mp hstep
    obtain ⟨rfl, -⟩ := Prod.mk.inj heq
    rcases restoreFromPayload_cases half payload cache with ⟨e, hres'⟩ | hres'
    · obtain ⟨rfl, -⟩ := Prod.mk.inj (Option.some.inj (hres.symm.trans hres'))
      rfl
    · exact hrestore (hres'.symm.trans hres)

/-! ### Reading -/

/-- What the rows visited in a `f16` buffer amount to. -/
private theorem gathered_readRow {half : Half} {v : List F16} {d n : ℕ} {visits : Visits}
    (hlen : n * d ≤ v.length)
    (h : (List.range n).mapM (fun pos =>
      ((LayerBuf.f16 v).readRow half (pos * d) d).map fun row => (pos, row)) = some visits) :
    visits.gathered = (v.take (n * d)).map half.toF32 := by
  induction n generalizing visits with
  | zero =>
    obtain rfl := Option.some.inj h
    simp [Visits.gathered]
  | succ n ih =>
    have hmul := Nat.add_one_mul n d
    rw [List.range_succ, List.mapM_append] at h
    obtain ⟨front, hfront, h⟩ := Option.bind_eq_some_iff.mp h
    obtain ⟨back, hback, h⟩ := Option.bind_eq_some_iff.mp h
    obtain rfl := Option.some.inj h
    have hrow : (LayerBuf.f16 v).readRow half (n * d) d =
        some (((v.drop (n * d)).take d).map half.toF32) := if_pos (by omega)
    rw [List.mapM_cons, hrow, List.mapM_nil] at hback
    obtain rfl := Option.some.inj hback
    have hih := ih (by omega) hfront
    rw [Visits.gathered] at hih ⊢
    rw [List.flatMap_append, hih, List.flatMap_singleton, hmul, List.take_add, List.map_append]

/-- A settled cache is read whole: `fetch` gives the visible rows. -/
private theorem fetchVia_of_settled {cache : KvCache} (h : cache.Settled) (half : Half)
    (accessor what : String) {bufs : List LayerBuf}
    (hbufs : Backs cache.numLayers (cache.seqLen * cache.kvDim) cache.dtype bufs) {layer : ℕ}
    (hlayer : layer < cache.numLayers) :
    fetchVia (fun layer => cache.getRows accessor what bufs layer)
        (fun layer => cache.forEachRow half bufs layer) layer =
      some (.ok (layerRows half (cache.seqLen * cache.kvDim) layer bufs)) := by
  obtain ⟨buf, hget, -, hroom⟩ := hbufs.getElem? hlayer
  rw [layerRows_of_getElem? hget, fetchVia, getRows, if_neg (not_le.mpr hlayer), h.stored, hget]
  cases buf with
  | f32 v => rfl
  | f16 v =>
    have hlen : cache.seqLen * cache.kvDim ≤ v.length := hroom
    show (cache.forEachRow half bufs layer >>= _) = _
    rw [forEachRow, if_neg (not_le.mpr hlayer), h.stored]
    by_cases hd : cache.kvDim = 0
    · rw [if_pos hd, hd, Nat.mul_zero, LayerBuf.toF32PrefixVec_zero]
      rfl
    · have hvisits : ∃ visits, (List.range cache.seqLen).mapM (fun pos =>
          ((LayerBuf.f16 v).readRow half (pos * cache.kvDim) cache.kvDim).map
            fun row => (pos, row)) = some visits := by
        refine ⟨(List.range cache.seqLen).map fun pos =>
          (pos, ((v.drop (pos * cache.kvDim)).take cache.kvDim).map half.toF32), ?_⟩
        have hread : ∀ n ≤ cache.seqLen, (List.range n).mapM (fun pos =>
            ((LayerBuf.f16 v).readRow half (pos * cache.kvDim) cache.kvDim).map
              fun row => (pos, row)) = some ((List.range n).map fun pos =>
          (pos, ((v.drop (pos * cache.kvDim)).take cache.kvDim).map half.toF32)) := by
          intro n hn
          induction n with
          | zero => rfl
          | succ n ih =>
            have hle : (n + 1) * cache.kvDim ≤ cache.seqLen * cache.kvDim :=
              Nat.mul_le_mul_right _ hn
            rw [Nat.succ_mul] at hle
            have hrow : (LayerBuf.f16 v).readRow half (n * cache.kvDim) cache.kvDim =
                some (((v.drop (n * cache.kvDim)).take cache.kvDim).map half.toF32) :=
              if_pos (by omega)
            rw [List.range_succ, List.mapM_append, ih (by omega), List.mapM_cons, hrow]
            simp
        exact hread cache.seqLen le_rfl
      obtain ⟨visits, hvisits⟩ := hvisits
      rw [if_neg hd, hget]
      have hgathered := gathered_readRow hlen hvisits
      simp only [LayerBuf.asF32Prefix, hvisits, Option.bind_eq_bind, Option.bind_some, hgathered,
        LayerBuf.toF32PrefixVec, Nat.min_eq_left hlen]

/-- **Whole reads**: in either element type, `fetch_keys` and `fetch_values` give the
rows of the committed tokens. -/
theorem fetch_of_settled {cache : KvCache} (h : cache.Settled) (half : Half) {layer : ℕ}
    (hlayer : layer < cache.numLayers) :
    fetchKeys (cache.access half) layer = some (.ok ((cache.visible half).keys layer)) ∧
      fetchValues (cache.access half) layer = some (.ok ((cache.visible half).values layer)) :=
  ⟨fetchVia_of_settled h half "get_keys" "keys" ⟨h.shape.keys.length, h.shape.keys.dtype, h.keys⟩
      hlayer,
    fetchVia_of_settled h half "get_values" "values"
      ⟨h.shape.values.length, h.shape.values.dtype, h.values⟩ hlayer⟩

end KvCache

end Kv

end Oxillama
