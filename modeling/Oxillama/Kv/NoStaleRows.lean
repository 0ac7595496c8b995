/-
No stale row is visible in an F32 cache.

The buffers of the cache are never zeroed, so what a reader sees rests on the
counters alone.  `historyOf` follows a run by its calls and answers;
`shows_step` says that the buffers always hold what the history says was
written.  In a disciplined run, where every layer is stored before the position
moves on, the history knows every committed row (`Full`), so a layer that was
stored at the current position is read back row by row as it was written
(`rows_are_latest`).
-/
import Oxillama.Kv.History

namespace Oxillama

namespace Kv

namespace KvCache

/-! ### The history of a run -/

/-- What a call and its answer say was written or dropped. -/
def recorded (numLayers maxSeqLen kvDim : ℕ) (h : History) : Call × Answer → History
  | (.storeKv layer key value, .stored (.ok _)) => h.store layer (key.take kvDim, value.take kvDim)
  | (.advance, _) => h.advance maxSeqLen
  | (.truncate n, _) => h.dropFrom (min n h.seqLen)
  | (.clear, _) => h.dropFrom 0
  | (.clearAndRelease, _) => h.dropFrom 0
  | (.restoreFromSnapshot keys values seqLen, .restored (.ok _)) =>
    .restored numLayers kvDim keys values seqLen
  | (.restoreFromPayload payload, .restored (.ok _)) =>
    .restored numLayers kvDim payload.keys payload.values payload.seqLen
  | _ => h

/-- The history of a run of a new cache. -/
def historyOf (numLayers maxSeqLen kvDim : ℕ) (tr : List (Call × Answer)) : History :=
  tr.foldl (recorded numLayers maxSeqLen kvDim) .empty

/-- The buffers of an F32 cache hold every row of the history. -/
structure Shows (numLayers maxSeqLen kvDim : ℕ) (cache : KvCache) (h : History) : Prop where
  shape : cache.Shape
  dtype : cache.dtype = .f32
  numLayers_eq : cache.numLayers = numLayers
  maxSeqLen_eq : cache.maxSeqLen = maxSeqLen
  kvDim_eq : cache.kvDim = kvDim
  seqLen_eq : h.seqLen = cache.seqLen
  rows : ∀ {layer r kv}, h.rows layer r = some kv → layer < numLayers ∧ r < cache.capacityTokens ∧
    rowAt kvDim cache.keys layer r = kv.1 ∧ rowAt kvDim cache.values layer r = kv.2

theorem shows_new (numLayers maxSeqLen kvDim : ℕ) :
    Shows numLayers maxSeqLen kvDim (new numLayers maxSeqLen kvDim) .empty where
  shape := shape_withDtype numLayers maxSeqLen kvDim .f32
  dtype := rfl
  numLayers_eq := rfl
  maxSeqLen_eq := rfl
  kvDim_eq := rfl
  seqLen_eq := rfl
  rows h := by cases h

section Steps

variable {n m d : ℕ} {cache : KvCache} {h : History} {half : Half}

theorem Shows.backs (hs : Shows n m d cache h) :
    Backs n (cache.capacityTokens * d) .f32 cache.keys ∧
      Backs n (cache.capacityTokens * d) .f32 cache.values := by
  have hk := hs.shape.keys
  have hv := hs.shape.values
  rw [hs.dtype, hs.numLayers_eq, hs.kvDim_eq] at hk hv
  exact ⟨hk, hv⟩

/-- Growing moves no row of the history. -/
private theorem Shows.rows_grown (hs : Shows n m d cache h) {tokens : ℕ} {grown : KvCache}
    (hgrown : Grown tokens cache grown) {layer r : ℕ} {kv : KvRow}
    (hrow : h.rows layer r = some kv) : layer < n ∧ r < grown.capacityTokens ∧
      rowAt d grown.keys layer r = kv.1 ∧ rowAt d grown.values layer r = kv.2 := by
  obtain ⟨hlayer, hcap, hk, hv⟩ := hs.rows hrow
  obtain ⟨hbk, hbv⟩ := hs.backs
  have hr : (r + 1) * d ≤ cache.capacityTokens * d := Nat.mul_le_mul_right d hcap
  refine ⟨hlayer, hcap.trans_le hgrown.mono, ?_⟩
  have hresult := hgrown.result
  rw [ensureCapacity] at hresult
  split at hresult
  · rw [← hresult]
    exact ⟨hk, hv⟩
  · rw [← hresult]
    exact ⟨(rowAt_growTo hbk hlayer hr).trans hk, (rowAt_growTo hbv hlayer hr).trans hv⟩

private theorem shows_storeKv (hs : Shows n m d cache h) {layer : ℕ} {key value : List F32}
    (haccepts : cache.Accepts layer key value) {grown : KvCache} {keys values : List LayerBuf}
    (hstored : StoredKv half layer key value cache grown keys values) :
    Shows n m d (afterStore grown keys values) (h.store layer (key.take d, value.take d)) := by
  have ⟨_, hshape, hbacked, _, hrest⟩ := hstored.growth
  have hn : grown.numLayers = n := by rw [hrest, ← hs.numLayers_eq]
  have hd : grown.kvDim = d := by rw [hrest, ← hs.kvDim_eq]
  have hseq : grown.seqLen = cache.seqLen := by rw [hrest]
  have htype : grown.dtype = .f32 := by rw [hrest, ← hs.dtype]
  have hlayer : layer < n := hs.numLayers_eq ▸ haccepts.layer
  have hfits : (cache.seqLen + 1) * d ≤ grown.capacityTokens * d := Nat.mul_le_mul_right d hbacked
  have hkeyLen : (key.take d).length = d := by
    rw [List.length_take, Nat.min_eq_left (hs.kvDim_eq ▸ haccepts.key)]
  have hvalueLen : (value.take d).length = d := by
    rw [List.length_take, Nat.min_eq_left (hs.kvDim_eq ▸ haccepts.value)]
  have hbk := hshape.keys
  have hbv := hshape.values
  rw [htype, hn, hd] at hbk hbv
  have hwk := hstored.writeKeys
  have hwv := hstored.writeValues
  rw [hs.kvDim_eq] at hwk hwv
  refine ⟨hstored.shape, htype, hn, ?_, hd, ?_, fun {layer' r kv} hrow => ?_⟩
  · show grown.maxSeqLen = m
    rw [hrest, ← hs.maxSeqLen_eq]
  · show h.seqLen = grown.seqLen
    rw [hseq, hs.seqLen_eq]
  · show layer' < n ∧ r < grown.capacityTokens ∧ rowAt d keys layer' r = kv.1 ∧
      rowAt d values layer' r = kv.2
    rw [rowAt_writeLayer hbk hlayer hkeyLen hfits hwk,
      rowAt_writeLayer hbv hlayer hvalueLen hfits hwv]
    rw [History.store, hs.seqLen_eq] at hrow
    dsimp only at hrow
    split at hrow
    · rename_i hhere
      obtain ⟨rfl, rfl⟩ := hhere
      obtain rfl := Option.some.inj hrow
      rw [if_pos ⟨rfl, rfl⟩, if_pos ⟨rfl, rfl⟩]
      exact ⟨hlayer, hbacked, rfl, rfl⟩
    · rename_i hthere
      rw [if_neg hthere, if_neg hthere]
      exact hs.rows_grown hstored.growth hrow

private theorem shows_restore (hs : Shows n m d cache h) {keys values : List (List F32)}
    {seqLen : ℕ} (hrestorable : cache.Restorable keys values seqLen) {grown : KvCache}
    {keyBufs valueBufs : List LayerBuf}
    (hrestored : Restored half keys values seqLen cache grown keyBufs valueBufs) :
    Shows n m d (afterRestore grown keyBufs valueBufs seqLen)
      (.restored n d keys values seqLen) := by
  have ⟨_, hshape, hbacked, _, hrest⟩ := hrestored.growth
  have hn : grown.numLayers = n := by rw [hrest, ← hs.numLayers_eq]
  have hd : grown.kvDim = d := by rw [hrest, ← hs.kvDim_eq]
  have htype : grown.dtype = .f32 := by rw [hrest, ← hs.dtype]
  have hfits : seqLen * d ≤ grown.capacityTokens * d := Nat.mul_le_mul_right d hbacked
  have hbk := hshape.keys
  have hbv := hshape.values
  rw [htype, hn, hd] at hbk hbv
  have hwk := hrestored.writeKeys
  have hwv := hrestored.writeValues
  rw [hs.kvDim_eq] at hwk hwv
  have hlayers := hrestorable.layers
  have hrows := hrestorable.rows
  rw [hs.numLayers_eq] at hlayers hrows
  rw [hs.kvDim_eq] at hrows
  refine ⟨hrestored.shape, htype, hn, ?_, hd, rfl, fun {layer r kv} hrow => ?_⟩
  · show grown.maxSeqLen = m
    rw [hrest, ← hs.maxSeqLen_eq]
  · rw [History.restored] at hrow
    dsimp only at hrow
    split at hrow
    · rename_i hin
      obtain rfl := Option.some.inj hrow
      refine ⟨hin.1, hin.2.trans_le hbacked, ?_, ?_⟩
      · exact rowAt_writeLayers hbk hfits hlayers.1 (fun l hl => (hrows l hl).1) hwk hin.1 hin.2
      · exact rowAt_writeLayers hbv hfits hlayers.2 (fun l hl => (hrows l hl).2) hwv hin.1 hin.2
    · cases hrow

private theorem Shows.of_dropped (hs : Shows n m d cache h) {cache' : KvCache} {k : ℕ}
    (hshape : cache'.Shape) (hseq : cache'.seqLen = k)
    (hrest : cache' = { cache with seqLen := k, storedLen := cache'.storedLen }) :
    Shows n m d cache' (h.dropFrom k) := by
  rw [hrest] at hshape ⊢
  refine ⟨hshape, hs.dtype, hs.numLayers_eq, hs.maxSeqLen_eq, hs.kvDim_eq, rfl,
    fun {layer r kv} hrow => ?_⟩
  rw [History.dropFrom] at hrow
  dsimp only at hrow
  split at hrow
  · exact hs.rows hrow
  · cases hrow

/-- **The buffers follow the history.** -/
theorem shows_step (hs : Shows n m d cache h) {cache' : KvCache} {call : Call} {answer : Answer}
    (hstep : cache.step half call = some (cache', answer)) :
    Shows n m d cache' (recorded n m d h (call, answer)) := by
  have hrestore : ∀ keys values seqLen cache₁ result,
      cache.restoreFromSnapshot half keys values seqLen = some (cache₁, result) →
      Shows n m d cache₁ (match result with
        | .ok _ => .restored n d keys values seqLen
        | .error _ => h) := by
    intro keys values seqLen cache₁ result heq
    rcases restoreFromSnapshot_spec hs.shape half keys values seqLen with
      ⟨-, e, hrefused⟩ | ⟨hrestorable, grown, keyBufs, valueBufs, hrestored⟩
    · obtain ⟨rfl, rfl⟩ := Prod.mk.inj (Option.some.inj (heq.symm.trans hrefused))
      exact hs
    · obtain ⟨rfl, rfl⟩ := Prod.mk.inj (Option.some.inj (heq.symm.trans hrestored.result))
      exact shows_restore hs hrestorable hrestored
  cases call with
  | storeKv layer key value =>
    obtain ⟨⟨cache₁, result⟩, heq, hr⟩ := Option.map_eq_some_iff.mp hstep
    obtain ⟨rfl, rfl⟩ := Prod.mk.inj hr
    rcases storeKv_spec hs.shape half layer key value with
      ⟨-, e, hrefused⟩ | ⟨haccepts, grown, keys, values, hstored⟩
    · obtain ⟨rfl, rfl⟩ := Prod.mk.inj (Option.some.inj (heq.symm.trans hrefused))
      exact hs
    · obtain ⟨rfl, rfl⟩ := Prod.mk.inj (Option.some.inj (heq.symm.trans hstored.result))
      exact shows_storeKv hs haccepts hstored
  | advance =>
    obtain ⟨rfl, rfl⟩ := Prod.mk.inj (Option.some.inj hstep)
    have hshape := shape_advance hs.shape
    show Shows n m d cache.advance (h.advance m)
    rw [advance, hs.maxSeqLen_eq, ← hs.seqLen_eq] at hshape ⊢
    rw [History.advance]
    split at hshape
    · rename_i hlt
      rw [if_pos hlt, if_pos hlt]
      exact ⟨hshape, hs.dtype, hs.numLayers_eq, rfl, hs.kvDim_eq, rfl, hs.rows⟩
    · rename_i hge
      rw [if_neg hge, if_neg hge]
      exact hs
  | truncate k =>
    obtain ⟨rfl, rfl⟩ := Prod.mk.inj (Option.some.inj hstep)
    exact hs.of_dropped (shape_truncate hs.shape k) (by rw [hs.seqLen_eq]; rfl)
      (by rw [hs.seqLen_eq]; rfl)
  | clear =>
    obtain ⟨rfl, rfl⟩ := Prod.mk.inj (Option.some.inj hstep)
    exact hs.of_dropped (shape_clear hs.shape) rfl rfl
  | clearAndRelease =>
    obtain ⟨rfl, rfl⟩ := Prod.mk.inj (Option.some.inj hstep)
    refine ⟨shape_clearAndRelease hs.shape, hs.dtype, hs.numLayers_eq, hs.maxSeqLen_eq,
      hs.kvDim_eq, rfl, fun {layer r kv} hrow => ?_⟩
    cases hrow
  | restoreFromSnapshot keys values seqLen =>
    obtain ⟨⟨cache₁, result⟩, heq, hr⟩ := Option.map_eq_some_iff.mp hstep
    obtain ⟨rfl, rfl⟩ := Prod.mk.inj hr
    have hshows := hrestore keys values seqLen cache₁ result heq
    cases result <;> exact hshows
  | restoreFromPayload payload =>
    obtain ⟨⟨cache₁, result⟩, heq, hr⟩ := Option.map_eq_some_iff.mp hstep
    obtain ⟨rfl, rfl⟩ := Prod.mk.inj hr
    rcases restoreFromPayload_cases half payload cache with ⟨e, hrefused⟩ | hsame
    · obtain ⟨rfl, rfl⟩ := Prod.mk.inj (Option.some.inj (heq.symm.trans hrefused))
      exact hs
    · have hshows := hrestore _ _ _ _ _ (hsame.symm.trans heq)
      cases result <;> exact hshows

theorem shows_run {tr : List (Call × Answer)} (hr : Run (step half) (new n m d) tr cache) :
    Shows n m d cache (historyOf n m d tr) := by
  have hstart : Shows n m d (new n m d) (historyOf n m d []) := shows_new n m d
  refine hr.traceInvariant (P := fun done cache => Shows n m d cache (historyOf n m d done)) ?_
    hstart
  intro done cache call cache' answer ih hstep
  rw [historyOf, List.foldl_append]
  exact shows_step ih hstep

/-! ### Disciplined runs -/

/-- Before the position moves on, every layer was stored at it. -/
def Disciplined (n m d : ℕ) : History → List (Call × Answer) → Prop
  | _, [] => True
  | h, e :: tr => (e.1 = .advance → h.seqLen < m → ∀ layer < n, (h.rows layer h.seqLen).isSome) ∧
      Disciplined n m d (recorded n m d h e) tr

/-- Every committed row of every layer is known. -/
def Full (n : ℕ) (h : History) : Prop := ∀ layer < n, ∀ r < h.seqLen, (h.rows layer r).isSome

private theorem full_dropFrom (hfull : Full n h) {k : ℕ} (hk : k ≤ h.seqLen) :
    Full n (h.dropFrom k) := by
  intro layer hlayer r hr
  have hr' : r < k := hr
  show (if r < k then h.rows layer r else none).isSome
  rw [if_pos hr']
  exact hfull layer hlayer r (hr'.trans_le hk)

private theorem full_restored (n d : ℕ) (keys values : List (List F32)) (seqLen : ℕ) :
    Full n (.restored n d keys values seqLen) := by
  intro layer hlayer r hr
  have hin : layer < n ∧ r < seqLen := ⟨hlayer, hr⟩
  show (if layer < n ∧ r < seqLen then _ else none : Option KvRow).isSome
  rw [if_pos hin]
  rfl

/-- A disciplined call keeps the committed rows known. -/
theorem full_recorded (hfull : Full n h) {e : Call × Answer}
    (hdisc : e.1 = .advance → h.seqLen < m → ∀ layer < n, (h.rows layer h.seqLen).isSome) :
    Full n (recorded n m d h e) := by
  obtain ⟨call, answer⟩ := e
  cases call with
  | storeKv layer key value =>
    cases answer with
    | stored result =>
      cases result with
      | error _ => exact hfull
      | ok _ =>
        intro l hl r hr
        show (if l = layer ∧ r = h.seqLen then some _ else h.rows l r).isSome
        split
        · rfl
        · exact hfull l hl r hr
    | restored _ => exact hfull
    | done => exact hfull
  | advance =>
    show Full n (h.advance m)
    rw [History.advance]
    split
    · rename_i hlt
      intro layer hlayer r hr
      rcases Nat.lt_succ_iff_lt_or_eq.mp hr with hr | rfl
      · exact hfull layer hlayer r hr
      · exact hdisc rfl hlt layer hlayer
    · exact hfull
  | truncate k => exact full_dropFrom hfull (Nat.min_le_right _ _)
  | clear => exact full_dropFrom hfull (Nat.zero_le _)
  | clearAndRelease => exact full_dropFrom hfull (Nat.zero_le _)
  | restoreFromSnapshot keys values seqLen =>
    cases answer with
    | stored _ => exact hfull
    | restored result =>
      cases result with
      | error _ => exact hfull
      | ok _ => exact full_restored n d keys values seqLen
    | done => exact hfull
  | restoreFromPayload payload =>
    cases answer with
    | stored _ => exact hfull
    | restored result =>
      cases result with
      | error _ => exact hfull
      | ok _ => exact full_restored n d payload.keys payload.values payload.seqLen
    | done => exact hfull

theorem full_run {tr : List (Call × Answer)} (hdisc : Disciplined n m d h tr)
    (hfull : Full n h) : Full n (tr.foldl (recorded n m d) h) := by
  induction tr generalizing h with
  | nil => exact hfull
  | cons e tr ih => exact ih hdisc.2 (full_recorded hfull hdisc.1)

/-! ### What is read -/

/-- Reading flat rows all of which the history knows. -/
theorem getRows_rows {bufs : List LayerBuf} {layer : ℕ} (half : Half)
    (accessor what : String) (hs : Shows n m d cache h)
    (hb : Backs n (cache.capacityTokens * d) .f32 bufs)
    (hlayer : layer < n) (hcap : cache.storedLen ≤ cache.capacityTokens) :
    ∃ slice, cache.getRows accessor what bufs layer = some (.ok slice) ∧
      slice.length = cache.storedLen * d ∧
      (∀ r < cache.storedLen, row d slice r = rowAt d bufs layer r) ∧
      (0 < d → cache.forEachRow half bufs layer = some (.ok (rowsOf d slice))) := by
  obtain ⟨buf, hget, htype, hroom⟩ := hb.getElem? hlayer
  cases buf with
  | f16 v => cases htype
  | f32 v =>
    have hstop : cache.storedLen * d ≤ v.length := (Nat.mul_le_mul_right d hcap).trans hroom
    have hmin : min (cache.storedLen * d) v.length = cache.storedLen * d := Nat.min_eq_left hstop
    have hn : ¬ cache.numLayers ≤ layer := by
      rw [hs.numLayers_eq]
      exact not_le.mpr hlayer
    refine ⟨v.take (cache.storedLen * d), ?_, ?_, fun r hr => ?_, fun hd => ?_⟩
    · rw [getRows, if_neg hn, hget, hs.kvDim_eq]
      simp [LayerBuf.asF32Prefix, hmin]
    · rw [List.length_take, hmin]
    · rw [row_take hr, rowAt, hget]
    · rw [forEachRow, if_neg hn, hs.kvDim_eq, if_neg hd.ne', hget]
      simp [LayerBuf.asF32Prefix, hmin]

/-- A snapshot copies rows. -/
private theorem snapshot_rows (half : Half) {bufs : List LayerBuf} {room layer k r : ℕ}
    (hb : Backs n room .f32 bufs) (hlayer : layer < n) (hr : r < k) :
    row d ((bufs.map (LayerBuf.toF32PrefixVec half (k * d))).getD layer []) r =
      rowAt d bufs layer r := by
  obtain ⟨buf, hget, htype, -⟩ := hb.getElem? hlayer
  cases buf with
  | f16 v => cases htype
  | f32 v =>
    rw [List.getD_eq_getElem?_getD, List.getElem?_map, hget, rowAt, hget]
    show row d (v.take (min (k * d) v.length)) r = row d v r
    rw [List.take_eq_take_min.symm, row_take hr]

/-- **No stale row is visible.**  In a disciplined run, a layer that was stored at
the current position is read, through every reading method, as the rows that were
written last at their positions and not dropped since; and so are the committed
rows of every layer in a snapshot. -/
theorem rows_are_latest {tr : List (Call × Answer)}
    (hr : Run (step half) (new n m d) tr cache) (hdisc : Disciplined n m d .empty tr)
    {layer : ℕ} (hlayer : layer < n)
    (hcurrent : ((historyOf n m d tr).rows layer (historyOf n m d tr).seqLen).isSome) :
    ∃ keys values, cache.getKeys layer = some (.ok keys) ∧
      cache.getValues layer = some (.ok values) ∧
      keys.length = cache.storedLen * d ∧ values.length = cache.storedLen * d ∧
      (0 < d → cache.forEachKey half layer = some (.ok (rowsOf d keys)) ∧
        cache.forEachValue half layer = some (.ok (rowsOf d values))) ∧
      (∀ r < cache.storedLen,
        (historyOf n m d tr).rows layer r = some (row d keys r, row d values r)) ∧
      ∀ k, ∀ l < n, ∀ r < min k cache.seqLen, (historyOf n m d tr).rows l r =
        some (row d ((cache.snapshotTruncated half k).keys.getD l []) r,
          row d ((cache.snapshotTruncated half k).values.getD l []) r) := by
  have hs := shows_run hr
  have hfull : Full n (historyOf n m d tr) :=
    full_run hdisc fun _ _ r hr => absurd hr (Nat.not_lt_zero r)
  -- every visible row is known: committed rows by discipline, the current one by `hcurrent`
  have hknown : ∀ r < cache.storedLen, ((historyOf n m d tr).rows layer r).isSome := by
    intro r hlt
    have hle := hs.shape.storedLen_le
    rw [← hs.seqLen_eq] at hle
    rcases Nat.lt_succ_iff_lt_or_eq.mp (hlt.trans_le hle) with hlt | rfl
    · exact hfull layer hlayer r hlt
    · exact hcurrent
  have hcap : cache.storedLen ≤ cache.capacityTokens := by
    rcases Nat.eq_zero_or_pos cache.storedLen with hzero | hpos
    · rw [hzero]
      exact Nat.zero_le _
    · obtain ⟨kv, hkv⟩ := Option.isSome_iff_exists.mp
        (hknown (cache.storedLen - 1) (Nat.sub_one_lt hpos.ne'))
      have := (hs.rows hkv).2.1
      omega
  obtain ⟨hbk, hbv⟩ := hs.backs
  obtain ⟨keys, hkeys, hklen, hkrows, hkeach⟩ :=
    getRows_rows half "get_keys" "keys" hs hbk hlayer hcap
  obtain ⟨values, hvalues, hvlen, hvrows, hveach⟩ :=
    getRows_rows half "get_values" "values" hs hbv hlayer hcap
  refine ⟨keys, values, hkeys, hvalues, hklen, hvlen, fun hd => ⟨hkeach hd, hveach hd⟩,
    fun r hlt => ?_, fun k l hl r hlt => ?_⟩
  · obtain ⟨kv, hkv⟩ := Option.isSome_iff_exists.mp (hknown r hlt)
    obtain ⟨-, -, hk, hv⟩ := hs.rows hkv
    rw [hkv, hkrows r hlt, hvrows r hlt, hk, hv]
  · have hcommitted : r < (historyOf n m d tr).seqLen := by
      rw [hs.seqLen_eq]
      exact hlt.trans_le (Nat.min_le_right _ _)
    obtain ⟨kv, hkv⟩ := Option.isSome_iff_exists.mp (hfull l hl r hcommitted)
    obtain ⟨-, -, hk, hv⟩ := hs.rows hkv
    rw [hkv, snapshotTruncated, hs.kvDim_eq, snapshot_rows half hbk hl hlt,
      snapshot_rows half hbv hl hlt, hk, hv]

/-- A row written, committed, rolled back and written again: the second one is read. -/
theorem rows_are_latest_rolledBack : ∃ cache keys values,
    Run (step .onZero) (new 1 4 1)
      [(.storeKv 0 [5] [6], .stored (.ok ())), (.advance, .done), (.truncate 0, .done),
        (.storeKv 0 [7] [8], .stored (.ok ()))] cache ∧
    cache.getKeys 0 = some (.ok keys) ∧ cache.getValues 0 = some (.ok values) ∧
    row 1 keys 0 = [7] ∧ row 1 values 0 = [8] := by
  have hr : ∃ cache, Run (step .onZero) (new 1 4 1)
      [(.storeKv 0 [5] [6], .stored (.ok ())), (.advance, .done), (.truncate 0, .done),
        (.storeKv 0 [7] [8], .stored (.ok ()))] cache ∧ cache.storedLen = 1 :=
    ⟨_, .cons rfl (.cons rfl (.cons rfl (.cons rfl (.nil _)))), rfl⟩
  obtain ⟨cache, hr, hlen⟩ := hr
  have hdisc : Disciplined 1 4 1 .empty
      [(.storeKv 0 [5] [6], .stored (.ok ())), (.advance, .done), (.truncate 0, .done),
        (.storeKv 0 [7] [8], .stored (.ok ()))] := by
    refine ⟨nofun, fun _ _ layer hlayer => ?_, nofun, nofun, trivial⟩
    rw [Nat.lt_one_iff.mp hlayer]
    rfl
  obtain ⟨keys, values, hkeys, hvalues, -, -, -, hrows, -⟩ :=
    rows_are_latest hr hdisc Nat.zero_lt_one rfl
  have hrow : some (([7], [8]) : KvRow) = some (row 1 keys 0, row 1 values 0) :=
    hrows 0 (hlen ▸ Nat.zero_lt_one)
  obtain ⟨hk, hv⟩ := Prod.mk.inj (Option.some.inj hrow)
  exact ⟨cache, keys, values, hr, hkeys, hvalues, hk.symm, hv.symm⟩

end Steps

end KvCache

end Kv

end Oxillama
