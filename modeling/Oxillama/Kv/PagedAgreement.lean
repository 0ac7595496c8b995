/-
The paged cache next to the contiguous F32 cache, on the same calls.

Both keep the rows that were written (`Shows`, `PagedShows`), so what they visit
is decided by how many positions they make visible: the contiguous cache all of
`storedLen`, the paged one only `seqLen`.  Between `store_kv` and `advance` the
two differ by the row being written, and they differ in what they do with a row
that is too short, or of no elements at all:

* `agree_iff` — in which states the two are read alike;
* `lockstep_iff` — along which sequences of calls they answer alike, and along
  which they are also read alike at every point.
-/
import Oxillama.Kv.Paged
import Oxillama.Kv.NoStaleRows

namespace Oxillama

namespace Kv

/-- A call that both caches take. -/
inductive SharedCall
  | storeKv (layer : ℕ) (key value : List F32)
  | advance
  | clear
  deriving DecidableEq

/-- The call on the contiguous cache. -/
def SharedCall.toCall : SharedCall → KvCache.Call
  | .storeKv layer key value => .storeKv layer key value
  | .advance => .advance
  | .clear => .clear

/-- One call on the paged cache: `none` is a panic. -/
def PagedKvCache.step (cache : PagedKvCache) : SharedCall → Option (PagedKvCache × KvCache.Answer)
  | .storeKv layer key value => (cache.storeKv layer key value).map fun r => (r.1, .stored r.2)
  | .advance => some (cache.advance, .done)
  | .clear => some (cache.clear, .done)

/-- Two answers succeed or fail alike. -/
def KvCache.Answer.sameKind : KvCache.Answer → KvCache.Answer → Bool
  | .stored (.ok _), .stored (.ok _) => true
  | .stored (.error _), .stored (.error _) => true
  | .restored (.ok _), .restored (.ok _) => true
  | .restored (.error _), .restored (.error _) => true
  | .done, .done => true
  | _, _ => false

/-! ### What the two visit -/

/-- The first `count` rows the history has for a layer. -/
def History.visits (part : KvRow → List F32) (layer count : ℕ) (h : History) : Visits :=
  (List.range count).map fun r => (r, ((h.rows layer r).map part).getD [])

/-- The history knows the first `count` rows of a layer. -/
def History.Stored (layer count : ℕ) (h : History) : Prop :=
  ∀ r < count, (h.rows layer r).isSome

theorem History.length_visits (part : KvRow → List F32) (layer count : ℕ) (h : History) :
    (h.visits part layer count).length = count := by
  rw [visits, List.length_map, List.length_range]

section Visits

variable {n m d layer : ℕ} {h : History}

/-- The contiguous cache visits every stored position, unless rows have no elements. -/
theorem KvCache.Shows.forEach (half : Half) {cache : KvCache} (hs : Shows n m d cache h)
    (hlayer : layer < n) (hstored : h.Stored layer cache.storedLen) :
    cache.forEachKey half layer =
        some (.ok (if d = 0 then [] else h.visits Prod.fst layer cache.storedLen)) ∧
      cache.forEachValue half layer =
        some (.ok (if d = 0 then [] else h.visits Prod.snd layer cache.storedLen)) := by
  have hn : ¬ cache.numLayers ≤ layer := hs.numLayers_eq ▸ not_le.mpr hlayer
  by_cases hd : d = 0
  · rw [if_pos hd, if_pos hd]
    constructor
    · rw [KvCache.forEachKey, forEachRow, if_neg hn, if_pos (hs.kvDim_eq.trans hd)]
    · rw [KvCache.forEachValue, forEachRow, if_neg hn, if_pos (hs.kvDim_eq.trans hd)]
  have hcap : cache.storedLen ≤ cache.capacityTokens := by
    rcases Nat.eq_zero_or_pos cache.storedLen with hzero | hpos
    · rw [hzero]
      exact Nat.zero_le _
    · obtain ⟨kv, hkv⟩ := Option.isSome_iff_exists.mp
        (hstored (cache.storedLen - 1) (Nat.sub_one_lt hpos.ne'))
      have := (hs.rows hkv).2.1
      omega
  have hpos : 0 < d := Nat.pos_of_ne_zero hd
  obtain ⟨hbk, hbv⟩ := hs.backs
  obtain ⟨keys, -, hklen, hkrows, hkeach⟩ :=
    getRows_rows half "get_keys" "keys" hs hbk hlayer hcap
  obtain ⟨values, -, hvlen, hvrows, hveach⟩ :=
    getRows_rows half "get_values" "values" hs hbv hlayer hcap
  rw [if_neg hd, if_neg hd, KvCache.forEachKey, KvCache.forEachValue, hkeach hpos, hveach hpos,
    rowsOf_of_length hpos hklen, rowsOf_of_length hpos hvlen]
  have hrow : ∀ r ∈ List.range cache.storedLen, ∃ kv, h.rows layer r = some kv ∧
      row d keys r = kv.1 ∧ row d values r = kv.2 := by
    intro r hr
    have hr := List.mem_range.mp hr
    obtain ⟨kv, hkv⟩ := Option.isSome_iff_exists.mp (hstored r hr)
    obtain ⟨-, -, hk, hv⟩ := hs.rows hkv
    exact ⟨kv, hkv, (hkrows r hr).trans hk, (hvrows r hr).trans hv⟩
  constructor
  · refine congrArg (some ∘ Except.ok) (List.map_congr_left fun r hr => ?_)
    obtain ⟨kv, hkv, hk, -⟩ := hrow r hr
    rw [hkv, hk]
    rfl
  · refine congrArg (some ∘ Except.ok) (List.map_congr_left fun r hr => ?_)
    obtain ⟨kv, hkv, -, hv⟩ := hrow r hr
    rw [hkv, hv]
    rfl

/-- A loop over positions each of which yields its row. -/
private theorem mapM_visits (read : ℕ → Option (List F32)) (rows : ℕ → List F32) (count : ℕ)
    (hread : ∀ pos < count, read pos = some (rows pos)) :
    (List.range count).mapM (fun pos => (read pos).map fun row => (pos, row)) =
      some ((List.range count).map fun pos => (pos, rows pos)) := by
  induction count with
  | zero => rfl
  | succ count ih =>
    have hinit := ih fun pos hpos => hread pos (Nat.lt_succ_of_lt hpos)
    simp [List.range_succ, hinit, hread count (Nat.lt_succ_self count)]

/-- The paged cache visits every committed position. -/
theorem PagedShows.forEach {cache : PagedKvCache} (hs : PagedShows n m d cache h)
    (hlayer : layer < n) (hstored : h.Stored layer cache.seqLen) :
    cache.forEachKey layer = some (.ok (h.visits Prod.fst layer cache.seqLen)) ∧
      cache.forEachValue layer = some (.ok (h.visits Prod.snd layer cache.seqLen)) := by
  have hn : ¬ cache.numLayers ≤ layer := hs.numLayers_eq ▸ not_le.mpr hlayer
  have hlt : layer < cache.layers.length := hs.length.symm ▸ hlayer
  have hget : cache.layers[layer]? = some cache.layers[layer] := List.getElem?_eq_getElem hlt
  have hrow : ∀ r < cache.seqLen, ∃ kv, h.rows layer r = some kv ∧
      cache.layers[layer].Holds d r kv := by
    intro r hr
    obtain ⟨kv, hkv⟩ := Option.isSome_iff_exists.mp (hstored r hr)
    obtain ⟨layerCache, hget', hholds⟩ := hs.rows hkv
    obtain rfl := Option.some.inj (hget.symm.trans hget')
    exact ⟨kv, hkv, hholds⟩
  have hkeys := mapM_visits (fun pos => LayerCache.readRow pos d cache.layers[layer].keyPages)
    (fun r => ((h.rows layer r).map Prod.fst).getD []) cache.seqLen fun r hr => by
      obtain ⟨kv, hkv, hk, -⟩ := hrow r hr
      rw [hk, hkv]
      rfl
  have hvalues := mapM_visits (fun pos => LayerCache.readRow pos d cache.layers[layer].valuePages)
    (fun r => ((h.rows layer r).map Prod.snd).getD []) cache.seqLen fun r hr => by
      obtain ⟨kv, hkv, -, hv⟩ := hrow r hr
      rw [hv, hkv]
      rfl
  constructor
  · rw [PagedKvCache.forEachKey, PagedKvCache.iterRows, if_neg hn, hget, hs.kvDim_eq]
    simp [hkeys, History.visits]
  · rw [PagedKvCache.forEachValue, PagedKvCache.iterRows, if_neg hn, hget, hs.kvDim_eq]
    simp [hvalues, History.visits]

end Visits

/-! ### Side by side -/

/-- The two caches after the same calls, with what was written to them. -/
structure Twins where
  cache : KvCache
  paged : PagedKvCache
  written : History

namespace Twins

/-- Two new caches. -/
def new (numLayers maxSeqLen kvDim : ℕ) : Twins :=
  ⟨.new numLayers maxSeqLen kvDim, .new numLayers maxSeqLen kvDim, .empty⟩

/-- One call on both: `none` where one panics or they answer differently. -/
def step (half : Half) (t : Twins) (call : SharedCall) : Option (Twins × KvCache.Answer) := do
  let (cache, answer) ← t.cache.step half call.toCall
  let (paged, answer') ← t.paged.step call
  if answer.sameKind answer' then
    some (⟨cache, paged, KvCache.recorded t.cache.numLayers t.cache.maxSeqLen t.cache.kvDim
      t.written (call.toCall, answer)⟩, answer)
  else none

/-- Two reads go through with the same result. -/
def SameRead (a b : Option (ArchResult Visits)) : Prop :=
  ∃ result, a = some result ∧ b = some result

/-- The two have the same length, and every layer that was stored at each visible
position is visited alike. -/
structure Agree (half : Half) (t : Twins) : Prop where
  seqLen : t.cache.seqLen = t.paged.seqLen
  keys : ∀ layer, t.written.Stored layer t.cache.storedLen →
    SameRead (t.cache.forEachKey half layer) (t.paged.forEachKey layer)
  values : ∀ layer, t.written.Stored layer t.cache.storedLen →
    SameRead (t.cache.forEachValue half layer) (t.paged.forEachValue layer)

/-- No row is pending, or rows have no elements and none is committed. -/
def Settled (t : Twins) : Prop :=
  if t.cache.kvDim = 0 then t.cache.seqLen = 0 else t.cache.storedLen = t.cache.seqLen

/-- Some layer was stored at each visible position. -/
def SomeStored (t : Twins) : Prop :=
  ∃ layer < t.cache.numLayers, t.written.Stored layer t.cache.storedLen

/-- What links the two: each follows the history, and the history has a row at
the pending position. -/
structure Related (n m d : ℕ) (t : Twins) : Prop where
  cache : KvCache.Shows n m d t.cache t.written
  paged : PagedShows n m d t.paged t.written
  stored : ∀ {layer r}, (t.written.rows layer r).isSome → r < t.cache.storedLen
  pending : t.cache.storedLen = t.cache.seqLen + 1 →
    ∃ layer < n, (t.written.rows layer t.cache.seqLen).isSome

theorem related_new (n m d : ℕ) : Related n m d (new n m d) where
  cache := KvCache.shows_new n m d
  paged := pagedShows_new n m d
  stored h := by cases h
  pending h := by cases h

section Steps

variable {n m d : ℕ} {t t' : Twins} {half : Half}

theorem Related.seqLen (h : Related n m d t) : t.cache.seqLen = t.paged.seqLen :=
  h.cache.seqLen_eq.symm.trans h.paged.seqLen_eq

/-- **Where the two are read alike**: where every visible row is committed, or no
layer was stored at all of them. -/
theorem agree_iff (h : Related n m d t) : t.Agree half ↔ (t.SomeStored → t.Settled) := by
  have hn := h.cache.numLayers_eq
  have hpaged : ∀ {layer}, t.written.Stored layer t.cache.storedLen →
      t.written.Stored layer t.paged.seqLen := fun hstored r hr =>
    hstored r (hr.trans_le (h.seqLen ▸ h.cache.shape.seqLen_le))
  -- the two visits of a stored layer are equal exactly if their lengths are
  have hvisits : ∀ (part : KvRow → List F32) (layer : ℕ),
      (if d = 0 then [] else t.written.visits part layer t.cache.storedLen) =
        t.written.visits part layer t.paged.seqLen ↔ t.Settled := by
    intro part layer
    rw [Settled, h.cache.kvDim_eq, h.seqLen]
    constructor
    · intro heq
      have hlen := congrArg List.length heq
      rw [History.length_visits] at hlen
      split
      · rename_i hd
        rw [if_pos hd] at hlen
        exact hlen.symm
      · rename_i hd
        rw [if_neg hd, History.length_visits] at hlen
        exact hlen
    · intro hsettled
      by_cases hd : d = 0
      · rw [if_pos hd] at hsettled ⊢
        rw [hsettled]
        rfl
      · rw [if_neg hd] at hsettled ⊢
        rw [hsettled]
  constructor
  · rintro hagree ⟨layer, hlayer, hstored⟩
    rw [hn] at hlayer
    obtain ⟨result, hleft, hright⟩ := hagree.keys layer hstored
    rw [(h.cache.forEach half hlayer hstored).1] at hleft
    rw [(h.paged.forEach hlayer (hpaged hstored)).1] at hright
    have heq := Except.ok.inj (Option.some.inj (hleft.trans hright.symm))
    exact (hvisits Prod.fst layer).mp heq
  · intro hsettled
    refine ⟨h.seqLen, fun layer hstored => ?_, fun layer hstored => ?_⟩ <;>
      by_cases hlayer : layer < n
    · have heq := (hvisits Prod.fst layer).mpr (hsettled ⟨layer, hn.symm ▸ hlayer, hstored⟩)
      rw [(h.cache.forEach half hlayer hstored).1, (h.paged.forEach hlayer (hpaged hstored)).1, heq]
      exact ⟨_, rfl, rfl⟩
    · rw [not_lt] at hlayer
      refine ⟨.error (layerOutOfRange layer n), ?_, ?_⟩
      · rw [KvCache.forEachKey, KvCache.forEachRow, if_pos (hn.symm ▸ hlayer), hn]
      · rw [PagedKvCache.forEachKey, PagedKvCache.iterRows, h.paged.numLayers_eq, if_pos hlayer]
    · have heq := (hvisits Prod.snd layer).mpr (hsettled ⟨layer, hn.symm ▸ hlayer, hstored⟩)
      rw [(h.cache.forEach half hlayer hstored).2, (h.paged.forEach hlayer (hpaged hstored)).2, heq]
      exact ⟨_, rfl, rfl⟩
    · rw [not_lt] at hlayer
      refine ⟨.error (layerOutOfRange layer n), ?_, ?_⟩
      · rw [KvCache.forEachValue, KvCache.forEachRow, if_pos (hn.symm ▸ hlayer), hn]
      · rw [PagedKvCache.forEachValue, PagedKvCache.iterRows, h.paged.numLayers_eq, if_pos hlayer]

/-- **What `store_kv` does to both**: they refuse, one panics on a short row, or
they write it and make one more position visible. -/
theorem Related.storeKv (h : Related n m d t) (half : Half) (layer : ℕ) (key value : List F32) :
    (¬ (layer < n ∧ t.cache.seqLen < m) ∧
      ∃ answer, t.step half (.storeKv layer key value) = some (t, answer)) ∨
    ((layer < n ∧ t.cache.seqLen < m) ∧ (key.length < d ∨ value.length < d) ∧
      t.step half (.storeKv layer key value) = none) ∨
    ((layer < n ∧ t.cache.seqLen < m) ∧ (d ≤ key.length ∧ d ≤ value.length) ∧
      ∃ t', t.step half (.storeKv layer key value) = some (t', .stored (.ok ())) ∧
        Related n m d t' ∧ t'.cache.seqLen = t.cache.seqLen ∧
        t'.cache.storedLen = t.cache.seqLen + 1 ∧
        t'.written = t.written.store layer (key.take d, value.take d)) := by
  have hn := h.cache.numLayers_eq
  have hm := h.cache.maxSeqLen_eq
  have hd := h.cache.kvDim_eq
  have hstored_le := h.cache.shape.storedLen_le
  rcases KvCache.storeKv_spec h.cache.shape half layer key value with
    ⟨hrefuses, e, hleft⟩ | ⟨haccepts, grown, keys, values, hstoredKv⟩ <;>
    rcases h.paged.storeKv layer key value with
      ⟨hno, e', hright⟩ | ⟨hyes, hshort, hright⟩ | ⟨hyes, hlong, paged, hright, hshows⟩
  · refine .inl ⟨h.seqLen.symm ▸ hno, .stored (.error e), ?_⟩
    simp [step, KvCache.step, PagedKvCache.step, SharedCall.toCall, hleft, hright,
      KvCache.Answer.sameKind, KvCache.recorded]
  · refine .inr (.inl ⟨h.seqLen.symm ▸ hyes, hshort, ?_⟩)
    simp [step, PagedKvCache.step, hright]
  · rw [← h.seqLen] at hyes
    exact absurd ⟨hn.symm ▸ hyes.1, hm.symm ▸ hyes.2, hd.symm ▸ hlong.1, hd.symm ▸ hlong.2⟩ hrefuses
  · rw [← h.seqLen] at hno
    exact absurd ⟨hn ▸ haccepts.layer, hm ▸ haccepts.room⟩ hno
  · rcases hshort with hkey | hvalue
    · exact absurd (hd ▸ haccepts.key) (not_le.mpr hkey)
    · exact absurd (hd ▸ haccepts.value) (not_le.mpr hvalue)
  · have hrest := hstoredKv.growth.rest
    have hseq : grown.seqLen = t.cache.seqLen := by rw [hrest]
    have hlen : grown.storedLen = t.cache.storedLen := by rw [hrest]
    have hcache : KvCache.Shows n m d (KvCache.afterStore grown keys values)
        (t.written.store layer (key.take d, value.take d)) :=
      KvCache.shows_step h.cache (show t.cache.step half (.storeKv layer key value) =
        some (_, .stored (.ok ())) by rw [KvCache.step, hstoredKv.result]; rfl)
    have hvisible : (KvCache.afterStore grown keys values).storedLen = t.cache.seqLen + 1 := by
      show max grown.storedLen (grown.seqLen + 1) = t.cache.seqLen + 1
      omega
    refine .inr (.inr ⟨h.seqLen.symm ▸ hyes, hlong, ⟨KvCache.afterStore grown keys values, paged,
      t.written.store layer (key.take d, value.take d)⟩, ?_,
      ⟨hcache, hshows, fun {l r} hrow => ?_, fun _ => ⟨layer, hyes.1, ?_⟩⟩, hseq, hvisible, rfl⟩)
    · simp [step, KvCache.step, PagedKvCache.step, SharedCall.toCall, hstoredKv.result, hright,
        KvCache.Answer.sameKind, KvCache.recorded, hd]
    · rw [hvisible]
      rw [History.store, h.cache.seqLen_eq] at hrow
      dsimp only at hrow
      split at hrow
      · rename_i hhere
        exact hhere.2 ▸ Nat.lt_succ_self r
      · exact (h.stored hrow).trans_le hstored_le
    · show (if layer = layer ∧ grown.seqLen = t.written.seqLen then _ else _ :
        Option KvRow).isSome
      rw [if_pos ⟨rfl, hseq.trans h.cache.seqLen_eq.symm⟩]
      rfl

/-- **What `advance` does to both**: it commits the pending position, below the
maximum. -/
theorem Related.advance (h : Related n m d t) (half : Half) :
    ∃ t', t.step half .advance = some (t', .done) ∧ Related n m d t' ∧
      t'.written.rows = t.written.rows ∧
      (t.cache.seqLen < m → t'.cache.seqLen = t.cache.seqLen + 1 ∧
        t'.cache.storedLen = t.cache.seqLen + 1) ∧
      (m ≤ t.cache.seqLen → t' = t) := by
  have hm := h.cache.maxSeqLen_eq
  have hstored_le := h.cache.shape.storedLen_le
  have hcache : KvCache.Shows n m d t.cache.advance (t.written.advance m) :=
    KvCache.shows_step h.cache (show t.cache.step half .advance = some (_, .done) from rfl)
  refine ⟨⟨t.cache.advance, t.paged.advance, t.written.advance m⟩, ?_,
    ⟨hcache, h.paged.advance, ?_, ?_⟩, ?_, ?_, ?_⟩
  · simp [step, KvCache.step, PagedKvCache.step, SharedCall.toCall, KvCache.Answer.sameKind,
      KvCache.recorded, hm]
  · intro layer r hrow
    show r < t.cache.advance.storedLen
    rw [History.advance] at hrow
    have hlt : r < t.cache.storedLen := by
      split at hrow <;> exact h.stored hrow
    rw [KvCache.advance]
    split
    · exact hlt.trans_le (Nat.le_max_left _ _)
    · exact hlt
  · show t.cache.advance.storedLen = t.cache.advance.seqLen + 1 →
      ∃ layer < n, ((t.written.advance m).rows layer t.cache.advance.seqLen).isSome
    rw [KvCache.advance, History.advance, hm, h.cache.seqLen_eq]
    split
    · dsimp only
      intro hpending
      omega
    · exact h.pending
  · show (t.written.advance m).rows = t.written.rows
    rw [History.advance]
    split <;> rfl
  · intro hlt
    show t.cache.advance.seqLen = _ ∧ t.cache.advance.storedLen = _
    rw [KvCache.advance, hm, if_pos hlt]
    exact ⟨rfl, Nat.max_eq_right hstored_le⟩
  · intro hge
    rw [KvCache.advance, PagedKvCache.advance, History.advance, hm, h.paged.maxSeqLen_eq,
      if_neg (not_lt.mpr hge), if_neg (not_lt.mpr (h.seqLen ▸ hge)),
      if_neg (not_lt.mpr (h.cache.seqLen_eq.symm ▸ hge))]

/-- **What `clear` does to both.** -/
theorem Related.clear (h : Related n m d t) (half : Half) :
    ∃ t', t.step half .clear = some (t', .done) ∧ Related n m d t' ∧ t'.cache.storedLen = 0 := by
  have hcache : KvCache.Shows n m d t.cache.clear (t.written.dropFrom 0) :=
    KvCache.shows_step h.cache (show t.cache.step half .clear = some (_, .done) from rfl)
  refine ⟨⟨t.cache.clear, t.paged.clear, t.written.dropFrom 0⟩, ?_,
    ⟨hcache, h.paged.clear, ?_, ?_⟩, rfl⟩
  · simp [step, KvCache.step, PagedKvCache.step, SharedCall.toCall, KvCache.Answer.sameKind,
      KvCache.recorded]
  · intro layer r hrow
    cases hrow
  · intro hpending
    cases hpending

/-! ### Runs -/

/-- A row that both would write is long enough. -/
def LongRow (t : Twins) : SharedCall → Prop
  | .storeKv layer key value => layer < t.cache.numLayers → t.cache.seqLen < t.cache.maxSeqLen →
    t.cache.kvDim ≤ key.length ∧ t.cache.kvDim ≤ value.length
  | _ => True

/-- The call keeps position 0 of every layer unwritten once it is visible: no row
is written there, or the rows have no elements and no written one is committed. -/
def KeepsAgreement (t : Twins) (call : SharedCall) : Prop :=
  t.LongRow call ∧ match call with
    | .storeKv layer _ _ => layer < t.cache.numLayers → t.cache.seqLen < t.cache.maxSeqLen →
      0 < t.cache.kvDim → 0 < t.cache.seqLen
    | .advance => t.cache.kvDim = 0 → t.cache.seqLen = 0 → 0 < t.cache.maxSeqLen →
      t.cache.storedLen = 0
    | .clear => True

/-- Every call answers alike exactly if no row is too short. -/
theorem Related.step_iff (h : Related n m d t) (half : Half) (call : SharedCall) :
    t.LongRow call ↔ ∃ t' answer, t.step half call = some (t', answer) ∧ Related n m d t' := by
  cases call with
  | storeKv layer key value =>
    rw [LongRow, h.cache.numLayers_eq, h.cache.maxSeqLen_eq, h.cache.kvDim_eq]
    rcases h.storeKv half layer key value with
      ⟨hno, answer, hstep⟩ | ⟨hyes, hshort, hstep⟩ | ⟨hyes, hlong, t', hstep, hrelated, -⟩
    · exact ⟨fun _ => ⟨t, answer, hstep, h⟩, fun _ hl hs => absurd ⟨hl, hs⟩ hno⟩
    · constructor
      · intro hlong
        have ⟨hkey, hvalue⟩ := hlong hyes.1 hyes.2
        exact absurd hshort (not_or.mpr ⟨not_lt.mpr hkey, not_lt.mpr hvalue⟩)
      · rintro ⟨t', answer, hsome, -⟩
        rw [hstep] at hsome
        cases hsome
    · exact ⟨fun _ => ⟨t', _, hstep, hrelated⟩, fun _ _ _ => hlong⟩
  | advance =>
    obtain ⟨t', hstep, hrelated, -⟩ := h.advance half
    exact ⟨fun _ => ⟨t', _, hstep, hrelated⟩, fun _ => trivial⟩
  | clear =>
    obtain ⟨t', hstep, hrelated, -⟩ := h.clear half
    exact ⟨fun _ => ⟨t', _, hstep, hrelated⟩, fun _ => trivial⟩

theorem Related.step (h : Related n m d t) {call : SharedCall} {answer : KvCache.Answer}
    (hstep : t.step half call = some (t', answer)) : Related n m d t' := by
  by_cases hlong : t.LongRow call
  · obtain ⟨t₁, answer₁, hstep₁, hrelated⟩ := (h.step_iff half call).mp hlong
    obtain ⟨rfl, -⟩ := Prod.mk.inj (Option.some.inj (hstep₁.symm.trans hstep))
    exact hrelated
  · cases call with
    | storeKv layer key value =>
      rcases h.storeKv half layer key value with
        ⟨hno, answer', hstep'⟩ | ⟨-, -, hstep'⟩ | ⟨-, -, t₁, hstep', hrelated, -⟩
      · obtain ⟨rfl, -⟩ := Prod.mk.inj (Option.some.inj (hstep'.symm.trans hstep))
        exact h
      · rw [hstep'] at hstep
        cases hstep
      · obtain ⟨rfl, -⟩ := Prod.mk.inj (Option.some.inj (hstep'.symm.trans hstep))
        exact hrelated
    | advance => exact absurd trivial hlong
    | clear => exact absurd trivial hlong

/-- Once position 0 is visible, no layer has a row there. -/
def Gap (t : Twins) : Prop :=
  0 < (if t.cache.kvDim = 0 then t.cache.seqLen else t.cache.storedLen) →
    ∀ layer, t.written.rows layer 0 = none

/-- A gap at position 0 leaves nothing to compare. -/
theorem Related.agree_of_gap (h : Related n m d t) (hgap : t.Gap) (half : Half) : t.Agree half := by
  refine (agree_iff h).mpr fun ⟨layer, _, hstored⟩ => ?_
  have hle := h.cache.shape.seqLen_le
  have hnone : 0 < t.cache.storedLen → t.written.rows layer 0 ≠ none := fun hpos =>
    Option.isSome_iff_ne_none.mp (hstored 0 hpos)
  rw [Settled]
  rw [Gap] at hgap
  split
  · rename_i hd
    rw [if_pos hd] at hgap
    by_contra hseq
    have hpos : 0 < t.cache.seqLen := Nat.pos_of_ne_zero hseq
    exact hnone (hpos.trans_le hle) (hgap hpos layer)
  · rename_i hd
    rw [if_neg hd] at hgap
    by_contra hseq
    have hpos : 0 < t.cache.storedLen := by omega
    exact hnone hpos (hgap hpos layer)

/-- The guarded calls keep the gap. -/
theorem Related.gap_step (h : Related n m d t) (hgap : t.Gap) {call : SharedCall}
    (hkeeps : t.KeepsAgreement call) {answer : KvCache.Answer}
    (hstep : t.step half call = some (t', answer)) : t'.Gap := by
  have hd' : t'.cache.kvDim = t.cache.kvDim :=
    (h.step hstep).cache.kvDim_eq.trans h.cache.kvDim_eq.symm
  have hle := h.cache.shape.seqLen_le
  cases call with
  | storeKv layer key value =>
    rcases h.storeKv half layer key value with
      ⟨-, answer', hstep'⟩ | ⟨-, -, hstep'⟩ | ⟨hyes, -, t₁, hstep', -, hseq, hstored, hwritten⟩
    · obtain ⟨rfl, -⟩ := Prod.mk.inj (Option.some.inj (hstep'.symm.trans hstep))
      exact hgap
    · rw [hstep'] at hstep
      cases hstep
    · obtain ⟨rfl, -⟩ := Prod.mk.inj (Option.some.inj (hstep'.symm.trans hstep))
      have hpos : 0 < t.cache.kvDim → 0 < t.cache.seqLen :=
        hkeeps.2 (h.cache.numLayers_eq.symm ▸ hyes.1) (h.cache.maxSeqLen_eq.symm ▸ hyes.2)
      rw [Gap, hd', hseq, hstored, hwritten]
      intro hvisible l
      -- the row goes to a later position, and position 0 was visible before
      have hpos' : 0 < t.cache.seqLen := by
        split at hvisible
        · exact hvisible
        · rename_i hd
          exact hpos (Nat.pos_of_ne_zero hd)
      show (if l = layer ∧ 0 = t.written.seqLen then _ else t.written.rows l 0) = none
      rw [if_neg fun hand => hpos'.ne (hand.2.trans h.cache.seqLen_eq)]
      refine hgap ?_ l
      split <;> omega
  | advance =>
    obtain ⟨t₁, hstep', -, hrows, hmove, hstay⟩ := h.advance half
    obtain ⟨rfl, -⟩ := Prod.mk.inj (Option.some.inj (hstep'.symm.trans hstep))
    rcases Nat.lt_or_ge t.cache.seqLen m with hlt | hge
    · obtain ⟨hseq, hstored⟩ := hmove hlt
      rw [Gap, hrows]
      intro _ layer
      by_cases hvisible : 0 < (if t.cache.kvDim = 0 then t.cache.seqLen else t.cache.storedLen)
      · exact hgap hvisible layer
      · -- nothing was stored yet
        have hnothing : t.cache.storedLen = 0 := by
          split at hvisible
          · rename_i hd
            have hzero : t.cache.seqLen = 0 := Nat.eq_zero_of_not_pos hvisible
            exact hkeeps.2 hd hzero (h.cache.maxSeqLen_eq.symm ▸ hzero ▸ hlt)
          · exact Nat.eq_zero_of_not_pos hvisible
        cases hrow : t.written.rows layer 0 with
        | none => rfl
        | some kv =>
          have hlt := h.stored (hrow ▸ rfl : (t.written.rows layer 0).isSome)
          exact absurd hlt (by omega)
    · rw [hstay hge]
      exact hgap
  | clear =>
    obtain ⟨t₁, hstep', hrelated, hstored⟩ := h.clear half
    obtain ⟨rfl, -⟩ := Prod.mk.inj (Option.some.inj (hstep'.symm.trans hstep))
    have hle' := hrelated.cache.shape.seqLen_le
    intro hvisible
    exact absurd hvisible (by split <;> omega)

/-- A call outside the guard makes the two differ. -/
theorem Related.keepsAgreement (h : Related n m d t) (hgap : t.Gap) {call : SharedCall}
    {answer : KvCache.Answer} (hstep : t.step half call = some (t', answer))
    (hagree : t'.Agree half) : t.KeepsAgreement call := by
  have hlong : t.LongRow call := (h.step_iff half call).mpr ⟨t', answer, hstep, h.step hstep⟩
  have hrelated' := h.step hstep
  have hsettled := (agree_iff hrelated').mp hagree
  have hd' := hrelated'.cache.kvDim_eq
  have hn' := hrelated'.cache.numLayers_eq
  refine ⟨hlong, ?_⟩
  cases call with
  | storeKv layer key value =>
    intro hlayer hroom hd
    have hyes : layer < n ∧ t.cache.seqLen < m :=
      ⟨h.cache.numLayers_eq ▸ hlayer, h.cache.maxSeqLen_eq ▸ hroom⟩
    rcases h.storeKv half layer key value with
      ⟨hno, -⟩ | ⟨-, -, hstep'⟩ | ⟨-, -, t₁, hstep', -, hseq, hstored, hwritten⟩
    · exact absurd hyes hno
    · rw [hstep'] at hstep
      cases hstep
    · obtain ⟨rfl, -⟩ := Prod.mk.inj (Option.some.inj (hstep'.symm.trans hstep))
      by_contra hzero
      have hzero : t.cache.seqLen = 0 := Nat.eq_zero_of_not_pos hzero
      -- the row at position 0 is the only visible one, and it is pending
      have hsome : t₁.SomeStored := by
        refine ⟨layer, hn'.symm ▸ hyes.1, fun r hr => ?_⟩
        rw [hstored, hzero] at hr
        rw [hwritten, Nat.lt_one_iff.mp hr]
        show (if layer = layer ∧ 0 = t.written.seqLen then _ else _ : Option KvRow).isSome
        rw [if_pos ⟨rfl, (h.cache.seqLen_eq.trans hzero).symm⟩]
        rfl
      have hset := hsettled hsome
      rw [Settled, hd', if_neg (h.cache.kvDim_eq ▸ hd.ne'), hseq, hstored] at hset
      omega
  | advance =>
    intro hd hzero hmax
    obtain ⟨t₁, hstep', -, hrows, hmove, -⟩ := h.advance half
    obtain ⟨rfl, -⟩ := Prod.mk.inj (Option.some.inj (hstep'.symm.trans hstep))
    obtain ⟨hseq, hstored⟩ := hmove (hzero.symm ▸ h.cache.maxSeqLen_eq ▸ hmax)
    by_contra hne
    have hle := h.cache.shape.storedLen_le
    obtain ⟨layer, hlayer, hrow⟩ := h.pending (by omega)
    have hsome : t₁.SomeStored := by
      refine ⟨layer, hn'.symm ▸ hlayer, fun r hr => ?_⟩
      rw [hstored, hzero] at hr
      rw [hrows, Nat.lt_one_iff.mp hr, ← hzero]
      exact hrow
    have hset := hsettled hsome
    rw [Settled, hd', if_pos (h.cache.kvDim_eq ▸ hd), hseq] at hset
    omega
  | clear => trivial

/-- **The paged and the contiguous cache in lockstep.**

* They answer every call alike, with equal lengths, exactly along the runs that
  never hand both a row that is too short.
* In every state so reached they are read alike exactly if no stored layer has a
  pending row (or, with rows of no elements, a committed one).
* They are read alike at *every* point exactly along the runs that write nothing
  to position 0 of a layer while it can be seen. -/
theorem lockstep_iff (half : Half) (n m d : ℕ) (calls : List SharedCall) :
    (Along (step half) (fun t => t.cache.seqLen = t.paged.seqLen) (new n m d) calls ↔
      StepsMeet (step half) LongRow (new n m d) calls) ∧
    (∀ tr t, Run (step half) (new n m d) tr t → (t.Agree half ↔ (t.SomeStored → t.Settled))) ∧
    (Along (step half) (Agree half) (new n m d) calls ↔
      StepsMeet (step half) KeepsAgreement (new n m d) calls) := by
  have hnew : Related n m d (new n m d) := related_new n m d
  have hgap : (new n m d).Gap := fun _ _ => rfl
  refine ⟨?_, fun tr t hr => ?_, ?_⟩
  · refine along_iff_guarded (J := Related n m d) (fun call h _ => ?_) (fun h _ _ hs => h.step hs)
      hnew hnew.seqLen calls
    rw [h.step_iff half call]
    constructor
    · rintro ⟨t', answer, hstep, hrelated⟩
      exact ⟨t', answer, hstep, hrelated.seqLen⟩
    · rintro ⟨t', answer, hstep, -⟩
      exact ⟨t', answer, hstep, h.step hstep⟩
  · exact agree_iff (hr.invariant (fun h hs => h.step hs) hnew)
  · refine along_iff_guarded (J := fun t => Related n m d t ∧ t.Gap) (fun call h _ => ?_)
      (fun h _ hkeeps hs => ⟨h.1.step hs, h.1.gap_step h.2 hkeeps hs⟩) ⟨hnew, hgap⟩
      (hnew.agree_of_gap hgap half) calls
    constructor
    · intro hkeeps
      obtain ⟨t', answer, hstep, hrelated⟩ := (h.1.step_iff half call).mp hkeeps.1
      exact ⟨t', answer, hstep, hrelated.agree_of_gap (h.1.gap_step h.2 hkeeps hstep) half⟩
    · rintro ⟨t', answer, hstep, hagree⟩
      exact h.1.keepsAgreement h.2 hstep hagree

/-- One row stored and not yet committed: only the contiguous cache visits it. -/
theorem not_agree_pending : ¬ ∀ (half : Half) (n m d : ℕ) (calls : List SharedCall),
    Along (step half) (Agree half) (new n m d) calls := by
  intro hall
  obtain ⟨-, t, answer, hstep, hagree⟩ := hall .onZero 1 8 1 [.storeKv 0 [5] [6]]
  obtain ⟨rfl, -⟩ := Prod.mk.inj (Option.some.inj hstep)
  have hstored : ∀ r < 1, (((new 1 8 1).written.store 0 ([5], [6])).rows 0 r).isSome := by decide
  obtain ⟨result, hleft, hright⟩ := Agree.keys hagree 0 hstored
  exact absurd (hleft.trans hright.symm) (by decide)

end Steps

end Twins

end Kv

end Oxillama
