/-
A forward pass over the key-value cache.

`TokenPass` is what a model computes for one token out of the visible rows: a row
for each layer and the logits.  `forward` runs it over tokens the way the engine
does, storing the rows of a token layer by layer and then moving on.

`passTokens` is the same computation without a cache, on `Visible` alone, and
`forward_spec` says that the cache refines it: from a settled cache, `forward` never
panics, answers what `passTokens` answers, and leaves the rows it leaves.  So two
settled caches that look alike cannot be told apart by a forward pass.
-/
import Oxillama.Kv.Visible

namespace Oxillama

namespace Kv

/-- One token through the model: the rows of its layers and the logits. -/
abbrev TokenPass := Visible → Token → ArchResult ((ℕ → KvRow) × List F32)

/-! ### The pass on a cache -/

namespace KvCache

/-- `store_kv` of the first `n` layers, up to the first error. -/
def storeRows (half : Half) (rows : ℕ → KvRow) : ℕ → KvCache → Option (KvCache × ArchResult Unit)
  | 0, cache => some (cache, .ok ())
  | n + 1, cache => do
    match ← storeRows half rows n cache with
    | (cache, .error e) => some (cache, .error e)
    | (cache, .ok ()) => cache.storeKv half n (rows n).1 (rows n).2

/-- One token of `ForwardPass::forward`. -/
def forwardToken (half : Half) (pass : TokenPass) (token : Token) (cache : KvCache) :
    Option (KvCache × ArchResult (List F32)) :=
  match pass (cache.visible half) token with
  | .error e => some (cache, .error e)
  | .ok (rows, logits) => do
    match ← cache.storeRows half rows cache.numLayers with
    | (cache, .error e) => some (cache, .error e)
    | (cache, .ok ()) => some (cache.advance, .ok logits)

/-- The loop of `ForwardPass::forward` over its tokens: the logits are those of the
last one. -/
def forwardFrom (half : Half) (pass : TokenPass) :
    List F32 → List Token → KvCache → Option (KvCache × ArchResult (List F32))
  | logits, [], cache => some (cache, .ok logits)
  | _, token :: tokens, cache => do
    match ← cache.forwardToken half pass token with
    | (cache, .error e) => some (cache, .error e)
    | (cache, .ok logits) => forwardFrom half pass logits tokens cache

/-- `ForwardPass::forward`. -/
def forward (half : Half) (pass : TokenPass) (tokens : List Token) (cache : KvCache) :
    Option (KvCache × ArchResult (List F32)) :=
  forwardFrom half pass [] tokens cache

end KvCache

/-! ### The pass without a cache -/

/-- What `store_kv` answers at position `seqLen`. -/
def storeAnswer (g : Geometry) (seqLen layer : ℕ) (row : KvRow) : ArchResult Unit :=
  if g.numLayers ≤ layer then .error (layerOutOfRange layer g.numLayers)
  else if g.maxSeqLen ≤ seqLen then .error (kvCacheFullAt layer seqLen g.maxSeqLen)
  else if row.1.length < g.kvDim ∨ row.2.length < g.kvDim then
    .error (shortRow layer row.1.length row.2.length g.kvDim)
  else .ok ()

/-- What storing the first `n` layers answers. -/
def storeAnswers (g : Geometry) (seqLen : ℕ) (rows : ℕ → KvRow) : ℕ → ArchResult Unit
  | 0 => .ok ()
  | n + 1 =>
    match storeAnswers g seqLen rows n with
    | .error e => .error e
    | .ok () => storeAnswer g seqLen n (rows n)

/-- One token, on visible rows. -/
def passToken (half : Half) (g : Geometry) (pass : TokenPass) (token : Token) (v : Visible) :
    Visible × ArchResult (List F32) :=
  match pass v token with
  | .error e => (v, .error e)
  | .ok (rows, logits) =>
    match storeAnswers g v.seqLen rows g.numLayers with
    | .error e => (v, .error e)
    | .ok () => (if v.seqLen < g.maxSeqLen then v.push half g rows else v, .ok logits)

/-- Tokens one after the other, on visible rows. -/
def passTokens (half : Half) (g : Geometry) (pass : TokenPass) :
    List F32 → List Token → Visible → Visible × ArchResult (List F32)
  | logits, [], v => (v, .ok logits)
  | _, token :: tokens, v =>
    match passToken half g pass token v with
    | (v, .error e) => (v, .error e)
    | (v, .ok logits) => passTokens half g pass logits tokens v

namespace KvCache

/-! ### Storing the rows of one token -/

/-- The first `n` layers have a row more, at position `p`. -/
structure Appended (f : F32 → F32) (half : Half) (d p n : ℕ) (srcs : ℕ → List F32)
    (before after : List LayerBuf) : Prop where
  old : ∀ layer, layerRows half (p * d) layer after = layerRows half (p * d) layer before
  new : ∀ layer < n, layerRows half ((p + 1) * d) layer after =
    layerRows half (p * d) layer before ++ (srcs layer).map f

section Buffers

variable {half : Half} {d p n : ℕ} {srcs : ℕ → List F32} {before after grown : List LayerBuf}
  {dtype : KvCacheDtype}

/-- One more layer, in buffers that grew. -/
theorem Appended.write (h : Appended (half.round dtype) half d p n srcs before after)
    (hold : ∀ layer, layerRows half (p * d) layer grown = layerRows half (p * d) layer after)
    (hnew : ∀ layer < n, layerRows half ((p + 1) * d) layer grown =
      layerRows half ((p + 1) * d) layer after)
    (hdtype : ∀ buf ∈ grown, buf.dtype = dtype) (hlen : (srcs n).length = d)
    {written : List LayerBuf} (hwrite : writeLayer half n (p * d) (srcs n) grown = some written) :
    Appended (half.round dtype) half d p (n + 1) srcs before written where
  old layer := by
    rw [layerRows_writeLayer hwrite (.inr le_rfl), hold, h.old]
  new layer hlayer := by
    rcases Nat.lt_succ_iff_lt_or_eq.mp hlayer with hlt | rfl
    · rw [layerRows_writeLayer hwrite (.inl hlt.ne), hnew layer hlt, h.new layer hlt]
    · have hself := layerRows_writeLayer_self hdtype hwrite
      rw [hlen, ← Nat.succ_mul, hold, h.old] at hself
      exact hself

end Buffers

/-- Growing the buffers keeps the rows they are backed for. -/
theorem layerRows_ensureCapacity {half : Half} {cache : KvCache} {stop : ℕ} (tokens layer : ℕ) :
    ((∀ buf ∈ cache.keys, stop ≤ buf.len) →
      layerRows half stop layer (cache.ensureCapacity tokens).keys =
        layerRows half stop layer cache.keys) ∧
    ((∀ buf ∈ cache.values, stop ≤ buf.len) →
      layerRows half stop layer (cache.ensureCapacity tokens).values =
        layerRows half stop layer cache.values) := by
  rw [ensureCapacity]
  split
  · exact ⟨fun _ => rfl, fun _ => rfl⟩
  · exact ⟨fun h => layerRows_growTo h _, fun h => layerRows_growTo h _⟩

private theorem storeAnswer_geometry (cache : KvCache) (seqLen layer : ℕ) (row : KvRow) :
    storeAnswer cache.geometry seqLen layer row =
      if cache.numLayers ≤ layer then .error (layerOutOfRange layer cache.numLayers)
      else if cache.maxSeqLen ≤ seqLen then .error (kvCacheFullAt layer seqLen cache.maxSeqLen)
      else if row.1.length < cache.kvDim ∨ row.2.length < cache.kvDim then
        .error (shortRow layer row.1.length row.2.length cache.kvDim)
      else .ok () := rfl

/-- `store_kv` accepts exactly where the answer says so. -/
theorem storeKv_answer {cache : KvCache} (h : cache.Shape) (half : Half) (layer : ℕ) (row : KvRow) :
    (∃ e, storeAnswer cache.geometry cache.seqLen layer row = .error e ∧
      cache.storeKv half layer row.1 row.2 = some (cache, .error e)) ∨
    (storeAnswer cache.geometry cache.seqLen layer row = .ok () ∧
      cache.Accepts layer row.1 row.2 ∧
      ∃ grown keys values, StoredKv half layer row.1 row.2 cache grown keys values) := by
  by_cases hacc : cache.Accepts layer row.1 row.2
  · refine .inr ⟨?_, hacc, ?_⟩
    · rw [storeAnswer_geometry, if_neg (not_le.mpr hacc.layer), if_neg (not_le.mpr hacc.room),
        if_neg (by rw [not_or, not_lt, not_lt]; exact ⟨hacc.key, hacc.value⟩)]
    · rcases storeKv_spec h half layer row.1 row.2 with ⟨hnot, -⟩ | ⟨-, hstored⟩
      · exact absurd hacc hnot
      · exact hstored
  · rw [storeAnswer_geometry, storeKv]
    by_cases hlayer : cache.numLayers ≤ layer
    · exact .inl ⟨_, if_pos hlayer, if_pos hlayer⟩
    by_cases hroom : cache.maxSeqLen ≤ cache.seqLen
    · refine .inl ⟨kvCacheFullAt layer cache.seqLen cache.maxSeqLen, ?_, ?_⟩
      · rw [if_neg hlayer, if_pos hroom]
      · rw [if_neg hlayer, if_pos hroom]
    by_cases hshort : row.1.length < cache.kvDim ∨ row.2.length < cache.kvDim
    · refine .inl ⟨shortRow layer row.1.length row.2.length cache.kvDim, ?_, ?_⟩
      · rw [if_neg hlayer, if_neg hroom, if_pos hshort]
      · rw [if_neg hlayer, if_neg hroom, if_pos hshort]
    · rw [not_or, not_lt, not_lt] at hshort
      exact absurd ⟨not_le.mp hlayer, not_le.mp hroom, hshort.1, hshort.2⟩ hacc

/-- The rows of the first `n` layers are stored, and nothing else changed. -/
structure Filled (half : Half) (rows : ℕ → KvRow) (n : ℕ) (cache filled : KvCache) : Prop where
  shape : filled.Shape
  geometry : filled.geometry = cache.geometry
  seqLen : filled.seqLen = cache.seqLen
  stored : filled.storedLen = cache.seqLen + min n 1
  backed : 0 < n → cache.seqLen + 1 ≤ filled.capacityTokens
  keysRoom : ∀ buf ∈ filled.keys, cache.seqLen * cache.kvDim ≤ buf.len
  valuesRoom : ∀ buf ∈ filled.values, cache.seqLen * cache.kvDim ≤ buf.len
  keys : Appended (half.round cache.dtype) half cache.kvDim cache.seqLen n
    (fun layer => (rows layer).1.take cache.kvDim) cache.keys filled.keys
  values : Appended (half.round cache.dtype) half cache.kvDim cache.seqLen n
    (fun layer => (rows layer).2.take cache.kvDim) cache.values filled.values

section Filling

variable {half : Half} {rows : ℕ → KvRow} {n : ℕ} {cache filled : KvCache}

theorem filled_zero (h : cache.Settled) : Filled half rows 0 cache cache where
  shape := h.shape
  geometry := rfl
  seqLen := rfl
  stored := h.stored
  backed hpos := absurd hpos (Nat.lt_irrefl 0)
  keysRoom := h.keys
  valuesRoom := h.values
  keys := ⟨fun _ => rfl, fun _ h => absurd h (Nat.not_lt_zero _)⟩
  values := ⟨fun _ => rfl, fun _ h => absurd h (Nat.not_lt_zero _)⟩

/-- Room for the row at the current position, once a layer has it. -/
private theorem Filled.room (h : Filled half rows n cache filled) (hpos : 0 < n) :
    (∀ buf ∈ filled.keys, (cache.seqLen + 1) * cache.kvDim ≤ buf.len) ∧
      ∀ buf ∈ filled.values, (cache.seqLen + 1) * cache.kvDim ≤ buf.len := by
  have hd : filled.kvDim = cache.kvDim := congrArg Geometry.kvDim h.geometry
  have hle := Nat.mul_le_mul_right cache.kvDim (h.backed hpos)
  constructor
  · intro buf hbuf
    exact hle.trans (hd ▸ h.shape.keys.room buf hbuf)
  · intro buf hbuf
    exact hle.trans (hd ▸ h.shape.values.room buf hbuf)

/-- One more layer. -/
theorem Filled.store (h : Filled half rows n cache filled) {grown : KvCache}
    {keys values : List LayerBuf} (hacc : filled.Accepts n (rows n).1 (rows n).2)
    (hs : StoredKv half n (rows n).1 (rows n).2 filled grown keys values) :
    Filled half rows (n + 1) cache (afterStore grown keys values) := by
  obtain ⟨hres, hshape, hbacked, -, hrest⟩ := hs.growth
  have hd : filled.kvDim = cache.kvDim := congrArg Geometry.kvDim h.geometry
  have ht : filled.dtype = cache.dtype := congrArg Geometry.dtype h.geometry
  have hgeom : grown.geometry = filled.geometry := by rw [hrest]; rfl
  have hseq : grown.seqLen = filled.seqLen := by rw [hrest]
  have hstored : grown.storedLen = filled.storedLen := by rw [hrest]
  have htype : grown.dtype = cache.dtype := by rw [← ht, hrest]
  have hroom : cache.seqLen * cache.kvDim ≤ grown.capacityTokens * grown.kvDim := by
    have hdim : grown.kvDim = cache.kvDim := by rw [← hd, hrest]
    rw [hdim]
    refine Nat.mul_le_mul_right _ ?_
    have := h.seqLen
    omega
  have hkept : ∀ stop layer, ((∀ buf ∈ filled.keys, stop ≤ buf.len) →
      layerRows half stop layer grown.keys = layerRows half stop layer filled.keys) ∧
      ((∀ buf ∈ filled.values, stop ≤ buf.len) →
      layerRows half stop layer grown.values = layerRows half stop layer filled.values) := by
    intro stop layer
    rw [← hres]
    exact layerRows_ensureCapacity _ layer
  have hwriteKeys := hs.writeKeys
  have hwriteValues := hs.writeValues
  rw [h.seqLen, hd] at hwriteKeys hwriteValues
  constructor
  · exact hs.shape
  · exact hgeom.trans h.geometry
  · exact hseq.trans h.seqLen
  · show max grown.storedLen (grown.seqLen + 1) = _
    rw [hstored, hseq, h.stored, h.seqLen]
    omega
  · intro _
    rw [← h.seqLen]
    exact hbacked
  · exact fun buf hbuf => hroom.trans (hs.shape.keys.room buf hbuf)
  · exact fun buf hbuf => hroom.trans (hs.shape.values.room buf hbuf)
  · exact h.keys.write (fun layer => (hkept _ layer).1 h.keysRoom)
      (fun layer hlt => (hkept _ layer).1 (h.room (by omega)).1)
      (fun buf hbuf => (hshape.keys.dtype buf hbuf).trans htype)
      (List.length_take_of_le (hd ▸ hacc.key)) hwriteKeys
  · exact h.values.write (fun layer => (hkept _ layer).2 h.valuesRoom)
      (fun layer hlt => (hkept _ layer).2 (h.room (by omega)).2)
      (fun buf hbuf => (hshape.values.dtype buf hbuf).trans htype)
      (List.length_take_of_le (hd ▸ hacc.value)) hwriteValues

/-- What readers see below the current position has not changed. -/
theorem Filled.visible (h : Filled half rows n cache filled) :
    filled.visible half = cache.visible half := by
  have hd : filled.kvDim = cache.kvDim := congrArg Geometry.kvDim h.geometry
  simp only [KvCache.visible, h.seqLen, hd, h.keys.old, h.values.old]

/-- **The loop over the layers** stops at the error of `storeAnswers`, or stores all
rows. -/
theorem storeRows_spec (h : cache.Settled) (half : Half) (rows : ℕ → KvRow) (n : ℕ) :
    (∃ e m filled, storeAnswers cache.geometry cache.seqLen rows n = .error e ∧
      cache.storeRows half rows n = some (filled, .error e) ∧ Filled half rows m cache filled) ∨
    (storeAnswers cache.geometry cache.seqLen rows n = .ok () ∧
      ∃ filled, cache.storeRows half rows n = some (filled, .ok ()) ∧
        Filled half rows n cache filled) := by
  induction n with
  | zero => exact .inr ⟨rfl, cache, rfl, filled_zero h⟩
  | succ n ih =>
    rw [storeAnswers, storeRows]
    rcases ih with ⟨e, m, filled, hans, hrun, hfilled⟩ | ⟨hans, filled, hrun, hfilled⟩
    · rw [hans, hrun]
      exact .inl ⟨e, m, filled, rfl, rfl, hfilled⟩
    · rw [hans, hrun, ← hfilled.geometry, ← hfilled.seqLen]
      rcases storeKv_answer hfilled.shape half n (rows n) with
        ⟨e, hans', hrun'⟩ | ⟨hans', hacc, grown, keys, values, hs⟩
      · exact .inl ⟨e, n, filled, hans', hrun', hfilled⟩
      · exact .inr ⟨hans', _, hs.result, hfilled.store hacc hs⟩

/-- A full cache accepts no row, so it has no layers. -/
private theorem numLayers_eq_zero {g : Geometry} {seqLen : ℕ} {rows : ℕ → KvRow} {n : ℕ}
    (h : storeAnswers g seqLen rows n = .ok ()) (hfull : g.maxSeqLen ≤ seqLen)
    (hn : n ≤ g.numLayers) : n = 0 := by
  cases n with
  | zero => rfl
  | succ n =>
    rw [storeAnswers] at h
    cases hprev : storeAnswers g seqLen rows n with
    | error e =>
      rw [hprev] at h
      cases h
    | ok u =>
      rw [hprev] at h
      dsimp only at h
      rw [storeAnswer, if_neg (by omega), if_pos hfull] at h
      cases h

/-- **The step to the next position** after all layers are stored. -/
theorem Filled.advance (h : Filled half rows cache.numLayers cache filled) (hcache : cache.Settled)
    (hans : storeAnswers cache.geometry cache.seqLen rows cache.numLayers = .ok ()) :
    filled.advance.Settled ∧ filled.advance.geometry = cache.geometry ∧
      filled.advance.visible half = if cache.seqLen < cache.maxSeqLen
        then (cache.visible half).push half cache.geometry rows else cache.visible half := by
  have hd : filled.kvDim = cache.kvDim := congrArg Geometry.kvDim h.geometry
  have hmax : filled.maxSeqLen = cache.maxSeqLen := congrArg Geometry.maxSeqLen h.geometry
  have hn : filled.numLayers = cache.numLayers := congrArg Geometry.numLayers h.geometry
  have hshape := shape_advance h.shape
  by_cases hlt : cache.seqLen < cache.maxSeqLen
  · have hadv : filled.advance = { filled with
        seqLen := filled.seqLen + 1
        storedLen := max filled.storedLen (filled.seqLen + 1) } :=
      if_pos (by rw [h.seqLen, hmax]; exact hlt)
    rw [hadv] at hshape ⊢
    -- without layers there are no buffers
    have hroom : (∀ buf ∈ filled.keys, (cache.seqLen + 1) * cache.kvDim ≤ buf.len) ∧
        ∀ buf ∈ filled.values, (cache.seqLen + 1) * cache.kvDim ≤ buf.len := by
      rcases Nat.eq_zero_or_pos cache.numLayers with hzero | hpos
      · have hkeys := h.shape.keys.length
        have hvalues := h.shape.values.length
        rw [hn, hzero] at hkeys hvalues
        rw [List.length_eq_zero_iff.mp hkeys, List.length_eq_zero_iff.mp hvalues]
        exact ⟨fun _ hbuf => absurd hbuf List.not_mem_nil,
          fun _ hbuf => absurd hbuf List.not_mem_nil⟩
      · exact h.room hpos
    rw [← h.seqLen, ← hd] at hroom
    refine ⟨⟨hshape, ?_, hroom.1, hroom.2⟩, h.geometry, ?_⟩
    · have := h.stored
      have := h.seqLen
      show max filled.storedLen (filled.seqLen + 1) = filled.seqLen + 1
      omega
    · rw [if_pos hlt]
      have hkeys := h.shape.keys.length.trans hn
      have hvalues := h.shape.values.length.trans hn
      have hkeys' := hcache.shape.keys.length
      have hvalues' := hcache.shape.values.length
      simp only [KvCache.visible, Visible.push, h.seqLen, hd, Visible.mk.injEq, true_and]
      constructor
      · funext layer
        split
        · rename_i hlayer
          exact h.keys.new layer hlayer
        · rename_i hlayer
          have hlayer' : cache.numLayers ≤ layer := not_lt.mp hlayer
          rw [layerRows_of_le (by omega), layerRows_of_le (by omega)]
      · funext layer
        split
        · rename_i hlayer
          exact h.values.new layer hlayer
        · rename_i hlayer
          have hlayer' : cache.numLayers ≤ layer := not_lt.mp hlayer
          rw [layerRows_of_le (by omega), layerRows_of_le (by omega)]
  · have hzero := numLayers_eq_zero hans (not_lt.mp hlt) le_rfl
    have hadv : filled.advance = filled := if_neg (by rw [h.seqLen, hmax]; exact hlt)
    have hkeysRoom := h.keysRoom
    have hvaluesRoom := h.valuesRoom
    rw [← h.seqLen, ← hd] at hkeysRoom hvaluesRoom
    rw [hadv, if_neg hlt]
    refine ⟨⟨h.shape, ?_, hkeysRoom, hvaluesRoom⟩, h.geometry, h.visible⟩
    have := h.stored
    have := h.seqLen
    omega

end Filling

/-! ### The refinement -/

/-- What a pass leaves: the rows and the answer of the pass without a cache. -/
structure Passed (half : Half) (g : Geometry) (after : Visible × ArchResult (List F32))
    (cache : KvCache) (answer : ArchResult (List F32)) : Prop where
  answers : answer = after.2
  geometry : cache.geometry = g
  shape : cache.Shape
  visible : cache.visible half = after.1
  settled : ∀ logits, answer = .ok logits → cache.Settled

/-- A pass left exactly this. -/
theorem Passed.eq {half : Half} {g : Geometry} {after : Visible × ArchResult (List F32)}
    {kv : KvCache} {answer : ArchResult (List F32)} (h : Passed half g after kv answer) :
    after = (kv.visible half, answer) := by
  rw [h.visible, h.answers]

/-- One token, on a settled cache. -/
theorem forwardToken_spec {cache : KvCache} (h : cache.Settled) (half : Half) (pass : TokenPass)
    (token : Token) : ∃ after answer,
      cache.forwardToken half pass token = some (after, answer) ∧
      Passed half cache.geometry
        (passToken half cache.geometry pass token (cache.visible half)) after answer := by
  rw [forwardToken, passToken]
  cases pass (cache.visible half) token with
  | error e => exact ⟨cache, .error e, rfl, rfl, rfl, h.shape, rfl, fun _ hok => nomatch hok⟩
  | ok computed =>
    obtain ⟨rows, logits⟩ := computed
    dsimp only
    have hseq : (cache.visible half).seqLen = cache.seqLen := rfl
    have hn : cache.geometry.numLayers = cache.numLayers := rfl
    rw [hseq, hn]
    rcases storeRows_spec h half rows cache.numLayers with
      ⟨e, m, filled, hans, hrun, hfilled⟩ | ⟨hans, filled, hrun, hfilled⟩
    · rw [hans, hrun]
      exact ⟨filled, .error e, rfl, rfl, hfilled.geometry, hfilled.shape, hfilled.visible,
        fun _ hok => nomatch hok⟩
    · obtain ⟨hsettled, hgeom, hvisible⟩ := hfilled.advance h hans
      rw [hans, hrun]
      exact ⟨filled.advance, .ok logits, rfl, rfl, hgeom, hsettled.shape, hvisible,
        fun _ _ => hsettled⟩

/-- **A forward pass** answers what the pass on visible rows answers, and leaves the
rows that it leaves. -/
theorem forwardFrom_spec {cache : KvCache} (h : cache.Settled) (half : Half) (pass : TokenPass)
    (logits : List F32) (tokens : List Token) : ∃ after answer,
      cache.forwardFrom half pass logits tokens = some (after, answer) ∧
      Passed half cache.geometry
        (passTokens half cache.geometry pass logits tokens (cache.visible half)) after answer := by
  induction tokens generalizing cache logits with
  | nil => exact ⟨cache, .ok logits, rfl, rfl, rfl, h.shape, rfl, fun _ _ => h⟩
  | cons token tokens ih =>
    rw [forwardFrom, passTokens]
    obtain ⟨after, answer, hrun, hpassed⟩ := forwardToken_spec h half pass token
    rw [hrun]
    generalize passToken half cache.geometry pass token (cache.visible half) = step at hpassed
    obtain ⟨v, result⟩ := step
    obtain rfl : answer = result := hpassed.answers
    cases answer with
    | error e =>
      exact ⟨after, .error e, rfl, rfl, hpassed.geometry, hpassed.shape, hpassed.visible,
        fun _ hok => nomatch hok⟩
    | ok logits' =>
      obtain ⟨after', answer', hrun', hpassed'⟩ := ih (hpassed.settled _ rfl) logits'
      rw [hpassed.geometry, hpassed.visible] at hpassed'
      exact ⟨after', answer', hrun', hpassed'⟩

/-- Two settled caches that look alike pass alike. -/
theorem forwardFrom_congr {cache cache' : KvCache} (h : cache.Settled) (h' : cache'.Settled)
    {half : Half} (hgeom : cache.geometry = cache'.geometry)
    (hvisible : cache.visible half = cache'.visible half) (pass : TokenPass) (logits : List F32)
    (tokens : List Token) : ∃ after after' answer,
      cache.forwardFrom half pass logits tokens = some (after, answer) ∧
      cache'.forwardFrom half pass logits tokens = some (after', answer) ∧
      after.visible half = after'.visible half := by
  obtain ⟨after, answer, hrun, hpassed⟩ := forwardFrom_spec h half pass logits tokens
  obtain ⟨after', answer', hrun', hpassed'⟩ := forwardFrom_spec h' half pass logits tokens
  rw [← hgeom, ← hvisible] at hpassed'
  obtain rfl : answer = answer' := hpassed.answers.trans hpassed'.answers.symm
  exact ⟨after, after', answer, hrun, hrun', hpassed.visible.trans hpassed'.visible.symm⟩

end KvCache

/-! ### What a pass appends -/

/-- Rows of the right width for every layer, that read back as they are. -/
structure Visible.Tidy (half : Half) (g : Geometry) (v : Visible) : Prop where
  seqLen_le : v.seqLen ≤ g.maxSeqLen
  keys : ∀ layer, (v.keys layer).length = if layer < g.numLayers then v.seqLen * g.kvDim else 0
  values : ∀ layer, (v.values layer).length = if layer < g.numLayers then v.seqLen * g.kvDim else 0
  keys_round : ∀ layer, (v.keys layer).map (half.round g.dtype) = v.keys layer
  values_round : ∀ layer, (v.values layer).map (half.round g.dtype) = v.values layer

section Appending

variable {half : Half} {g : Geometry} {pass : TokenPass} {v : Visible} {logits : List F32}
  {tokens : List Token}

theorem Visible.tidy_empty : Visible.empty.Tidy half g where
  seqLen_le := Nat.zero_le _
  keys layer := by simp [Visible.empty]
  values layer := by simp [Visible.empty]
  keys_round _ := rfl
  values_round _ := rfl

/-- The rows of a layer and one row more. -/
private theorem tidy_append {old row : List F32} {layer : ℕ} (hhalf : half.Exact)
    (hlen : old.length = if layer < g.numLayers then v.seqLen * g.kvDim else 0)
    (hround : old.map (half.round g.dtype) = old)
    (hrow : layer < g.numLayers → g.kvDim ≤ row.length) :
    (if layer < g.numLayers then old ++ (row.take g.kvDim).map (half.round g.dtype)
        else old).length = (if layer < g.numLayers then (v.seqLen + 1) * g.kvDim else 0) ∧
      (if layer < g.numLayers then old ++ (row.take g.kvDim).map (half.round g.dtype)
        else old).map (half.round g.dtype) =
      if layer < g.numLayers then old ++ (row.take g.kvDim).map (half.round g.dtype) else old := by
  by_cases hlayer : layer < g.numLayers
  · simp only [if_pos hlayer] at hlen ⊢
    constructor
    · rw [List.length_append, List.length_map, List.length_take_of_le (hrow hlayer), hlen,
        Nat.succ_mul]
    · rw [List.map_append, hround, List.map_map]
      congr 1
      exact List.map_congr_left fun x _ => hhalf.round_round g.dtype x
  · simp only [if_neg hlayer] at hlen ⊢
    exact ⟨hlen, hround⟩

/-- Rows that are stored are long enough. -/
private theorem lengths_of_storeAnswers {seqLen n : ℕ} {rows : ℕ → KvRow}
    (h : storeAnswers g seqLen rows n = .ok ()) {layer : ℕ} (hlayer : layer < n) :
    g.kvDim ≤ (rows layer).1.length ∧ g.kvDim ≤ (rows layer).2.length := by
  induction n with
  | zero => exact absurd hlayer (Nat.not_lt_zero _)
  | succ n ih =>
    rw [storeAnswers] at h
    cases hprev : storeAnswers g seqLen rows n with
    | error e =>
      rw [hprev] at h
      cases h
    | ok u =>
      rcases Nat.lt_succ_iff_lt_or_eq.mp hlayer with hlt | rfl
      · exact ih hprev hlt
      · rw [hprev] at h
        dsimp only at h
        rw [storeAnswer] at h
        split at h
        · cases h
        split at h
        · cases h
        split at h
        · cases h
        · rename_i hlong
          omega

theorem Visible.Tidy.push (h : v.Tidy half g) (hhalf : half.Exact) {rows : ℕ → KvRow}
    (hrows : ∀ layer < g.numLayers,
      g.kvDim ≤ (rows layer).1.length ∧ g.kvDim ≤ (rows layer).2.length)
    (hlt : v.seqLen < g.maxSeqLen) : (v.push half g rows).Tidy half g where
  seqLen_le := hlt
  keys layer := (tidy_append hhalf (h.keys layer) (h.keys_round layer)
    fun hlayer => (hrows layer hlayer).1).1
  values layer := (tidy_append hhalf (h.values layer) (h.values_round layer)
    fun hlayer => (hrows layer hlayer).2).1
  keys_round layer := (tidy_append hhalf (h.keys layer) (h.keys_round layer)
    fun hlayer => (hrows layer hlayer).1).2
  values_round layer := (tidy_append hhalf (h.values layer) (h.values_round layer)
    fun hlayer => (hrows layer hlayer).2).2

/-- **What one token does**: it fails and leaves the rows, or it appends a row to
every layer; only a cache without layers can be full then. -/
theorem passToken_cases (half : Half) (g : Geometry) (pass : TokenPass) (token : Token)
    (v : Visible) :
    (∃ e, passToken half g pass token v = (v, .error e)) ∨
    (g.maxSeqLen ≤ v.seqLen ∧ ∃ logits, passToken half g pass token v = (v, .ok logits)) ∨
    (v.seqLen < g.maxSeqLen ∧ ∃ rows logits,
      (∀ layer < g.numLayers,
        g.kvDim ≤ (rows layer).1.length ∧ g.kvDim ≤ (rows layer).2.length) ∧
      passToken half g pass token v = (v.push half g rows, .ok logits)) := by
  rw [passToken]
  cases pass v token with
  | error e => exact .inl ⟨e, rfl⟩
  | ok computed =>
    obtain ⟨rows, logits⟩ := computed
    dsimp only
    cases hans : storeAnswers g v.seqLen rows g.numLayers with
    | error e => exact .inl ⟨e, rfl⟩
    | ok u =>
      dsimp only
      split
      · rename_i hlt
        exact .inr (.inr ⟨hlt, rows, logits,
          fun layer hlayer => lengths_of_storeAnswers hans hlayer, rfl⟩)
      · rename_i hge
        exact .inr (.inl ⟨not_lt.mp hge, logits, rfl⟩)

/-- A pass keeps rows tidy. -/
theorem Visible.Tidy.after (h : v.Tidy half g) (hhalf : half.Exact) (pass : TokenPass)
    (logits : List F32) (tokens : List Token) :
    (passTokens half g pass logits tokens v).1.Tidy half g := by
  induction tokens generalizing v logits with
  | nil => exact h
  | cons token tokens ih =>
    rw [passTokens]
    rcases passToken_cases half g pass token v with
      ⟨e, heq⟩ | ⟨-, logits', heq⟩ | ⟨hlt, rows, logits', hrows, heq⟩
    · rw [heq]
      exact h
    · rw [heq]
      exact ih h logits'
    · rw [heq]
      exact ih (h.push hhalf hrows hlt) logits'

/-- The tokens of a pass that succeeds are counted, up to the maximum. -/
theorem seqLen_passTokens (hle : v.seqLen ≤ g.maxSeqLen) {logits' : List F32}
    (h : (passTokens half g pass logits tokens v).2 = .ok logits') :
    (passTokens half g pass logits tokens v).1.seqLen =
      min g.maxSeqLen (v.seqLen + tokens.length) := by
  induction tokens generalizing v logits with
  | nil => exact (Nat.min_eq_right hle).symm
  | cons token tokens ih =>
    rw [passTokens] at h ⊢
    rw [List.length_cons]
    rcases passToken_cases half g pass token v with
      ⟨e, heq⟩ | ⟨hfull, logits', heq⟩ | ⟨hlt, rows, logits', -, heq⟩
    · rw [heq] at h
      cases h
    · rw [heq] at h ⊢
      have := ih hle h
      dsimp only at this ⊢
      omega
    · rw [heq] at h ⊢
      have hpush : (v.push half g rows).seqLen = v.seqLen + 1 := rfl
      have := ih (by rw [hpush]; exact hlt) h
      rw [hpush] at this
      dsimp only at this ⊢
      omega

theorem Visible.Tidy.first_seqLen (h : v.Tidy half g) : v.first g.kvDim v.seqLen = v := by
  have htake : ∀ {l : List F32} {layer : ℕ},
      l.length = (if layer < g.numLayers then v.seqLen * g.kvDim else 0) →
      l.take (v.seqLen * g.kvDim) = l := by
    intro l layer hlen
    refine List.take_of_length_le ?_
    rw [hlen]
    split
    · exact le_rfl
    · exact Nat.zero_le _
  rw [Visible.first]
  congr 1
  · exact funext fun layer => htake (h.keys layer)
  · exact funext fun layer => htake (h.values layer)

/-- A new row leaves the tokens before it. -/
theorem Visible.Tidy.first_push (h : v.Tidy half g) {n : ℕ} (hn : n ≤ v.seqLen)
    (rows : ℕ → KvRow) : (v.push half g rows).first g.kvDim n = v.first g.kvDim n := by
  have hle : n * g.kvDim ≤ v.seqLen * g.kvDim := Nat.mul_le_mul_right _ hn
  rw [Visible.first, Visible.first, Visible.push]
  congr 1
  · funext layer
    have hlen := h.keys layer
    dsimp only
    split
    · rename_i hlayer
      rw [if_pos hlayer] at hlen
      exact List.take_append_of_le_length (by omega)
    · rfl
  · funext layer
    have hlen := h.values layer
    dsimp only
    split
    · rename_i hlayer
      rw [if_pos hlayer] at hlen
      exact List.take_append_of_le_length (by omega)
    · rfl

/-- **A pass only appends.** -/
theorem Visible.Tidy.first_passTokens (h : v.Tidy half g) (hhalf : half.Exact) {n : ℕ}
    (hn : n ≤ v.seqLen) (pass : TokenPass) (logits : List F32) (tokens : List Token) :
    (passTokens half g pass logits tokens v).1.first g.kvDim n = v.first g.kvDim n := by
  induction tokens generalizing v logits with
  | nil => rfl
  | cons token tokens ih =>
    rw [passTokens]
    rcases passToken_cases half g pass token v with
      ⟨e, heq⟩ | ⟨-, logits', heq⟩ | ⟨hlt, rows, logits', hrows, heq⟩
    · rw [heq]
    · rw [heq]
      exact ih h hn logits'
    · rw [heq]
      exact (ih (h.push hhalf hrows hlt) (Nat.le_succ_of_le hn) logits').trans
        (h.first_push hn rows)

/-- Two passes one after the other. -/
theorem passTokens_append (logits : List F32) (tokens tokens' : List Token) (v : Visible) :
    passTokens half g pass logits (tokens ++ tokens') v =
      match passTokens half g pass logits tokens v with
      | (v, .error e) => (v, .error e)
      | (v, .ok logits) => passTokens half g pass logits tokens' v := by
  induction tokens generalizing v logits with
  | nil => rfl
  | cons token tokens ih =>
    rw [List.cons_append, passTokens, passTokens]
    generalize passToken half g pass token v = step
    obtain ⟨v', result⟩ := step
    cases result with
    | error e => rfl
    | ok logits' => exact ih logits' v'

/-- The logits before the first token do not matter. -/
theorem passTokens_logits (h : tokens ≠ []) (logits logits' : List F32) (v : Visible) :
    passTokens half g pass logits tokens v = passTokens half g pass logits' tokens v := by
  cases tokens with
  | nil => exact absurd rfl h
  | cons token tokens => rfl

/-- **The rows of a prefix** are the first rows of the whole. -/
theorem passTokens_take (hhalf : half.Exact) {logits' : List F32}
    (h : passTokens half g pass logits tokens Visible.empty = (v, .ok logits'))
    {n : ℕ} (hn : n ≤ v.seqLen) :
    ∃ logits'', passTokens half g pass logits (tokens.take n) Visible.empty =
      (v.first g.kvDim n, .ok logits'') := by
  have hempty : Visible.empty.Tidy half g := Visible.tidy_empty
  have htidy : v.Tidy half g := by
    have := hempty.after hhalf pass logits tokens
    rwa [h] at this
  have hlen : v.seqLen = min g.maxSeqLen (0 + tokens.length) := by
    have hcount : (passTokens half g pass logits tokens Visible.empty).2 = .ok logits' → _ :=
      seqLen_passTokens (Nat.zero_le _)
    rw [h] at hcount
    exact hcount rfl
  have htidy' := hempty.after hhalf pass logits (tokens.take n)
  have happ : passTokens half g pass logits (tokens.take n ++ tokens.drop n) Visible.empty = _ :=
    passTokens_append logits _ _ _
  rw [List.take_append_drop, h] at happ
  have hseq : ∀ l, (passTokens half g pass logits (tokens.take n) Visible.empty).2 = .ok l → _ :=
    fun l => seqLen_passTokens (Nat.zero_le _)
  generalize passTokens half g pass logits (tokens.take n) Visible.empty = front at *
  obtain ⟨v', result⟩ := front
  cases result with
  | error e => cases happ
  | ok logits'' =>
    have hv' : v'.seqLen = n := by
      have hmax := htidy.seqLen_le
      have hcount := hseq logits'' rfl
      have hzero : Visible.empty.seqLen = 0 := rfl
      rw [hzero, List.length_take_of_le (by omega)] at hcount
      dsimp only at hcount
      omega
    have hfirst := htidy'.first_passTokens hhalf hv'.ge pass logits'' (tokens.drop n)
    dsimp only at happ hfirst
    have hself := htidy'.first_seqLen
    dsimp only at hself
    rw [← happ] at hfirst
    refine ⟨logits'', ?_⟩
    rw [hv'] at hself
    rw [hfirst, hself]

end Appending

end Kv

end Oxillama
