/-
The paged key-value cache (`oxillama-runtime/src/kv_cache/paged.rs`).

A layer holds its rows in pages of `PAGE_SIZE` rows, allocated when a row is
stored past the last one.  The only counter is `seqLen`: a row becomes visible
when `advance` moves over it.

A call answers `none` where it panics: a page that is missing, or a row shorter
than `kvDim` handed to `copy_from_slice`.

The cache follows the history of its calls: `LayerCache.store_spec` says what a store does to
the pages of a layer, `PagedShows` that the pages hold every row of a `History`, and one lemma
for each call of `KvCacheAccess` that it still does afterwards.
-/
import Oxillama.Kv.History
import Oxillama.Kv.KvCache

namespace Oxillama

namespace Kv

/-- `PAGE_SIZE`. -/
def pageSize : ℕ := 16

/-- `Page`. -/
structure Page where
  data : List F32
  deriving DecidableEq, Repr

namespace Page

/-- `Page::new`. -/
def new (kvDim : ℕ) : Page := ⟨List.replicate (pageSize * kvDim) 0⟩

/-- `Page::write_token`. -/
def writeToken (slot kvDim : ℕ) (src : List F32) (page : Page) : Option Page :=
  let offset := slot * kvDim
  if offset + kvDim ≤ page.data.length ∧ kvDim ≤ src.length then
    some ⟨overwrite page.data offset (src.take kvDim)⟩
  else none

/-- `Page::read_token`. -/
def readToken (slot kvDim : ℕ) (page : Page) : Option (List F32) :=
  if slot * kvDim + kvDim ≤ page.data.length then some (row kvDim page.data slot) else none

end Page

/-- `LayerCache`. -/
structure LayerCache where
  keyPages : List Page
  valuePages : List Page
  deriving DecidableEq, Repr

namespace LayerCache

/-- `LayerCache::new`. -/
def new : LayerCache := ⟨[], []⟩

/-- `LayerCache::ensure_capacity`: the loop pushes a page to both tables until
the key table has enough. -/
def ensureCapacity (tokenPos kvDim : ℕ) (layer : LayerCache) : LayerCache :=
  let neededPages := tokenPos / pageSize + 1
  let missing := neededPages - layer.keyPages.length
  { keyPages := layer.keyPages ++ List.replicate missing (.new kvDim)
    valuePages := layer.valuePages ++ List.replicate missing (.new kvDim) }

/-- `pages[token_pos / PAGE_SIZE].write_token(token_pos % PAGE_SIZE, kv_dim, src)`. -/
def writeRow (tokenPos kvDim : ℕ) (src : List F32) (pages : List Page) : Option (List Page) := do
  let page ← pages[tokenPos / pageSize]?
  let page ← page.writeToken (tokenPos % pageSize) kvDim src
  some (pages.set (tokenPos / pageSize) page)

/-- `pages[pos / PAGE_SIZE].read_token(pos % PAGE_SIZE, kv_dim)`. -/
def readRow (pos kvDim : ℕ) (pages : List Page) : Option (List F32) := do
  let page ← pages[pos / pageSize]?
  page.readToken (pos % pageSize) kvDim

/-- `LayerCache::store`. -/
def store (tokenPos kvDim : ℕ) (key value : List F32) (layer : LayerCache) : Option LayerCache := do
  let grown := layer.ensureCapacity tokenPos kvDim
  let keyPages ← writeRow tokenPos kvDim key grown.keyPages
  let valuePages ← writeRow tokenPos kvDim value grown.valuePages
  some ⟨keyPages, valuePages⟩

/-- `LayerCache::shrink_to`. -/
def shrinkTo (seqLen : ℕ) (layer : LayerCache) : LayerCache :=
  let needed := if seqLen = 0 then 0 else seqLen / pageSize + 1
  ⟨layer.keyPages.take needed, layer.valuePages.take needed⟩

end LayerCache

/-- `PagedKvCache`. -/
structure PagedKvCache where
  layers : List LayerCache
  seqLen : ℕ
  maxSeqLen : ℕ
  kvDim : ℕ
  numLayers : ℕ
  deriving DecidableEq, Repr

/-- The error of `store_kv` at the maximum sequence length. -/
def contextExceeded (layer seqLen maxSeqLen : ℕ) : ArchError :=
  .forwardPassError layer s!"sequence length {seqLen} exceeds max {maxSeqLen}"

/-- The error of `get_keys` and `get_values` on a sequence of several pages. -/
def spansPages (layer seqLen pagesUsed : ℕ) (accessor copying iterating : String) : ArchError :=
  .forwardPassError layer
    (s!"paged KV cache: sequence length {seqLen} spans {pagesUsed} pages — " ++
      s!"`{accessor}()` only supports single-page sequences; " ++
      s!"use `{copying}(&mut buf)` or `{iterating}()` for multi-page access")

namespace PagedKvCache

/-- `PagedKvCache::new`. -/
def new (numLayers maxSeqLen kvDim : ℕ) : PagedKvCache where
  layers := List.replicate numLayers .new
  seqLen := 0
  maxSeqLen := maxSeqLen
  kvDim := kvDim
  numLayers := numLayers

/-- `PagedKvCache::clear`. -/
def clear (cache : PagedKvCache) : PagedKvCache :=
  { cache with
    seqLen := 0
    layers := cache.layers.map fun _ => .new }

/-- `PagedKvCache::shrink_to_fit`. -/
def shrinkToFit (cache : PagedKvCache) : PagedKvCache :=
  { cache with layers := cache.layers.map (.shrinkTo cache.seqLen) }

/-- `PagedKvCache::store_kv`. -/
def storeKv (layer : ℕ) (key value : List F32) (cache : PagedKvCache) :
    Option (PagedKvCache × ArchResult Unit) :=
  if cache.numLayers ≤ layer then
    some (cache, .error (layerOutOfRange layer cache.numLayers))
  else if cache.maxSeqLen ≤ cache.seqLen then
    some (cache, .error (contextExceeded layer cache.seqLen cache.maxSeqLen))
  else do
    let layerCache ← cache.layers[layer]?
    let layerCache ← layerCache.store cache.seqLen cache.kvDim key value
    some ({ cache with layers := cache.layers.set layer layerCache }, .ok ())

/-- `PagedKvCache::advance`. -/
def advance (cache : PagedKvCache) : PagedKvCache :=
  if cache.seqLen < cache.maxSeqLen then { cache with seqLen := cache.seqLen + 1 } else cache

/-- The body of `iter_keys` and `iter_values` over the page table they walk. -/
def iterRows (table : LayerCache → List Page) (layer : ℕ) (cache : PagedKvCache) :
    Option (ArchResult Visits) :=
  if cache.numLayers ≤ layer then some (.error (layerOutOfRange layer cache.numLayers))
  else do
    let layerCache ← cache.layers[layer]?
    let visits ← (List.range cache.seqLen).mapM fun pos =>
      (LayerCache.readRow pos cache.kvDim (table layerCache)).map fun row => (pos, row)
    some (.ok visits)

/-- `PagedKvCache::for_each_key`. -/
def forEachKey (layer : ℕ) (cache : PagedKvCache) : Option (ArchResult Visits) :=
  cache.iterRows LayerCache.keyPages layer

/-- `PagedKvCache::for_each_value`. -/
def forEachValue (layer : ℕ) (cache : PagedKvCache) : Option (ArchResult Visits) :=
  cache.iterRows LayerCache.valuePages layer

/-- The body of `get_keys` and `get_values` over the page table they read. -/
def getRows (accessor copying iterating : String) (table : LayerCache → List Page) (layer : ℕ)
    (cache : PagedKvCache) : Option (ArchResult (List F32)) :=
  if cache.numLayers ≤ layer then some (.error (layerOutOfRange layer cache.numLayers))
  else if cache.seqLen = 0 then some (.ok [])
  else
    let pagesUsed := (cache.seqLen - 1) / pageSize + 1
    if pagesUsed = 1 then do
      let layerCache ← cache.layers[layer]?
      let page ← (table layerCache)[0]?
      let stop := cache.seqLen * cache.kvDim
      if stop ≤ page.data.length then some (.ok (page.data.take stop)) else none
    else some (.error (spansPages layer cache.seqLen pagesUsed accessor copying iterating))

/-- `PagedKvCache::get_keys`. -/
def getKeys (layer : ℕ) (cache : PagedKvCache) : Option (ArchResult (List F32)) :=
  cache.getRows "get_keys" "get_keys_into" "for_each_key" LayerCache.keyPages layer

/-- `PagedKvCache::get_values`. -/
def getValues (layer : ℕ) (cache : PagedKvCache) : Option (ArchResult (List F32)) :=
  cache.getRows "get_values" "get_values_into" "for_each_value" LayerCache.valuePages layer

/-- `PagedKvCache` as a `dyn KvCacheAccess`. -/
def access (cache : PagedKvCache) : KvCacheAccess where
  seqLen := cache.seqLen
  kvDim := cache.kvDim
  getKeys layer := cache.getKeys layer
  getValues layer := cache.getValues layer
  forEachKey layer := cache.forEachKey layer
  forEachValue layer := cache.forEachValue layer

end PagedKvCache

/-! ### Pages hold rows -/

/-- All pages are full-sized. -/
def Paged (d : ℕ) (pages : List Page) : Prop := ∀ page ∈ pages, page.data.length = pageSize * d

section Rows

variable {d p r : ℕ} {src : List F32} {pages pages' : List Page}

private theorem slot_fits (d : ℕ) (p : ℕ) : (p % pageSize + 1) * d ≤ pageSize * d :=
  Nat.mul_le_mul_right d (Nat.mod_lt p (by decide))

theorem Paged.append_new (h : Paged d pages) (k : ℕ) :
    Paged d (pages ++ List.replicate k (.new d)) := by
  intro page hpage
  rcases List.mem_append.mp hpage with hpage | hpage
  · exact h page hpage
  · rw [List.eq_of_mem_replicate hpage, Page.new, List.length_replicate]

/-- A row of an allocated page can be read. -/
theorem readRow_of_getElem? (h : Paged d pages) {page : Page}
    (hpage : pages[r / pageSize]? = some page) :
    LayerCache.readRow r d pages = some (row d page.data (r % pageSize)) := by
  have hfits := slot_fits d r
  have hlen := h page (List.mem_of_getElem? hpage)
  rw [Nat.add_one_mul] at hfits
  rw [LayerCache.readRow, hpage]
  exact if_pos (hlen ▸ hfits)

/-- Pages added at the end change no row that is there. -/
theorem readRow_append {row : List F32} (h : LayerCache.readRow r d pages = some row)
    (more : List Page) : LayerCache.readRow r d (pages ++ more) = some row := by
  obtain ⟨page, hpage, hread⟩ := Option.bind_eq_some_iff.mp h
  rw [LayerCache.readRow, List.getElem?_append_left (List.getElem?_eq_some_iff.mp hpage).1, hpage]
  exact hread

/-- **Writing a row into the pages**: it succeeds where the page is allocated and
the row is long enough, and changes that row alone. -/
theorem writeRow_spec (h : Paged d pages) (halloc : p / pageSize < pages.length)
    (hsrc : d ≤ src.length) :
    ∃ pages', LayerCache.writeRow p d src pages = some pages' ∧ Paged d pages' ∧
      pages'.length = pages.length ∧ LayerCache.readRow p d pages' = some (src.take d) ∧
      ∀ r ≠ p, LayerCache.readRow r d pages' = LayerCache.readRow r d pages := by
  obtain ⟨page, hpage⟩ : ∃ page, pages[p / pageSize]? = some page :=
    ⟨_, List.getElem?_eq_getElem halloc⟩
  have hlen := h page (List.mem_of_getElem? hpage)
  have hfits : (p % pageSize + 1) * d ≤ page.data.length := hlen ▸ slot_fits d p
  have hoffset : p % pageSize * d + d ≤ page.data.length := Nat.add_one_mul _ d ▸ hfits
  have htake : (src.take d).length = d := by rw [List.length_take, Nat.min_eq_left hsrc]
  obtain ⟨data, hdata⟩ : ∃ data, overwrite page.data (p % pageSize * d) (src.take d) = data :=
    ⟨_, rfl⟩
  have hdlen : data.length = pageSize * d := by
    rw [← hdata, length_overwrite (htake.symm ▸ hoffset), hlen]
  have hpaged : Paged d (pages.set (p / pageSize) ⟨data⟩) := by
    intro page' hpage'
    rcases List.mem_or_eq_of_mem_set hpage' with hpage' | rfl
    · exact h page' hpage'
    · exact hdlen
  have hself : (pages.set (p / pageSize) ⟨data⟩)[p / pageSize]? = some ⟨data⟩ :=
    List.getElem?_set_self halloc
  refine ⟨pages.set (p / pageSize) ⟨data⟩, ?_, hpaged, List.length_set, ?_, fun r hr => ?_⟩
  · rw [LayerCache.writeRow, hpage]
    simp [Page.writeToken, hoffset, hsrc, hdata]
  · rw [readRow_of_getElem? hpaged hself, ← hdata]
    exact congrArg some (row_overwrite_self htake hfits)
  · by_cases hsame : r / pageSize = p / pageSize
    · -- another slot of the page that was written
      have hslot : r % pageSize ≠ p % pageSize := by
        intro hmod
        apply hr
        rw [← Nat.div_add_mod r pageSize, ← Nat.div_add_mod p pageSize, hsame, hmod]
      have hwritten : (pages.set (p / pageSize) ⟨data⟩)[r / pageSize]? = some ⟨data⟩ := by
        rw [hsame, hself]
      have hbefore : pages[r / pageSize]? = some page := by rw [hsame, hpage]
      rw [readRow_of_getElem? hpaged hwritten, readRow_of_getElem? h hbefore, ← hdata]
      exact congrArg some (row_overwrite_of_ne htake hfits hslot)
    · rw [LayerCache.readRow, LayerCache.readRow, List.getElem?_set_ne (Ne.symm hsame)]

/-- A row that is too short is never written. -/
theorem writeRow_short (hsrc : src.length < d) : LayerCache.writeRow p d src pages = none := by
  rw [LayerCache.writeRow]
  cases pages[p / pageSize]? with
  | none => rfl
  | some page => simp [Page.writeToken, not_le.mpr hsrc]

end Rows

/-! ### Layers in pages -/

namespace LayerCache

/-- Both page tables of a layer have the same number of full-sized pages. -/
structure WellPaged (d : ℕ) (layer : LayerCache) : Prop where
  keys : Paged d layer.keyPages
  values : Paged d layer.valuePages
  length : layer.keyPages.length = layer.valuePages.length

/-- A row of the layer, key and value. -/
def Holds (d : ℕ) (layer : LayerCache) (r : ℕ) (kv : KvRow) : Prop :=
  readRow r d layer.keyPages = some kv.1 ∧ readRow r d layer.valuePages = some kv.2

theorem wellPaged_new (d : ℕ) : new.WellPaged d :=
  ⟨fun _ h => absurd h List.not_mem_nil, fun _ h => absurd h List.not_mem_nil, rfl⟩

/-- **What `LayerCache::store` does** with rows that are long enough. -/
theorem store_spec {d p : ℕ} {key value : List F32} {layer : LayerCache} (h : layer.WellPaged d)
    (hkey : d ≤ key.length) (hvalue : d ≤ value.length) :
    ∃ layer', layer.store p d key value = some layer' ∧ layer'.WellPaged d ∧
      layer'.Holds d p (key.take d, value.take d) ∧
      ∀ r ≠ p, ∀ kv, layer.Holds d r kv → layer'.Holds d r kv := by
  obtain ⟨missing, hmissing⟩ : ∃ k, p / pageSize + 1 - layer.keyPages.length = k := ⟨_, rfl⟩
  have hgrow : layer.ensureCapacity p d =
      ⟨layer.keyPages ++ List.replicate missing (.new d),
        layer.valuePages ++ List.replicate missing (.new d)⟩ := by
    rw [ensureCapacity, hmissing]
  have hlen := h.length
  obtain ⟨keys, hwk, hpk, hlk, hnewk, holdk⟩ := writeRow_spec (p := p)
    (h.keys.append_new missing) (by rw [List.length_append, List.length_replicate]; omega) hkey
  obtain ⟨values, hwv, hpv, hlv, hnewv, holdv⟩ := writeRow_spec (p := p)
    (h.values.append_new missing) (by rw [List.length_append, List.length_replicate]; omega) hvalue
  refine ⟨⟨keys, values⟩, ?_, ⟨hpk, hpv, ?_⟩, ⟨hnewk, hnewv⟩, fun r hr kv hkv => ⟨?_, ?_⟩⟩
  · simp [store, hgrow, hwk, hwv]
  · rw [hlk, hlv, List.length_append, List.length_append, hlen]
  · exact (holdk r hr).trans (readRow_append hkv.1 _)
  · exact (holdv r hr).trans (readRow_append hkv.2 _)

/-- A row that is too short makes the store panic. -/
theorem store_short {d p : ℕ} {key value : List F32} (layer : LayerCache)
    (h : key.length < d ∨ value.length < d) : layer.store p d key value = none := by
  rw [store]
  rcases h with hkey | hvalue
  · simp [writeRow_short hkey]
  · cases hk : writeRow p d key (layer.ensureCapacity p d).keyPages with
    | none => simp [hk]
    | some keys => simp [hk, writeRow_short hvalue]

end LayerCache

/-! ### The paged cache follows the history -/

/-- The pages hold every row of the history. -/
structure PagedShows (n m d : ℕ) (cache : PagedKvCache) (h : History) : Prop where
  length : cache.layers.length = n
  numLayers_eq : cache.numLayers = n
  maxSeqLen_eq : cache.maxSeqLen = m
  kvDim_eq : cache.kvDim = d
  seqLen_eq : h.seqLen = cache.seqLen
  wellPaged : ∀ layerCache ∈ cache.layers, layerCache.WellPaged d
  rows : ∀ {layer r kv}, h.rows layer r = some kv →
    ∃ layerCache, cache.layers[layer]? = some layerCache ∧ layerCache.Holds d r kv

theorem pagedShows_new (n m d : ℕ) : PagedShows n m d (.new n m d) .empty where
  length := List.length_replicate
  numLayers_eq := rfl
  maxSeqLen_eq := rfl
  kvDim_eq := rfl
  seqLen_eq := rfl
  wellPaged layerCache h := by
    rw [List.eq_of_mem_replicate h]
    exact LayerCache.wellPaged_new d
  rows h := by cases h

section Steps

variable {n m d : ℕ} {cache : PagedKvCache} {h : History}

/-- **What `store_kv` does**: it refuses, panics on a short row, or writes it. -/
theorem PagedShows.storeKv (hs : PagedShows n m d cache h) (layer : ℕ) (key value : List F32) :
    (¬ (layer < n ∧ cache.seqLen < m) ∧
      ∃ e, cache.storeKv layer key value = some (cache, .error e)) ∨
    ((layer < n ∧ cache.seqLen < m) ∧ (key.length < d ∨ value.length < d) ∧
      cache.storeKv layer key value = none) ∨
    ((layer < n ∧ cache.seqLen < m) ∧ (d ≤ key.length ∧ d ≤ value.length) ∧
      ∃ cache', cache.storeKv layer key value = some (cache', .ok ()) ∧
        PagedShows n m d cache' (h.store layer (key.take d, value.take d))) := by
  by_cases hlayer : cache.numLayers ≤ layer
  · refine .inl ⟨fun hand => ?_, _, if_pos hlayer⟩
    exact absurd hand.1 (not_lt.mpr (hs.numLayers_eq ▸ hlayer))
  by_cases hroom : cache.maxSeqLen ≤ cache.seqLen
  · refine .inl ⟨fun hand => ?_, contextExceeded layer cache.seqLen cache.maxSeqLen, ?_⟩
    · exact absurd hand.2 (not_lt.mpr (hs.maxSeqLen_eq ▸ hroom))
    · rw [PagedKvCache.storeKv, if_neg hlayer, if_pos hroom]
  have haccepted : layer < n ∧ cache.seqLen < m :=
    ⟨hs.numLayers_eq ▸ not_le.mp hlayer, hs.maxSeqLen_eq ▸ not_le.mp hroom⟩
  have hlt : layer < cache.layers.length := hs.length.symm ▸ haccepted.1
  have hget : cache.layers[layer]? = some cache.layers[layer] := List.getElem?_eq_getElem hlt
  by_cases hshort : key.length < d ∨ value.length < d
  · refine .inr (.inl ⟨haccepted, hshort, ?_⟩)
    rw [PagedKvCache.storeKv, if_neg hlayer, if_neg hroom, hs.kvDim_eq, hget]
    simp [LayerCache.store_short cache.layers[layer] hshort]
  rw [not_or, not_lt, not_lt] at hshort
  obtain ⟨layerCache, hstore, hwell, hnew, hold⟩ := LayerCache.store_spec (p := cache.seqLen)
    (hs.wellPaged _ (List.getElem_mem hlt)) hshort.1 hshort.2
  refine .inr (.inr ⟨haccepted, hshort, { cache with layers := cache.layers.set layer layerCache },
    ?_, ?_, hs.numLayers_eq, hs.maxSeqLen_eq, hs.kvDim_eq, hs.seqLen_eq, ?_, ?_⟩)
  · rw [PagedKvCache.storeKv, if_neg hlayer, if_neg hroom, hs.kvDim_eq, hget]
    simp [hstore, hs.kvDim_eq]
  · rw [List.length_set, hs.length]
  · intro layerCache' hmem
    rcases List.mem_or_eq_of_mem_set hmem with hmem | rfl
    · exact hs.wellPaged layerCache' hmem
    · exact hwell
  · intro layer' r kv hrow
    rw [History.store, hs.seqLen_eq] at hrow
    dsimp only at hrow
    split at hrow
    · rename_i hhere
      obtain ⟨rfl, rfl⟩ := hhere
      obtain rfl := Option.some.inj hrow
      exact ⟨layerCache, List.getElem?_set_self hlt, hnew⟩
    · rename_i hthere
      obtain ⟨old, hold', hholds⟩ := hs.rows hrow
      by_cases hl : layer' = layer
      · subst hl
        obtain rfl := Option.some.inj (hget.symm.trans hold')
        exact ⟨layerCache, List.getElem?_set_self hlt,
          hold r (fun hr => hthere ⟨rfl, hr⟩) kv hholds⟩
      · exact ⟨old, by rw [List.getElem?_set_ne (Ne.symm hl), hold'], hholds⟩

theorem PagedShows.advance (hs : PagedShows n m d cache h) :
    PagedShows n m d cache.advance (h.advance m) := by
  rw [PagedKvCache.advance, History.advance, hs.maxSeqLen_eq, hs.seqLen_eq]
  split
  · exact ⟨hs.length, hs.numLayers_eq, rfl, hs.kvDim_eq, rfl, hs.wellPaged, hs.rows⟩
  · exact hs

theorem PagedShows.clear (hs : PagedShows n m d cache h) :
    PagedShows n m d cache.clear (h.dropFrom 0) where
  length := (List.length_map _).trans hs.length
  numLayers_eq := hs.numLayers_eq
  maxSeqLen_eq := hs.maxSeqLen_eq
  kvDim_eq := hs.kvDim_eq
  seqLen_eq := rfl
  wellPaged layerCache hmem := by
    obtain ⟨-, -, rfl⟩ := List.mem_map.mp hmem
    exact LayerCache.wellPaged_new d
  rows hrow := by cases hrow

end Steps

end Kv

end Oxillama
