/-
Accounting and eviction in the prefix cache.

* `findLruCandidate_eq` — the scan for the least recently used entry is a fold
  over the rows of the tree, so its result does not depend on how the tree is
  laid out, and whichever order the maps list their children in it is an entry
  with the smallest access time (`evictLruOne_spec`);
* `PrefixKvCache.EvictsLru` — one round of the eviction loop: exactly one entry
  goes, a least recently used one, and the others keep their lookups;
* `PrefixKvCache.evictLru_spec` — the loop ends, in rounds of that kind, within
  both limits;
* `PrefixKvCache.accounting` — both counters are exact and within their limits
  after every call of every run;
* `PrefixKvCache.Holds P` — `P` relates the key and the snapshot of every entry.  An insertion
  adds one entry and evicts others, and no other call adds any, so that every call that stores
  what `P` allows keeps it (`Holds.step`), and what a lookup hands out satisfies `P` with a key
  that the query starts with (`Holds.lookup`).
-/
import Mathlib.Logic.Relation
import Oxillama.Kv.PrefixCache
import Oxillama.Kv.RadixUpdates
import Oxillama.Lib.Run

namespace Oxillama

namespace Kv

namespace RadixNode

/-! ### The scan -/

/-- The candidate left after a scan of `rows`. -/
def oldestOf (oldest : Candidate) (rows : Rows Token (CachedKvState × Instant)) : Candidate :=
  rows.foldl (fun oldest row =>
    if oldest.2.isNone ∨ row.2.2 < oldest.1 then (row.2.2, some row.1) else oldest) oldest

private theorem oldestOf_append (oldest : Candidate)
    (rows rows' : Rows Token (CachedKvState × Instant)) :
    oldestOf oldest (rows ++ rows') = oldestOf (oldestOf oldest rows) rows' :=
  List.foldl_append

/-- **The scan of a tree is a scan of its rows.** -/
theorem findLruCandidate_eq (pre : List Token) (oldest : Candidate) (node : RadixNode) :
    node.findLruCandidate pre oldest = oldestOf oldest (Rows.under pre node.rows) := by
  induction node using ind generalizing pre oldest with
  | h tokens children cachedKv lastAccess ih =>
    have hin : ∀ oldest, findLruCandidateIn (pre ++ tokens) oldest children =
        oldestOf oldest (Rows.under (pre ++ tokens) (rowsIn children)) := by
      induction children with
      | nil => intro oldest; simp [findLruCandidateIn, oldestOf]
      | cons c rest ihrest =>
        intro oldest
        rw [findLruCandidateIn, ih c List.mem_cons_self,
          ihrest fun c hc => ih c (List.mem_cons_of_mem _ hc)]
        rw [rowsIn_cons, Rows.under_append, oldestOf_append]
    rw [findLruCandidate, hin, rows_mk, Rows.under_under, Rows.under_append, oldestOf_append]
    cases cachedKv <;> simp [oldestOf]

private theorem oldestOf_some (t : Instant) (k : List Token)
    (rows : Rows Token (CachedKvState × Instant)) :
    ∃ t' k', oldestOf (t, some k) rows = (t', some k') ∧ t' ≤ t ∧ (∀ row ∈ rows, t' ≤ row.2.2) ∧
      ((t', k') = (t, k) ∨ ∃ row ∈ rows, (t', k') = (row.2.2, row.1)) := by
  induction rows generalizing t k with
  | nil => exact ⟨t, k, rfl, le_rfl, by simp, .inl rfl⟩
  | cons row rows ih =>
    by_cases hlt : row.2.2 < t
    · obtain ⟨t', k', heq, hle, hmin, hfrom⟩ := ih row.2.2 row.1
      refine ⟨t', k', ?_, le_trans hle (le_of_lt hlt), ?_, .inr ?_⟩
      · rw [← heq, oldestOf, List.foldl_cons, if_pos (.inr hlt), oldestOf]
      · rintro other (_ | ⟨_, hother⟩)
        · exact hle
        · exact hmin other hother
      · rcases hfrom with hrow | ⟨other, hother, hrow⟩
        · exact ⟨row, List.mem_cons_self, hrow⟩
        · exact ⟨other, List.mem_cons_of_mem _ hother, hrow⟩
    · obtain ⟨t', k', heq, hle, hmin, hfrom⟩ := ih t k
      refine ⟨t', k', ?_, hle, ?_, ?_⟩
      · rw [← heq, oldestOf, List.foldl_cons, if_neg (by simpa using hlt), oldestOf]
      · rintro other (_ | ⟨_, hother⟩)
        · exact le_trans hle (not_lt.mp hlt)
        · exact hmin other hother
      · rcases hfrom with hrow | ⟨other, hother, hrow⟩
        · exact .inl hrow
        · exact .inr ⟨other, List.mem_cons_of_mem _ hother, hrow⟩

/-- A scan that starts without a candidate ends with a row of the smallest access
time, or there is no row. -/
theorem oldestOf_none (t : Instant) (rows : Rows Token (CachedKvState × Instant)) :
    (rows = [] ∧ (oldestOf (t, none) rows).2 = none) ∨
      ∃ row ∈ rows, (oldestOf (t, none) rows).2 = some row.1 ∧
        ∀ other ∈ rows, row.2.2 ≤ other.2.2 := by
  cases rows with
  | nil => exact .inl ⟨rfl, rfl⟩
  | cons row rows =>
    right
    obtain ⟨t', k', heq, hle, hmin, hfrom⟩ := oldestOf_some row.2.2 row.1 rows
    have hfold : oldestOf (t, none) (row :: rows) = (t', some k') := by
      rw [← heq, oldestOf, List.foldl_cons, if_pos (.inl rfl), oldestOf]
    have hmin' : ∀ other ∈ row :: rows, t' ≤ other.2.2 := by
      rintro other (_ | ⟨_, hother⟩)
      · exact hle
      · exact hmin other hother
    rcases hfrom with hrow | ⟨other, hother, hrow⟩
    · obtain ⟨rfl, rfl⟩ := Prod.mk.inj hrow
      exact ⟨row, List.mem_cons_self, by rw [hfold], hmin'⟩
    · obtain ⟨rfl, rfl⟩ := Prod.mk.inj hrow
      exact ⟨other, List.mem_cons_of_mem _ hother, by rw [hfold], hmin'⟩

/-! ### The order of the children -/

private theorem rowsIn_perm {children children' : List (Token × RadixNode)}
    (h : children.Perm children') : (rowsIn children).Perm (rowsIn children') := by
  induction h with
  | nil => exact .refl _
  | cons c _ ih =>
    rw [rowsIn_cons, rowsIn_cons]
    exact ih.append_left _
  | swap c c' rest =>
    rw [rowsIn_cons, rowsIn_cons, rowsIn_cons, rowsIn_cons, ← List.append_assoc,
      ← List.append_assoc]
    exact List.perm_append_comm.append_right _
  | trans _ _ ih ih' => exact ih.trans ih'

theorem rows_arranged (order : IterOrder) (node : RadixNode) :
    (node.arranged order).rows.Perm node.rows := by
  induction node using ind with
  | h tokens children cachedKv lastAccess ih =>
    have hin : (rowsIn (arrangedIn order children)).Perm (rowsIn children) := by
      induction children with
      | nil => exact .refl _
      | cons c rest ihrest =>
        rw [arrangedIn, rowsIn_cons, rowsIn_cons]
        exact (ih c List.mem_cons_self).append
          (ihrest fun c hc => ih c (List.mem_cons_of_mem _ hc))
    rw [arranged, rows_mk, rows_mk]
    exact (((rowsIn_perm (order.perm _)).trans hin).append_left _).map _

/-- **One eviction takes out one entry, of the smallest access time**, and
fails only on a tree without entries. -/
theorem evictLruOne_spec {node : RadixNode} (h : node.WellFormed) (order : IterOrder)
    (now : Instant) :
    (node.rows = [] ∧ node.evictLruOne order now = (node, none)) ∨
      ∃ row ∈ node.rows, (∀ other ∈ node.rows, row.2.2 ≤ other.2.2) ∧
        (node.evictLruOne order now).2 = some row.2.1.memoryBytes ∧
        (node.evictLruOne order now).1.WellFormed ∧
        (node.evictLruOne order now).1.tokens = node.tokens ∧
        (node.evictLruOne order now).1.rows = node.rows.kerase row.1 := by
  have hperm := rows_arranged order node
  rw [evictLruOne, findLruCandidate_eq, Rows.under_nil_left]
  rcases oldestOf_none now (node.arranged order).rows with ⟨hnil, hnone⟩ | ⟨row, hrow, hsome, hmin⟩
  · left
    rw [hnone]
    exact ⟨(hnil ▸ hperm).symm.eq_nil, rfl⟩
  · right
    obtain ⟨hwf, htokens, hrows, hfreed⟩ := removeCachedAt_spec h row.1
    have hmem := hperm.mem_iff.mp hrow
    have hlook : node.rows.dlookup row.1 = some row.2 :=
      List.mem_dlookup (nodupKeys_rows h) hmem
    rw [hsome]
    refine ⟨row, hmem, fun other hother => hmin other (hperm.mem_iff.mpr hother), ?_, hwf,
      htokens, hrows⟩
    rw [hfreed, hlook]
    rfl

/-- A walk changes neither the number of entries nor their bytes. -/
theorem SameSnapshots.counters {node node' : RadixNode} (h : SameSnapshots node node') :
    node'.rows.length = node.rows.length ∧ rowBytes node'.rows = rowBytes node.rows := by
  have hmap : node'.rows.map (fun row => row.2.1) = node.rows.map fun row => row.2.1 := by
    have hsnap := congrArg (List.map fun row => row.2) h.snapshots
    simpa [RadixNode.snapshots, Rows.mapVal, Function.comp_def] using hsnap
  constructor
  · simpa using congrArg List.length hmap
  · have hsum := congrArg (fun kvs => (List.map CachedKvState.memoryBytes kvs).sum) hmap
    simpa [rowBytes, Function.comp_def] using hsum

end RadixNode

namespace PrefixKvCache

open RadixNode

/-! ### Exact counters -/

/-- The counters say what the tree holds. -/
structure Exact (cache : PrefixKvCache) : Prop where
  wellFormed : cache.root.WellFormed
  rootTokens : cache.root.tokens = []
  entryCount : cache.entryCount = cache.root.countEntries
  memoryBytes : cache.memoryBytes = cache.root.totalMemory

/-- Both counters are within the configured limits. -/
def WithinLimits (cache : PrefixKvCache) : Prop :=
  cache.entryCount ≤ cache.config.maxEntries ∧ cache.memoryBytes ≤ cache.config.maxMemoryBytes

theorem not_overLimit {cache : PrefixKvCache} : ¬ cache.OverLimit ↔ cache.WithinLimits := by
  rw [OverLimit, WithinLimits, not_or, not_lt, not_lt]

theorem exact_new (config : PrefixCacheConfig) (now : Instant) : (new config now).Exact where
  wellFormed := wellFormed_new [] now
  rootTokens := rfl
  entryCount := rfl
  memoryBytes := rfl

/-- Rows tell both counters. -/
private theorem exact_of_rows {cache : PrefixKvCache} (hwf : cache.root.WellFormed)
    (htokens : cache.root.tokens = []) (hcount : cache.entryCount = cache.root.rows.length)
    (hbytes : cache.memoryBytes = rowBytes cache.root.rows) : cache.Exact :=
  ⟨hwf, htokens, hcount.trans (countEntries_eq _).symm, hbytes.trans (totalMemory_eq _).symm⟩

theorem Exact.entryCount_rows {cache : PrefixKvCache} (h : cache.Exact) :
    cache.entryCount = cache.root.rows.length :=
  h.entryCount.trans (countEntries_eq _)

theorem Exact.memoryBytes_rows {cache : PrefixKvCache} (h : cache.Exact) :
    cache.memoryBytes = rowBytes cache.root.rows :=
  h.memoryBytes.trans (totalMemory_eq _)

theorem exact_lookup {cache : PrefixKvCache} (h : cache.Exact) (tokens : List Token)
    (now : ℕ → Instant) : (cache.lookup tokens now).1.Exact := by
  have hsame := lookup_same now tokens 0 cache.root
  have hcounters := hsame.counters
  have hroot : ∀ cache' : PrefixKvCache, cache'.root = (cache.root.lookup now tokens 0).1 →
      cache'.entryCount = cache.entryCount → cache'.memoryBytes = cache.memoryBytes →
      cache'.Exact := by
    intro cache' hr hcount hbytes
    refine exact_of_rows (hr ▸ hsame.wellFormed h.wellFormed)
      (hr ▸ hsame.tokens.trans h.rootTokens) ?_ ?_
    · rw [hcount, hr, hcounters.1, h.entryCount_rows]
    · rw [hbytes, hr, hcounters.2, h.memoryBytes_rows]
  rw [lookup]
  split
  · exact ⟨h.wellFormed, h.rootTokens, h.entryCount, h.memoryBytes⟩
  · dsimp only
    split
    · split
      · exact hroot _ rfl rfl rfl
      · exact hroot _ rfl rfl rfl
    · exact hroot _ rfl rfl rfl

theorem exact_clear {cache : PrefixKvCache} (h : cache.Exact) : cache.clear.Exact where
  wellFormed := wellFormed_iff.mpr wellKeyed_nil
  rootTokens := h.rootTokens
  entryCount := rfl
  memoryBytes := rfl

/-- An insertion that displaces nothing adds one row; one that displaces an entry
changes its bytes only. -/
theorem exact_insertEntryCounted {cache counted : PrefixKvCache} {tokens : List Token}
    {snapshot : CachedKvState} {now : Instant} (h : cache.Exact)
    (hins : cache.insertEntryCounted tokens snapshot now = some counted) :
    counted.Exact ∧ counted.config = cache.config := by
  have hspec := insert_spec h.wellFormed (.inl h.rootTokens : Enters cache.root tokens) snapshot now
  have htokens : (cache.root.insert tokens snapshot now).1.tokens = [] := by
    have hhead := hspec.head
    rw [h.rootTokens] at hhead
    exact List.head?_eq_none_iff.mp hhead
  have hrows := hspec.inserted.rows
  have hdisplaced := hspec.inserted.displaced
  have hcount := h.entryCount_rows
  have hmemory := h.memoryBytes_rows
  rw [List.kinsert_def] at hrows
  obtain ⟨bytes, hbytes, hins⟩ := Option.bind_eq_some_iff.mp hins
  obtain ⟨-, rfl⟩ := checkedAdd_eq_some.mp hbytes
  cases hr : (cache.root.insert tokens snapshot now).2 with
  | none =>
    rw [hr] at hins hdisplaced
    obtain rfl := Option.some.inj hins
    have hnone : cache.root.rows.dlookup tokens = none := Option.map_eq_none_iff.mp hdisplaced.symm
    have habsent := List.dlookup_eq_none.mp hnone
    rw [List.kerase_of_notMem_keys habsent] at hrows
    refine ⟨exact_of_rows hspec.wellFormed htokens ?_ ?_, rfl⟩
    · rw [hrows.length_eq, List.length_cons, ← hcount]
    · rw [rowBytes_perm hrows, rowBytes_cons, ← hmemory]
      exact Nat.add_comm _ _
  | some replaced =>
    rw [hr] at hins hdisplaced
    obtain ⟨bytes, hsub, hins⟩ := Option.bind_eq_some_iff.mp hins
    obtain ⟨hle, rfl⟩ := usizeSub_eq_some.mp hsub
    obtain rfl := Option.some.inj hins
    obtain ⟨entry, hlook, rfl⟩ := Option.map_eq_some_iff.mp hdisplaced.symm
    have hbefore := Rows.perm_cons_kerase (nodupKeys_rows h.wellFormed) (List.of_mem_dlookup hlook)
    refine ⟨exact_of_rows hspec.wellFormed htokens ?_ ?_, rfl⟩
    · rw [hrows.length_eq, List.length_cons, hcount, hbefore.length_eq, List.length_cons]
    · have hbytes := rowBytes_perm hbefore
      rw [rowBytes_cons] at hbytes
      show cache.memoryBytes + snapshot.memoryBytes - entry.1.memoryBytes = rowBytes _
      rw [rowBytes_perm hrows, rowBytes_cons, hmemory, hbytes]
      dsimp only
      omega

/-- The tree of an insertion. -/
theorem root_insertEntryCounted {cache counted : PrefixKvCache} {tokens : List Token}
    {snapshot : CachedKvState} {now : Instant}
    (h : cache.insertEntryCounted tokens snapshot now = some counted) :
    counted.root = (cache.root.insert tokens snapshot now).1 := by
  obtain ⟨bytes, -, h⟩ := Option.bind_eq_some_iff.mp h
  split at h
  · obtain ⟨bytes', -, h⟩ := Option.bind_eq_some_iff.mp h
    obtain rfl := Option.some.inj h
    rfl
  · obtain rfl := Option.some.inj h
    rfl

/-- Under exact counters an insertion fails only where the byte counter overflows. -/
theorem insertEntryCounted_isSome {cache : PrefixKvCache} {tokens : List Token}
    {snapshot : CachedKvState} (now : Instant) (h : cache.Exact)
    (hfits : cache.memoryBytes + snapshot.memoryBytes < 2 ^ 64) :
    ∃ counted, cache.insertEntryCounted tokens snapshot now = some counted := by
  have hdisplaced := (insert_spec h.wellFormed (.inl h.rootTokens : Enters cache.root tokens)
    snapshot now).inserted.displaced
  have hbytes := checkedAdd_eq_some.mpr ⟨hfits, rfl⟩
  cases hr : (cache.root.insert tokens snapshot now).2 with
  | none => exact ⟨_, by simp [insertEntryCounted, hbytes, hr]; rfl⟩
  | some replaced =>
    rw [hr] at hdisplaced
    obtain ⟨entry, hlook, rfl⟩ := Option.map_eq_some_iff.mp hdisplaced.symm
    have hbefore := rowBytes_perm
      (Rows.perm_cons_kerase (nodupKeys_rows h.wellFormed) (List.of_mem_dlookup hlook))
    have hle : entry.1.memoryBytes ≤ cache.memoryBytes + snapshot.memoryBytes := by
      rw [h.memoryBytes_rows, hbefore, rowBytes_cons]
      dsimp only
      omega
    exact ⟨_, by simp [insertEntryCounted, hbytes, hr, usizeSub_of_le hle]; rfl⟩

/-! ### The eviction loop -/

/-- One round of eviction: one entry goes, of the smallest access time; its bytes
and its place are given back, and every other stored key is looked up as before. -/
structure EvictsLru (before after : PrefixKvCache) : Prop where
  config : after.config = before.config
  evicted : ∃ row ∈ before.root.rows,
    (∀ other ∈ before.root.rows, row.2.2 ≤ other.2.2) ∧
    before.root.rows.Perm (row :: after.root.rows) ∧
    after.entryCount + 1 = before.entryCount ∧
    after.memoryBytes + row.2.1.memoryBytes = before.memoryBytes ∧
    ∀ key ∈ before.root.rows.keys, key ≠ row.1 → ∀ now,
      (after.lookup key now).2 = (before.lookup key now).2

/-- A stored key is its own longest stored prefix. -/
private theorem answer_of_dlookup {stored : Rows Token CachedKvState} {q : List Token}
    {kv : CachedKvState} (h : stored.dlookup q = some kv) :
    RadixNode.answer 0 stored q = some (q.length, kv) := by
  have hlongest : longestPrefix (fun k => stored.dlookup k) q = some (q.length, kv) :=
    longestPrefix_eq_some_iff.mpr
      ⟨q, List.prefix_refl q, rfl, h, fun k hk _ => hk.length_le⟩
  rw [RadixNode.answer, hlongest, Option.map_some, Nat.zero_add]

/-- The answer of a lookup is that of the tree, if it is long enough. -/
theorem lookup_snd (tokens : List Token) (now : ℕ → Instant) (cache : PrefixKvCache) :
    (cache.lookup tokens now).2 = if tokens = [] then none else
      (cache.root.lookup now tokens 0).2.filter fun r => cache.config.minPrefixLen ≤ r.1 := by
  rw [lookup]
  split
  · rfl
  · dsimp only
    cases (cache.root.lookup now tokens 0).2 with
    | none => rfl
    | some found =>
      dsimp only
      by_cases hlen : cache.config.minPrefixLen ≤ found.1
      · rw [if_pos hlen, Option.filter_some, if_pos (by simpa using hlen)]
      · rw [if_neg hlen, Option.filter_some, if_neg (by simpa using hlen)]

/-- A round of the loop evicts an entry, or the tree is empty. -/
private theorem evictLru_round {cache : PrefixKvCache} (h : cache.Exact) (env : StoreEnv) :
    (cache.root.rows = [] ∧ cache.root.evictLruOne env.order env.now = (cache.root, none)) ∨
      ∃ root freed, cache.root.evictLruOne env.order env.now = (root, some freed) ∧
        Exact { cache with
          root := root
          entryCount := cache.entryCount - 1
          memoryBytes := cache.memoryBytes - freed } ∧
        root.rows.length + 1 = cache.root.rows.length ∧
        EvictsLru cache { cache with
          root := root
          entryCount := cache.entryCount - 1
          memoryBytes := cache.memoryBytes - freed } := by
  have hnodup := nodupKeys_rows h.wellFormed
  rcases evictLruOne_spec h.wellFormed env.order env.now with hempty | hevicted
  · exact .inl hempty
  · right
    obtain ⟨row, hrow, hmin, hfreed, hwf, htokens, hrows⟩ := hevicted
    have hperm := Rows.perm_cons_kerase hnodup hrow
    rw [← hrows] at hperm
    have hlen := hperm.length_eq
    rw [List.length_cons] at hlen
    have hbytes := rowBytes_perm hperm
    rw [rowBytes_cons] at hbytes
    have hcount := h.entryCount_rows
    have hmemory := h.memoryBytes_rows
    refine ⟨_, _, Prod.ext rfl hfreed, exact_of_rows hwf (htokens.trans h.rootTokens) ?_ ?_,
      hlen.symm, rfl, row, hrow, hmin, hperm, ?_, ?_, fun key hkey hne now => ?_⟩
    · show cache.entryCount - 1 = (cache.root.evictLruOne env.order env.now).1.rows.length
      omega
    · show cache.memoryBytes - row.2.1.memoryBytes =
        rowBytes (cache.root.evictLruOne env.order env.now).1.rows
      omega
    · show cache.entryCount - 1 + 1 = _
      omega
    · show cache.memoryBytes - row.2.1.memoryBytes + row.2.1.memoryBytes = _
      omega
    · -- the key is stored in both trees with the same snapshot
      obtain ⟨entry, hentry⟩ := Option.isSome_iff_exists.mp (List.dlookup_isSome.mpr hkey)
      have hbefore : cache.root.snapshots.dlookup key = some entry.1 := by
        rw [snapshots, Rows.dlookup_mapVal, hentry]
        rfl
      have hafter : (cache.root.evictLruOne env.order env.now).1.snapshots.dlookup key =
          some entry.1 := by
        rw [snapshots, Rows.dlookup_mapVal, hrows, List.dlookup_kerase_ne hne, hentry]
        rfl
      rw [lookup_snd, lookup_snd, lookup_found hwf, lookup_found h.wellFormed,
        answer_of_dlookup hafter, answer_of_dlookup hbefore]

/-- **The eviction loop ends within the limits.**  One test of its condition more
than there are entries always suffices, and whatever bound suffices, the loop is
a sequence of rounds that each evict a least recently used entry. -/
theorem evictLru_spec {cache : PrefixKvCache} (h : cache.Exact) (env : StoreEnv) {fuel : ℕ}
    (hfuel : cache.root.countEntries < fuel) :
    ∃ after, cache.evictLru env fuel = some after ∧ after.Exact ∧ after.WithinLimits ∧
      Relation.ReflTransGen (fun before after => before.OverLimit ∧ EvictsLru before after)
        cache after := by
  induction fuel generalizing cache with
  | zero => exact absurd hfuel (Nat.not_lt_zero _)
  | succ fuel ih =>
    rw [evictLru]
    by_cases hover : cache.OverLimit
    · rw [if_pos hover]
      rcases evictLru_round h env with ⟨hnil, hnone⟩ | ⟨root, freed, hsome, hexact, hlen, hround⟩
      · -- no entry is left, so both counters are zero
        exfalso
        have hcount : cache.entryCount = 0 := by rw [h.entryCount_rows, hnil]; rfl
        have hmemory : cache.memoryBytes = 0 := by rw [h.memoryBytes_rows, hnil]; rfl
        rcases hover with hlt | hlt
        · rw [hcount] at hlt
          exact Nat.not_lt_zero _ hlt
        · rw [hmemory] at hlt
          exact Nat.not_lt_zero _ hlt
      · rw [hsome]
        rw [countEntries_eq] at hfuel
        obtain ⟨after, hrun, hafter, hlimits, hrounds⟩ := ih hexact (by
          rw [countEntries_eq]
          dsimp only
          omega)
        exact ⟨after, hrun, hafter, hlimits, .head ⟨hover, hround⟩ hrounds⟩
    · rw [if_neg hover]
      exact ⟨cache, rfl, h, not_overLimit.mp hover, .refl⟩

/-- More tests of the condition than needed change nothing. -/
theorem evictLru_mono {env : StoreEnv} {fuel fuel' : ℕ} {cache after : PrefixKvCache}
    (h : cache.evictLru env fuel = some after) (hle : fuel ≤ fuel') :
    cache.evictLru env fuel' = some after := by
  induction fuel generalizing fuel' cache with
  | zero => cases h
  | succ fuel ih =>
    obtain ⟨fuel', rfl⟩ : ∃ n, fuel' = n + 1 := ⟨fuel' - 1, by omega⟩
    rw [evictLru] at h ⊢
    split
    · rename_i hover
      rw [if_pos hover] at h
      split at h
      · exact ih h (by omega)
      · exact h
    · rename_i hover
      rwa [if_neg hover] at h

/-! ### Runs -/

/-- What holds between any two calls. -/
structure Accounted (config : PrefixCacheConfig) (cache : PrefixKvCache) : Prop where
  exact : cache.Exact
  limits : cache.WithinLimits
  config_eq : cache.config = config

private theorem evictsLru_config {before after : PrefixKvCache}
    (h : Relation.ReflTransGen (fun before after => before.OverLimit ∧ EvictsLru before after)
      before after) : after.config = before.config := by
  induction h with
  | refl => rfl
  | tail _ hround ih => exact hround.2.config.trans ih

/-- An insertion ends in a state that is accounted for. -/
theorem insertEntry_spec {config : PrefixCacheConfig} {cache after : PrefixKvCache}
    {tokens : List Token} {snapshot : CachedKvState} {env : StoreEnv}
    (h : Accounted config cache) (hins : cache.insertEntry tokens snapshot env = some after) :
    Accounted config after ∧ ∃ counted,
      cache.insertEntryCounted tokens snapshot env.now = some counted ∧
      Relation.ReflTransGen (fun before after => before.OverLimit ∧ EvictsLru before after)
        counted after := by
  obtain ⟨counted, hcounted, hevict⟩ := Option.bind_eq_some_iff.mp hins
  obtain ⟨hexact, hconfig⟩ := exact_insertEntryCounted h.exact hcounted
  obtain ⟨after', hrun, hafter, hlimits, hrounds⟩ :=
    evictLru_spec hexact env (Nat.lt_succ_self counted.root.countEntries)
  obtain rfl : after' = after := Option.some.inj (hrun.symm.trans hevict)
  exact ⟨⟨hafter, hlimits, (evictsLru_config hrounds).trans (hconfig.trans h.config_eq)⟩,
    counted, hcounted, hrounds⟩

theorem accounted_new (config : PrefixCacheConfig) (now : Instant) :
    Accounted config (new config now) :=
  ⟨exact_new config now, ⟨Nat.zero_le _, Nat.zero_le _⟩, rfl⟩

/-- A lookup moves neither counter. -/
private theorem lookup_counters (tokens : List Token) (now : ℕ → Instant) (cache : PrefixKvCache) :
    (cache.lookup tokens now).1.config = cache.config ∧
      (cache.lookup tokens now).1.entryCount = cache.entryCount ∧
      (cache.lookup tokens now).1.memoryBytes = cache.memoryBytes := by
  rw [lookup]
  split
  · exact ⟨rfl, rfl, rfl⟩
  · dsimp only
    split
    · split <;> exact ⟨rfl, rfl, rfl⟩
    · exact ⟨rfl, rfl, rfl⟩

theorem accounted_lookup {config : PrefixCacheConfig} {cache : PrefixKvCache}
    (h : Accounted config cache) (tokens : List Token) (now : ℕ → Instant) :
    Accounted config (cache.lookup tokens now).1 := by
  obtain ⟨hconfig, hcount, hbytes⟩ := lookup_counters tokens now cache
  refine ⟨exact_lookup h.exact tokens now, ?_, hconfig.trans h.config_eq⟩
  rw [WithinLimits, hconfig, hcount, hbytes]
  exact h.limits

/-- What a call stores, unless it is refused: the key is long enough and the
snapshot covers exactly the key. -/
def Call.stores (config : PrefixCacheConfig) : Call → Option (List Token × CachedKvState)
  | .store tokens kvCache seqLen kvDim numLayers _ =>
    if tokens.length < config.minPrefixLen then none
    else if seqLen < tokens.length then none
    else match snapshotLayers kvCache (tokens.length * kvDim) (List.range numLayers) with
      | some (some (keys, values)) => some (tokens, .new keys values tokens.length)
      | _ => none
  | .storeSnapshot tokens snapshot _ =>
    if tokens.length < config.minPrefixLen then none
    else if snapshot.seqLen ≠ tokens.length then none
    else some (tokens, snapshot)
  | .lookup _ _ => none
  | .clear => none

theorem Call.length_of_stores {config : PrefixCacheConfig} {call : Call} {tokens : List Token}
    {snapshot : CachedKvState} (h : call.stores config = some (tokens, snapshot)) :
    config.minPrefixLen ≤ tokens.length ∧ snapshot.seqLen = tokens.length := by
  unfold stores at h
  split at h
  · split at h
    · cases h
    · rename_i hmin
      split at h
      · cases h
      · split at h
        · obtain ⟨rfl, rfl⟩ := Prod.mk.inj (Option.some.inj h)
          exact ⟨not_lt.mp hmin, rfl⟩
        · cases h
  · split at h
    · cases h
    · rename_i hmin
      split at h
      · cases h
      · rename_i hlen
        obtain ⟨rfl, rfl⟩ := Prod.mk.inj (Option.some.inj h)
        exact ⟨not_lt.mp hmin, not_not.mp hlen⟩
  · cases h
  · cases h

private theorem store_eq_some {cache cache' : PrefixKvCache} {tokens : List Token}
    {kvCache : KvCacheAccess} {seqLen kvDim numLayers : ℕ} {env : StoreEnv} {done : Bool}
    (h : cache.store tokens kvCache seqLen kvDim numLayers env = some (cache', done)) :
    ((Call.store tokens kvCache seqLen kvDim numLayers env).stores cache.config = none ∧
      cache' = cache) ∨
    ∃ snapshot, (Call.store tokens kvCache seqLen kvDim numLayers env).stores cache.config =
      some (tokens, snapshot) ∧ cache.insertEntry tokens snapshot env = some cache' := by
  rw [store] at h
  rw [Call.stores]
  split at h
  · rename_i hmin
    rw [if_pos hmin]
    exact .inl ⟨rfl, (Prod.mk.inj (Option.some.inj h)).1.symm⟩
  · rename_i hmin
    rw [if_neg hmin]
    split at h
    · rename_i hlen
      rw [if_pos hlen]
      exact .inl ⟨rfl, (Prod.mk.inj (Option.some.inj h)).1.symm⟩
    · rename_i hlen
      rw [if_neg hlen]
      obtain ⟨layers, hlayers, h⟩ := Option.bind_eq_some_iff.mp h
      rw [hlayers]
      cases layers with
      | none => exact .inl ⟨rfl, (Prod.mk.inj (Option.some.inj h)).1.symm⟩
      | some layers =>
        obtain ⟨cache₁, hins, h⟩ := Option.bind_eq_some_iff.mp h
        obtain ⟨rfl, -⟩ := Prod.mk.inj (Option.some.inj h)
        exact .inr ⟨_, rfl, hins⟩

private theorem storeSnapshot_eq_some {cache cache' : PrefixKvCache} {tokens : List Token}
    {snapshot : CachedKvState} {env : StoreEnv} {done : Bool}
    (h : cache.storeSnapshot tokens snapshot env = some (cache', done)) :
    ((Call.storeSnapshot tokens snapshot env).stores cache.config = none ∧ cache' = cache) ∨
    ((Call.storeSnapshot tokens snapshot env).stores cache.config = some (tokens, snapshot) ∧
      cache.insertEntry tokens snapshot env = some cache') := by
  rw [storeSnapshot] at h
  rw [Call.stores]
  split at h
  · rename_i hmin
    rw [if_pos hmin]
    exact .inl ⟨rfl, (Prod.mk.inj (Option.some.inj h)).1.symm⟩
  · rename_i hmin
    rw [if_neg hmin]
    split at h
    · rename_i hlen
      rw [if_pos hlen]
      exact .inl ⟨rfl, (Prod.mk.inj (Option.some.inj h)).1.symm⟩
    · rename_i hlen
      rw [if_neg hlen]
      obtain ⟨cache₁, hins, h⟩ := Option.bind_eq_some_iff.mp h
      obtain ⟨rfl, -⟩ := Prod.mk.inj (Option.some.inj h)
      exact .inr ⟨rfl, hins⟩

/-- **What a call does**: a walk, a reset, nothing, or one insertion. -/
theorem step_cases {cache cache' : PrefixKvCache} {call : Call} {answer : Answer}
    (h : cache.step call = some (cache', answer)) :
    (∃ tokens now, call = .lookup tokens now ∧ cache' = (cache.lookup tokens now).1) ∨
    (call = .clear ∧ cache' = cache.clear) ∨
    (call ≠ .clear ∧ call.stores cache.config = none ∧ cache' = cache) ∨
    ∃ tokens snapshot env, call ≠ .clear ∧ call.stores cache.config = some (tokens, snapshot) ∧
      cache.insertEntry tokens snapshot env = some cache' := by
  cases call with
  | store tokens kvCache seqLen kvDim numLayers env =>
    obtain ⟨⟨cache₁, done⟩, hstore, heq⟩ := Option.map_eq_some_iff.mp h
    obtain ⟨rfl, rfl⟩ := Prod.mk.inj heq
    rcases store_eq_some hstore with ⟨hnone, rfl⟩ | ⟨snapshot, hsome, hins⟩
    · exact .inr (.inr (.inl ⟨Call.noConfusion, hnone, rfl⟩))
    · exact .inr (.inr (.inr ⟨tokens, snapshot, env, Call.noConfusion, hsome, hins⟩))
  | storeSnapshot tokens snapshot env =>
    obtain ⟨⟨cache₁, done⟩, hstore, heq⟩ := Option.map_eq_some_iff.mp h
    obtain ⟨rfl, rfl⟩ := Prod.mk.inj heq
    rcases storeSnapshot_eq_some hstore with ⟨hnone, rfl⟩ | ⟨hsome, hins⟩
    · exact .inr (.inr (.inl ⟨Call.noConfusion, hnone, rfl⟩))
    · exact .inr (.inr (.inr ⟨tokens, snapshot, env, Call.noConfusion, hsome, hins⟩))
  | lookup tokens now =>
    obtain ⟨rfl, -⟩ := Prod.mk.inj (Option.some.inj h)
    exact .inl ⟨tokens, now, rfl, rfl⟩
  | clear =>
    obtain ⟨rfl, -⟩ := Prod.mk.inj (Option.some.inj h)
    exact .inr (.inl ⟨rfl, rfl⟩)

theorem accounted_clear {config : PrefixCacheConfig} {cache : PrefixKvCache}
    (h : Accounted config cache) : Accounted config cache.clear :=
  ⟨exact_clear h.exact, ⟨Nat.zero_le _, Nat.zero_le _⟩, h.config_eq⟩

/-- **Every call keeps the accounts.** -/
theorem accounted_step {config : PrefixCacheConfig} {cache cache' : PrefixKvCache} {call : Call}
    {answer : Answer} (h : Accounted config cache)
    (hstep : cache.step call = some (cache', answer)) : Accounted config cache' := by
  rcases step_cases hstep with ⟨tokens, now, -, rfl⟩ | ⟨-, rfl⟩ | ⟨-, -, rfl⟩ |
    ⟨tokens, snapshot, env, -, -, hins⟩
  · exact accounted_lookup h tokens now
  · exact accounted_clear h
  · exact h
  · exact (insertEntry_spec h hins).1

theorem accounted_run {config : PrefixCacheConfig} {now : Instant} {tr : List (Call × Answer)}
    {cache : PrefixKvCache} (hr : Run step (new config now) tr cache) : Accounted config cache :=
  hr.invariant (P := Accounted config) accounted_step (accounted_new config now)

/-- **Accounting and eviction.**  In every state a run reaches, both counters are
what the tree holds and within their limits; and from there every insertion ends,
after rounds that each evict one least recently used entry, whatever bound is put
on the loop as long as it exceeds the number of entries. -/
theorem accounting {config : PrefixCacheConfig} {now : Instant} {tr : List (Call × Answer)}
    {cache : PrefixKvCache} (hr : Run step (new config now) tr cache) :
    cache.entryCount = cache.root.countEntries ∧
    cache.memoryBytes = cache.root.totalMemory ∧
    cache.entryCount ≤ config.maxEntries ∧
    cache.memoryBytes ≤ config.maxMemoryBytes ∧
    ∀ tokens snapshot env,
      (cache.memoryBytes + snapshot.memoryBytes < 2 ^ 64 →
        ∃ counted, cache.insertEntryCounted tokens snapshot env.now = some counted) ∧
      ∀ counted, cache.insertEntryCounted tokens snapshot env.now = some counted →
        ∃ after, cache.insertEntry tokens snapshot env = some after ∧
          (∀ fuel, counted.root.countEntries < fuel →
            counted.evictLru env fuel = some after) ∧
          Relation.ReflTransGen (fun before after => before.OverLimit ∧ EvictsLru before after)
            counted after := by
  have h := accounted_run hr
  refine ⟨h.exact.entryCount, h.exact.memoryBytes, h.config_eq ▸ h.limits.1,
    h.config_eq ▸ h.limits.2, fun tokens snapshot env =>
      ⟨insertEntryCounted_isSome env.now h.exact, fun counted hcounted => ?_⟩⟩
  obtain ⟨hexact, -⟩ := exact_insertEntryCounted h.exact hcounted
  obtain ⟨after, hrun, -, -, hrounds⟩ :=
    evictLru_spec hexact env (Nat.lt_succ_self counted.root.countEntries)
  refine ⟨after, ?_, fun fuel hfuel => evictLru_mono hrun hfuel, hrounds⟩
  rw [insertEntry, hcounted]
  exact hrun

/-- The environment that lists children as they are stored and reads the clock as `now`. -/
def asStored (now : Instant) : StoreEnv := ⟨now, ⟨id, fun _ => .refl _⟩⟩

/-- A cache of one entry: the second snapshot evicts the first. -/
theorem accounting_evicting : ∃ cache,
    Run step (new ⟨1, 64, 1⟩ 0)
      [(.storeSnapshot [1, 2] (.new [[7, 8]] [[7, 8]] 2) (asStored 1), .stored true),
        (.storeSnapshot [1, 3] (.new [[7, 9]] [[7, 9]] 2) (asStored 2), .stored true)] cache ∧
    cache.entryCount = cache.root.countEntries ∧ cache.memoryBytes = cache.root.totalMemory ∧
    cache.entryCount ≤ 1 ∧ cache.memoryBytes ≤ 64 := by
  have hr : ∃ cache, Run step (new ⟨1, 64, 1⟩ 0)
      [(.storeSnapshot [1, 2] (.new [[7, 8]] [[7, 8]] 2) (asStored 1), .stored true),
        (.storeSnapshot [1, 3] (.new [[7, 9]] [[7, 9]] 2) (asStored 2), .stored true)] cache :=
    ⟨_, .cons rfl (.cons rfl (.nil _))⟩
  obtain ⟨cache, hr⟩ := hr
  obtain ⟨hcount, hbytes, hentries, hmemory, -⟩ := accounting hr
  exact ⟨cache, hr, hcount, hbytes, hentries, hmemory⟩

end PrefixKvCache

/-! ### What all entries have in common -/

open RadixNode

namespace PrefixKvCache

/-- `P` relates the key and the snapshot of every entry. -/
def Holds (P : List Token → CachedKvState → Prop) (cache : PrefixKvCache) : Prop :=
  ∀ row ∈ cache.root.snapshots, P row.1 row.2

section Holds

variable {P : List Token → CachedKvState → Prop} {config : PrefixCacheConfig}
  {cache cache' : PrefixKvCache} {tokens : List Token} {snapshot : CachedKvState}

theorem holds_new (P : List Token → CachedKvState → Prop) (config : PrefixCacheConfig)
    (now : Instant) : (new config now).Holds P :=
  fun _ hrow => absurd hrow List.not_mem_nil

theorem holds_iff_rows :
    cache.Holds P ↔ ∀ row ∈ cache.root.rows, P row.1 row.2.1 := by
  rw [Holds, snapshots, Rows.mapVal]
  exact List.forall_mem_map

/-- A lookup moves access times only. -/
theorem Holds.after_lookup (h : cache.Holds P) (tokens : List Token) (now : ℕ → Instant) :
    (cache.lookup tokens now).1.Holds P := by
  have hsame := (lookup_same now tokens 0 cache.root).snapshots
  have hroot : (cache.lookup tokens now).1.root.snapshots = cache.root.snapshots := by
    rw [PrefixKvCache.lookup]
    split
    · rfl
    · dsimp only
      split
      · split <;> exact hsame
      · exact hsame
  rw [Holds, hroot]
  exact h

/-- What a lookup answers is an entry whose key starts the query. -/
theorem Holds.lookup (h : cache.Holds P) (hacc : Accounted config cache) {now : ℕ → Instant}
    {matched : ℕ} {kv : CachedKvState} (hl : (cache.lookup tokens now).2 = some (matched, kv)) :
    ∃ key, key <+: tokens ∧ key.length = matched ∧ P key kv := by
  rw [lookup_snd] at hl
  split at hl
  · cases hl
  · obtain ⟨hfound, -⟩ := Option.filter_eq_some_iff.mp hl
    rw [lookup_found hacc.exact.wellFormed, answer] at hfound
    obtain ⟨⟨n, found⟩, hlongest, heq⟩ := Option.map_eq_some_iff.mp hfound
    obtain ⟨hn, rfl⟩ := Prod.mk.inj heq
    rw [Nat.zero_add] at hn
    obtain ⟨key, hpre, hlen, hmem, -⟩ := longestPrefix_eq_some_iff.mp hlongest
    exact ⟨key, hpre, hlen.trans hn, h _ (List.of_mem_dlookup hmem)⟩

private theorem holds_of_evictions
    (hrounds : Relation.ReflTransGen (fun before after => before.OverLimit ∧ EvictsLru before after)
      cache cache') (h : cache.Holds P) : cache'.Holds P := by
  induction hrounds with
  | refl => exact h
  | tail _ hround ih =>
    obtain ⟨row, -, -, hperm, -⟩ := hround.2.evicted
    rw [holds_iff_rows] at ih ⊢
    intro other hother
    exact ih other (hperm.mem_iff.mpr (List.mem_cons_of_mem _ hother))

/-- An insertion adds its entry; what it evicts does not matter. -/
theorem Holds.insertEntry (h : cache.Holds P) (hacc : Accounted config cache)
    (hP : P tokens snapshot) {env : StoreEnv}
    (hins : cache.insertEntry tokens snapshot env = some cache') : cache'.Holds P := by
  obtain ⟨-, counted, hcounted, hrounds⟩ := insertEntry_spec hacc hins
  refine holds_of_evictions hrounds ?_
  have hexact := hacc.exact
  have hrows := (insert_spec hexact.wellFormed (.inl hexact.rootTokens : Enters cache.root tokens)
    snapshot env.now).inserted.rows
  rw [holds_iff_rows] at h ⊢
  intro row hrow
  rw [root_insertEntryCounted hcounted, hrows.mem_iff, List.kinsert_def] at hrow
  rcases List.mem_cons.mp hrow with rfl | hrow
  · exact hP
  · exact h row ((List.kerase_sublist tokens cache.root.rows).mem hrow)

/-- **Every call keeps `P`** that stores what `P` allows. -/
theorem Holds.step (h : cache.Holds P) (hacc : Accounted config cache) {call : Call}
    {answer : Answer}
    (hcall : ∀ tokens snapshot, call.stores cache.config = some (tokens, snapshot) →
      P tokens snapshot)
    (hstep : cache.step call = some (cache', answer)) : cache'.Holds P := by
  rcases step_cases hstep with ⟨tokens, now, -, rfl⟩ | ⟨-, rfl⟩ | ⟨-, -, rfl⟩ |
    ⟨tokens, snapshot, env, -, hstores, hins⟩
  · exact h.after_lookup tokens now
  · intro row hrow
    exact absurd hrow List.not_mem_nil
  · exact h
  · exact h.insertEntry hacc (hcall tokens snapshot hstores) hins

end Holds

end PrefixKvCache

end Kv

end Oxillama
