/-
Insertion into a radix tree and removal from it, on the rows of the tree.

* `insert_spec` — `insert` files the snapshot under its key, in place of the
  one that was there and is handed back, and keeps the tree well formed;
* `removeCachedAt_spec` — `remove_cached_at` takes out the entry of one key and
  answers its bytes; the nodes it prunes hold nothing;
* `countEntries_eq`, `totalMemory_eq` — the two audits of a tree count its rows
  and add up their bytes.
-/
import Oxillama.Kv.RadixRows

namespace Oxillama

namespace Kv

namespace RadixNode

/-! ### Audits -/

private theorem length_ownRow (cachedKv : Option CachedKvState) (lastAccess : Instant) :
    (ownRow cachedKv lastAccess).length = cachedKv.isSome.toNat := by
  cases cachedKv <;> rfl

theorem countEntries_eq (node : RadixNode) : node.countEntries = node.rows.length := by
  induction node using ind with
  | h tokens children cachedKv lastAccess ih =>
    have hin : countEntriesIn children = (rowsIn children).length := by
      induction children with
      | nil => simp [countEntriesIn]
      | cons c rest ihrest =>
        rw [countEntriesIn, rowsIn_cons, List.length_append, ih c List.mem_cons_self,
          ihrest fun c hc => ih c (List.mem_cons_of_mem _ hc)]
    rw [countEntries, hin, rows_mk, Rows.under, List.length_map, List.length_append, length_ownRow]

/-- The bytes of a list of rows. -/
def rowBytes (rows : Rows Token (CachedKvState × Instant)) : ℕ :=
  (rows.map fun row => row.2.1.memoryBytes).sum

@[simp] theorem rowBytes_nil : rowBytes [] = 0 := rfl

@[simp] theorem rowBytes_cons (row : Sigma fun _ : List Token => CachedKvState × Instant)
    (rows : Rows Token (CachedKvState × Instant)) :
    rowBytes (row :: rows) = row.2.1.memoryBytes + rowBytes rows := by
  simp [rowBytes]

@[simp] theorem rowBytes_append (rows rows' : Rows Token (CachedKvState × Instant)) :
    rowBytes (rows ++ rows') = rowBytes rows + rowBytes rows' := by
  simp [rowBytes]

@[simp] theorem rowBytes_under (p : List Token) (rows : Rows Token (CachedKvState × Instant)) :
    rowBytes (Rows.under p rows) = rowBytes rows := by
  simp [rowBytes, Rows.under, Function.comp_def]

theorem rowBytes_perm {rows rows' : Rows Token (CachedKvState × Instant)} (h : rows.Perm rows') :
    rowBytes rows = rowBytes rows' :=
  (h.map _).sum_nat

theorem totalMemory_eq (node : RadixNode) : node.totalMemory = rowBytes node.rows := by
  induction node using ind with
  | h tokens children cachedKv lastAccess ih =>
    have hin : totalMemoryIn children = rowBytes (rowsIn children) := by
      induction children with
      | nil => simp [totalMemoryIn]
      | cons c rest ihrest =>
        rw [totalMemoryIn, rowsIn_cons, rowBytes_append, ih c List.mem_cons_self,
          ihrest fun c hc => ih c (List.mem_cons_of_mem _ hc)]
    rw [totalMemory, hin, rows_mk, rowBytes_under, rowBytes_append]
    cases cachedKv <;> simp

/-! ### Placing a snapshot at a node -/

/-- Well-formedness is a matter of the children. -/
theorem WellFormed.of_children_eq {node node' : RadixNode} (h : node.WellFormed)
    (heq : node'.children = node.children) : node'.WellFormed :=
  wellFormed_iff.mpr (heq ▸ wellFormed_iff.mp h)

theorem wellFormed_replaceKv {node : RadixNode} (h : node.WellFormed) (kv : CachedKvState)
    (now : Instant) : (replaceKv kv now node).1.WellFormed :=
  h.of_children_eq rfl

/-- The own row of a node comes first and is the only one with the node's key. -/
private theorem kerase_own {cachedKv : Option CachedKvState} {lastAccess : Instant}
    {children : List (Token × RadixNode)} (hcs : WellKeyed children) :
    (ownRow cachedKv lastAccess ++ rowsIn children).kerase [] = rowsIn children := by
  have hnot := nil_notMem_keys_rowsIn hcs
  cases cachedKv with
  | none => exact List.kerase_of_notMem_keys hnot
  | some kv => exact List.kerase_cons_eq rfl

theorem rows_replaceKv {node : RadixNode} (h : node.WellFormed) (kv : CachedKvState)
    (now : Instant) :
    (replaceKv kv now node).1.rows = node.rows.kinsert node.tokens (kv, now) := by
  have hins := Rows.kinsert_under node.tokens [] (kv, now)
    (ownRow node.cachedKv node.lastAccess ++ rowsIn node.children)
  rw [List.append_nil] at hins
  rw [rows_eq node, hins, List.kinsert_def, kerase_own (wellFormed_iff.mp h), rows_eq]
  rfl

theorem dlookup_rows_self {node : RadixNode} (h : node.WellFormed) :
    (node.rows.dlookup node.tokens).map Prod.fst = node.cachedKv := by
  have hnone : (rowsIn node.children).dlookup [] = none :=
    List.dlookup_eq_none.mpr (nil_notMem_keys_rowsIn (wellFormed_iff.mp h))
  have hlook := Rows.dlookup_under node.tokens []
    (ownRow node.cachedKv node.lastAccess ++ rowsIn node.children)
  rw [List.append_nil] at hlook
  rw [rows_eq, hlook, List.dlookup_append, hnone]
  cases node.cachedKv <;> simp

/-! ### Splitting a node -/

theorem rows_splitAt {pos : ℕ} {node : RadixNode} (h : pos < node.tokens.length) :
    (splitAt pos node h).rows = node.rows := by
  rw [splitAt, rows_mk, ownRow_none, List.nil_append, rowsIn_cons, rowsIn_nil, List.append_nil,
    rows_eq node, rows_eq]
  rw [Rows.under_under, List.take_append_drop]

theorem wellFormed_splitAt {pos : ℕ} {node : RadixNode} (h : pos < node.tokens.length)
    (hnode : node.WellFormed) : (splitAt pos node h).WellFormed := by
  refine wellFormed_iff.mpr (wellKeyed_cons.mpr ⟨?_, ?_, List.not_mem_nil, wellKeyed_nil⟩)
  · rw [List.head?_drop, List.getElem?_eq_getElem h]
  · exact hnode.of_children_eq rfl

/-- After a split at the common prefix the map of children has no entry for the
token that comes next. -/
theorem splitAt_vacant {node : RadixNode} {tokens rest : List Token} {first : Token}
    (h : commonPrefixLen node.tokens tokens < node.tokens.length)
    (hdrop : tokens.drop (commonPrefixLen node.tokens tokens) = first :: rest) :
    first ∉ (splitAt (commonPrefixLen node.tokens tokens) node h).children.map Prod.fst := by
  have hne := getElem_commonPrefixLen_ne h hdrop
  simpa [splitAt] using Ne.symm hne

/-! ### Insertion -/

/-- What filing `kv` under `tokens` makes of some rows, and what it displaces. -/
structure Inserted (tokens : List Token) (kv : CachedKvState) (now : Instant)
    (before after : Rows Token (CachedKvState × Instant)) (displaced : Option CachedKvState) :
    Prop where
  rows : after.Perm (before.kinsert tokens (kv, now))
  displaced : displaced = (before.dlookup tokens).map Prod.fst

/-- The key of an insertion belongs below the node: the node is the root, or key
and segment start alike. -/
def Enters (node : RadixNode) (tokens : List Token) : Prop :=
  node.tokens = [] ∨ tokens.head? = node.tokens.head?

private theorem inserted_replaceKv {node : RadixNode} (h : node.WellFormed) (kv : CachedKvState)
    (now : Instant) :
    Inserted node.tokens kv now node.rows (replaceKv kv now node).1.rows
      (replaceKv kv now node).2 :=
  ⟨.of_eq (rows_replaceKv h kv now), (dlookup_rows_self h).symm⟩

private theorem Inserted.append_right {tokens : List Token} {kv : CachedKvState} {now : Instant}
    {before after rows : Rows Token (CachedKvState × Instant)} {displaced : Option CachedKvState}
    (h : Inserted tokens kv now before after displaced) (hnot : tokens ∉ rows.keys) :
    Inserted tokens kv now (before ++ rows) (after ++ rows) displaced where
  rows := by
    rw [List.kinsert_def, Rows.kerase_append_of_notMem _ hnot, ← List.cons_append,
      ← List.kinsert_def]
    exact h.rows.append_right rows
  displaced := by
    rw [h.displaced, List.dlookup_append, List.dlookup_eq_none.mpr hnot, Option.or_none]

private theorem Inserted.append_left {tokens : List Token} {kv : CachedKvState} {now : Instant}
    {before after rows : Rows Token (CachedKvState × Instant)} {displaced : Option CachedKvState}
    (h : Inserted tokens kv now before after displaced) (hnot : tokens ∉ rows.keys) :
    Inserted tokens kv now (rows ++ before) (rows ++ after) displaced where
  rows := by
    rw [List.kinsert_def, List.kerase_append_right hnot]
    exact (h.rows.append_left rows).trans List.perm_middle
  displaced := by
    rw [h.displaced, List.dlookup_append, List.dlookup_eq_none.mpr hnot, Option.none_or]

private theorem Inserted.under {tokens : List Token} {kv : CachedKvState} {now : Instant}
    {before after : Rows Token (CachedKvState × Instant)} {displaced : Option CachedKvState}
    (p : List Token) (h : Inserted tokens kv now before after displaced) :
    Inserted (p ++ tokens) kv now (Rows.under p before) (Rows.under p after) displaced where
  rows := by
    rw [Rows.kinsert_under]
    exact h.rows.map _
  displaced := by
    rw [h.displaced, Rows.dlookup_under]

/-- What `insert` owes a node it enters. -/
structure InsertSpec (tokens : List Token) (kv : CachedKvState) (now : Instant) (node : RadixNode)
    (r : RadixNode × Option CachedKvState) : Prop where
  wellFormed : r.1.WellFormed
  head : r.1.tokens.head? = node.tokens.head?
  inserted : Inserted tokens kv now node.rows r.1.rows r.2

private theorem insertSpec_replaceKv {node : RadixNode} (h : node.WellFormed) (kv : CachedKvState)
    (now : Instant) : InsertSpec node.tokens kv now node (replaceKv kv now node) where
  wellFormed := wellFormed_replaceKv h kv now
  head := rfl
  inserted := inserted_replaceKv h kv now

private theorem insertChild_spec {first : Token} {rest : List Token} (kv : CachedKvState)
    (now : Instant) {children : List (Token × RadixNode)} (hcs : WellKeyed children)
    (ih : ∀ c ∈ children, Enters c.2 (first :: rest) →
      InsertSpec (first :: rest) kv now c.2 (c.2.insert (first :: rest) kv now)) :
    WellKeyed (insertChild first (first :: rest) kv now children).1 ∧
      (∀ t ∈ (insertChild first (first :: rest) kv now children).1.map Prod.fst,
        t = first ∨ t ∈ children.map Prod.fst) ∧
      Inserted (first :: rest) kv now (rowsIn children)
        (rowsIn (insertChild first (first :: rest) kv now children).1)
        (insertChild first (first :: rest) kv now children).2 := by
  induction children with
  | nil =>
    rw [insertChild]
    refine ⟨wellKeyed_cons.mpr ⟨rfl, ?_, List.not_mem_nil, wellKeyed_nil⟩, by simp, ?_, rfl⟩
    · exact wellFormed_replaceKv (wellFormed_new _ _) kv now
    · simp [replaceKv, new, List.kinsert_def]
  | cons c children ihcs =>
    obtain ⟨token, child⟩ := c
    obtain ⟨hkey, hchild, hnot, hrest⟩ := wellKeyed_cons.mp hcs
    rw [insertChild]
    by_cases htoken : token = first
    · subst htoken
      rw [if_pos rfl]
      -- the child is the key's own node, or the key goes further down
      have hspec : InsertSpec (token :: rest) kv now child
          (if child.tokens = token :: rest then replaceKv kv now child
            else child.insert (token :: rest) kv now) := by
        split
        · rename_i htokens
          exact htokens ▸ insertSpec_replaceKv hchild kv now
        · exact ih _ List.mem_cons_self (.inr hkey.symm)
      refine ⟨wellKeyed_cons.mpr ⟨hspec.head.trans hkey, hspec.wellFormed, hnot, hrest⟩,
        fun t ht => .inr ht, ?_⟩
      rw [rowsIn_cons, rowsIn_cons]
      exact hspec.inserted.append_right (notMem_keys_rowsIn hrest hnot rest)
    · rw [if_neg htoken]
      obtain ⟨hwell, hkeys, hins⟩ := ihcs hrest fun c hc => ih c (List.mem_cons_of_mem _ hc)
      refine ⟨wellKeyed_cons.mpr ⟨hkey, hchild, fun hmem => ?_, hwell⟩, fun t ht => ?_, ?_⟩
      · exact (hkeys token hmem).elim htoken hnot
      · rcases List.mem_cons.mp ht with rfl | ht
        · exact .inr List.mem_cons_self
        · exact (hkeys t ht).imp_right (List.mem_cons_of_mem _)
      · rw [rowsIn_cons, rowsIn_cons]
        exact hins.append_left (notMem_keys_rows_of_head hkey htoken)

private theorem commonPrefixLen_pos {a b : List Token} (ha : a ≠ []) (h : b.head? = a.head?) :
    0 < commonPrefixLen a b := by
  cases a with
  | nil => exact absurd rfl ha
  | cons x as =>
    cases b with
    | nil => cases h
    | cons y bs =>
      obtain rfl : y = x := Option.some.inj h
      simp

private theorem insert_split_spec {tokens : List Token} {kv : CachedKvState} {now : Instant}
    {node : RadixNode} (h : node.WellFormed) (henters : Enters node tokens)
    (hlt : commonPrefixLen node.tokens tokens < node.tokens.length) :
    InsertSpec tokens kv now node
      (match tokens.drop (commonPrefixLen node.tokens tokens) with
        | [] => replaceKv kv now (splitAt (commonPrefixLen node.tokens tokens) node hlt)
        | first :: rest =>
          ({ splitAt (commonPrefixLen node.tokens tokens) node hlt with
            children := (first, (replaceKv kv now (new (first :: rest) now)).1) ::
              (splitAt (commonPrefixLen node.tokens tokens) node hlt).children }, none)) := by
  have hne : node.tokens ≠ [] := fun hnil => by simp [hnil] at hlt
  have hpos := commonPrefixLen_pos hne (henters.resolve_left hne)
  have hhead : (node.tokens.take (commonPrefixLen node.tokens tokens)).head? =
      node.tokens.head? := by
    rw [List.head?_take, if_neg (by omega)]
  have hsplit := wellFormed_splitAt hlt h
  have htake := take_commonPrefixLen node.tokens tokens
  split
  · rename_i hdrop
    have hkey : (splitAt (commonPrefixLen node.tokens tokens) node hlt).tokens = tokens := by
      rw [splitAt, htake, List.take_of_length_le (List.drop_eq_nil_iff.mp hdrop)]
    have hspec := insertSpec_replaceKv hsplit kv now
    rw [hkey] at hspec
    exact ⟨hspec.wellFormed, hhead, rows_splitAt hlt ▸ hspec.inserted⟩
  · rename_i first rest hdrop
    have hvacant := splitAt_vacant hlt hdrop
    have hwell := wellFormed_iff.mp hsplit
    refine ⟨wellFormed_iff.mpr (wellKeyed_cons.mpr ⟨rfl, ?_, hvacant, hwell⟩), hhead, ?_⟩
    · exact wellFormed_replaceKv (wellFormed_new _ _) kv now
    · have hkey : tokens = (splitAt (commonPrefixLen node.tokens tokens) node hlt).tokens ++
          first :: rest := by
        rw [splitAt, htake, ← hdrop, List.take_append_drop]
      have habsent := notMem_keys_rowsIn hwell hvacant rest
      have hins : Inserted (first :: rest) kv now
          (rowsIn (splitAt (commonPrefixLen node.tokens tokens) node hlt).children)
          (⟨first :: rest, kv, now⟩ ::
            rowsIn (splitAt (commonPrefixLen node.tokens tokens) node hlt).children) none :=
        ⟨by rw [List.kinsert_def, List.kerase_of_notMem_keys habsent],
          by rw [List.dlookup_eq_none.mpr habsent]; rfl⟩
      have hunder := hins.under (splitAt (commonPrefixLen node.tokens tokens) node hlt).tokens
      rw [← hkey] at hunder
      have hbefore := rows_splitAt hlt
      rw [rows_eq (splitAt _ _ _), show (splitAt _ node hlt).cachedKv = none from rfl,
        ownRow_none, List.nil_append] at hbefore
      show Inserted tokens kv now node.rows (rows ⟨(splitAt _ node hlt).tokens,
        (first, (replaceKv kv now (new (first :: rest) now)).1) :: (splitAt _ node hlt).children,
        none, node.lastAccess⟩) none
      rw [rows_mk, ownRow_none, List.nil_append, rowsIn_cons, ← hbefore,
        rows_replaceKv (wellFormed_new _ _)]
      simpa [new, List.kinsert_def] using hunder

/-- **`insert` files the snapshot under its key** and hands back the one it
displaces. -/
theorem insert_spec {node : RadixNode} (h : node.WellFormed) {tokens : List Token}
    (henters : Enters node tokens) (kv : CachedKvState) (now : Instant) :
    InsertSpec tokens kv now node (node.insert tokens kv now) := by
  induction node using ind generalizing tokens with
  | h segment children cachedKv lastAccess ih =>
    have hcs : WellKeyed children := wellFormed_iff.mp h
    rw [insert]
    by_cases hnil : tokens = []
    · subst hnil
      rw [if_pos rfl]
      have hroot : segment = [] := by
        rcases henters with hroot | hhead
        · exact hroot
        · exact List.head?_eq_none_iff.mp hhead.symm
      subst hroot
      exact insertSpec_replaceKv h kv now
    · rw [if_neg hnil]
      by_cases hlt : commonPrefixLen segment tokens < segment.length
      · rw [dif_pos hlt]
        exact insert_split_spec h henters hlt
      · rw [dif_neg hlt]
        have hpre : segment <+: tokens :=
          commonPrefixLen_eq_length_iff.mp
            (le_antisymm (commonPrefixLen_le_left _ _) (not_lt.mp hlt))
        obtain ⟨rest, rfl⟩ := hpre
        rw [commonPrefixLen_append, List.drop_left]
        cases rest with
        | nil =>
          rw [List.append_nil]
          exact insertSpec_replaceKv h kv now
        | cons first rest =>
          obtain ⟨hwell, -, hins⟩ := insertChild_spec kv now hcs
            fun c hc henters => ih c hc (hcs.below c hc) henters
          refine ⟨wellFormed_iff.mpr hwell, rfl, ?_⟩
          rw [rows_mk, rows_mk]
          refine (hins.append_left fun hmem => ?_).under segment
          exact absurd (eq_nil_of_mem_keys_ownRow hmem) (List.cons_ne_nil first rest)

/-! ### Removal -/

/-- What removing the entry of `path` makes of some rows, and the bytes it frees. -/
structure Removed (path : List Token) (before after : Rows Token (CachedKvState × Instant))
    (freed : Option ℕ) : Prop where
  rows : after = before.kerase path
  freed : freed = (before.dlookup path).map fun entry => entry.1.memoryBytes

private theorem Removed.of_notMem {path : List Token}
    {rows : Rows Token (CachedKvState × Instant)} (h : path ∉ rows.keys) :
    Removed path rows rows none :=
  ⟨(List.kerase_of_notMem_keys h).symm, by rw [List.dlookup_eq_none.mpr h]; rfl⟩

private theorem Removed.append_right {path : List Token}
    {before after rows : Rows Token (CachedKvState × Instant)} {freed : Option ℕ}
    (h : Removed path before after freed) (hnot : path ∉ rows.keys) :
    Removed path (before ++ rows) (after ++ rows) freed :=
  ⟨by rw [Rows.kerase_append_of_notMem _ hnot, h.rows],
    by rw [h.freed, List.dlookup_append, List.dlookup_eq_none.mpr hnot, Option.or_none]⟩

private theorem Removed.append_left {path : List Token}
    {before after rows : Rows Token (CachedKvState × Instant)} {freed : Option ℕ}
    (h : Removed path before after freed) (hnot : path ∉ rows.keys) :
    Removed path (rows ++ before) (rows ++ after) freed :=
  ⟨by rw [List.kerase_append_right hnot, h.rows],
    by rw [h.freed, List.dlookup_append, List.dlookup_eq_none.mpr hnot, Option.none_or]⟩

private theorem Removed.under {path : List Token}
    {before after : Rows Token (CachedKvState × Instant)} {freed : Option ℕ} (p : List Token)
    (h : Removed path before after freed) :
    Removed (p ++ path) (Rows.under p before) (Rows.under p after) freed :=
  ⟨by rw [Rows.kerase_under, h.rows], by rw [h.freed, Rows.dlookup_under]⟩

/-- What `remove_cached_at` owes a node. -/
structure RemoveSpec (path : List Token) (node : RadixNode) (r : RadixNode × Option ℕ) : Prop where
  wellFormed : r.1.WellFormed
  tokens : r.1.tokens = node.tokens
  removed : Removed path node.rows r.1.rows r.2

private theorem removeCachedAtChild_spec {first : Token} {rest : List Token}
    {children : List (Token × RadixNode)} (hcs : WellKeyed children)
    (ih : ∀ c ∈ children, RemoveSpec (first :: rest) c.2 (c.2.removeCachedAt (first :: rest))) :
    WellKeyed (removeCachedAtChild first (first :: rest) children).1 ∧
      ((removeCachedAtChild first (first :: rest) children).1.map Prod.fst).Sublist
        (children.map Prod.fst) ∧
      Removed (first :: rest) (rowsIn children)
        (rowsIn (removeCachedAtChild first (first :: rest) children).1)
        (removeCachedAtChild first (first :: rest) children).2 := by
  induction children with
  | nil => exact ⟨wellKeyed_nil, .refl _, .of_notMem (by simp)⟩
  | cons c children ihcs =>
    obtain ⟨token, child⟩ := c
    obtain ⟨hkey, hchild, hnot, hrest⟩ := wellKeyed_cons.mp hcs
    rw [removeCachedAtChild]
    by_cases htoken : token = first
    · subst htoken
      rw [if_pos rfl]
      have hspec := ih _ List.mem_cons_self
      have habsent := notMem_keys_rowsIn hrest hnot rest
      dsimp only
      split
      · -- the child is pruned: it holds no row any more
        rename_i hempty
        refine ⟨hrest, List.sublist_cons_self _ _, ?_⟩
        have hrows : (child.removeCachedAt (token :: rest)).1.rows = [] := by
          rw [rows_eq, Option.isNone_iff_eq_none.mp hempty.1,
            List.isEmpty_iff.mp hempty.2, rowsIn_nil]
          rfl
        have hremoved := hspec.removed.append_right habsent
        rwa [hrows, List.nil_append, ← rowsIn_cons] at hremoved
      · refine ⟨wellKeyed_cons.mpr ⟨hspec.tokens ▸ hkey, hspec.wellFormed, hnot, hrest⟩,
          .refl _, ?_⟩
        rw [rowsIn_cons, rowsIn_cons]
        exact hspec.removed.append_right habsent
    · rw [if_neg htoken]
      obtain ⟨hwell, hkeys, hremoved⟩ :=
        ihcs hrest fun c hc => ih c (List.mem_cons_of_mem _ hc)
      refine ⟨wellKeyed_cons.mpr ⟨hkey, hchild, fun hmem => hnot (hkeys.mem hmem), hwell⟩,
        hkeys.cons_cons token, ?_⟩
      rw [rowsIn_cons, rowsIn_cons]
      exact hremoved.append_left (notMem_keys_rows_of_head hkey htoken)

/-- **`remove_cached_at` takes out the entry of its path**, and nothing else. -/
theorem removeCachedAt_spec {node : RadixNode} (h : node.WellFormed) (path : List Token) :
    RemoveSpec path node (node.removeCachedAt path) := by
  induction node using ind generalizing path with
  | h segment children cachedKv lastAccess ih =>
    have hcs : WellKeyed children := wellFormed_iff.mp h
    rw [removeCachedAt]
    dsimp only
    by_cases hpre : segment <+: path
    · obtain ⟨rest, rfl⟩ := hpre
      rw [commonPrefixLen_append, if_neg (Nat.lt_irrefl _), List.drop_left]
      cases rest with
      | nil =>
        refine ⟨h.of_children_eq rfl, rfl, ?_⟩
        rw [rows_mk, rows_mk, ownRow_none, List.nil_append]
        refine Removed.under segment ⟨(kerase_own hcs).symm, ?_⟩
        rw [List.dlookup_append, List.dlookup_eq_none.mpr (nil_notMem_keys_rowsIn hcs)]
        cases cachedKv <;> simp
      | cons first rest =>
        obtain ⟨hwell, -, hremoved⟩ := removeCachedAtChild_spec hcs
          fun c hc => ih c hc (hcs.below c hc) (first :: rest)
        refine ⟨wellFormed_iff.mpr hwell, rfl, ?_⟩
        rw [rows_mk, rows_mk]
        refine (hremoved.append_left fun hmem => ?_).under segment
        exact absurd (eq_nil_of_mem_keys_ownRow hmem) (List.cons_ne_nil first rest)
    · have hlt : commonPrefixLen segment path < segment.length :=
        lt_of_le_of_ne (commonPrefixLen_le_left segment path)
          fun heq => hpre (commonPrefixLen_eq_length_iff.mp heq)
      rw [if_pos hlt]
      exact ⟨h, rfl, .of_notMem fun hmem => hpre (prefix_of_mem_keys_rows hmem)⟩

end RadixNode

end Kv

end Oxillama
