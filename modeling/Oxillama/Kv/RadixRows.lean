/-
What a radix tree stores.

`RadixNode.rows` lists the snapshots of a tree with their full keys: the
segments on the way down, joined.  In a well-formed tree the children of a node
are keyed by the first tokens of their segments, which are therefore not empty
and start differently; so no key occurs twice and a key leads to one child.

* `nodupKeys_rows` — no key is stored twice;
* `dlookup_rowsIn_cons` — below a node, a key belongs to the child its first
  token names;
* `lookup_spec` — `lookup` answers the longest stored prefix of the query, and
  moves nothing but access times.
-/
import Oxillama.Kv.RadixNode
import Oxillama.Lib.PrefixRows

namespace Oxillama

namespace Kv

/-! ### Common prefixes -/

@[simp] theorem commonPrefixLen_nil_left (b : List Token) : commonPrefixLen [] b = 0 := rfl

@[simp] theorem commonPrefixLen_nil_right (a : List Token) : commonPrefixLen a [] = 0 := by
  cases a <;> rfl

@[simp] theorem commonPrefixLen_cons_self (x : Token) (as bs : List Token) :
    commonPrefixLen (x :: as) (x :: bs) = commonPrefixLen as bs + 1 :=
  if_pos rfl

theorem commonPrefixLen_cons_of_ne {x y : Token} (hne : x ≠ y) (as bs : List Token) :
    commonPrefixLen (x :: as) (y :: bs) = 0 :=
  if_neg hne

/-- Induction along two lists, up to where they differ. -/
@[elab_as_elim]
theorem commonPrefix_ind {P : List Token → List Token → Prop} (left : ∀ b, P [] b)
    (right : ∀ a, P a []) (same : ∀ x as bs, P as bs → P (x :: as) (x :: bs))
    (differ : ∀ x as y bs, x ≠ y → P (x :: as) (y :: bs)) (a b : List Token) : P a b := by
  induction a generalizing b with
  | nil => exact left b
  | cons x as ih =>
    cases b with
    | nil => exact right (x :: as)
    | cons y bs =>
      by_cases hxy : x = y
      · subst hxy
        exact same x as bs (ih bs)
      · exact differ x as y bs hxy

theorem commonPrefixLen_le_left (a b : List Token) : commonPrefixLen a b ≤ a.length := by
  induction a, b using commonPrefix_ind with
  | left b => exact Nat.zero_le _
  | right a => simp
  | same x as bs ih => simpa using ih
  | differ x as y bs hne => simp [commonPrefixLen_cons_of_ne hne]

theorem take_commonPrefixLen (a b : List Token) :
    a.take (commonPrefixLen a b) = b.take (commonPrefixLen a b) := by
  induction a, b using commonPrefix_ind with
  | left b => simp
  | right a => simp
  | same x as bs ih => simp [ih]
  | differ x as y bs hne => simp [commonPrefixLen_cons_of_ne hne]

theorem commonPrefixLen_eq_length_iff {a b : List Token} :
    commonPrefixLen a b = a.length ↔ a <+: b := by
  induction a, b using commonPrefix_ind with
  | left b => simp
  | right a => simp [eq_comm]
  | same x as bs ih => simp [ih, List.cons_prefix_cons]
  | differ x as y bs hne =>
    simp [commonPrefixLen_cons_of_ne hne, List.cons_prefix_cons, hne]

theorem commonPrefixLen_append (a b : List Token) : commonPrefixLen a (a ++ b) = a.length :=
  commonPrefixLen_eq_length_iff.mpr (List.prefix_append a b)

/-- Past the common prefix the two lists differ at once. -/
theorem getElem_commonPrefixLen_ne {a b rest : List Token} {first : Token}
    (h : commonPrefixLen a b < a.length) (hb : b.drop (commonPrefixLen a b) = first :: rest) :
    a[commonPrefixLen a b] ≠ first := by
  induction a, b using commonPrefix_ind with
  | left b => cases h
  | right a => simp at hb
  | same x as bs ih => simpa using ih (by simpa using h) (by simpa using hb)
  | differ x as y bs hne =>
    simp only [commonPrefixLen_cons_of_ne hne, List.drop_zero] at hb ⊢
    obtain ⟨rfl, rfl⟩ := List.cons.inj hb
    exact hne

namespace RadixNode

/-! ### Induction and well-formedness -/

/-- Induction on a tree: a property that passes from the children to the node. -/
@[elab_as_elim]
theorem ind {P : RadixNode → Prop}
    (h : ∀ tokens children cachedKv lastAccess, (∀ c ∈ children, P c.2) →
      P ⟨tokens, children, cachedKv, lastAccess⟩) (node : RadixNode) : P node :=
  @RadixNode.rec P (fun cs => ∀ c ∈ cs, P c.2) (fun c => P c.2) h
    (fun c hc => absurd hc List.not_mem_nil)
    (fun c cs ihc ihcs => by
      intro c' hc'
      rcases List.mem_cons.mp hc' with rfl | hc'
      · exact ihc
      · exact ihcs c' hc')
    (fun _ _ ih => ih) node

/-- Every node's children are keyed by the first tokens of their segments, no
two by the same. -/
inductive WellFormed : RadixNode → Prop
  | mk {tokens : List Token} {children : List (Token × RadixNode)}
      {cachedKv : Option CachedKvState} {lastAccess : Instant}
      (keyed : ∀ c ∈ children, c.2.tokens.head? = some c.1)
      (nodup : (children.map Prod.fst).Nodup)
      (below : ∀ c ∈ children, c.2.WellFormed) :
      WellFormed ⟨tokens, children, cachedKv, lastAccess⟩

/-- Well-formedness of a map of children. -/
structure WellKeyed (children : List (Token × RadixNode)) : Prop where
  keyed : ∀ c ∈ children, c.2.tokens.head? = some c.1
  nodup : (children.map Prod.fst).Nodup
  below : ∀ c ∈ children, c.2.WellFormed

theorem wellFormed_iff {node : RadixNode} : node.WellFormed ↔ WellKeyed node.children := by
  constructor
  · rintro ⟨keyed, nodup, below⟩
    exact ⟨keyed, nodup, below⟩
  · obtain ⟨tokens, children, cachedKv, lastAccess⟩ := node
    rintro ⟨keyed, nodup, below⟩
    exact ⟨keyed, nodup, below⟩

theorem wellKeyed_nil : WellKeyed [] := ⟨by simp, List.nodup_nil, by simp⟩

theorem wellKeyed_cons {token : Token} {child : RadixNode} {rest : List (Token × RadixNode)} :
    WellKeyed ((token, child) :: rest) ↔
      child.tokens.head? = some token ∧ child.WellFormed ∧ token ∉ rest.map Prod.fst ∧
        WellKeyed rest := by
  constructor
  · rintro ⟨keyed, nodup, below⟩
    rw [List.map_cons, List.nodup_cons] at nodup
    exact ⟨keyed _ List.mem_cons_self, below _ List.mem_cons_self, nodup.1,
      fun c hc => keyed c (List.mem_cons_of_mem _ hc), nodup.2,
      fun c hc => below c (List.mem_cons_of_mem _ hc)⟩
  · rintro ⟨hkey, hchild, hnot, keyed, nodup, below⟩
    refine ⟨?_, ?_, ?_⟩
    · rintro c (_ | ⟨_, hc⟩)
      · exact hkey
      · exact keyed c hc
    · rw [List.map_cons, List.nodup_cons]
      exact ⟨hnot, nodup⟩
    · rintro c (_ | ⟨_, hc⟩)
      · exact hchild
      · exact below c hc

theorem wellFormed_new (tokens : List Token) (now : Instant) : (new tokens now).WellFormed :=
  wellFormed_iff.mpr wellKeyed_nil

/-! ### The rows of a tree -/

/-- The row of a node's own snapshot, below its segment. -/
def ownRow (cachedKv : Option CachedKvState) (lastAccess : Instant) :
    Rows Token (CachedKvState × Instant) :=
  (cachedKv.map fun kv => ⟨[], kv, lastAccess⟩).toList

mutual

/-- The snapshots of a tree under their full keys, with their access times. -/
def rows : RadixNode → Rows Token (CachedKvState × Instant)
  | ⟨tokens, children, cachedKv, lastAccess⟩ =>
    Rows.under tokens (ownRow cachedKv lastAccess ++ rowsIn children)

/-- The rows of all children. -/
def rowsIn : List (Token × RadixNode) → Rows Token (CachedKvState × Instant)
  | [] => []
  | (_, child) :: rest => child.rows ++ rowsIn rest

end

@[simp] theorem rows_mk (tokens : List Token) (children : List (Token × RadixNode))
    (cachedKv : Option CachedKvState) (lastAccess : Instant) :
    rows ⟨tokens, children, cachedKv, lastAccess⟩ =
      Rows.under tokens (ownRow cachedKv lastAccess ++ rowsIn children) := by
  rw [rows]

@[simp] theorem rowsIn_nil : rowsIn [] = [] := by
  rw [rowsIn]

@[simp] theorem rowsIn_cons (token : Token) (child : RadixNode) (rest : List (Token × RadixNode)) :
    rowsIn ((token, child) :: rest) = child.rows ++ rowsIn rest := by
  rw [rowsIn]

@[simp] theorem ownRow_none (lastAccess : Instant) : ownRow none lastAccess = [] := rfl

@[simp] theorem ownRow_some (kv : CachedKvState) (lastAccess : Instant) :
    ownRow (some kv) lastAccess = [⟨[], kv, lastAccess⟩] := rfl

theorem rows_eq (node : RadixNode) :
    node.rows = Rows.under node.tokens (ownRow node.cachedKv node.lastAccess ++
      rowsIn node.children) := by
  obtain ⟨tokens, children, cachedKv, lastAccess⟩ := node
  rw [rows_mk]

theorem eq_nil_of_mem_keys_ownRow {cachedKv : Option CachedKvState} {lastAccess : Instant}
    {k : List Token} (h : k ∈ (ownRow cachedKv lastAccess).keys) : k = [] := by
  cases cachedKv with
  | none => cases h
  | some kv => simpa using h

theorem prefix_of_mem_keys_rows {node : RadixNode} {k : List Token} (h : k ∈ node.rows.keys) :
    node.tokens <+: k := by
  rw [rows_eq] at h
  exact Rows.prefix_of_mem_keys_under h

/-- A key of a child starts with the token the child is filed under. -/
theorem head_of_mem_keys_rows {node : RadixNode} {token : Token} {k : List Token}
    (hkey : node.tokens.head? = some token) (h : k ∈ node.rows.keys) : k.head? = some token := by
  obtain ⟨k', rfl⟩ := prefix_of_mem_keys_rows h
  rw [List.head?_append, hkey, Option.some_or]

theorem head_of_mem_keys_rowsIn {children : List (Token × RadixNode)} (hcs : WellKeyed children)
    {k : List Token} (h : k ∈ (rowsIn children).keys) :
    ∃ token ∈ children.map Prod.fst, k.head? = some token := by
  induction children with
  | nil => simp at h
  | cons c rest ih =>
    obtain ⟨token, child⟩ := c
    obtain ⟨hkey, -, -, hrest⟩ := wellKeyed_cons.mp hcs
    rw [rowsIn_cons, List.keys_append, List.mem_append] at h
    rcases h with h | h
    · exact ⟨token, List.mem_cons_self, head_of_mem_keys_rows hkey h⟩
    · obtain ⟨token', hmem, hhead⟩ := ih hrest h
      exact ⟨token', List.mem_cons_of_mem _ hmem, hhead⟩

/-- A key under another token than those of the children is not theirs. -/
theorem notMem_keys_rowsIn {children : List (Token × RadixNode)} (hcs : WellKeyed children)
    {first : Token} (hfirst : first ∉ children.map Prod.fst) (rest : List Token) :
    first :: rest ∉ (rowsIn children).keys := by
  intro hmem
  obtain ⟨token, htoken, hhead⟩ := head_of_mem_keys_rowsIn hcs hmem
  obtain rfl : first = token := Option.some.inj hhead
  exact hfirst htoken

theorem nil_notMem_keys_rowsIn {children : List (Token × RadixNode)} (hcs : WellKeyed children) :
    [] ∉ (rowsIn children).keys := by
  intro hmem
  obtain ⟨token, -, hhead⟩ := head_of_mem_keys_rowsIn hcs hmem
  cases hhead

theorem notMem_keys_rows_of_head {node : RadixNode} {token first : Token} {rest : List Token}
    (hkey : node.tokens.head? = some token) (hne : token ≠ first) :
    first :: rest ∉ node.rows.keys := by
  intro hmem
  exact hne (Option.some.inj (head_of_mem_keys_rows hkey hmem)).symm

private theorem nodupKeys_rowsIn {children : List (Token × RadixNode)} (hcs : WellKeyed children)
    (hrows : ∀ c ∈ children, c.2.rows.NodupKeys) : (rowsIn children).NodupKeys := by
  induction children with
  | nil => simp
  | cons c rest ih =>
    obtain ⟨token, child⟩ := c
    obtain ⟨hkey, -, hnot, hrest⟩ := wellKeyed_cons.mp hcs
    have hchild := hrows _ List.mem_cons_self
    have htail := ih hrest fun c hc => hrows c (List.mem_cons_of_mem _ hc)
    rw [List.NodupKeys] at hchild htail ⊢
    rw [rowsIn_cons, List.keys_append, List.nodup_append']
    refine ⟨hchild, htail, ?_⟩
    intro k hk hk'
    obtain ⟨token', hmem, hhead⟩ := head_of_mem_keys_rowsIn hrest hk'
    rw [head_of_mem_keys_rows hkey hk] at hhead
    exact hnot (Option.some.inj hhead ▸ hmem)

/-- **No key is stored twice.** -/
theorem nodupKeys_rows {node : RadixNode} (h : node.WellFormed) : node.rows.NodupKeys := by
  induction node using ind with
  | h tokens children cachedKv lastAccess ih =>
    have hcs : WellKeyed children := wellFormed_iff.mp h
    have hin := nodupKeys_rowsIn hcs fun c hc => ih c hc (hcs.below c hc)
    rw [rows_mk, Rows.nodupKeys_under]
    cases cachedKv with
    | none => simpa using hin
    | some kv =>
      rw [ownRow_some, List.singleton_append, List.nodupKeys_cons]
      exact ⟨nil_notMem_keys_rowsIn hcs, hin⟩

/-! ### Lookup -/

/-- The snapshots of a tree under their keys. -/
def snapshots (node : RadixNode) : Rows Token CachedKvState := node.rows.mapVal Prod.fst

/-- The snapshots of all children. -/
def snapshotsIn (children : List (Token × RadixNode)) : Rows Token CachedKvState :=
  (rowsIn children).mapVal Prod.fst

@[simp] theorem snapshots_mk (tokens : List Token) (children : List (Token × RadixNode))
    (cachedKv : Option CachedKvState) (lastAccess : Instant) :
    snapshots ⟨tokens, children, cachedKv, lastAccess⟩ =
      Rows.under tokens ((ownRow cachedKv lastAccess).mapVal Prod.fst ++ snapshotsIn children) := by
  rw [snapshots, rows_mk, Rows.mapVal_under, Rows.mapVal_append, snapshotsIn]

@[simp] theorem snapshotsIn_cons (token : Token) (child : RadixNode)
    (rest : List (Token × RadixNode)) :
    snapshotsIn ((token, child) :: rest) = child.snapshots ++ snapshotsIn rest := by
  rw [snapshotsIn, rowsIn_cons, Rows.mapVal_append, snapshots, snapshotsIn]

theorem nodupKeys_snapshots {node : RadixNode} (h : node.WellFormed) :
    node.snapshots.NodupKeys :=
  (Rows.nodupKeys_mapVal _).mpr (nodupKeys_rows h)

/-- What a walk through a tree may change: nothing but access times. -/
structure SameSnapshots (node node' : RadixNode) : Prop where
  tokens : node'.tokens = node.tokens
  wellFormed : node.WellFormed → node'.WellFormed
  snapshots : node'.snapshots = node.snapshots

theorem SameSnapshots.refl (node : RadixNode) : SameSnapshots node node := ⟨rfl, id, rfl⟩

private theorem lookupChild_same {now : ℕ → Instant} (first : Token) {q : List Token} {m : ℕ}
    {children : List (Token × RadixNode)}
    (ih : ∀ c ∈ children, SameSnapshots c.2 (c.2.lookup now q m).1) :
    (lookupChild now first q m children).1.map Prod.fst = children.map Prod.fst ∧
      (WellKeyed children → WellKeyed (lookupChild now first q m children).1) ∧
      snapshotsIn (lookupChild now first q m children).1 = snapshotsIn children := by
  induction children with
  | nil => exact ⟨rfl, id, rfl⟩
  | cons c rest ihrest =>
    obtain ⟨token, child⟩ := c
    obtain ⟨hkeys, hwell, hsnap⟩ := ihrest fun c hc => ih c (List.mem_cons_of_mem _ hc)
    obtain ⟨htokens, hwf, hsame⟩ := ih _ List.mem_cons_self
    rw [lookupChild]
    split
    · refine ⟨rfl, fun hcs => ?_, by simp only [snapshotsIn_cons, hsame]⟩
      obtain ⟨hkey, hchild, hnot, hrest⟩ := wellKeyed_cons.mp hcs
      exact wellKeyed_cons.mpr ⟨htokens ▸ hkey, hwf hchild, hnot, hrest⟩
    · refine ⟨by simp only [List.map_cons, hkeys], fun hcs => ?_,
        by simp only [snapshotsIn_cons, hsnap]⟩
      obtain ⟨hkey, hchild, hnot, hrest⟩ := wellKeyed_cons.mp hcs
      exact wellKeyed_cons.mpr ⟨hkey, hchild, hkeys ▸ hnot, hwell hrest⟩

theorem lookup_same (now : ℕ → Instant) (q : List Token) (m : ℕ) (node : RadixNode) :
    SameSnapshots node (node.lookup now q m).1 := by
  induction node using ind generalizing now q m with
  | h tokens children cachedKv lastAccess ih =>
    rw [lookup]
    dsimp only
    split
    · exact .refl _
    · split
      · refine ⟨rfl, fun h => wellFormed_iff.mpr (wellFormed_iff.mp h : WellKeyed children), ?_⟩
        cases cachedKv <;> simp
      · rename_i first rest hdrop
        obtain ⟨-, hwell, hsnap⟩ := lookupChild_same first
          fun c hc => ih c hc (fun d => now (d + 1)) (first :: rest)
            (m + commonPrefixLen tokens q)
        refine ⟨rfl, fun h => wellFormed_iff.mpr (hwell (wellFormed_iff.mp h)), ?_⟩
        cases cachedKv <;> simp [hsnap]

/-- Where a child is keyed by `first`, the keys that start with `first` are its. -/
theorem dlookup_snapshotsIn_of_mem {children : List (Token × RadixNode)} (hcs : WellKeyed children)
    {first : Token} {child : RadixNode} (hmem : (first, child) ∈ children) {q k : List Token}
    (hk : k <+: first :: q) : (snapshotsIn children).dlookup k = child.snapshots.dlookup k := by
  induction children with
  | nil => cases hmem
  | cons c rest ih =>
    obtain ⟨token, child'⟩ := c
    obtain ⟨hkey, hchild, hnot, hrest⟩ := wellKeyed_cons.mp hcs
    have habsent : ∀ {node : RadixNode} {t : Token}, node.tokens.head? = some t →
        (t ≠ first ∨ k = []) → node.snapshots.dlookup k = none := by
      intro node t ht hor
      rw [List.dlookup_eq_none, snapshots, Rows.keys_mapVal]
      intro hin
      have hhead := head_of_mem_keys_rows ht hin
      rcases List.prefix_cons_iff.mp hk with rfl | ⟨k', rfl, -⟩
      · cases hhead
      · rcases hor with hne | hnil
        · exact hne (Option.some.inj hhead).symm
        · cases hnil
    rw [snapshotsIn_cons, List.dlookup_append]
    rcases List.mem_cons.mp hmem with heq | hmem
    · obtain ⟨rfl, rfl⟩ := Prod.mk.inj heq
      rw [Option.or_eq_left_of_none]
      rw [List.dlookup_eq_none, snapshotsIn, Rows.keys_mapVal]
      rcases List.prefix_cons_iff.mp hk with rfl | ⟨k', rfl, -⟩
      · exact nil_notMem_keys_rowsIn hrest
      · exact notMem_keys_rowsIn hrest hnot k'
    · have hne : token ≠ first := fun h => hnot (h ▸ List.mem_map_of_mem hmem)
      rw [habsent hkey (.inl hne), Option.none_or, ih hrest hmem]

/-- Where no child is keyed by `first`, nothing is stored under it. -/
theorem dlookup_snapshotsIn_of_notMem {children : List (Token × RadixNode)}
    (hcs : WellKeyed children) {first : Token} (hfirst : first ∉ children.map Prod.fst)
    {q k : List Token} (hk : k <+: first :: q) : (snapshotsIn children).dlookup k = none := by
  rw [List.dlookup_eq_none, snapshotsIn, Rows.keys_mapVal]
  rcases List.prefix_cons_iff.mp hk with rfl | ⟨k', rfl, -⟩
  · exact nil_notMem_keys_rowsIn hcs
  · exact notMem_keys_rowsIn hcs hfirst k'

/-- The answer of a walk that has already matched `m` tokens. -/
def answer (m : ℕ) (stored : Rows Token CachedKvState) (q : List Token) :
    Option (ℕ × CachedKvState) :=
  (longestPrefix (fun k => stored.dlookup k) q).map fun r => (m + r.1, r.2)

private theorem lookupChild_found {now : ℕ → Instant} {first : Token} {q : List Token} {m : ℕ}
    {children : List (Token × RadixNode)} (hcs : WellKeyed children)
    (ih : ∀ c ∈ children, (c.2.lookup now (first :: q) m).2 = answer m c.2.snapshots (first :: q)) :
    (lookupChild now first (first :: q) m children).2 =
      answer m (snapshotsIn children) (first :: q) := by
  by_cases hfirst : first ∈ children.map Prod.fst
  · obtain ⟨⟨token, child⟩, hmem, htoken⟩ := List.mem_map.mp hfirst
    obtain rfl : first = token := htoken.symm
    have hchild : (lookupChild now first (first :: q) m children).2 =
        (child.lookup now (first :: q) m).2 := by
      clear ih hfirst
      induction children with
      | nil => cases hmem
      | cons c rest ihrest =>
        obtain ⟨token, child'⟩ := c
        obtain ⟨-, -, hnot, hrest⟩ := wellKeyed_cons.mp hcs
        rw [lookupChild]
        rcases List.mem_cons.mp hmem with heq | hmem
        · obtain ⟨rfl, rfl⟩ := Prod.mk.inj heq
          rw [if_pos rfl]
        · have hne : token ≠ first := fun h => hnot (h ▸ List.mem_map_of_mem hmem)
          rw [if_neg hne]
          exact ihrest hrest hmem
    rw [hchild, ih _ hmem, answer, answer]
    rw [longestPrefix_congr fun k hk => (dlookup_snapshotsIn_of_mem hcs hmem hk).symm]
  · have hnone : (lookupChild now first (first :: q) m children).2 = none := by
      clear ih
      induction children with
      | nil => rfl
      | cons c rest ihrest =>
        obtain ⟨token, child'⟩ := c
        rw [List.map_cons, List.mem_cons, not_or] at hfirst
        rw [lookupChild, if_neg (Ne.symm hfirst.1)]
        exact ihrest (wellKeyed_cons.mp hcs).2.2.2 hfirst.2
    rw [hnone, answer, eq_comm, Option.map_eq_none_iff, longestPrefix_eq_none_iff]
    exact fun k hk => dlookup_snapshotsIn_of_notMem hcs hfirst hk

/-- **`lookup` answers the longest stored prefix of the query.** -/
theorem lookup_found {node : RadixNode} (h : node.WellFormed) (now : ℕ → Instant)
    (q : List Token) (m : ℕ) : (node.lookup now q m).2 = answer m node.snapshots q := by
  induction node using ind generalizing now q m with
  | h tokens children cachedKv lastAccess ih =>
    have hcs : WellKeyed children := wellFormed_iff.mp h
    rw [lookup]
    dsimp only
    by_cases hpre : tokens <+: q
    · obtain ⟨rest, rfl⟩ := hpre
      rw [commonPrefixLen_append, if_neg (Nat.lt_irrefl _), List.drop_left]
      have hown : ((ownRow cachedKv lastAccess).mapVal Prod.fst ++ snapshotsIn children).dlookup
          [] = cachedKv := by
        have hnone : (snapshotsIn children).dlookup [] = none := by
          rw [List.dlookup_eq_none, snapshotsIn, Rows.keys_mapVal]
          exact nil_notMem_keys_rowsIn hcs
        cases cachedKv <;> simp [hnone]
      have hbelow : ∀ first k, ((ownRow cachedKv lastAccess).mapVal Prod.fst ++
          snapshotsIn children).dlookup (first :: k) =
            (snapshotsIn children).dlookup (first :: k) := by
        intro first k
        cases cachedKv <;> simp
      rw [answer, snapshots_mk, longestPrefix_append fun k hk hne =>
        Rows.dlookup_under_of_not_prefix _ fun hpre => hne (hk.eq_of_length_le hpre.length_le)]
      simp only [Rows.dlookup_under]
      cases rest with
      | nil =>
        rw [longestPrefix, hown]
        cases cachedKv <;> simp
      | cons first q =>
        dsimp only
        rw [lookupChild_found hcs fun c hc => ih c hc (hcs.below c hc) _ _ _, answer,
          longestPrefix, longestPrefix, hown, List.dlookup_eq_none.mpr]
        · simp only [hbelow]
          cases cachedKv <;>
            cases longestPrefix (fun k => (snapshotsIn children).dlookup (first :: k)) q <;>
            simp <;> omega
        · rw [snapshotsIn, Rows.keys_mapVal]
          exact nil_notMem_keys_rowsIn hcs
    · have hlt : commonPrefixLen tokens q < tokens.length :=
        lt_of_le_of_ne (commonPrefixLen_le_left tokens q)
          fun heq => hpre (commonPrefixLen_eq_length_iff.mp heq)
      rw [if_pos hlt, answer, eq_comm, Option.map_eq_none_iff, longestPrefix_eq_none_iff]
      intro k hk
      rw [List.dlookup_eq_none, snapshots, Rows.keys_mapVal]
      exact fun hmem => hpre ((prefix_of_mem_keys_rows hmem).trans hk)

end RadixNode

end Kv

end Oxillama
