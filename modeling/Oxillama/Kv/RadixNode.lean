/-
The radix tree of the prefix cache
(`oxillama-runtime/src/kv_cache/prefix.rs`, `RadixNode`).

A node carries a segment of tokens, children keyed by the first token of their
segment, and possibly a snapshot.  Two things a node's methods read are not in
the tree and are supplied by the environment:

* the clock: `Instant::now()` answers whatever reading is handed in, later
  calls need not read later times;
* the order in which a `HashMap` lists its values: `IterOrder.list`, any
  rearrangement of the children.

The map of children is the list of its entries; where a lookup finds a key, it
finds the first entry with it.
-/
import Mathlib.Algebra.GroupWithZero.Nat
import Mathlib.Data.List.Basic
import Oxillama.Kv.Access

namespace Oxillama

namespace Kv

/-- A reading of the clock. -/
abbrev Instant := ℕ

/-! ### Snapshots -/

/-- `CachedKvState`: the key and value rows of a prefix, layer by layer.  The
footprint is computed once, so it is always that of the buffers. -/
structure CachedKvState where
  keys : List (List F32)
  values : List (List F32)
  seqLen : ℕ
  memoryBytes : ℕ
  memoryBytes_eq : memoryBytes = ((keys ++ values).map List.length).sum * 4
  deriving DecidableEq

/-- `CachedKvState::new`. -/
def CachedKvState.new (keys values : List (List F32)) (seqLen : ℕ) : CachedKvState where
  keys := keys
  values := values
  seqLen := seqLen
  memoryBytes := ((keys ++ values).map List.length).sum * 4
  memoryBytes_eq := rfl

/-! ### Nodes -/

/-- `RadixNode`. -/
structure RadixNode where
  /-- Segment of the path that ends here. -/
  tokens : List Token
  /-- Children keyed by the first token of their segment. -/
  children : List (Token × RadixNode)
  cachedKv : Option CachedKvState
  lastAccess : Instant

/-- The environment's choice of the order in which a map of children is listed. -/
structure IterOrder where
  list : List (Token × RadixNode) → List (Token × RadixNode)
  perm : ∀ children, (list children).Perm children

/-- `common_prefix_len`. -/
def commonPrefixLen : List Token → List Token → ℕ
  | a :: as, b :: bs => if a = b then commonPrefixLen as bs + 1 else 0
  | _, _ => 0

namespace RadixNode

/-- `RadixNode::new`. -/
def new (tokens : List Token) (now : Instant) : RadixNode where
  tokens := tokens
  children := []
  cachedKv := none
  lastAccess := now

mutual

/-- `RadixNode::lookup`.  The node at depth `d` of the walk reads the clock as
`now d`. -/
def lookup (now : ℕ → Instant) (query : List Token) (matchedSoFar : ℕ) :
    RadixNode → RadixNode × Option (ℕ × CachedKvState)
  | ⟨tokens, children, cachedKv, lastAccess⟩ =>
    let common := commonPrefixLen tokens query
    if common < tokens.length then
      (⟨tokens, children, cachedKv, lastAccess⟩, none)
    else
      let totalMatched := matchedSoFar + common
      match query.drop common with
      | [] => (⟨tokens, children, cachedKv, now 0⟩, cachedKv.map fun kv => (totalMatched, kv))
      | first :: rest =>
        let r := lookupChild (fun d => now (d + 1)) first (first :: rest) totalMatched children
        -- the node's own snapshot counts only where nothing deeper matched
        (⟨tokens, r.1, cachedKv, now 0⟩, r.2.or (cachedKv.map fun kv => (totalMatched, kv)))

/-- The descent of `lookup` into the child keyed by `first`. -/
def lookupChild (now : ℕ → Instant) (first : Token) (remaining : List Token) (totalMatched : ℕ) :
    List (Token × RadixNode) → List (Token × RadixNode) × Option (ℕ × CachedKvState)
  | [] => ([], none)
  | (token, child) :: rest =>
    if token = first then
      let r := child.lookup now remaining totalMatched
      ((token, r.1) :: rest, r.2)
    else
      let r := lookupChild now first remaining totalMatched rest
      ((token, child) :: r.1, r.2)

end

/-- `RadixNode::split_at`: the rest of the segment, the children and the
snapshot move to a new child.  The bound is what keeps `suffix[0]` from
panicking. -/
def splitAt (pos : ℕ) (node : RadixNode) (h : pos < node.tokens.length) : RadixNode where
  tokens := node.tokens.take pos
  children := [(node.tokens[pos], { node with tokens := node.tokens.drop pos })]
  cachedKv := none
  lastAccess := node.lastAccess

/-- `last_access = now; cached_kv.replace(kv)`. -/
def replaceKv (kv : CachedKvState) (now : Instant) (node : RadixNode) :
    RadixNode × Option CachedKvState :=
  ({ node with cachedKv := some kv, lastAccess := now }, node.cachedKv)

mutual

/-- `RadixNode::insert`, with the entry it displaces. -/
def insert (tokens : List Token) (kv : CachedKvState) (now : Instant) :
    RadixNode → RadixNode × Option CachedKvState
  | ⟨segment, children, cachedKv, lastAccess⟩ =>
    if tokens = [] then
      replaceKv kv now ⟨segment, children, cachedKv, lastAccess⟩
    else
      let common := commonPrefixLen segment tokens
      if h : common < segment.length then
        let node := splitAt common ⟨segment, children, cachedKv, lastAccess⟩ h
        match tokens.drop common with
        | [] => replaceKv kv now node
        | first :: rest =>
          -- the only child starts with another token: `entry(first)` is vacant
          -- (`splitAt_vacant`)
          ({ node with
            children := (first, (replaceKv kv now (new (first :: rest) now)).1) :: node.children },
            none)
      else
        match tokens.drop common with
        | [] => replaceKv kv now ⟨segment, children, cachedKv, lastAccess⟩
        | first :: rest =>
          let r := insertChild first (first :: rest) kv now children
          (⟨segment, r.1, cachedKv, lastAccess⟩, r.2)

/-- `children.entry(first)`, filled or found, and the descent of `insert`. -/
def insertChild (first : Token) (remaining : List Token) (kv : CachedKvState) (now : Instant) :
    List (Token × RadixNode) → List (Token × RadixNode) × Option CachedKvState
  | [] =>
    let r := replaceKv kv now (new remaining now)
    ([(first, r.1)], r.2)
  | (token, child) :: rest =>
    if token = first then
      let r := if child.tokens = remaining then replaceKv kv now child
        else child.insert remaining kv now
      ((token, r.1) :: rest, r.2)
    else
      let r := insertChild first remaining kv now rest
      ((token, child) :: r.1, r.2)

end

mutual

/-- `RadixNode::count_entries`. -/
def countEntries : RadixNode → ℕ
  | ⟨_, children, cachedKv, _⟩ => cachedKv.isSome.toNat + countEntriesIn children

/-- `count_entries` summed over the children. -/
def countEntriesIn : List (Token × RadixNode) → ℕ
  | [] => 0
  | (_, child) :: rest => child.countEntries + countEntriesIn rest

end

mutual

/-- `RadixNode::total_memory`. -/
def totalMemory : RadixNode → ℕ
  | ⟨_, children, cachedKv, _⟩ =>
    (cachedKv.elim 0 CachedKvState.memoryBytes) + totalMemoryIn children

/-- `total_memory` summed over the children. -/
def totalMemoryIn : List (Token × RadixNode) → ℕ
  | [] => 0
  | (_, child) :: rest => child.totalMemory + totalMemoryIn rest

end

/-! ### Eviction -/

mutual

/-- The tree with the children of every node in the order `order` lists them. -/
def arranged (order : IterOrder) : RadixNode → RadixNode
  | ⟨tokens, children, cachedKv, lastAccess⟩ =>
    ⟨tokens, order.list (arrangedIn order children), cachedKv, lastAccess⟩

/-- `arranged` for every child. -/
def arrangedIn (order : IterOrder) : List (Token × RadixNode) → List (Token × RadixNode)
  | [] => []
  | (token, child) :: rest => (token, child.arranged order) :: arrangedIn order rest

end

/-- What `find_lru_candidate` carries along: `oldest_time` and `oldest_path`. -/
abbrev Candidate := Instant × Option (List Token)

mutual

/-- `RadixNode::find_lru_candidate`, with the children in the order of the list. -/
def findLruCandidate (pre : List Token) (oldest : Candidate) : RadixNode → Candidate
  | ⟨tokens, children, cachedKv, lastAccess⟩ =>
    let here : Candidate :=
      if cachedKv.isSome ∧ (oldest.2.isNone ∨ lastAccess < oldest.1) then
        (lastAccess, some (pre ++ tokens))
      else oldest
    findLruCandidateIn (pre ++ tokens) here children

/-- The loop of `find_lru_candidate` over the children. -/
def findLruCandidateIn (pre : List Token) (oldest : Candidate) :
    List (Token × RadixNode) → Candidate
  | [] => oldest
  | (_, child) :: rest => findLruCandidateIn pre (child.findLruCandidate pre oldest) rest

end

mutual

/-- `RadixNode::remove_cached_at`, with the bytes freed. -/
def removeCachedAt (path : List Token) : RadixNode → RadixNode × Option ℕ
  | ⟨tokens, children, cachedKv, lastAccess⟩ =>
    let common := commonPrefixLen tokens path
    if common < tokens.length then
      (⟨tokens, children, cachedKv, lastAccess⟩, none)
    else
      match path.drop common with
      | [] => (⟨tokens, children, none, lastAccess⟩, cachedKv.map CachedKvState.memoryBytes)
      | first :: rest =>
        let r := removeCachedAtChild first (first :: rest) children
        (⟨tokens, r.1, cachedKv, lastAccess⟩, r.2)

/-- The descent of `remove_cached_at` into the child keyed by `first`, which is
pruned when it is left with neither a snapshot nor children. -/
def removeCachedAtChild (first : Token) (remaining : List Token) :
    List (Token × RadixNode) → List (Token × RadixNode) × Option ℕ
  | [] => ([], none)
  | (token, child) :: rest =>
    if token = first then
      let r := child.removeCachedAt remaining
      (if r.1.cachedKv.isNone ∧ r.1.children.isEmpty then rest else (token, r.1) :: rest, r.2)
    else
      let r := removeCachedAtChild first remaining rest
      ((token, child) :: r.1, r.2)

end

/-- `RadixNode::evict_lru_one`, with the bytes freed. -/
def evictLruOne (order : IterOrder) (now : Instant) (node : RadixNode) : RadixNode × Option ℕ :=
  match ((node.arranged order).findLruCandidate [] (now, none)).2 with
  | none => (node, none)
  | some path => node.removeCachedAt path

/-- `RadixNode::clear_all`. -/
def clearAll (node : RadixNode) : RadixNode := { node with cachedKv := none, children := [] }

end RadixNode

end Kv

end Oxillama
