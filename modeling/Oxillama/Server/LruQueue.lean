/-
The LRU queue of the server (`oxillama-server/src/router/eviction.rs`), which the model
pool, the rate limiter and the registry of prefix caches share.
-/
import Oxillama.Lib.Recency

namespace Oxillama

namespace Server

/-- `LruQueue`: the least recently used identifier first. -/
structure LruQueue where
  inner : List String
deriving DecidableEq

namespace LruQueue

/-- `LruQueue::with_capacity`; the capacity is a hint for the allocation. -/
def withCapacity (_cap : ℕ) : LruQueue := ⟨[]⟩

/-- `LruQueue::touch`. -/
def touch (modelId : String) (q : LruQueue) : LruQueue :=
  ⟨q.inner.filter (· ≠ modelId) ++ [modelId]⟩

/-- `LruQueue::evict_lru`. -/
def evictLru (q : LruQueue) : Option String × LruQueue :=
  match q.inner with
  | [] => (none, q)
  | front :: rest => (some front, ⟨rest⟩)

/-- `LruQueue::remove`. -/
def remove (modelId : String) (q : LruQueue) : LruQueue :=
  ⟨q.inner.filter (· ≠ modelId)⟩

/-- `LruQueue::len`. -/
def len (q : LruQueue) : ℕ := q.inner.length

theorem inner_touch (modelId : String) (q : LruQueue) :
    (q.touch modelId).inner = Oxillama.touch modelId q.inner := rfl

end LruQueue

end Server

end Oxillama
