/-
What a forward pass and the prefix cache see of a key-value cache
(`oxillama-arch/src/traits.rs`, `oxillama-arch/src/common/kv_view.rs`).

A call answers `none` where it panics, and otherwise the `ArchResult` of the
source.  `for_each_key` and `for_each_value` answer the pairs of position and
row that they call their closure with, in order.  Floats are bit patterns:
nothing here computes with them.
-/
import Mathlib.Data.Nat.Notation

namespace Oxillama

namespace Kv

/-- `f32`, as its bit pattern. -/
abbrev F32 := UInt32

/-- A token id (`u32`). -/
abbrev Token := UInt32

/-- `ArchError`, the part of it that key-value caches raise. -/
inductive ArchError
  | forwardPassError (layer : ℕ) (message : String)
  | notSupported (detail : String)
  deriving DecidableEq, Repr

/-- `ArchResult`. -/
abbrev ArchResult (α : Type) := Except ArchError α

/-- The rows an iteration visits: positions with their elements. -/
abbrev Visits := List (ℕ × List F32)

/-- `dyn KvCacheAccess`, the methods that read. -/
structure KvCacheAccess where
  seqLen : ℕ
  kvDim : ℕ
  getKeys : ℕ → Option (ArchResult (List F32))
  getValues : ℕ → Option (ArchResult (List F32))
  forEachKey : ℕ → Option (ArchResult Visits)
  forEachValue : ℕ → Option (ArchResult Visits)

/-- The elements of the visited rows, one row after the other. -/
def Visits.gathered (visits : Visits) : List F32 := visits.flatMap Prod.snd

/-- The body of `fetch_keys` and `fetch_values`: the borrowed slice where the
cache lends one, else the gathered rows, else the error of the borrow. -/
def fetchVia (get : ℕ → Option (ArchResult (List F32))) (forEach : ℕ → Option (ArchResult Visits))
    (layer : ℕ) : Option (ArchResult (List F32)) := do
  match ← get layer with
  | .ok slice => some (.ok slice)
  | .error borrowErr =>
    match ← forEach layer with
    | .ok visits => some (.ok visits.gathered)
    | .error _ => some (.error borrowErr)

/-- `fetch_keys`. -/
def fetchKeys (cache : KvCacheAccess) : ℕ → Option (ArchResult (List F32)) :=
  fetchVia cache.getKeys cache.forEachKey

/-- `fetch_values`. -/
def fetchValues (cache : KvCacheAccess) : ℕ → Option (ArchResult (List F32)) :=
  fetchVia cache.getValues cache.forEachValue

end Kv

end Oxillama
