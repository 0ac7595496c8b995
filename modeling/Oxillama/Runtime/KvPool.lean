/-
The pool of key/value pages (`oxillama-runtime/src/kv_pool.rs`).

`alloc` pops a page from the free list, `free` pushes it back; `in_use` tells a page that is
out from one that was freed before.  The pool does not know who has its pages: `Lent` keeps
that beside it, for the statements only.  Every call of `alloc` has a new owner.

* `Step` — what a call does to the pool and to the owners;
* `Sound` — the invariant: every page is free or owned by one owner, and `in_use` says which;
* `sound_of_run` — it holds after every sequence of calls.
-/
import Oxillama.Lib.FreeList
import Oxillama.Lib.Run
import Oxillama.Kv.Access

namespace Oxillama

namespace Runtime

/-! ### The pool -/

/-- `KvPoolError`. -/
inductive KvPoolError
  | outOfRange (pageIdx total : ℕ)
  | doubleFree (pageIdx : ℕ)
  deriving DecidableEq, Repr

/-- `KvCachePool`. -/
structure KvCachePool where
  pages : List (List Kv.F32)
  freeList : List ℕ
  inUse : List Bool
  pageSize : ℕ
  deriving DecidableEq

namespace KvCachePool

/-- `KvCachePool::new`. -/
def new (pageSize initialPages : ℕ) : KvCachePool where
  pages := List.replicate initialPages (List.replicate pageSize 0)
  freeList := List.range initialPages
  inUse := List.replicate initialPages false
  pageSize := pageSize

/-- `KvCachePool::alloc`.  Nothing where `in_use[idx]` panics. -/
def alloc (pool : KvCachePool) : Option (Option ℕ × KvCachePool) :=
  match pool.freeList.getLast? with
  | none => some (none, pool)
  | some idx =>
    if idx < pool.inUse.length then
      some (some idx, { pool with
        freeList := pool.freeList.dropLast
        inUse := pool.inUse.set idx true })
    else none

/-- `KvCachePool::free`.  Nothing where `in_use[page_idx]` panics. -/
def free (pool : KvCachePool) (pageIdx : ℕ) : Option (Except KvPoolError Unit × KvCachePool) :=
  if pageIdx ≥ pool.pages.length then
    some (.error (.outOfRange pageIdx pool.pages.length), pool)
  else
    match pool.inUse[pageIdx]? with
    | none => none
    | some false => some (.error (.doubleFree pageIdx), pool)
    | some true =>
      some (.ok (), { pool with
        freeList := pool.freeList ++ [pageIdx]
        inUse := pool.inUse.set pageIdx false })

/-- `KvCachePool::is_allocated`. -/
def isAllocated (pool : KvCachePool) (pageIdx : ℕ) : Bool := pool.inUse[pageIdx]?.getD false

/-- `KvCachePool::page`.  Nothing where it panics. -/
def page (pool : KvCachePool) (pageIdx : ℕ) : Option (List Kv.F32) := pool.pages[pageIdx]?

/-- Writing one value through `KvCachePool::page_mut`.  Nothing where it panics. -/
def writePage (pool : KvCachePool) (pageIdx offset : ℕ) (value : Kv.F32) : Option KvCachePool :=
  match pool.pages[pageIdx]? with
  | none => none
  | some page =>
    if offset < page.length then
      some { pool with pages := pool.pages.set pageIdx (page.set offset value) }
    else none

/-- `KvCachePool::total_pages`. -/
def totalPages (pool : KvCachePool) : ℕ := pool.pages.length

/-- `KvCachePool::free_pages`. -/
def freePages (pool : KvCachePool) : ℕ := pool.freeList.length

/-- `KvCachePool::used_pages`. -/
def usedPages (pool : KvCachePool) : ℕ := pool.pages.length - pool.freeList.length

end KvCachePool

/-! ### Calls -/

/-- The calls of a pool. -/
inductive KvCall
  | alloc
  | free (pageIdx : ℕ)
  | isAllocated (pageIdx : ℕ)
  | page (pageIdx : ℕ)
  | writePage (pageIdx offset : ℕ) (value : Kv.F32)
  deriving DecidableEq, Repr

/-- What they answer. -/
inductive KvAnswer
  | allocated (idx : Option ℕ)
  | freed (result : Except KvPoolError Unit)
  | isAllocated (b : Bool)
  | page (slab : List Kv.F32)
  | written

/-- A pool and the owners of its pages, numbered in the order of their calls. -/
structure Lent where
  pool : KvCachePool
  held : List (ℕ × ℕ)
  owners : ℕ

/-- A call.  A page that is handed out belongs to the caller until it is freed. -/
def Lent.step (s : Lent) : KvCall → Option (Lent × KvAnswer)
  | .alloc => s.pool.alloc.map fun (result, pool) =>
    match result with
    | none => ({ s with pool }, .allocated none)
    | some idx =>
      ({ pool, held := (idx, s.owners) :: s.held, owners := s.owners + 1 }, .allocated (some idx))
  | .free pageIdx => (s.pool.free pageIdx).map fun (result, pool) =>
    match result with
    | .error e => ({ s with pool }, .freed (.error e))
    | .ok () => ({ s with pool, held := withoutSlot pageIdx s.held }, .freed (.ok ()))
  | .isAllocated pageIdx => some (s, .isAllocated (s.pool.isAllocated pageIdx))
  | .page pageIdx => (s.pool.page pageIdx).map fun slab => (s, .page slab)
  | .writePage pageIdx offset value =>
    (s.pool.writePage pageIdx offset value).map fun pool => ({ s with pool }, .written)

/-- The pool before the first call. -/
def Lent.start (pageSize initialPages : ℕ) : Lent :=
  { pool := KvCachePool.new pageSize initialPages, held := [], owners := 0 }

/-! ### The invariant -/

namespace KvCachePool

/-- Every page is free or has one owner, and `in_use` tells which. -/
structure Sound (n : ℕ) (pool : KvCachePool) (held : List (ℕ × ℕ)) : Prop where
  partitioned : Partitioned n pool.freeList held
  length_pages : pool.pages.length = n
  length_inUse : pool.inUse.length = n
  inUse_iff : ∀ idx, pool.inUse[idx]? = some true ↔ idx ∈ held.map Prod.fst

theorem sound_new (pageSize n : ℕ) : Sound n (new pageSize n) [] where
  partitioned := Partitioned.start n
  length_pages := List.length_replicate
  length_inUse := List.length_replicate
  inUse_iff idx := by
    show (List.replicate n false)[idx]? = some true ↔ idx ∈ []
    rw [List.getElem?_replicate]
    split <;> simp

section Calls

variable {n : ℕ} {pool : KvCachePool} {held : List (ℕ × ℕ)}

/-- **What `alloc` does**: there is no free page, or the last one goes to the caller. -/
theorem alloc_cases (h : Sound n pool held) :
    pool.freeList = [] ∧ pool.alloc = some (none, pool) ∨
    ∃ rest idx, pool.freeList = rest ++ [idx] ∧ pool.alloc =
      some (some idx, { pool with freeList := rest, inUse := pool.inUse.set idx true }) := by
  rcases List.eq_nil_or_concat pool.freeList with hnil | ⟨rest, idx, hlast⟩
  · left
    refine ⟨hnil, ?_⟩
    rw [alloc, hnil]
    rfl
  · right
    rw [List.concat_eq_append] at hlast
    have hlt : idx < pool.inUse.length := by
      rw [h.length_inUse]
      refine h.partitioned.lt_of_free ?_
      rw [hlast]
      exact List.mem_append_right rest List.mem_cons_self
    refine ⟨rest, idx, hlast, ?_⟩
    rw [alloc, hlast, List.getLast?_concat, List.dropLast_concat]
    exact if_pos hlt

/-- **What `free` does**: it fails and leaves the pool alone, or the page was owned. -/
theorem free_cases (h : Sound n pool held) (idx : ℕ) :
    idx ∉ held.map Prod.fst ∧ (∃ e, pool.free idx = some (.error e, pool)) ∨
    idx ∈ held.map Prod.fst ∧ pool.free idx = some (.ok (), { pool with
      freeList := pool.freeList ++ [idx], inUse := pool.inUse.set idx false }) := by
  by_cases hout : idx ≥ pool.pages.length
  · left
    refine ⟨fun hheld => ?_, .outOfRange idx pool.pages.length, ?_⟩
    · obtain ⟨hlt, -⟩ := h.partitioned.held_iff.mp hheld
      rw [h.length_pages] at hout
      omega
    · rw [free, if_pos hout]
  · have hlt : idx < pool.inUse.length := by
      rw [h.length_inUse, ← h.length_pages]
      omega
    rw [free, if_neg hout, ← h.inUse_iff, List.getElem?_eq_getElem hlt]
    cases pool.inUse[idx] with
    | false => exact .inl ⟨by simp, _, rfl⟩
    | true => exact .inr ⟨rfl, rfl⟩

/-- A page goes to its new owner. -/
theorem Sound.lend {rest : List ℕ} {idx : ℕ} (h : Sound n pool held)
    (hlast : pool.freeList = rest ++ [idx]) (owner : ℕ) :
    Sound n { pool with freeList := rest, inUse := pool.inUse.set idx true }
      ((idx, owner) :: held) where
  partitioned := by
    have hpart := h.partitioned
    rw [hlast] at hpart
    exact hpart.lend owner
  length_pages := h.length_pages
  length_inUse := by
    rw [List.length_set]
    exact h.length_inUse
  inUse_iff i := by
    have hlt : idx < pool.inUse.length := by
      rw [h.length_inUse]
      refine h.partitioned.lt_of_free ?_
      rw [hlast]
      exact List.mem_append_right rest List.mem_cons_self
    show (pool.inUse.set idx true)[i]? = some true ↔ i ∈ idx :: held.map Prod.fst
    rw [List.mem_cons, ← h.inUse_iff i]
    by_cases hi : i = idx
    · subst hi
      rw [List.getElem?_set_self hlt]
      simp
    · rw [List.getElem?_set_ne (Ne.symm hi)]
      simp [hi]

/-- A page goes back to the free list. -/
theorem Sound.takeBack {idx : ℕ} (h : Sound n pool held) (hheld : idx ∈ held.map Prod.fst) :
    Sound n { pool with freeList := pool.freeList ++ [idx], inUse := pool.inUse.set idx false }
      (withoutSlot idx held) where
  partitioned := h.partitioned.takeBack hheld
  length_pages := h.length_pages
  length_inUse := by
    rw [List.length_set]
    exact h.length_inUse
  inUse_iff i := by
    have hlt : idx < pool.inUse.length := by
      rw [h.length_inUse]
      exact (h.partitioned.held_iff.mp hheld).1
    show (pool.inUse.set idx false)[i]? = some true ↔ i ∈ (withoutSlot idx held).map Prod.fst
    rw [Partitioned.map_withoutSlot, h.partitioned.nodup_held.mem_erase_iff, ← h.inUse_iff i]
    by_cases hi : i = idx
    · subst hi
      rw [List.getElem?_set_self hlt]
      simp
    · rw [List.getElem?_set_ne (Ne.symm hi)]
      simp [hi]

theorem Sound.writePage {idx offset : ℕ} {value : Kv.F32} {pool' : KvCachePool}
    (h : Sound n pool held) (hwrite : pool.writePage idx offset value = some pool') :
    Sound n pool' held := by
  unfold KvCachePool.writePage at hwrite
  split at hwrite
  · cases hwrite
  · split at hwrite
    · obtain rfl := Option.some.inj hwrite
      refine ⟨h.partitioned, ?_, h.length_inUse, h.inUse_iff⟩
      rw [List.length_set]
      exact h.length_pages
    · cases hwrite

end Calls

end KvCachePool

/-! ### Runs -/

section Runs

variable {n : ℕ} {s s' : Lent} {answer : KvAnswer}

/-- Every call keeps the invariant. -/
theorem sound_step {call : KvCall} (h : s.pool.Sound n s.held)
    (hstep : s.step call = some (s', answer)) : s'.pool.Sound n s'.held := by
  cases call with
  | alloc =>
    rcases KvCachePool.alloc_cases h with ⟨-, halloc⟩ | ⟨rest, idx, hlast, halloc⟩
    · rw [Lent.step, halloc] at hstep
      obtain ⟨rfl, -⟩ := Prod.mk.inj (Option.some.inj hstep)
      exact h
    · rw [Lent.step, halloc] at hstep
      obtain ⟨rfl, -⟩ := Prod.mk.inj (Option.some.inj hstep)
      exact h.lend hlast s.owners
  | free pageIdx =>
    rcases KvCachePool.free_cases h pageIdx with ⟨-, e, hfree⟩ | ⟨hheld, hfree⟩
    · rw [Lent.step, hfree] at hstep
      obtain ⟨rfl, -⟩ := Prod.mk.inj (Option.some.inj hstep)
      exact h
    · rw [Lent.step, hfree] at hstep
      obtain ⟨rfl, -⟩ := Prod.mk.inj (Option.some.inj hstep)
      exact h.takeBack hheld
  | isAllocated pageIdx =>
    obtain ⟨rfl, -⟩ := Prod.mk.inj (Option.some.inj hstep)
    exact h
  | page pageIdx =>
    obtain ⟨slab, -, heq⟩ := Option.map_eq_some_iff.mp hstep
    obtain ⟨rfl, -⟩ := Prod.mk.inj heq
    exact h
  | writePage pageIdx offset value =>
    obtain ⟨pool', hwrite, heq⟩ := Option.map_eq_some_iff.mp hstep
    obtain ⟨rfl, -⟩ := Prod.mk.inj heq
    exact h.writePage hwrite

/-- **Every page has one place**, after every sequence of calls. -/
theorem sound_of_run {pageSize : ℕ} {tr : List (KvCall × KvAnswer)}
    (hrun : Run Lent.step (Lent.start pageSize n) tr s) : s.pool.Sound n s.held :=
  hrun.invariant (P := fun s => s.pool.Sound n s.held) sound_step
    (KvCachePool.sound_new pageSize n)

/-- The pages that are not free are in use. -/
theorem KvCachePool.Sound.usedPages_eq {pool : KvCachePool} {held : List (ℕ × ℕ)}
    (h : pool.Sound n held) : pool.usedPages = held.length := by
  have hsum := h.partitioned.length_add
  rw [KvCachePool.usedPages, h.length_pages]
  omega

/-- `is_allocated` is asked about owners. -/
theorem KvCachePool.Sound.isAllocated_iff {pool : KvCachePool} {held : List (ℕ × ℕ)}
    (h : pool.Sound n held) (idx : ℕ) :
    pool.isAllocated idx = true ↔ idx ∈ held.map Prod.fst := by
  rw [← h.inUse_iff, KvCachePool.isAllocated]
  cases pool.inUse[idx]? <;> simp

/-- A `free` that fails leaves the pool alone. -/
theorem KvCachePool.free_error {pool pool' : KvCachePool} {idx : ℕ} {e : KvPoolError}
    (h : pool.free idx = some (.error e, pool')) : pool' = pool := by
  unfold KvCachePool.free at h
  split at h
  · exact (Prod.mk.inj (Option.some.inj h)).2.symm
  · split at h
    · cases h
    · exact (Prod.mk.inj (Option.some.inj h)).2.symm
    · cases (Prod.mk.inj (Option.some.inj h)).1

/-- Allocating and freeing never panic. -/
theorem Lent.step_ne_none (h : s.pool.Sound n s.held) (call : KvCall)
    (hcall : call = .alloc ∨ ∃ idx, call = .free idx) : s.step call ≠ none := by
  rcases hcall with rfl | ⟨idx, rfl⟩
  · rcases KvCachePool.alloc_cases h with ⟨-, halloc⟩ | ⟨rest, idx, -, halloc⟩ <;>
      simp [Lent.step, halloc]
  · rcases KvCachePool.free_cases h idx with ⟨-, e, hfree⟩ | ⟨-, hfree⟩ <;>
      simp [Lent.step, hfree]

end Runs

end Runtime

end Oxillama
