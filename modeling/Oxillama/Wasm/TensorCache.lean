/-
The cache of fetched tensors (`oxillama-wasm/src/streaming_loader.rs`, `LruTensorCache`).

A capacity of zero switches the eviction off, not the cache.

* `step_keeps` — what one access does to the cache and to the list of uses;
* `holds_latest` — **after any run the cache holds exactly the names used last, as many as
  its capacity, each with the bytes put last for it**.
-/
import Mathlib
import Oxillama.Lib.Recency
import Oxillama.Lib.Run

namespace Oxillama

namespace Wasm

/-- `LruTensorCache`. -/
structure LruTensorCache where
  data : AList fun _ : String => List UInt8
  order : List String
  capacity : ℕ

namespace LruTensorCache

/-- `LruTensorCache::new`. -/
def new (capacity : ℕ) : LruTensorCache := ⟨∅, [], capacity⟩

/-- `LruTensorCache::get`. -/
def get (name : String) (cache : LruTensorCache) : Option (List UInt8) × LruTensorCache :=
  match cache.data.lookup name with
  | none => (none, cache)
  | some bytes => (some bytes, { cache with order := touch name cache.order })

/-- The loop of `put`: the oldest entries go while the cache is full. -/
def evictOldest (capacity : ℕ) :
    List String → AList (fun _ : String => List UInt8) →
      List String × AList (fun _ : String => List UInt8)
  | [], data => ([], data)
  | oldest :: rest, data =>
    if 0 < capacity ∧ capacity ≤ data.keys.length then
      evictOldest capacity rest (data.erase oldest)
    else (oldest :: rest, data)

/-- `LruTensorCache::put`. -/
def put (name : String) (bytes : List UInt8) (cache : LruTensorCache) : LruTensorCache :=
  let removed :=
    if name ∈ cache.data then (cache.order.filter (· ≠ name), cache.data.erase name)
    else (cache.order, cache.data)
  let kept := evictOldest cache.capacity removed.1 removed.2
  { cache with order := kept.1 ++ [name], data := kept.2.insert name bytes }

/-- `LruTensorCache::len`. -/
def len (cache : LruTensorCache) : ℕ := cache.data.keys.length

end LruTensorCache

/-! ### One access -/

/-- An access to the cache. -/
inductive CacheAccess
  | get (name : String)
  | put (name : String) (bytes : List UInt8)

/-- One access, with the bytes it answers. -/
def access (cache : LruTensorCache) :
    CacheAccess → Option (LruTensorCache × Option (List UInt8))
  | .get name => some ((cache.get name).2, (cache.get name).1)
  | .put name bytes => some (cache.put name bytes, none)

/-- The name that an access uses, if it finds it or puts it there. -/
def usedName : CacheAccess × Option (List UInt8) → Option String
  | (.get name, some _) => some name
  | (.get _, none) => none
  | (.put name _, _) => some name

/-- The names used in a run, one after the other. -/
def usedNames (tr : List (CacheAccess × Option (List UInt8))) : List String :=
  tr.filterMap usedName

/-- What was put last for a name. -/
def lastPut (name : String) : List (CacheAccess × Option (List UInt8)) → Option (List UInt8)
  | [] => none
  | (.put other bytes, _) :: tr =>
    (lastPut name tr).or (if other = name then some bytes else none)
  | (.get _, _) :: tr => lastPut name tr

theorem lastPut_append (name : String) (tr : List (CacheAccess × Option (List UInt8)))
    (e : CacheAccess × Option (List UInt8)) :
    lastPut name (tr ++ [e]) = (lastPut name [e]).or (lastPut name tr) := by
  induction tr with
  | nil => simp [lastPut]
  | cons e' tr ih =>
    obtain ⟨_ | _, _⟩ := e'
    · exact ih
    · rw [List.cons_append, lastPut, ih, lastPut, Option.or_assoc]

/-- The names a cache of some capacity holds after the given uses. -/
def heldNames (capacity : ℕ) (uses : List String) : List String :=
  if capacity = 0 then recency uses else latest capacity (recency uses)

/-- What the cache is after a run. -/
structure Holds (capacity : ℕ) (tr : List (CacheAccess × Option (List UInt8)))
    (cache : LruTensorCache) : Prop where
  capacity_eq : cache.capacity = capacity
  tracks : Tracks cache.order cache.data.keys
  order_eq : cache.order = heldNames capacity (usedNames tr)
  lookup_eq : ∀ {name bytes}, cache.data.lookup name = some bytes → lastPut name tr = some bytes

theorem holds_new (capacity : ℕ) : Holds capacity [] (.new capacity) where
  capacity_eq := rfl
  tracks := .nil
  order_eq := by
    have hnone : latest capacity (recency ([] : List String)) = [] := List.drop_nil
    rw [heldNames]
    split
    · rfl
    · exact hnone.symm
  lookup_eq h := by cases h

/-- A name that is used moves to the end, if it was held. -/
theorem heldNames_of_mem {capacity : ℕ} {uses : List String} {name : String}
    (h : name ∈ heldNames capacity uses) :
    heldNames capacity (uses ++ [name]) = touch name (heldNames capacity uses) := by
  by_cases hzero : capacity = 0
  · rw [heldNames, heldNames, if_pos hzero, if_pos hzero, recency_append]
  · rw [heldNames, if_neg hzero] at h
    rw [heldNames, heldNames, if_neg hzero, if_neg hzero, recency_append]
    exact latest_touch_of_mem (nodup_recency uses) h

/-- A name that is new comes to the end; the oldest one makes room for it in a full cache. -/
theorem heldNames_of_notMem {capacity : ℕ} {uses : List String} {name : String}
    (h : name ∉ heldNames capacity uses) :
    heldNames capacity (uses ++ [name]) =
      (if 0 < capacity ∧ capacity ≤ (heldNames capacity uses).length
        then (heldNames capacity uses).tail else heldNames capacity uses) ++ [name] := by
  cases capacity with
  | zero =>
    have hfilter : (recency uses).filter (· ≠ name) = recency uses :=
      List.filter_eq_self.mpr fun a ha => by
        have hne : a ≠ name := by
          rintro rfl
          exact h ha
        simpa using hne
    show recency (uses ++ [name]) = recency uses ++ [name]
    rw [recency_append, touch, hfilter]
  | succ n =>
    have hheld : ∀ uses, heldNames (n + 1) uses = latest (n + 1) (recency uses) := fun _ => rfl
    rw [hheld] at h
    rw [hheld, hheld, recency_append]
    split
    · rename_i hfull
      have hlen : (latest (n + 1) (recency uses)).length = n + 1 := by
        have hle := length_latest (n + 1) (recency uses)
        omega
      rw [tail_latest hlen]
      refine latest_touch_of_notMem fun hmem => h ?_
      rw [← tail_latest hlen] at hmem
      exact List.mem_of_mem_tail hmem
    · rename_i hroom
      have hlen := length_latest (n + 1) (recency uses)
      have hall : latest (n + 1) (recency uses) = recency uses := by
        rw [latest, Nat.sub_eq_zero_of_le (by omega), List.drop_zero]
      have hstep := latest_touch_of_notMem h
      rw [hall] at h hroom ⊢
      have hlonger : (touch name (recency uses)).length ≤ n + 1 := by
        have hpush := (Tracks.mk (nodup_recency uses) (.refl _)).insert name
        have hlength := hpush.length_eq
        rw [List.erase_of_not_mem h, List.length_cons] at hlength
        omega
      rw [latest, Nat.sub_eq_zero_of_le hlonger, List.drop_zero]
      rw [hall, latest, Nat.sub_eq_zero_of_le (by omega), List.drop_zero] at hstep
      exact hstep

/-- **The loop of `put`** takes the oldest entry out of a cache that is just full. -/
theorem evictOldest_spec (capacity : ℕ) {order : List String}
    {data : AList fun _ : String => List UInt8} (htracks : Tracks order data.keys)
    (hle : 0 < capacity → order.length ≤ capacity) :
    (LruTensorCache.evictOldest capacity order data).1 =
        (if 0 < capacity ∧ capacity ≤ order.length then order.tail else order) ∧
      Tracks (LruTensorCache.evictOldest capacity order data).1
        (LruTensorCache.evictOldest capacity order data).2.keys ∧
      ∀ {name bytes}, (LruTensorCache.evictOldest capacity order data).2.lookup name = some bytes →
        data.lookup name = some bytes := by
  cases order with
  | nil =>
    refine ⟨?_, htracks, id⟩
    split <;> rfl
  | cons oldest rest =>
    have hlen := htracks.length_eq
    by_cases hfull : 0 < capacity ∧ capacity ≤ (oldest :: rest).length
    · have hpop : Tracks rest (data.erase oldest).keys := by
        rw [AList.keys_erase]
        exact htracks.pop
      have hstop : LruTensorCache.evictOldest capacity rest (data.erase oldest) =
          (rest, data.erase oldest) := by
        cases rest with
        | nil => rfl
        | cons next rest =>
          have hlen' := hpop.length_eq
          have hshort := hle hfull.1
          rw [List.length_cons] at hshort
          rw [LruTensorCache.evictOldest, if_neg (by omega)]
      rw [LruTensorCache.evictOldest, if_pos (by omega), if_pos hfull, hstop]
      refine ⟨rfl, hpop, fun {name bytes} hlookup => ?_⟩
      have hne : name ≠ oldest := by
        rintro rfl
        rw [AList.lookup_erase] at hlookup
        cases hlookup
      rwa [AList.lookup_erase_ne hne] at hlookup
    · rw [LruTensorCache.evictOldest, if_neg (by omega), if_neg hfull]
      exact ⟨rfl, htracks, id⟩

/-- What an entry of the cache was before a `put`, if it is not the new one. -/
theorem lookup_put {cache : LruTensorCache} {name other : String} {bytes found : List UInt8}
    (h : (cache.put name bytes).data.lookup other = some found) :
    (other = name ∧ found = bytes) ∨ cache.data.lookup other = some found := by
  have hevict : ∀ order data, (LruTensorCache.evictOldest cache.capacity order data).2.lookup
      other = some found → data.lookup other = some found := by
    intro order
    induction order with
    | nil => exact fun _ => id
    | cons oldest rest ih =>
      intro data hlookup
      rw [LruTensorCache.evictOldest] at hlookup
      split at hlookup
      · have hleft := ih _ hlookup
        have hne : other ≠ oldest := by
          rintro rfl
          rw [AList.lookup_erase] at hleft
          cases hleft
        rwa [AList.lookup_erase_ne hne] at hleft
      · exact hlookup
  by_cases hname : other = name
  · subst hname
    rw [LruTensorCache.put, AList.lookup_insert] at h
    exact .inl ⟨rfl, (Option.some.inj h).symm⟩
  · rw [LruTensorCache.put, AList.lookup_insert_ne hname] at h
    have hleft := hevict _ _ h
    split at hleft
    · rw [AList.lookup_erase_ne hname] at hleft
      exact .inr hleft
    · exact .inr hleft

variable {capacity : ℕ} {tr : List (CacheAccess × Option (List UInt8))} {cache : LruTensorCache}

theorem Holds.length_le (h : Holds capacity tr cache) (hpos : 0 < capacity) :
    cache.order.length ≤ capacity := by
  rw [h.order_eq, heldNames, if_neg (by omega), length_latest]
  exact Nat.min_le_left _ _

theorem Holds.mem_iff (h : Holds capacity tr cache) {name : String} :
    name ∈ cache.data ↔ name ∈ heldNames capacity (usedNames tr) := by
  rw [← h.order_eq, h.tracks.mem_iff, AList.mem_keys]

theorem Holds.get (h : Holds capacity tr cache) (name : String) :
    Holds capacity (tr ++ [(.get name, (cache.get name).1)]) (cache.get name).2 := by
  have hput : ∀ other out, lastPut other (tr ++ [(.get name, out)]) = lastPut other tr := by
    intro other out
    rw [lastPut_append]
    rfl
  rw [LruTensorCache.get]
  cases hlookup : cache.data.lookup name with
  | none =>
    refine ⟨h.capacity_eq, h.tracks, ?_, fun hfound => (hput _ _).trans (h.lookup_eq hfound)⟩
    have huses : usedNames (tr ++ [(.get name, none)]) = usedNames tr := by
      rw [usedNames, List.filterMap_append]
      exact List.append_nil _
    rw [huses]
    exact h.order_eq
  | some bytes =>
    have hmem : name ∈ cache.data := AList.lookup_isSome.mp (hlookup ▸ rfl)
    refine ⟨h.capacity_eq, h.tracks.touch (AList.mem_keys.mpr hmem), ?_,
      fun hfound => (hput _ _).trans (h.lookup_eq hfound)⟩
    have huses : usedNames (tr ++ [(.get name, some bytes)]) = usedNames tr ++ [name] := by
      rw [usedNames, List.filterMap_append]
      rfl
    rw [huses, heldNames_of_mem (h.mem_iff.mp hmem), ← h.order_eq]

/-- Putting bytes for a name into what the loop left. -/
theorem Holds.insert (h : Holds capacity tr cache) {name : String} (bytes : List UInt8)
    {order : List String} {data : AList fun _ : String => List UInt8}
    (htracks : Tracks order data.keys) (hnew : name ∉ order)
    (hlookup : ∀ {other found}, data.lookup other = some found →
      cache.data.lookup other = some found)
    (horder : order ++ [name] = heldNames capacity (usedNames tr ++ [name])) :
    Holds capacity (tr ++ [(.put name bytes, none)])
      { cache with order := order ++ [name], data := data.insert name bytes } where
  capacity_eq := h.capacity_eq
  tracks := by
    rw [AList.keys_insert]
    exact htracks.push fun hmem => hnew (htracks.mem_iff.mpr hmem)
  order_eq := by
    rw [usedNames, List.filterMap_append]
    exact horder
  lookup_eq := by
    intro other found hfound
    have hlast : lastPut other (tr ++ [(.put name bytes, none)]) =
        if name = other then some bytes else lastPut other tr := by
      rw [lastPut_append, lastPut, lastPut]
      split <;> simp
    rw [hlast]
    split
    · rename_i heq
      subst heq
      rwa [AList.lookup_insert] at hfound
    · rename_i hne
      rw [AList.lookup_insert_ne (Ne.symm hne)] at hfound
      exact h.lookup_eq (hlookup hfound)

theorem Holds.put (h : Holds capacity tr cache) (name : String) (bytes : List UInt8) :
    Holds capacity (tr ++ [(.put name bytes, none)]) (cache.put name bytes) := by
  have hcap := h.capacity_eq
  rw [LruTensorCache.put]
  by_cases hmem : name ∈ cache.data
  · -- the name is taken out first, and then there is room for it
    have htracks : Tracks (cache.order.filter (· ≠ name)) (cache.data.erase name).keys := by
      rw [AList.keys_erase]
      exact h.tracks.remove name
    have hshorter : (cache.order.filter (· ≠ name)).length + 1 = cache.order.length := by
      have hkey : name ∈ cache.data.keys := AList.mem_keys.mpr hmem
      have hpos : 0 < cache.data.keys.length := List.length_pos_of_mem hkey
      rw [htracks.length_eq, h.tracks.length_eq, AList.keys_erase, List.length_erase_of_mem hkey]
      omega
    obtain ⟨horder, hkept, hlookup⟩ := evictOldest_spec cache.capacity htracks
      fun hpos => by
        have := h.length_le (hcap ▸ hpos)
        omega
    have hroom : ¬ (0 < cache.capacity ∧
        cache.capacity ≤ (cache.order.filter (· ≠ name)).length) := by
      rintro ⟨hpos, hfull⟩
      have := h.length_le (hcap ▸ hpos)
      omega
    rw [if_neg hroom] at horder
    simp only [if_pos hmem]
    refine h.insert bytes hkept ?_ (fun hfound => ?_) ?_
    · rw [horder]
      simp
    · have hleft := hlookup hfound
      rename_i other found
      have hne : other ≠ name := by
        rintro rfl
        rw [AList.lookup_erase] at hleft
        cases hleft
      rwa [AList.lookup_erase_ne hne] at hleft
    · rw [horder, heldNames_of_mem (h.mem_iff.mp hmem), ← h.order_eq]
      rfl
  · obtain ⟨horder, hkept, hlookup⟩ := evictOldest_spec cache.capacity h.tracks
      fun hpos => hcap ▸ h.length_le (hcap ▸ hpos)
    have hnew : name ∉ cache.order := fun hin =>
      hmem (AList.mem_keys.mp (h.tracks.mem_iff.mp hin))
    simp only [if_neg hmem]
    refine h.insert bytes hkept ?_ hlookup ?_
    · rw [horder]
      split
      · exact fun hin => hnew (List.mem_of_mem_tail hin)
      · exact hnew
    · rw [horder, heldNames_of_notMem (h.order_eq ▸ hnew), ← h.order_eq, hcap]

theorem step_keeps {a : CacheAccess} {out : Option (List UInt8)} {cache' : LruTensorCache}
    (h : Holds capacity tr cache) (hstep : access cache a = some (cache', out)) :
    Holds capacity (tr ++ [(a, out)]) cache' := by
  cases a with
  | get name =>
    obtain ⟨rfl, rfl⟩ := Prod.mk.inj (Option.some.inj hstep)
    exact h.get name
  | put name bytes =>
    obtain ⟨rfl, rfl⟩ := Prod.mk.inj (Option.some.inj hstep)
    exact h.put name bytes

theorem holds_run (hrun : Run access (.new capacity) tr cache) : Holds capacity tr cache :=
  hrun.traceInvariant (P := Holds capacity) step_keeps (holds_new capacity)

/-- **What the cache holds**: the names used last, up to its capacity, with the bytes that
were put last for them. -/
theorem holds_latest (hrun : Run access (.new capacity) tr cache) :
    cache.order = heldNames capacity (usedNames tr) ∧ cache.len = cache.order.length ∧
      ∀ name, cache.data.lookup name =
        if name ∈ heldNames capacity (usedNames tr) then lastPut name tr else none := by
  have h := holds_run hrun
  refine ⟨h.order_eq, h.tracks.length_eq.symm, fun name => ?_⟩
  split
  · rename_i hheld
    obtain ⟨bytes, hbytes⟩ := Option.isSome_iff_exists.mp
      (AList.lookup_isSome.mpr (h.mem_iff.mpr hheld))
    rw [hbytes, h.lookup_eq hbytes]
  · rename_i hnot
    exact AList.lookup_eq_none.mpr fun hmem => hnot (h.mem_iff.mp hmem)

/-- With room for two, the second of three names goes when the first was read again. -/
theorem holds_latest_example : ∃ tr cache, Run access (.new 2) tr cache ∧
    cache.order = ["a", "c"] ∧ cache.data.lookup "b" = none := by
  have hrun : Run access (.new 2) _ _ :=
    .cons (i := .put "a" [1]) rfl (.cons (i := .put "b" [2]) rfl
      (.cons (i := .get "a") rfl (.single (i := .put "c" [3]) rfl)))
  obtain ⟨horder, -, hlookup⟩ := holds_latest hrun
  refine ⟨_, _, hrun, ?_, ?_⟩
  · rw [horder]
    decide
  · rw [hlookup]
    decide

end Wasm

end Oxillama
