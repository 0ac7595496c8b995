/-
Maps filled from lists.

`insertPairs m pairs` inserts pairs one after the other.  Where no key occurs
twice, what it holds in the end is exactly the pairs:

* `lookup_insertPairs_iff` — a key is looked up to a value exactly when the pair
  was inserted;
* `length_keys_insertPairs` — there are as many keys as pairs;
* `insertPairs_eq_of_keys` — a pair that is inserted anyway need not be there before.

`insertNew` refuses a key that is there; `foldlM_insertNew_eq_ok` says when a list of pairs
is taken.

`mapSum w m` adds up the weights of the values of `m`; `mapSum_insert` and
`mapSum_erase` say how an insertion and a removal change the sum.
-/
import Mathlib.Algebra.GroupWithZero.Nat
import Mathlib.Data.List.AList

namespace Oxillama

variable {α β : Type} [DecidableEq α]

/-- The map `m` with all pairs inserted, the first pair first. -/
def insertPairs (m : AList fun _ : α => β) (pairs : List (α × β)) : AList fun _ : α => β :=
  pairs.foldl (fun m pair => m.insert pair.1 pair.2) m

theorem mem_insertPairs {m : AList fun _ : α => β} {pairs : List (α × β)} {k : α} :
    k ∈ insertPairs m pairs ↔ k ∈ pairs.map Prod.fst ∨ k ∈ m := by
  induction pairs generalizing m with
  | nil => simp [insertPairs]
  | cons pair pairs ih =>
    show k ∈ insertPairs (m.insert pair.1 pair.2) pairs ↔ _
    rw [ih, AList.mem_insert, List.map_cons, List.mem_cons]
    tauto

theorem lookup_insertPairs_of_notMem {m : AList fun _ : α => β} {pairs : List (α × β)} {k : α}
    (h : k ∉ pairs.map Prod.fst) : (insertPairs m pairs).lookup k = m.lookup k := by
  induction pairs generalizing m with
  | nil => rfl
  | cons pair pairs ih =>
    rw [List.map_cons, List.mem_cons, not_or] at h
    show (insertPairs (m.insert pair.1 pair.2) pairs).lookup k = _
    rw [ih h.2, AList.lookup_insert_ne h.1]

theorem lookup_insertPairs_of_mem {m : AList fun _ : α => β} {pairs : List (α × β)} {k : α} {v : β}
    (hnodup : (pairs.map Prod.fst).Nodup) (h : (k, v) ∈ pairs) :
    (insertPairs m pairs).lookup k = some v := by
  induction pairs generalizing m with
  | nil => cases h
  | cons pair pairs ih =>
    rw [List.map_cons, List.nodup_cons] at hnodup
    rcases List.mem_cons.mp h with rfl | hmem
    · show (insertPairs (m.insert k v) pairs).lookup k = some v
      rw [lookup_insertPairs_of_notMem hnodup.1, AList.lookup_insert]
    · exact ih hnodup.2 hmem

/-- **What a filled map holds.** -/
theorem lookup_insertPairs_iff {pairs : List (α × β)} (hnodup : (pairs.map Prod.fst).Nodup)
    {k : α} {v : β} : (insertPairs ∅ pairs).lookup k = some v ↔ (k, v) ∈ pairs := by
  refine ⟨fun h => ?_, lookup_insertPairs_of_mem hnodup⟩
  have hmem : k ∈ insertPairs (∅ : AList fun _ : α => β) pairs := by
    rw [← AList.lookup_isSome, h]
    rfl
  rcases mem_insertPairs.mp hmem with hkey | hempty
  · obtain ⟨pair, hpair, rfl⟩ := List.mem_map.mp hkey
    have hlookup := lookup_insertPairs_of_mem (m := ∅) hnodup hpair
    rw [hlookup] at h
    obtain rfl := Option.some.inj h
    exact hpair
  · exact absurd hempty (AList.notMem_empty k)

theorem length_keys_insertPairs {m : AList fun _ : α => β} {pairs : List (α × β)}
    (hnodup : (pairs.map Prod.fst).Nodup) (hdisj : ∀ k ∈ pairs.map Prod.fst, k ∉ m) :
    (insertPairs m pairs).keys.length = m.keys.length + pairs.length := by
  induction pairs generalizing m with
  | nil => rfl
  | cons pair pairs ih =>
    rw [List.map_cons, List.nodup_cons] at hnodup
    have hnew : pair.1 ∉ m := hdisj pair.1 List.mem_cons_self
    have hkeys : (m.insert pair.1 pair.2).keys.length = m.keys.length + 1 := by
      rw [AList.keys_insert, List.length_cons, List.erase_of_not_mem (AList.mem_keys.not.mp hnew)]
    have hrest := ih (m := m.insert pair.1 pair.2) hnodup.2 fun k hk hmem => by
      rcases (AList.mem_insert m).mp hmem with rfl | hmem
      · exact hnodup.1 hk
      · exact hdisj k (List.mem_cons_of_mem _ hk) hmem
    show (insertPairs (m.insert pair.1 pair.2) pairs).keys.length = _
    rw [hrest, hkeys, List.length_cons]
    omega

/-- Inserting into a union inserts into its first map. -/
theorem insertPairs_union (m m' : AList fun _ : α => β) (pairs : List (α × β)) :
    insertPairs (m ∪ m') pairs = insertPairs m pairs ∪ m' := by
  induction pairs generalizing m with
  | nil => rfl
  | cons pair pairs ih =>
    show insertPairs ((m ∪ m').insert pair.1 pair.2) pairs = _
    rw [AList.insert_union]
    exact ih (m.insert pair.1 pair.2)

/-- A map with all its keys in the first map adds nothing to it. -/
theorem union_eq_left {m m' : AList fun _ : α => β} (h : ∀ k ∈ m', k ∈ m) : m ∪ m' = m := by
  have hkunion : ∀ (l l' : List (Sigma fun _ : α => β)), l'.NodupKeys →
      (∀ k ∈ l'.keys, k ∈ l.keys) → l.kunion l' = l := by
    intro l
    induction l with
    | nil =>
      intro l' _ hkeys
      cases l' with
      | nil => rfl
      | cons s l' => cases hkeys s.1 (by simp)
    | cons s l ih =>
      intro l' hnodup hkeys
      rw [List.kunion_cons, ih _ (hnodup.kerase s.1) fun k hk => ?_]
      have hne : k ≠ s.1 := by
        rintro rfl
        exact List.notMem_keys_kerase _ hnodup hk
      have hmem := hkeys k (List.mem_keys_of_mem_keys_kerase hk)
      rw [List.keys_cons, List.mem_cons] at hmem
      exact hmem.resolve_left hne
  refine AList.ext ?_
  rw [AList.union_entries]
  exact hkunion _ _ m'.nodupKeys fun k hk => h k hk

/-- **What is inserted anyway need not be there before.** -/
theorem insertPairs_eq_of_keys {m : AList fun _ : α => β} {pairs : List (α × β)}
    (h : ∀ k ∈ m, k ∈ pairs.map Prod.fst) : insertPairs m pairs = insertPairs ∅ pairs := by
  have hunion := insertPairs_union ∅ m pairs
  rw [AList.empty_union] at hunion
  rw [hunion, union_eq_left fun k hk => mem_insertPairs.mpr (.inl (h k hk))]

/-! ### Insertions that refuse a key twice -/

section New

variable {ε : Type} {dup : α → ε} {m m' : AList fun _ : α => β} {pairs : List (α × β)}

/-- A pair inserted, unless its key is there. -/
def insertNew (dup : α → ε) (m : AList fun _ : α => β) (pair : α × β) :
    Except ε (AList fun _ : α => β) :=
  if pair.1 ∈ m then .error (dup pair.1) else .ok (m.insert pair.1 pair.2)

/-- **When all pairs are taken as new**, and what the map is then. -/
theorem foldlM_insertNew_eq_ok : pairs.foldlM (insertNew dup) m = .ok m' ↔
    (pairs.map Prod.fst).Nodup ∧ (∀ k ∈ pairs.map Prod.fst, k ∉ m) ∧ m' = insertPairs m pairs := by
  induction pairs generalizing m with
  | nil =>
    show Except.ok m = Except.ok m' ↔ _
    rw [Except.ok.injEq, eq_comm]
    simp [insertPairs]
  | cons pair pairs ih =>
    rw [List.foldlM_cons, insertNew]
    by_cases hmem : pair.1 ∈ m
    · rw [if_pos hmem]
      refine iff_of_false (by rintro ⟨⟩) fun h => ?_
      exact h.2.1 pair.1 List.mem_cons_self hmem
    · rw [if_neg hmem]
      show pairs.foldlM (insertNew dup) (m.insert pair.1 pair.2) = .ok m' ↔ _
      rw [ih, List.map_cons, List.nodup_cons, List.forall_mem_cons]
      constructor
      · rintro ⟨hnodup, hnew, rfl⟩
        exact ⟨⟨fun hk => hnew _ hk ((AList.mem_insert m).mpr (.inl rfl)), hnodup⟩,
          ⟨hmem, fun k hk hm => hnew k hk ((AList.mem_insert m).mpr (.inr hm))⟩, rfl⟩
      · rintro ⟨⟨hpair, hnodup⟩, ⟨-, hnew⟩, rfl⟩
        refine ⟨hnodup, fun k hk hm => ?_, rfl⟩
        rcases (AList.mem_insert m).mp hm with rfl | hm
        · exact hpair hk
        · exact hnew k hk hm

end New

/-! ### Sums over the values -/

/-- The sum of the weights of the values of `m`. -/
def mapSum (w : β → ℕ) (m : AList fun _ : α => β) : ℕ :=
  (m.entries.map fun e => w e.2).sum

omit [DecidableEq α] in
@[simp] theorem mapSum_empty (w : β → ℕ) : mapSum w (∅ : AList fun _ : α => β) = 0 := rfl

theorem mapSum_insert (w : β → ℕ) (m : AList fun _ : α => β) (k : α) (v : β) :
    mapSum w (m.insert k v) = w v + mapSum w (m.erase k) := by
  rw [mapSum, AList.entries_insert, List.map_cons, List.sum_cons]
  rfl

theorem erase_of_notMem {m : AList fun _ : α => β} {k : α} (h : k ∉ m) : m.erase k = m :=
  AList.ext (List.kerase_of_notMem_keys (AList.mem_keys.not.mp h))

theorem mapSum_insert_of_notMem (w : β → ℕ) {m : AList fun _ : α => β} {k : α} (h : k ∉ m)
    (v : β) : mapSum w (m.insert k v) = w v + mapSum w m := by
  rw [mapSum_insert, erase_of_notMem h]

theorem mapSum_erase (w : β → ℕ) {m : AList fun _ : α => β} {k : α} {v : β}
    (h : m.lookup k = some v) : w v + mapSum w (m.erase k) = mapSum w m := by
  have hmem : k ∈ m.keys := AList.mem_keys.mp (AList.lookup_isSome.mp (by rw [h]; rfl))
  obtain ⟨v', before, after, hbefore, hentries, herase⟩ := List.exists_of_kerase hmem
  -- the entry found is the one that is looked up
  have hv : v' = v := by
    have hlookup : List.dlookup k m.entries = some v := h
    rw [hentries, List.dlookup_append, List.dlookup_eq_none.mpr hbefore, Option.none_or,
      List.dlookup_cons_eq] at hlookup
    exact Option.some.inj hlookup
  show w v + ((List.kerase k m.entries).map fun e => w e.2).sum = _
  rw [mapSum, herase, hentries]
  simp only [List.map_append, List.map_cons, List.sum_append, List.sum_cons, hv]
  omega

end Oxillama
