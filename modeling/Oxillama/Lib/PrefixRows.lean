/-
Rows keyed by lists, and the longest key that is a prefix of a query.

A finite map whose keys are lists is written as its rows, a list of key and
value pairs (`List.NodupKeys`, `List.dlookup`, `List.kerase`, `List.kinsert` of
Mathlib).  A tree that shares key prefixes hangs the rows of a subtree *under*
a prefix:

* `under p rows` — every key of `rows` with `p` in front; lookups and erasures
  of keys that start with `p` go through it, the others do not see it;
* `longestPrefix m q` — the length and the value of the longest prefix of `q`
  that `m` maps; `longestPrefix_eq_some_iff` says it is the longest,
  `longestPrefix_append` steps over a prefix nothing is stored on.
-/
import Mathlib.Data.List.Sigma

namespace Oxillama

variable {α β : Type*}

/-- The rows of a finite map from lists to `β`. -/
abbrev Rows (α β : Type*) := List (Sigma fun _ : List α => β)

namespace Rows

/-- The rows of `rows` with `p` in front of every key. -/
def under (p : List α) (rows : Rows α β) : Rows α β := rows.map fun row => ⟨p ++ row.1, row.2⟩

@[simp] theorem under_nil (p : List α) : under p ([] : Rows α β) = [] := rfl

@[simp] theorem under_cons (p : List α) (row : Sigma fun _ : List α => β) (rows : Rows α β) :
    under p (row :: rows) = ⟨p ++ row.1, row.2⟩ :: under p rows := rfl

@[simp] theorem under_append (p : List α) (rows rows' : Rows α β) :
    under p (rows ++ rows') = under p rows ++ under p rows' :=
  List.map_append

theorem under_under (p p' : List α) (rows : Rows α β) :
    under p (under p' rows) = under (p ++ p') rows := by
  simp [under, List.append_assoc]

@[simp] theorem under_nil_left (rows : Rows α β) : under [] rows = rows := by
  simp [under]

@[simp] theorem keys_under (p : List α) (rows : Rows α β) :
    (under p rows).keys = rows.keys.map (p ++ ·) := by
  simp [under, List.keys]

theorem prefix_of_mem_keys_under {p k : List α} {rows : Rows α β} (h : k ∈ (under p rows).keys) :
    p <+: k := by
  rw [keys_under] at h
  obtain ⟨k', -, rfl⟩ := List.mem_map.mp h
  exact List.prefix_append p k'

theorem nodupKeys_under {p : List α} {rows : Rows α β} :
    (under p rows).NodupKeys ↔ rows.NodupKeys := by
  rw [List.NodupKeys, keys_under, List.NodupKeys]
  exact List.nodup_map_iff (List.append_right_injective p)

/-- The rows with `f` applied to every value. -/
def mapVal {γ : Type*} (f : β → γ) (rows : Rows α β) : Rows α γ :=
  rows.map fun row => ⟨row.1, f row.2⟩

section MapVal

variable {γ : Type*} (f : β → γ)

@[simp] theorem mapVal_nil : mapVal f ([] : Rows α β) = [] := rfl

@[simp] theorem mapVal_cons (row : Sigma fun _ : List α => β) (rows : Rows α β) :
    mapVal f (row :: rows) = ⟨row.1, f row.2⟩ :: mapVal f rows := rfl

@[simp] theorem mapVal_append (rows rows' : Rows α β) :
    mapVal f (rows ++ rows') = mapVal f rows ++ mapVal f rows' :=
  List.map_append

@[simp] theorem mapVal_under (p : List α) (rows : Rows α β) :
    mapVal f (under p rows) = under p (mapVal f rows) := by
  simp [mapVal, under]

@[simp] theorem keys_mapVal (rows : Rows α β) : (mapVal f rows).keys = rows.keys := by
  simp [mapVal, List.keys]

theorem nodupKeys_mapVal {rows : Rows α β} : (mapVal f rows).NodupKeys ↔ rows.NodupKeys := by
  rw [List.NodupKeys, keys_mapVal, List.NodupKeys]

end MapVal

section Lookup

variable [DecidableEq α]

theorem dlookup_mapVal {γ : Type*} (f : β → γ) (k : List α) (rows : Rows α β) :
    (mapVal f rows).dlookup k = (rows.dlookup k).map f :=
  List.dlookup_map₂ (f := fun _ v => f v) k

theorem kerase_mapVal {γ : Type*} (f : β → γ) (k : List α) (rows : Rows α β) :
    (mapVal f rows).kerase k = mapVal f (rows.kerase k) := by
  induction rows with
  | nil => rfl
  | cons row rows ih =>
    rw [mapVal_cons]
    let image : Sigma fun _ : List α => γ := ⟨row.1, f row.2⟩
    by_cases hk : k = row.1
    · rw [List.kerase_cons_eq (s := image) hk, List.kerase_cons_eq hk]
    · rw [List.kerase_cons_ne (s := image) hk, List.kerase_cons_ne hk, ih, mapVal_cons]

theorem kinsert_mapVal {γ : Type*} (f : β → γ) (k : List α) (v : β) (rows : Rows α β) :
    (mapVal f rows).kinsert k (f v) = mapVal f (rows.kinsert k v) := by
  rw [List.kinsert_def, kerase_mapVal, List.kinsert_def, mapVal_cons]

/-- An erasure in two lists of rows, the second of which does not hold the key. -/
theorem kerase_append_of_notMem {k : List α} (rows : Rows α β) {rows' : Rows α β}
    (h : k ∉ rows'.keys) : (rows ++ rows').kerase k = rows.kerase k ++ rows' := by
  by_cases hk : k ∈ rows.keys
  · exact List.kerase_append_left hk
  · rw [List.kerase_append_right hk, List.kerase_of_notMem_keys hk, List.kerase_of_notMem_keys h]

theorem dlookup_under (p k : List α) (rows : Rows α β) :
    (under p rows).dlookup (p ++ k) = rows.dlookup k := by
  induction rows with
  | nil => rfl
  | cons row rows ih =>
    rw [under_cons]
    by_cases hk : k = row.1
    · subst hk
      rw [List.dlookup_cons_eq, List.dlookup_cons_eq]
    · rw [List.dlookup_cons_ne _ _ hk,
        List.dlookup_cons_ne _ _ fun h => hk (List.append_cancel_left h), ih]

theorem dlookup_under_of_not_prefix {p k : List α} (rows : Rows α β) (h : ¬ p <+: k) :
    (under p rows).dlookup k = none :=
  List.dlookup_eq_none.mpr fun hmem => h (prefix_of_mem_keys_under hmem)

/-- Rows are the row of a key and the rest. -/
theorem perm_cons_kerase {rows : Rows α β} (hnodup : rows.NodupKeys)
    {row : Sigma fun _ : List α => β} (hrow : row ∈ rows) :
    rows.Perm (row :: rows.kerase row.1) := by
  obtain ⟨v, rows₁, rows₂, hnot, heq, herase⟩ :=
    List.exists_of_kerase (List.mem_keys_of_mem hrow)
  have hv : row = ⟨row.1, v⟩ := hnodup.eq_of_fst_eq hrow (by simp [heq]) rfl
  rw [herase]
  conv_lhs => rw [heq, ← hv]
  exact List.perm_middle

theorem kerase_under (p k : List α) (rows : Rows α β) :
    (under p rows).kerase (p ++ k) = under p (rows.kerase k) := by
  induction rows with
  | nil => rfl
  | cons row rows ih =>
    rw [under_cons]
    by_cases hk : k = row.1
    · have hp : p ++ k = (⟨p ++ row.1, row.2⟩ : Sigma fun _ : List α => β).1 := by rw [hk]
      rw [List.kerase_cons_eq hp, List.kerase_cons_eq hk]
    · rw [List.kerase_cons_ne hk, List.kerase_cons_ne fun h => hk (List.append_cancel_left h), ih,
        under_cons]

theorem kinsert_under (p k : List α) (v : β) (rows : Rows α β) :
    (under p rows).kinsert (p ++ k) v = under p (rows.kinsert k v) := by
  rw [List.kinsert_def, kerase_under, List.kinsert_def, under_cons]

end Lookup

end Rows

/-! ### The longest stored prefix -/

/-- The longest prefix of the query that `m` maps, as its length and value. -/
def longestPrefix (m : List α → Option β) : List α → Option (ℕ × β)
  | [] => (m []).map fun v => (0, v)
  | a :: q =>
    ((longestPrefix (fun k => m (a :: k)) q).map fun r => (r.1 + 1, r.2)).or
      ((m []).map fun v => (0, v))

theorem longestPrefix_congr {m m' : List α → Option β} {q : List α}
    (h : ∀ k, k <+: q → m k = m' k) : longestPrefix m q = longestPrefix m' q := by
  induction q generalizing m m' with
  | nil => rw [longestPrefix, longestPrefix, h [] List.nil_prefix]
  | cons a q ih =>
    rw [longestPrefix, longestPrefix, h [] List.nil_prefix,
      ih fun k hk => h (a :: k) (List.cons_prefix_cons.mpr ⟨rfl, hk⟩)]

theorem longestPrefix_eq_none_iff {m : List α → Option β} {q : List α} :
    longestPrefix m q = none ↔ ∀ k, k <+: q → m k = none := by
  induction q generalizing m with
  | nil => simp [longestPrefix, List.prefix_nil]
  | cons a q ih =>
    rw [longestPrefix, Option.or_eq_none_iff, Option.map_eq_none_iff, Option.map_eq_none_iff, ih]
    constructor
    · rintro ⟨hrest, hnil⟩ k hk
      rcases List.prefix_cons_iff.mp hk with rfl | ⟨k', rfl, hk'⟩
      · exact hnil
      · exact hrest k' hk'
    · intro h
      exact ⟨fun k hk => h (a :: k) (List.cons_prefix_cons.mpr ⟨rfl, hk⟩), h [] List.nil_prefix⟩

/-- **The longest prefix is the longest.** -/
theorem longestPrefix_eq_some_iff {m : List α → Option β} {q : List α} {n : ℕ} {v : β} :
    longestPrefix m q = some (n, v) ↔
      ∃ k, k <+: q ∧ k.length = n ∧ m k = some v ∧
        ∀ k', k' <+: q → (m k').isSome → k'.length ≤ n := by
  induction q generalizing m n with
  | nil =>
    simp only [longestPrefix, List.prefix_nil, exists_eq_left, forall_eq, Option.map_eq_some_iff,
      Prod.mk.injEq, List.length_nil]
    grind
  | cons a q ih =>
    rw [longestPrefix, Option.or_eq_some_iff]
    constructor
    · rintro (hrest | ⟨hnone, hnil⟩)
      · obtain ⟨⟨n', v'⟩, hlong, hr⟩ := Option.map_eq_some_iff.mp hrest
        obtain ⟨rfl, rfl⟩ := Prod.mk.inj hr
        obtain ⟨k, hk, rfl, hv, hmax⟩ := ih.mp hlong
        refine ⟨a :: k, List.cons_prefix_cons.mpr ⟨rfl, hk⟩, rfl, hv, fun k' hk' hsome => ?_⟩
        rcases List.prefix_cons_iff.mp hk' with rfl | ⟨k'', rfl, hk''⟩
        · exact Nat.zero_le _
        · exact Nat.succ_le_succ (hmax k'' hk'' hsome)
      · obtain ⟨v', hv', hr⟩ := Option.map_eq_some_iff.mp hnil
        obtain ⟨rfl, rfl⟩ := Prod.mk.inj hr
        rw [Option.map_eq_none_iff, longestPrefix_eq_none_iff] at hnone
        refine ⟨[], List.nil_prefix, rfl, hv', fun k' hk' hsome => ?_⟩
        rcases List.prefix_cons_iff.mp hk' with rfl | ⟨k'', rfl, hk''⟩
        · exact le_rfl
        · rw [hnone k'' hk''] at hsome
          cases hsome
    · rintro ⟨k, hk, rfl, hv, hmax⟩
      rcases List.prefix_cons_iff.mp hk with rfl | ⟨k₁, rfl, hk₁⟩
      · right
        rw [Option.map_eq_none_iff, longestPrefix_eq_none_iff]
        refine ⟨fun k' hk' => ?_, by rw [hv]; rfl⟩
        rw [← Option.not_isSome_iff_eq_none]
        intro hsome
        have := hmax (a :: k') (List.cons_prefix_cons.mpr ⟨rfl, hk'⟩) hsome
        simp at this
      · left
        rw [Option.map_eq_some_iff]
        refine ⟨(k₁.length, v), ih.mpr ⟨k₁, hk₁, rfl, hv, fun k' hk' hsome => ?_⟩, rfl⟩
        have := hmax (a :: k') (List.cons_prefix_cons.mpr ⟨rfl, hk'⟩) hsome
        simpa using this

/-- A prefix below which nothing is stored is stepped over. -/
theorem longestPrefix_append {m : List α → Option β} {p : List α}
    (h : ∀ k, k <+: p → k ≠ p → m k = none) (q : List α) :
    longestPrefix m (p ++ q) =
      (longestPrefix (fun k => m (p ++ k)) q).map fun r => (r.1 + p.length, r.2) := by
  induction p generalizing m with
  | nil => simp
  | cons a p ih =>
    have hnil : m [] = none := h [] List.nil_prefix (List.cons_ne_nil a p).symm
    rw [List.cons_append, longestPrefix, hnil, Option.map_none, Option.or_none,
      ih fun k hk hne => h (a :: k) (List.cons_prefix_cons.mpr ⟨rfl, hk⟩)
        fun heq => hne (List.cons.inj heq).2]
    simp [Option.map_map, Function.comp_def, Nat.add_assoc]

end Oxillama
