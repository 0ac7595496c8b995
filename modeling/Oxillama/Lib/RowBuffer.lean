/-
Flat buffers that hold rows of equal width.

* `overwrite v offset src` — `v` with `src` written at `offset`, in place;
* `row d v r` — row `r` of a buffer with rows of `d` elements;
* `row_overwrite_self`, `row_overwrite_of_ne` — writing one row changes that row
  and no other;
* `rowsOf d v` — all complete rows of `v`, with their numbers;
* `foldl_overwrite` — a loop that writes pieces one behind the other writes their
  concatenation.
-/
import Mathlib.Data.List.Basic
import Mathlib.Tactic.Ring

namespace Oxillama

variable {α : Type*}

/-- `v[offset..offset + src.len()].copy_from_slice(src)`, within bounds. -/
def overwrite (v : List α) (offset : ℕ) (src : List α) : List α :=
  v.take offset ++ src ++ v.drop (offset + src.length)

/-- Row `r` of a buffer with rows of `d` elements. -/
def row (d : ℕ) (v : List α) (r : ℕ) : List α := (v.drop (r * d)).take d

/-- `v.chunks_exact(d).enumerate()`. -/
def rowsOf (d : ℕ) (v : List α) : List (ℕ × List α) :=
  (List.range (v.length / d)).map fun r => (r, row d v r)

theorem length_overwrite {v : List α} {offset : ℕ} {src : List α}
    (h : offset + src.length ≤ v.length) : (overwrite v offset src).length = v.length := by
  simp [overwrite]
  omega

theorem length_row {d r : ℕ} {v : List α} (h : (r + 1) * d ≤ v.length) :
    (row d v r).length = d := by
  rw [row, List.length_take, List.length_drop]
  have := Nat.add_one_mul r d
  omega

theorem length_row_le (d : ℕ) (v : List α) (r : ℕ) : (row d v r).length ≤ d := by
  rw [row, List.length_take]
  exact Nat.min_le_left _ _

theorem getElem?_overwrite {v : List α} {offset : ℕ} {src : List α}
    (h : offset + src.length ≤ v.length) (i : ℕ) :
    (overwrite v offset src)[i]? =
      if offset ≤ i ∧ i < offset + src.length then src[i - offset]? else v[i]? := by
  have htake : (v.take offset).length = offset := by
    rw [List.length_take]
    omega
  rw [overwrite, List.append_assoc]
  by_cases hlow : i < offset
  · rw [List.getElem?_append_left (by omega), List.getElem?_take_of_lt hlow,
      if_neg (by omega)]
  · rw [List.getElem?_append_right (by omega), htake]
    by_cases hhigh : i < offset + src.length
    · rw [List.getElem?_append_left (by omega), if_pos (by omega)]
    · rw [List.getElem?_append_right (by omega), List.getElem?_drop, if_neg (by omega)]
      congr 1
      omega

theorem getElem?_row (d : ℕ) (v : List α) (r i : ℕ) :
    (row d v r)[i]? = if i < d then v[r * d + i]? else none := by
  rw [row, List.getElem?_take, List.getElem?_drop]

/-- Writing a row and reading it back. -/
theorem row_overwrite_self {d p : ℕ} {v src : List α} (hsrc : src.length = d)
    (h : (p + 1) * d ≤ v.length) : row d (overwrite v (p * d) src) p = src := by
  have hmul := Nat.add_one_mul p d
  refine List.ext_getElem? fun i => ?_
  rw [getElem?_row, getElem?_overwrite (by omega)]
  by_cases hi : i < d
  · rw [if_pos hi, if_pos (by omega), Nat.add_sub_cancel_left]
  · rw [if_neg hi, List.getElem?_eq_none (by omega)]

/-- Writing a row leaves the others alone. -/
theorem row_overwrite_of_ne {d p r : ℕ} {v src : List α} (hsrc : src.length = d)
    (h : (p + 1) * d ≤ v.length) (hne : r ≠ p) :
    row d (overwrite v (p * d) src) r = row d v r := by
  have hmul := Nat.add_one_mul p d
  refine List.ext_getElem? fun i => ?_
  rw [getElem?_row, getElem?_row]
  by_cases hi : i < d
  · rw [if_pos hi, if_pos hi, getElem?_overwrite (by omega), if_neg]
    rcases Nat.lt_or_gt_of_ne hne with hlt | hlt
    · have : (r + 1) * d ≤ p * d := Nat.mul_le_mul_right d hlt
      have := Nat.add_one_mul r d
      omega
    · have : (p + 1) * d ≤ r * d := Nat.mul_le_mul_right d hlt
      omega
  · rw [if_neg hi, if_neg hi]

/-! ### Concatenated rows -/

theorem row_flatMap {ι : Type*} {f : ι → List α} {d : ℕ} {xs : List ι}
    (h : ∀ x ∈ xs, (f x).length = d) {i : ℕ} (hi : i < xs.length) :
    row d (xs.flatMap f) i = f xs[i] := by
  induction xs generalizing i with
  | nil => exact absurd hi (Nat.not_lt_zero i)
  | cons x xs ih =>
    have hx := h x List.mem_cons_self
    cases i with
    | zero =>
      rw [row, Nat.zero_mul, List.drop_zero, List.flatMap_cons, List.take_left' hx]
      rfl
    | succ i =>
      rw [row, List.flatMap_cons, Nat.succ_mul, Nat.add_comm, ← List.drop_drop, List.drop_left' hx]
      exact ih (fun y hy => h y (List.mem_cons_of_mem x hy)) (Nat.lt_of_succ_lt_succ hi)

theorem row_flatMap_range {f : ℕ → List α} {d n i : ℕ} (h : ∀ i < n, (f i).length = d)
    (hi : i < n) : row d ((List.range n).flatMap f) i = f i := by
  rw [row_flatMap (fun i hi => h i (List.mem_range.mp hi)) (by rwa [List.length_range]),
    List.getElem_range]

theorem length_flatMap_rows {f : ℕ → List α} {d n : ℕ} (h : ∀ i < n, (f i).length = d) :
    ((List.range n).flatMap f).length = n * d := by
  have hmap : (List.range n).map (fun i => (f i).length) = (List.range n).map fun _ => d :=
    List.map_congr_left fun i hi => h i (List.mem_range.mp hi)
  rw [List.length_flatMap, hmap, List.map_const', List.sum_replicate_nat, List.length_range]

/-- A row of a row of rows. -/
theorem row_row {d n i : ℕ} (hi : i < n) (v : List α) (j : ℕ) :
    row d (row (n * d) v j) i = row d v (j * n + i) := by
  have hle : (i + 1) * d ≤ n * d := Nat.mul_le_mul_right d hi
  rw [Nat.succ_mul] at hle
  rw [row, row, row, List.drop_take, List.take_take, Nat.min_eq_left (by omega), List.drop_drop,
    Nat.add_mul, Nat.mul_assoc]

/-- A buffer is its rows. -/
theorem flatMap_row {d n : ℕ} {v : List α} (h : v.length = n * d) :
    (List.range n).flatMap (row d v) = v := by
  have hpieces : ∀ m ≤ n, (List.range m).flatMap (row d v) = v.take (m * d) := by
    intro m hm
    induction m with
    | zero => rw [Nat.zero_mul, List.take_zero]; rfl
    | succ m ih =>
      rw [List.range_succ, List.flatMap_append, ih (by omega), List.flatMap_singleton, row,
        Nat.succ_mul, List.take_add]
  rw [hpieces n le_rfl, ← h, List.take_length]

/-- Buffers with the same rows are equal. -/
theorem ext_rows {d n : ℕ} {v w : List α} (hv : v.length = n * d) (hw : w.length = n * d)
    (h : ∀ r < n, row d v r = row d w r) : v = w := by
  rw [← flatMap_row hv, ← flatMap_row hw]
  exact List.flatMap_congr fun r hr => h r (List.mem_range.mp hr)

/-! ### Writing one piece after another -/

@[simp] theorem overwrite_nil (v : List α) (offset : ℕ) : overwrite v offset [] = v := by
  rw [overwrite, List.append_nil, List.length_nil, Nat.add_zero, List.take_append_drop]

/-- A piece behind another one. -/
theorem overwrite_overwrite {v a : List α} {offset : ℕ} (h : offset + a.length ≤ v.length)
    (b : List α) : overwrite (overwrite v offset a) (offset + a.length) b =
      overwrite v offset (a ++ b) := by
  have hfront : (v.take offset ++ a).length = offset + a.length := by
    rw [List.length_append, List.length_take_of_le (by omega)]
  rw [overwrite, overwrite, overwrite, List.take_left' hfront, ← List.drop_drop,
    List.drop_left' hfront, List.drop_drop, List.length_append, ← Nat.add_assoc]
  simp only [List.append_assoc]

/-- A piece that covers the whole buffer. -/
theorem overwrite_all {v src : List α} (h : src.length = v.length) : overwrite v 0 src = src := by
  rw [overwrite, List.take_zero, List.nil_append, Nat.zero_add, h, List.drop_length,
    List.append_nil]

/-- The pieces of a loop that writes `n` pieces of `d` elements, from piece `b` on. -/
theorem foldl_overwrite {d b n : ℕ} {v : List α} {f : ℕ → List α} (hf : ∀ i, (f i).length = d)
    (h : (b + n) * d ≤ v.length) :
    (List.range n).foldl (fun v i => overwrite v ((b + i) * d) (f i)) v =
      overwrite v (b * d) ((List.range n).flatMap f) := by
  induction n with
  | zero => exact (overwrite_nil v _).symm
  | succ n ih =>
    have hlen := length_flatMap_rows fun i (_ : i < n) => hf i
    have hle : b * d + n * d ≤ v.length := by
      rw [← Nat.add_assoc, Nat.succ_mul] at h
      rw [← Nat.add_mul]
      omega
    rw [List.range_succ, List.foldl_append, ih (by rwa [Nat.add_mul]), List.flatMap_append,
      List.flatMap_singleton, List.foldl_cons, List.foldl_nil, Nat.add_mul, ← hlen,
      overwrite_overwrite (by rwa [hlen])]

/-- A loop whose rounds write the pieces, in any monad. -/
theorem foldlM_overwrite {m : Type _ → Type _} [Monad m] [LawfulMonad m] {d n : ℕ} {v : List α}
    {f : ℕ → List α} {body : List α → ℕ → m (List α)} (hf : ∀ i, (f i).length = d)
    (h : n * d ≤ v.length) (hbody : ∀ out i, out.length = v.length → i < n →
      body out i = pure (overwrite out (i * d) (f i))) :
    (List.range n).foldlM body v = pure (overwrite v 0 ((List.range n).flatMap f)) := by
  induction n with
  | zero => rw [List.range_zero, List.foldlM_nil, List.flatMap_nil, overwrite_nil]
  | succ n ih =>
    have hlen := length_flatMap_rows fun i (_ : i < n) => hf i
    rw [Nat.succ_mul] at h
    have hfront : 0 + ((List.range n).flatMap f).length ≤ v.length := by omega
    have hcat := overwrite_overwrite hfront (f n)
    rw [hlen, Nat.zero_add] at hcat
    rw [List.range_succ, List.foldlM_append, ih (by omega) fun out i hout hi =>
      hbody out i hout (by omega), pure_bind, List.foldlM_cons,
      hbody _ n (length_overwrite hfront) (by omega), pure_bind, List.foldlM_nil, hcat,
      List.flatMap_append, List.flatMap_singleton]

section Rows

variable {d n : ℕ} {v : List α}

/-- Rows written in any order: a row that is not written stays. -/
theorem row_foldl_overwrite_of_notMem {ps : List (ℕ × List α)} {r : ℕ} (hv : v.length = n * d)
    (hps : ∀ p ∈ ps, p.1 < n ∧ p.2.length = d) (hr : r ∉ ps.map Prod.fst) :
    row d (ps.foldl (fun v p => overwrite v (p.1 * d) p.2) v) r = row d v r := by
  induction ps generalizing v with
  | nil => rfl
  | cons p ps ih =>
    obtain ⟨hne, hr⟩ := not_or.mp (List.mem_cons.not.mp hr)
    obtain ⟨hp, hlen⟩ := hps p List.mem_cons_self
    have hfits : (p.1 + 1) * d ≤ v.length := hv ▸ Nat.mul_le_mul_right d hp
    have hfits' : p.1 * d + p.2.length ≤ v.length := by rwa [hlen, ← Nat.succ_mul]
    rw [List.foldl_cons, ih ((length_overwrite hfits').trans hv)
      (fun q hq => hps q (List.mem_cons_of_mem _ hq)) hr, row_overwrite_of_ne hlen hfits hne]

/-- Rows written in any order, each once. -/
theorem row_foldl_overwrite {ps : List (ℕ × List α)} {r : ℕ} {src : List α}
    (hv : v.length = n * d) (hps : ∀ p ∈ ps, p.1 < n ∧ p.2.length = d)
    (hnodup : (ps.map Prod.fst).Nodup) (hmem : (r, src) ∈ ps) :
    row d (ps.foldl (fun v p => overwrite v (p.1 * d) p.2) v) r = src := by
  induction ps generalizing v with
  | nil => exact absurd hmem List.not_mem_nil
  | cons p ps ih =>
    obtain ⟨hnew, hnodup⟩ := List.nodup_cons.mp hnodup
    obtain ⟨hp, hlen⟩ := hps p List.mem_cons_self
    have hfits : (p.1 + 1) * d ≤ v.length := hv ▸ Nat.mul_le_mul_right d hp
    have hfits' : p.1 * d + p.2.length ≤ v.length := by rwa [hlen, ← Nat.succ_mul]
    have hlen' := (length_overwrite hfits').trans hv
    have hrest := fun q hq => hps q (List.mem_cons_of_mem p hq)
    rw [List.foldl_cons]
    rcases List.mem_cons.mp hmem with heq | hmem
    · rw [← heq] at hlen hfits hnew hlen' ⊢
      rw [row_foldl_overwrite_of_notMem hlen' hrest hnew, row_overwrite_self hlen hfits]
    · exact ih hlen' hrest hnodup hmem

theorem length_foldl_overwrite {ps : List (ℕ × List α)} (hv : v.length = n * d)
    (hps : ∀ p ∈ ps, p.1 < n ∧ p.2.length = d) :
    (ps.foldl (fun v p => overwrite v (p.1 * d) p.2) v).length = n * d := by
  induction ps generalizing v with
  | nil => exact hv
  | cons p ps ih =>
    obtain ⟨hp, hlen⟩ := hps p List.mem_cons_self
    have hfits : (p.1 + 1) * d ≤ n * d := Nat.mul_le_mul_right d hp
    rw [Nat.succ_mul] at hfits
    refine ih ((length_overwrite ?_).trans hv) fun q hq => hps q (List.mem_cons_of_mem _ hq)
    rwa [hlen, hv]

end Rows

/-- A buffer that grows keeps its rows. -/
theorem row_append_of_le {d r : ℕ} {v w : List α} (h : (r + 1) * d ≤ v.length) :
    row d (v ++ w) r = row d v r := by
  have hmul := Nat.add_one_mul r d
  refine List.ext_getElem? fun i => ?_
  rw [getElem?_row, getElem?_row]
  by_cases hi : i < d
  · rw [if_pos hi, if_pos hi, List.getElem?_append_left (by omega)]
  · rw [if_neg hi, if_neg hi]

/-- The first `n` rows are rows of the whole buffer. -/
theorem row_take {d n r : ℕ} {v : List α} (h : r < n) : row d (v.take (n * d)) r = row d v r := by
  have hle : (r + 1) * d ≤ n * d := Nat.mul_le_mul_right d h
  have hmul := Nat.add_one_mul r d
  refine List.ext_getElem? fun i => ?_
  rw [getElem?_row, getElem?_row]
  by_cases hi : i < d
  · rw [if_pos hi, if_pos hi, List.getElem?_take_of_lt (by omega)]
  · rw [if_neg hi, if_neg hi]

/-- Writing `n` rows from the start. -/
theorem row_overwrite_rows {d n r : ℕ} {v src : List α} (hsrc : src.length = n * d)
    (h : n * d ≤ v.length) (hr : r < n) : row d (overwrite v 0 src) r = row d src r := by
  have hle : (r + 1) * d ≤ n * d := Nat.mul_le_mul_right d hr
  have hmul := Nat.add_one_mul r d
  refine List.ext_getElem? fun i => ?_
  rw [getElem?_row, getElem?_row]
  by_cases hi : i < d
  · rw [if_pos hi, if_pos hi, getElem?_overwrite (by omega), if_pos (by omega), Nat.sub_zero]
  · rw [if_neg hi, if_neg hi]

/-- The complete rows of a buffer that is filled by `n` of them. -/
theorem rowsOf_of_length {d n : ℕ} {v : List α} (hd : 0 < d) (h : v.length = n * d) :
    rowsOf d v = (List.range n).map fun r => (r, row d v r) := by
  rw [rowsOf, h, Nat.mul_div_cancel n hd]

end Oxillama
