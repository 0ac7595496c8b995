/-
Loops that fill a buffer, and loops that use its values at once.

A loop writes values to positions of a buffer, in any order.  A fused loop does not write
them: it multiplies each with the input at its position and adds the products up.

* `getElem?_applyWrites` — a buffer holds what was written to it, if no position is
  written twice;
* `applyWrites_fill` — writing from the front on is putting the values there;
* `foldlM_add` — a loop whose rounds add something adds the sum;
* `sum_writes` — **summing over the writes is summing over the positions of the buffer**;
* `sum_blocks` — so is summing over blocks, and what is left out counts nothing.
-/
import Mathlib.Algebra.BigOperators.Group.List.Basic
import Mathlib.Data.List.Nodup
import Oxillama.Lib.Blocks

namespace Oxillama

variable {α ι M : Type}

/-! ### Writing -/

/-- The buffer after some writes of values to positions. -/
def applyWrites (writes : List (ℕ × α)) (out : List α) : List α :=
  writes.foldl (fun out write => out.set write.1 write.2) out

@[simp] theorem length_applyWrites (writes : List (ℕ × α)) (out : List α) :
    (applyWrites writes out).length = out.length := by
  rw [applyWrites]
  induction writes generalizing out with
  | nil => rfl
  | cons write writes ih => rw [List.foldl_cons, ih, List.length_set]

/-- A position that is not written keeps its value. -/
theorem getElem?_applyWrites_of_notMem {writes : List (ℕ × α)} {p : ℕ} (out : List α)
    (h : p ∉ writes.map Prod.fst) : (applyWrites writes out)[p]? = out[p]? := by
  rw [applyWrites]
  induction writes generalizing out with
  | nil => rfl
  | cons write writes ih =>
    rw [List.map_cons, List.mem_cons, not_or] at h
    rw [List.foldl_cons, ih _ h.2, List.getElem?_set_ne (Ne.symm h.1)]

/-- **A position that is written once** holds what was written. -/
theorem getElem?_applyWrites {writes : List (ℕ × α)} {p : ℕ} {v : α} {out : List α}
    (hnodup : (writes.map Prod.fst).Nodup) (hmem : (p, v) ∈ writes) (hp : p < out.length) :
    (applyWrites writes out)[p]? = some v := by
  induction writes generalizing out with
  | nil => cases hmem
  | cons write writes ih =>
    rw [List.map_cons, List.nodup_cons] at hnodup
    rw [applyWrites, List.foldl_cons, ← applyWrites]
    rcases List.mem_cons.mp hmem with rfl | hmem
    · rw [getElem?_applyWrites_of_notMem _ hnodup.1, List.getElem?_set_self hp]
    · exact ih hnodup.2 hmem (by rwa [List.length_set])

/-- **Writes to all positions of a buffer, in any order**, of values that depend on the position. -/
theorem applyWrites_of_perm {writes : List (ℕ × α)} {n : ℕ} {out : List α} {v : ℕ → α}
    (hall : (writes.map Prod.fst).Perm (List.range n)) (hn : n ≤ out.length)
    (hv : ∀ write ∈ writes, write.2 = v write.1) :
    applyWrites writes out = (List.range n).map v ++ out.drop n := by
  have hlen : ((List.range n).map v).length = n := by rw [List.length_map, List.length_range]
  refine List.ext_getElem? fun p => ?_
  rcases Nat.lt_or_ge p n with hp | hp
  · obtain ⟨write, hwrite, rfl⟩ := List.mem_map.mp (hall.mem_iff.mpr (List.mem_range.mpr hp))
    rw [getElem?_applyWrites (hall.nodup_iff.mpr List.nodup_range) hwrite (by omega),
      List.getElem?_append_left (by omega), List.getElem?_map, List.getElem?_range hp,
      hv write hwrite]
    rfl
  · have hmem : p ∉ writes.map Prod.fst := fun h =>
      absurd (List.mem_range.mp (hall.mem_iff.mp h)) (Nat.not_lt.mpr hp)
    rw [getElem?_applyWrites_of_notMem _ hmem, List.getElem?_append_right (by omega), hlen,
      List.getElem?_drop]
    congr 1
    omega

/-- The writes of a loop that fills a buffer from a position on. -/
def fill (start : ℕ) (values : List α) : List (ℕ × α) :=
  (values.zipIdx start).map Prod.swap

theorem fill_append (start : ℕ) (xs ys : List α) :
    fill start (xs ++ ys) = fill start xs ++ fill (start + xs.length) ys := by
  rw [fill, List.zipIdx_append, List.map_append]
  rfl

theorem map_fst_fill (start : ℕ) (values : List α) :
    (fill start values).map Prod.fst = List.range' start values.length := by
  rw [fill, List.map_map]
  exact List.zipIdx_map_snd start values

/-- **Filling from the front on** is putting the values in front of the rest. -/
theorem applyWrites_fill {values out : List α} (h : values.length ≤ out.length) :
    applyWrites (fill 0 values) out = values ++ out.drop values.length := by
  have hpos := map_fst_fill 0 values
  refine List.ext_getElem? fun p => ?_
  rcases Nat.lt_or_ge p values.length with hp | hp
  · have hmem : (p, values[p]) ∈ fill 0 values :=
      List.mem_map.mpr ⟨(values[p], p), List.mk_mem_zipIdx_iff_getElem?.mpr
        (List.getElem?_eq_getElem hp), rfl⟩
    rw [getElem?_applyWrites (by rw [hpos]; exact List.nodup_range') hmem (by omega),
      List.getElem?_append_left hp, List.getElem?_eq_getElem hp]
  · have hmem : p ∉ (fill 0 values).map Prod.fst := by
      rw [hpos, List.mem_range'_1]
      omega
    rw [getElem?_applyWrites_of_notMem _ hmem, List.getElem?_append_right hp, List.getElem?_drop]
    congr 1
    omega

/-- Rounds that write to different positions. -/
theorem nodup_flatMap_range {n : ℕ} {f : ℕ → List α} (h : ∀ i < n, (f i).Nodup)
    (hdisj : ∀ i < n, ∀ j < n, ∀ a, a ∈ f i → a ∈ f j → i = j) :
    ((List.range n).flatMap f).Nodup := by
  rw [List.nodup_flatMap]
  refine ⟨fun i hi => h i (List.mem_range.mp hi), ?_⟩
  refine List.nodup_range.pairwise_of_forall_ne fun i hi j hj hne a hai haj => hne ?_
  exact hdisj i (List.mem_range.mp hi) j (List.mem_range.mp hj) a hai haj

/-! ### Folding -/

theorem foldlM_flatMap {σ : Type} (f : σ → α → Option σ) (g : ι → List α) (l : List ι) (s : σ) :
    (l.flatMap g).foldlM f s = l.foldlM (fun s i => (g i).foldlM f s) s := by
  induction l generalizing s with
  | nil => rfl
  | cons i l ih =>
    rw [List.flatMap_cons, List.foldlM_append, List.foldlM_cons]
    exact congrArg _ (funext ih)

/-- Two loops whose rounds do the same. -/
theorem foldlM_congr {σ : Type} {f g : σ → α → Option σ} {l : List α}
    (h : ∀ s, ∀ a ∈ l, f s a = g s a) (s : σ) : l.foldlM f s = l.foldlM g s := by
  induction l generalizing s with
  | nil => rfl
  | cons a l ih =>
    rw [List.foldlM_cons, List.foldlM_cons, h s a List.mem_cons_self]
    exact congrArg _ (funext fun s => ih (fun s b hb => h s b (List.mem_cons_of_mem _ hb)) s)

/-- A loop with a round that fails in every state. -/
theorem foldlM_eq_none {σ : Type} {f : σ → α → Option σ} {l : List α}
    (h : ∃ a ∈ l, ∀ s, f s a = none) (s : σ) : l.foldlM f s = none := by
  obtain ⟨a, hmem, hnone⟩ := h
  induction l generalizing s with
  | nil => cases hmem
  | cons b l ih =>
    rw [List.foldlM_cons]
    rcases List.mem_cons.mp hmem with rfl | hmem
    · rw [hnone]
      rfl
    · cases f s b with
      | none => rfl
      | some s => exact ih s hmem

/-- A loop whose state, seen through `φ`, is that of another loop. -/
theorem foldlM_simulation {σ τ : Type} {f : σ → α → Option σ} {g : τ → α → Option τ} (φ : σ → τ)
    (h : ∀ s a, (f s a).map φ = g (φ s) a) (l : List α) (s : σ) :
    (l.foldlM f s).map φ = l.foldlM g (φ s) := by
  induction l generalizing s with
  | nil => rfl
  | cons a l ih =>
    rw [List.foldlM_cons, List.foldlM_cons, ← h s a]
    cases f s a with
    | none => rfl
    | some s' => exact ih s'

/-! ### Adding up -/

section Sum

variable [AddCommMonoid M]

/-- **A loop whose rounds add something** adds the sum. -/
theorem foldlM_add {f : M → ι → Option M} {δ : ι → M} {l : List ι}
    (h : ∀ s, ∀ i ∈ l, f s i = some (s + δ i)) (s : M) :
    l.foldlM f s = some (s + (l.map δ).sum) := by
  induction l generalizing s with
  | nil => rw [List.foldlM_nil, List.map_nil, List.sum_nil, add_zero]; rfl
  | cons i l ih =>
    rw [List.foldlM_cons, h s i List.mem_cons_self, Option.bind_eq_bind, Option.bind_some,
      ih (fun s j hj => h s j (List.mem_cons_of_mem _ hj)), List.map_cons, List.sum_cons, add_assoc]

/-- A sum over writes to all positions of a buffer, in any order. -/
theorem sum_writes [Zero α] {writes : List (ℕ × α)} {n : ℕ} {out : List α}
    (hall : (writes.map Prod.fst).Perm (List.range n)) (hn : n ≤ out.length) (g : ℕ → α → M) :
    (writes.map fun write => g write.1 write.2).sum =
      ((List.range n).map fun p => g p ((applyWrites writes out).getD p 0)).sum := by
  have hnodup : (writes.map Prod.fst).Nodup := hall.nodup_iff.mpr List.nodup_range
  have hvalue : ∀ write ∈ writes, g write.1 write.2 =
      (fun p => g p ((applyWrites writes out).getD p 0)) write.1 := by
    intro write hwrite
    have hlt : write.1 < n :=
      List.mem_range.mp (hall.mem_iff.mp (List.mem_map_of_mem hwrite))
    show _ = g write.1 _
    rw [List.getD_eq_getElem?_getD, getElem?_applyWrites hnodup hwrite (by omega)]
    rfl
  have hsum := (hall.map fun p => g p ((applyWrites writes out).getD p 0)).sum_eq
  rw [List.map_map] at hsum
  rw [List.map_congr_left hvalue]
  exact hsum

theorem sum_range_mul (m n : ℕ) (g : ℕ → M) :
    ((List.range m).map fun b => ((List.range n).map fun p => g (b * n + p)).sum).sum =
      ((List.range (m * n)).map g).sum := by
  induction m with
  | zero => rw [Nat.zero_mul]; rfl
  | succ m ih =>
    rw [List.range_succ, List.map_append, List.sum_append, ih, List.map_singleton,
      List.sum_singleton, Nat.succ_mul, List.range_add, List.map_append, List.sum_append,
      List.map_map]
    rfl

/-- A sum over the positions in front of a bound, with the positions behind it counting nothing. -/
theorem sum_range_guard {m n : ℕ} (h : m ≤ n) (g : ℕ → M) :
    ((List.range n).map fun p => if p < m then g p else 0).sum = ((List.range m).map g).sum := by
  obtain ⟨k, rfl⟩ := Nat.exists_eq_add_of_le h
  rw [List.range_add, List.map_append, List.sum_append, List.map_map]
  have hbehind : ((List.range k).map
      ((fun p => if p < m then g p else 0) ∘ fun x => m + x)).sum = 0 := by
    refine List.sum_eq_zero fun x hx => ?_
    obtain ⟨p, -, rfl⟩ := List.mem_map.mp hx
    exact if_neg (Nat.not_lt.mpr (Nat.le_add_right m p))
  rw [hbehind, add_zero]
  congr 1
  refine List.map_congr_left fun p hp => ?_
  exact if_pos (List.mem_range.mp hp)

/-- **A sum over the blocks of a row**, of which the last one may be cut. -/
theorem sum_blocks {k : ℕ} (hk : 0 < k) (n : ℕ) (g : ℕ → M) :
    ((List.range (divCeil n k)).map fun b =>
        ((List.range k).map fun p => if b * k + p < n then g (b * k + p) else 0).sum).sum =
      ((List.range n).map g).sum := by
  have hle : n ≤ divCeil n k * k := by
    by_contra hlt
    exact Nat.lt_irrefl _ ((lt_divCeil_iff hk).mpr (Nat.not_le.mp hlt))
  rw [sum_range_mul _ _ fun p => if p < n then g p else 0, sum_range_guard hle]

end Sum

end Oxillama
