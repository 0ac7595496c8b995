/-
Flash attention without rounding is softmax attention.

The kernels run on the numbers of an ordered field, with infinities: `Extended`.

* `holds_updateRow` — **a tile keeps the invariant of a row**: its sums are those of the
  columns so far, relative to its maximum;
* `attendTiles_eq` — the tiles of a kernel leave softmax attention in every row;
* `row_transposeRows` — the transpositions move rows;
* `flash_attention_eq_softmax` — **all three entry points**.
-/
import Mathlib.Analysis.SpecialFunctions.Exp
import Mathlib.Analysis.SpecialFunctions.Sqrt
import Mathlib.Data.List.GetD
import Oxillama.Lib.Extended
import Oxillama.Lib.OnlineSoftmax
import Oxillama.Lib.Blocks
import Oxillama.Runtime.FlashAttention

namespace Oxillama

namespace Runtime

open Extended Finset

variable {α : Type}

/-! ### The inputs -/

namespace Inputs

/-- Whether a column is not masked for a row. -/
def Visible (x : Inputs α) (row col : ℕ) : Prop := x.causal = true → col ≤ x.qOffset + row

instance (x : Inputs α) (row : ℕ) : DecidablePred (x.Visible row) :=
  fun col => inferInstanceAs (Decidable (x.causal = true → col ≤ x.qOffset + row))

/-- The first `n` columns, without the masked ones. -/
def cols (x : Inputs α) (row n : ℕ) : Finset ℕ := (range n).filter (x.Visible row)

theorem visible_zero (x : Inputs α) (row : ℕ) : x.Visible row 0 := fun _ => Nat.zero_le _

theorem visible_iff (x : Inputs α) (row col : ℕ) :
    (x.causal && decide (col > x.qOffset + row)) = true ↔ ¬ x.Visible row col := by
  rw [Bool.and_eq_true, decide_eq_true_iff, Visible, Classical.not_imp, not_le]

variable [Field α]

/-- `Q K^T * scale`. -/
def score (x : Inputs α) (row col : ℕ) : α :=
  (∑ d ∈ range x.headDim,
    x.query.getD (row * x.headDim + d) 0 * x.key.getD (col * x.headDim + d) 0) * x.scale

/-- `V`. -/
def valueAt (x : Inputs α) (d col : ℕ) : α := x.value.getD (col * x.headDim + d) 0

/-- The inputs as the kernel sees them. -/
def lift (x : Inputs α) : Inputs (Extended α) where
  query := x.query.map num
  key := x.key.map num
  value := x.value.map num
  seqLenQ := x.seqLenQ
  seqLenKv := x.seqLenKv
  headDim := x.headDim
  scale := num x.scale
  causal := x.causal
  qOffset := x.qOffset

theorem getD_map_num (xs : List α) (i : ℕ) : (xs.map num).getD i (num 0) = num (xs.getD i 0) := by
  rw [List.getD_eq_getElem?_getD, List.getElem?_map, Option.getD_map,
    ← List.getD_eq_getElem?_getD]

variable [LinearOrder α] [RealExp α]

theorem dot_lift (x : Inputs α) (row col : ℕ) : x.lift.dot row col =
    num (∑ d ∈ range x.headDim,
      x.query.getD (row * x.headDim + d) 0 * x.key.getD (col * x.headDim + d) 0) := by
  have hsum : ∀ (f : ℕ → α) (ds : List ℕ) (a : α),
      ds.foldl (fun acc d => acc + num (f d)) (num a) = num (a + (ds.map f).sum) := by
    intro f ds a
    rw [← foldl_add_num, List.foldl_map, List.foldl_map]
  rw [dot]
  simp only [lift, zero_eq, getD_map_num, num_mul]
  rw [hsum, zero_add, ← List.sum_toFinset _ List.nodup_range, List.toFinset_range]

/-- A row of a score tile. -/
theorem scores_lift (x : Inputs α) (row j n : ℕ) : x.lift.scores row j n =
    (List.range n).map fun c =>
      if x.Visible row (j + c) then num (x.score row (j + c)) else negInf := by
  refine List.map_congr_left fun c _ => ?_
  have hmasked := x.visible_iff row (j + c)
  rw [dot_lift]
  show (if x.causal && decide (j + c > x.qOffset + row) then (negInf : Extended α)
    else num _ * num x.scale) = _
  by_cases hvisible : x.Visible row (j + c)
  · rw [if_pos hvisible, if_neg fun h => hmasked.mp h hvisible, num_mul]
    rfl
  · rw [if_neg hvisible, if_pos (hmasked.mpr hvisible)]

end Inputs

/-! ### One tile -/

section Tile

variable [Field α] [LinearOrder α] [RealExp α] {x : Inputs α} {row j n : ℕ} {m : α}
  {st : RowState (Extended α)}

/-- The statistics of a row after its first `j` columns: they are relative to some number, which
is the maximum unless no tile has been seen. -/
structure Holds (x : Inputs α) (row j : ℕ) (st : RowState (Extended α)) (m : α) : Prop where
  rowMax : st.rowMax = num m ∨ j = 0 ∧ st.rowMax = negInf
  rowSum : st.rowSum =
    num (shiftedSum RealExp.exp (x.score row) m (x.cols row j) fun _ => 1)
  outAcc : st.outAcc = (List.range x.headDim).map fun d =>
    num (shiftedSum RealExp.exp (x.score row) m (x.cols row j) (x.valueAt d))

theorem holds_init (x : Inputs α) (row : ℕ) (m : α) : Holds x row 0 (.init x.headDim) m := by
  have hcols : x.cols row 0 = ∅ := filter_empty _
  refine ⟨Or.inr ⟨rfl, rfl⟩, ?_, ?_⟩
  · rw [hcols, shiftedSum_empty]
    rfl
  · rw [hcols]
    simp only [shiftedSum_empty, List.map_const', List.length_range]
    rfl

/-- The maximum of a list of scores and a number. -/
theorem foldl_max_num (f : ℕ → α) (visible : ℕ → Prop) [DecidablePred visible] (cs : List ℕ)
    (a : α) : ∃ b, (cs.map fun c => if visible c then num (f c) else negInf).foldl
      (fun m v => if ExpF32.lt m v then v else m) (num a) = num b := by
  induction cs generalizing a with
  | nil => exact ⟨a, rfl⟩
  | cons c cs ih =>
    rw [List.map_cons, List.foldl_cons]
    by_cases hvisible : visible c
    · rw [if_pos hvisible, lt_num]
      split
      · exact ih (f c)
      · exact ih a
    · rw [if_neg hvisible, lt_negInf, if_neg Bool.false_ne_true]
      exact ih a

/-- The maximum of a list of scores, of which all may be masked. -/
theorem foldl_max_negInf (f : ℕ → α) (visible : ℕ → Prop) [DecidablePred visible] (cs : List ℕ) :
    (∃ b, (cs.map fun c => if visible c then num (f c) else negInf).foldl
        (fun m v => if ExpF32.lt m v then v else m) negInf = num b) ∨
      (∀ c ∈ cs, ¬ visible c) ∧
        (cs.map fun c => if visible c then num (f c) else negInf).foldl
          (fun m v => if ExpF32.lt m v then v else m) negInf = (negInf : Extended α) := by
  induction cs with
  | nil => exact Or.inr ⟨fun _ hmem => absurd hmem List.not_mem_nil, rfl⟩
  | cons c cs ih =>
    rw [List.map_cons, List.foldl_cons]
    by_cases hvisible : visible c
    · rw [if_pos hvisible, negInf_lt_num, if_pos rfl]
      exact Or.inl (foldl_max_num f visible cs (f c))
    · rw [if_neg hvisible, lt_negInf, if_neg Bool.false_ne_true]
      refine ih.imp_right fun ⟨hmasked, hmax⟩ => ⟨fun c' hmem => ?_, hmax⟩
      rcases List.mem_cons.mp hmem with rfl | hmem
      · exact hvisible
      · exact hmasked c' hmem

/-- The new maximum of a row is a number. -/
theorem Holds.exists_newMax (h : Holds x row j st m) (hn : 0 < n) :
    ∃ m', ExpF32.max st.rowMax ((x.lift.scores row j n).foldl
      (fun m v => if ExpF32.lt m v then v else m) negInf) = num m' := by
  rw [Inputs.scores_lift]
  have htile := foldl_max_negInf (fun c => x.score row (j + c)) (fun c => x.Visible row (j + c))
    (List.range n)
  rcases h.rowMax with hmax | ⟨rfl, hmax⟩
  · rw [hmax]
    rcases htile with ⟨t, ht⟩ | ⟨-, ht⟩
    · rw [ht]
      show ∃ m', (if ExpF32.lt (num m) (num t) then num t else num m) = num m'
      split
      · exact ⟨t, rfl⟩
      · exact ⟨m, rfl⟩
    · rw [ht]
      exact ⟨m, rfl⟩
  · -- the first column is never masked
    rw [hmax]
    rcases htile with ⟨t, ht⟩ | ⟨hmasked, -⟩
    · rw [ht]
      exact ⟨t, rfl⟩
    · exact absurd (x.visible_zero row) (hmasked 0 (List.mem_range.mpr hn))

/-- The probability of a column, relative to a maximum. -/
def weight (x : Inputs α) (row : ℕ) (m : α) (col : ℕ) : α :=
  if x.Visible row col then RealExp.exp (x.score row col - m) else 0

theorem probabilities_eq (x : Inputs α) (row j n : ℕ) (m' : α) :
    ((x.lift.scores row j n).map fun s =>
      if ExpF32.lt (s - num m') ExpF32.cutoff then ExpF32.zero else ExpF32.exp (s - num m')) =
    (List.range n).map fun c => num (weight x row m' (j + c)) := by
  rw [Inputs.scores_lift, List.map_map]
  refine List.map_congr_left fun c _ => ?_
  rw [Function.comp_apply, lt_cutoff, if_neg Bool.false_ne_true, weight]
  split
  · rw [num_sub, exp_num]
  · rw [negInf_sub_num, exp_negInf]

/-- The correction turns the sums so far into sums relative to the new maximum. -/
theorem Holds.exists_correction (hadd : ∀ a b : α, RealExp.exp (a + b) =
    RealExp.exp a * RealExp.exp b) (h : Holds x row j st m) (m' : α) :
    ∃ k, (if ExpF32.lt (st.rowMax - num m') ExpF32.cutoff ||
          ExpF32.le (st.rowMax - num m') negInf then ExpF32.zero
        else ExpF32.exp (st.rowMax - num m')) = num k ∧
      ∀ value, shiftedSum RealExp.exp (x.score row) m (x.cols row j) value * k =
        shiftedSum RealExp.exp (x.score row) m' (x.cols row j) value := by
  rcases h.rowMax with hmax | ⟨rfl, hmax⟩
  · refine ⟨RealExp.exp (m - m'), ?_, fun _ => shiftedSum_mul hadd⟩
    rw [hmax, num_sub, lt_cutoff, num_le_negInf, Bool.or_false, if_neg Bool.false_ne_true, exp_num]
  · refine ⟨0, ?_, fun value => ?_⟩
    · rw [hmax, negInf_sub_num, lt_cutoff, negInf_le_negInf, Bool.or_true, if_pos rfl, zero_eq]
    · -- nothing has been summed
      have hcols : x.cols row 0 = ∅ := filter_empty _
      rw [hcols, shiftedSum_empty, shiftedSum_empty, zero_mul]

theorem zipIdx_map_range {β : Type} (f : ℕ → β) (n : ℕ) :
    ((List.range n).map f).zipIdx = (List.range n).map fun c => (f c, c) := by
  refine List.ext_getElem (by simp only [List.length_zipIdx, List.length_map]) fun i _ _ => ?_
  simp only [List.getElem_zipIdx, List.getElem_map, List.getElem_range, Nat.zero_add]

theorem mapIdx_map_range {β γ : Type} (f : ℕ → β) (g : ℕ → β → γ) (n : ℕ) :
    ((List.range n).map f).mapIdx g = (List.range n).map fun i => g i (f i) := by
  refine List.ext_getElem (by simp only [List.length_mapIdx, List.length_map]) fun i _ _ => ?_
  simp only [List.getElem_mapIdx, List.getElem_map, List.getElem_range]

/-- The loop over the columns that accumulates the values. -/
theorem foldl_accumulate (v : ℕ → ℕ → α) (w : ℕ → α) (headDim : ℕ) (cs : List ℕ) (a : ℕ → α) :
    (cs.map fun c => (num (w c), c)).foldl (fun acc p =>
        if p.1 != num 0 then acc.mapIdx fun d b => b + p.1 * num (v p.2 d) else acc)
      ((List.range headDim).map fun d => num (a d)) =
    (List.range headDim).map fun d => num (a d + (cs.map fun c => w c * v c d).sum) := by
  induction cs generalizing a with
  | nil => simp only [List.map_nil, List.foldl_nil, List.sum_nil, add_zero]
  | cons c cs ih =>
    rw [List.map_cons, List.foldl_cons]
    have hstep : (if (num (w c) != num (0 : α)) = true then
          ((List.range headDim).map fun d => num (a d)).mapIdx fun d b =>
            b + num (w c) * num (v c d)
        else (List.range headDim).map fun d => num (a d)) =
        (List.range headDim).map fun d => num (a d + w c * v c d) := by
      split
      · rw [mapIdx_map_range]
        rfl
      · -- a probability of zero would add nothing
        rename_i hzero
        have hw : w c = 0 := by
          rw [bne, num_beq, Bool.not_eq_true', decide_eq_false_iff_not, not_not] at hzero
          exact hzero
        simp only [hw, zero_mul, add_zero]
    dsimp only at hstep ⊢
    rw [hstep, ih]
    refine List.map_congr_left fun d _ => ?_
    rw [List.map_cons, List.sum_cons, add_assoc]

omit [LinearOrder α] in
/-- The weighted values of a tile. -/
theorem shiftedSum_cols_add (m : α) (value : ℕ → α) :
    shiftedSum RealExp.exp (x.score row) m (x.cols row (j + n)) value =
      shiftedSum RealExp.exp (x.score row) m (x.cols row j) value +
        ((List.range n).map fun c => weight x row m (j + c) * value (j + c)).sum := by
  rw [Inputs.cols, Inputs.cols, shiftedSum_range_add, ← List.sum_toFinset _ List.nodup_range,
    List.toFinset_range]
  congr 1
  refine sum_congr rfl fun c _ => ?_
  rw [weight, ite_mul, zero_mul]

/-- **A tile keeps the invariant of a row.** -/
theorem holds_updateRow (hadd : ∀ a b : α, RealExp.exp (a + b) = RealExp.exp a * RealExp.exp b)
    (h : Holds x row j st m) (hn : 0 < n) :
    ∃ m', Holds x row (j + n) (x.lift.updateRow j (x.lift.scores row j n) st) m' := by
  obtain ⟨m', hmax⟩ := h.exists_newMax hn
  obtain ⟨k, hcorrection, hk⟩ := h.exists_correction hadd m'
  have hp := probabilities_eq x row j n m'
  refine ⟨m', ?_, ?_, ?_⟩
  · left
    exact hmax
  · simp only [Inputs.updateRow, negInf_eq, hmax, hcorrection, hp]
    have hweights : (List.range n).map (fun c => num (weight x row m' (j + c))) =
        ((List.range n).map fun c => weight x row m' (j + c)).map num := by rw [List.map_map]; rfl
    rw [hweights, zero_eq, foldl_add_num, h.rowSum, num_mul, hk, num_add, zero_add,
      shiftedSum_cols_add]
    simp only [mul_one]
  · simp only [Inputs.updateRow, negInf_eq, hmax, hcorrection, hp]
    have hvalue : ∀ c d, x.lift.value.getD ((j + c) * x.lift.headDim + d) (num 0) =
        num (x.valueAt d (j + c)) := fun c d => Inputs.getD_map_num _ _
    simp only [zero_eq, hvalue, zipIdx_map_range, h.outAcc, List.map_map]
    have hscaled : (List.range x.headDim).map ((fun a => a * num k) ∘ fun d =>
          num (shiftedSum RealExp.exp (x.score row) m (x.cols row j) (x.valueAt d))) =
        (List.range x.headDim).map fun d =>
          num (shiftedSum RealExp.exp (x.score row) m' (x.cols row j) (x.valueAt d)) := by
      refine List.map_congr_left fun d _ => ?_
      rw [Function.comp_apply, num_mul, hk]
    rw [hscaled, foldl_accumulate (fun c d => x.valueAt d (j + c))
      (fun c => weight x row m' (j + c))]
    simp only [shiftedSum_cols_add]

end Tile

/-! ### All tiles -/

section Tiles

variable [Field α] [LinearOrder α] [RealExp α] {x : Inputs α} {br bc i tileRows : ℕ}

/-- A row of the output: softmax attention, over the columns that are not masked. -/
def attentionRow (x : Inputs α) (row : ℕ) : List (Extended α) :=
  (List.range x.headDim).map fun d => num (softmaxAttention RealExp.exp (x.cols row x.seqLenKv)
    (x.score row) (x.valueAt d))

omit [LinearOrder α] in
@[simp] theorem length_attentionRow (x : Inputs α) (row : ℕ) :
    (attentionRow x row).length = x.headDim := by
  rw [attentionRow, List.length_map, List.length_range]

omit [Field α] [LinearOrder α] [RealExp α] in
/-- The columns of a skipped tile are masked. -/
theorem cols_of_skipped {row j j' : ℕ} (hcausal : x.causal = true) (hj : x.qOffset + row < j)
    (hle : j ≤ j') : x.cols row j' = x.cols row j := by
  ext c
  rw [Inputs.cols, Inputs.cols, mem_filter, mem_filter, mem_range, mem_range]
  refine and_congr_left fun hvisible => ?_
  have hc := hvisible hcausal
  omega

/-- All rows of a tile have seen the first `j` columns. -/
def RowsHold (x : Inputs α) (i tileRows j : ℕ) (rows : List (RowState (Extended α))) : Prop :=
  rows.length = tileRows ∧
    ∀ ri st, rows[ri]? = some st → ∃ m, Holds x (i + ri) (min j x.seqLenKv) st m

theorem rowsHold_init (x : Inputs α) (i tileRows : ℕ) :
    RowsHold x i tileRows 0 (List.replicate tileRows (.init x.headDim)) := by
  refine ⟨List.length_replicate .., fun ri st hst => ⟨0, ?_⟩⟩
  obtain ⟨-, hst⟩ := List.mem_replicate.mp (List.mem_of_getElem? hst)
  rw [hst, Nat.zero_min]
  exact holds_init x (i + ri) 0

omit [LinearOrder α] in
/-- A tile that is skipped. -/
theorem RowsHold.skip {rows : List (RowState (Extended α))} {j j' : ℕ}
    (h : RowsHold x i tileRows j rows) (hcausal : x.causal = true)
    (hpast : x.qOffset + i + tileRows - 1 < j) (hj : j < x.seqLenKv) (hle : j ≤ j') :
    RowsHold x i tileRows j' rows := by
  refine ⟨h.1, fun ri st hst => ?_⟩
  obtain ⟨m, hholds⟩ := h.2 ri st hst
  have hri : ri < tileRows := h.1 ▸ (List.getElem?_eq_some_iff.mp hst).1
  have hcols : x.cols (i + ri) (min j' x.seqLenKv) = x.cols (i + ri) (min j x.seqLenKv) :=
    cols_of_skipped hcausal (by omega) (by omega)
  refine ⟨m, ?_, ?_, ?_⟩
  · -- the first tile is not skipped
    rcases hholds.rowMax with hmax | ⟨hzero, -⟩
    · exact Or.inl hmax
    · omega
  · rw [hcols]
    exact hholds.rowSum
  · rw [hcols]
    exact hholds.outAcc

/-- A tile that is not. -/
theorem RowsHold.update (hadd : ∀ a b : α, RealExp.exp (a + b) = RealExp.exp a * RealExp.exp b)
    {rows : List (RowState (Extended α))} {j : ℕ} (h : RowsHold x i tileRows j rows)
    (hbc : 0 < bc) (hj : j < x.seqLenKv) :
    RowsHold x i tileRows (j + bc) (rows.mapIdx fun ri st =>
      x.lift.updateRow j (x.lift.scores (i + ri) j (min bc (x.seqLenKv - j))) st) := by
  refine ⟨(List.length_mapIdx ..).trans h.1, fun ri st hst => ?_⟩
  rw [List.getElem?_mapIdx, Option.map_eq_some_iff] at hst
  obtain ⟨st, hold, rfl⟩ := hst
  obtain ⟨m, hholds⟩ := h.2 ri st hold
  have hmin : min j x.seqLenKv = j := Nat.min_eq_left (Nat.le_of_lt hj)
  have hnext : min (j + bc) x.seqLenKv = j + min bc (x.seqLenKv - j) := by omega
  rw [hmin] at hholds
  rw [hnext]
  exact holds_updateRow hadd hholds (by omega)

/-- **The loop over the tiles of keys**: every row has seen all columns. -/
theorem attendRows_eq (hadd : ∀ a b : α, RealExp.exp (a + b) = RealExp.exp a * RealExp.exp b)
    (hbc : 0 < bc) (x : Inputs α) (i tileRows : ℕ) :
    ∃ rows, x.lift.attendRows bc i tileRows = some rows ∧ rows.length = tileRows ∧
      ∀ ri st, rows[ri]? = some st → ∃ m, Holds x (i + ri) x.seqLenKv st m := by
  have hbody : ∀ j rows, j < x.seqLenKv → RowsHold x i tileRows j rows →
      ∃ rows', x.lift.kvTile bc i tileRows j rows = some rows' ∧
        RowsHold x i tileRows (j + bc) rows' := by
    intro j rows hj h
    rw [Inputs.kvTile]
    split
    · rename_i hskip
      rw [Bool.and_eq_true, decide_eq_true_iff] at hskip
      exact ⟨rows, rfl, h.skip hskip.1 hskip.2 hj (Nat.le_add_right j bc)⟩
    · exact ⟨_, rfl, h.update hadd hbc hj⟩
  obtain ⟨rows, j, hrows, hj, hlen, hall⟩ :=
    whileBelow_inv (RowsHold x i tileRows) hbc (rowsHold_init x i tileRows) hbody
  refine ⟨rows, hrows, hlen, fun ri st hst => ?_⟩
  have hholds := hall ri st hst
  rwa [Nat.min_eq_right hj] at hholds

theorem eq_map_range {β : Type} (xs : List β) (b : β) :
    xs = (List.range xs.length).map fun i => xs.getD i b := by
  refine List.ext_getElem (by rw [List.length_map, List.length_range]) fun i hi _ => ?_
  rw [List.getElem_map, List.getElem_range, List.getD_eq_getElem _ _ hi]

variable [IsStrictOrderedRing α]

/-- **A row that has seen all columns is normalized to softmax attention.** -/
theorem Holds.normalize_eq {row : ℕ} {st : RowState (Extended α)} {m : α}
    (hpos : ∀ a : α, 0 < RealExp.exp a)
    (hadd : ∀ a b : α, RealExp.exp (a + b) = RealExp.exp a * RealExp.exp b)
    (h : Holds x row x.seqLenKv st m) (hkv : 0 < x.seqLenKv) :
    Inputs.normalize st = attentionRow x row := by
  have hcols : (x.cols row x.seqLenKv).Nonempty :=
    ⟨0, mem_filter.mpr ⟨mem_range.mpr hkv, x.visible_zero row⟩⟩
  have hsum : shiftedSum RealExp.exp (x.score row) m (x.cols row x.seqLenKv) (fun _ => 1) ≠ 0 :=
    (shiftedSum_pos hpos hcols).ne'
  rw [Inputs.normalize, h.rowSum, zero_eq, num_beq, decide_eq_false hsum, h.outAcc, List.map_map,
    attentionRow]
  refine List.map_congr_left fun d _ => ?_
  rw [Function.comp_apply, if_neg Bool.false_ne_true, num_div _ _ hsum, shiftedSum_div hpos hadd]

/-- A tile of query rows writes softmax attention into its rows. -/
theorem qTile_eq (hpos : ∀ a : α, 0 < RealExp.exp a)
    (hadd : ∀ a b : α, RealExp.exp (a + b) = RealExp.exp a * RealExp.exp b) (hbc : 0 < bc)
    (hkv : 0 < x.seqLenKv) {output : List (Extended α)} (hi : i < x.seqLenQ)
    (hlen : x.seqLenQ * x.headDim ≤ output.length) :
    x.lift.qTile br bc i output = some (overwrite output (i * x.headDim)
      ((List.range (min br (x.seqLenQ - i))).flatMap fun ri => attentionRow x (i + ri))) := by
  obtain ⟨rows, hrows, hcount, hall⟩ := attendRows_eq hadd hbc x i
    (min br (x.seqLenQ - i))
  have hfits : (i + min br (x.seqLenQ - i)) * x.headDim ≤ output.length :=
    le_trans (Nat.mul_le_mul_right _ (by omega)) hlen
  have hrow : ∀ ri ∈ List.range rows.length,
      Inputs.normalize (rows.getD ri (.init x.headDim)) = attentionRow x (i + ri) := by
    intro ri hri
    rw [List.mem_range] at hri
    obtain ⟨m, hholds⟩ := hall ri (rows[ri]) (List.getElem?_eq_getElem hri)
    rw [List.getD_eq_getElem _ _ hri]
    exact hholds.normalize_eq hpos hadd hkv
  rw [Inputs.qTile]
  show (x.lift.attendRows bc i (min br (x.seqLenQ - i)) >>= _) = _
  rw [hrows, eq_map_range rows (.init x.headDim)]
  show some _ = some _
  rw [zipIdx_map_range, List.foldl_map]
  have hfold : (List.range rows.length).foldl (fun output ri =>
        overwrite output ((i + ri) * x.headDim)
          (Inputs.normalize (rows.getD ri (.init x.headDim)))) output =
      (List.range rows.length).foldl (fun output ri =>
        overwrite output ((i + ri) * x.headDim) (attentionRow x (i + ri))) output :=
    List.foldl_ext _ _ _ fun out ri hri => by rw [hrow ri hri]
  rw [← hcount] at hfits ⊢
  exact congrArg some (hfold.trans (foldl_overwrite (fun ri => length_attentionRow x _) hfits))

/-- The rows of the output before row `i` are written. -/
def RowsWritten (x : Inputs α) (output : List (Extended α)) (i : ℕ) (out : List (Extended α)) :
    Prop :=
  out = overwrite output 0 ((List.range (min i x.seqLenQ)).flatMap (attentionRow x))

/-- **The kernels leave softmax attention in every row of their output**, whatever the block
sizes are, and nothing else. -/
theorem attendTiles_eq (hpos : ∀ a : α, 0 < RealExp.exp a)
    (hadd : ∀ a b : α, RealExp.exp (a + b) = RealExp.exp a * RealExp.exp b) (hbr : 0 < br)
    (hbc : 0 < bc) (hkv : 0 < x.seqLenKv) {output : List (Extended α)}
    (hlen : x.seqLenQ * x.headDim ≤ output.length) :
    x.lift.attendTiles br bc output =
      some (overwrite output 0 ((List.range x.seqLenQ).flatMap (attentionRow x))) := by
  have hrows : ∀ n, ((List.range n).flatMap (attentionRow x)).length = n * x.headDim :=
    fun n => length_flatMap_rows fun i _ => length_attentionRow x i
  have hbody : ∀ i out, i < x.seqLenQ → RowsWritten x output i out →
      ∃ out', x.lift.qTile br bc i out = some out' ∧ RowsWritten x output (i + br) out' := by
    intro i out hi hinv
    have hmin : min i x.seqLenQ = i := Nat.min_eq_left (Nat.le_of_lt hi)
    have hnext : min (i + br) x.seqLenQ = i + min br (x.seqLenQ - i) := by omega
    have hfront : 0 + ((List.range i).flatMap (attentionRow x)).length ≤ output.length := by
      rw [hrows, Nat.zero_add]
      exact le_trans (Nat.mul_le_mul_right _ (Nat.le_of_lt hi)) hlen
    rw [RowsWritten, hmin] at hinv
    have hlen' : out.length = output.length := by rw [hinv, length_overwrite hfront]
    refine ⟨_, qTile_eq hpos hadd hbc hkv hi (hlen'.symm ▸ hlen), ?_⟩
    -- the rows of the tile follow the rows before
    have hcat := overwrite_overwrite hfront
      ((List.range (min br (x.seqLenQ - i))).flatMap fun ri => attentionRow x (i + ri))
    rw [hrows, Nat.zero_add] at hcat
    rw [RowsWritten, hnext, hinv, hcat, List.range_add, List.flatMap_append, List.flatMap_map]
  have hinit : RowsWritten x output 0 output := by
    rw [RowsWritten, Nat.zero_min, List.range_zero, List.flatMap_nil, overwrite_nil]
  obtain ⟨out, i, hout, hi, heq⟩ := whileBelow_inv (RowsWritten x output) hbr hinit hbody
  rw [RowsWritten, Nat.min_eq_right hi] at heq
  rw [← heq]
  exact hout

end Tiles

/-! ### Transpositions -/

section Transpose

variable {F : Type} [ExpF32 F]

/-- **The transposition moves rows.** -/
theorem transposeRows_eq {a b d : ℕ} {v : List F} (hv : v.length = a * b * d) :
    transposeRows a b d v = (List.range b).flatMap fun j =>
      (List.range a).flatMap fun i => row d v (i * b + j) := by
  have hsource : ∀ {i j}, i < a → j < b → (row d v (i * b + j)).length = d := by
    intro i j hi hj
    have hle : (i + 1) * b ≤ a * b := Nat.mul_le_mul_right b hi
    rw [Nat.succ_mul] at hle
    refine length_row ?_
    rw [hv]
    exact Nat.mul_le_mul_right d (by omega)
  -- the loop as a list of writes, each with its row
  set ps : List (ℕ × List F) := ((List.range a).product (List.range b)).map fun p =>
    (p.2 * a + p.1, row d v (p.1 * b + p.2)) with hps
  have hloop : transposeRows a b d v =
      ps.foldl (fun v p => overwrite v (p.1 * d) p.2) (List.replicate (b * a * d) ExpF32.zero) := by
    rw [hps, List.foldl_map, transposeRows]
    refine List.foldl_ext _ _ _ fun acc p _ => ?_
    dsimp only
    rw [row, ← Nat.add_mul, ← Nat.add_mul]
  have hinit : (List.replicate (b * a * d) (ExpF32.zero : F)).length = b * a * d :=
    List.length_replicate ..
  have hbounds : ∀ p ∈ ps, p.1 < b * a ∧ p.2.length = d := by
    intro p hp
    obtain ⟨⟨i, j⟩, hmem, rfl⟩ := List.mem_map.mp hp
    obtain ⟨hi, hj⟩ := List.mem_product.mp hmem
    rw [List.mem_range] at hi hj
    have hle : (j + 1) * a ≤ b * a := Nat.mul_le_mul_right a hj
    rw [Nat.succ_mul] at hle
    refine ⟨?_, hsource hi hj⟩
    dsimp only
    omega
  have hnodup : (ps.map Prod.fst).Nodup := by
    rw [hps, List.map_map]
    refine List.Nodup.map_on ?_ (List.nodup_range.product List.nodup_range)
    rintro ⟨i, j⟩ hmem ⟨i', j'⟩ hmem' heq
    have hi := List.mem_range.mp (List.mem_product.mp hmem).1
    have hi' := List.mem_range.mp (List.mem_product.mp hmem').1
    simp only [Function.comp_apply] at heq hi hi'
    have hmod : i = i' := by
      have h : (j * a + i) % a = (j' * a + i') % a := congrArg (· % a) heq
      rwa [Nat.mul_add_mod_of_lt hi, Nat.mul_add_mod_of_lt hi'] at h
    subst hmod
    have hmul : j * a = j' * a := Nat.add_right_cancel heq
    rw [Nat.eq_of_mul_eq_mul_right (by omega) hmul]
  rw [hloop]
  have hinner : ∀ j < b, ((List.range a).flatMap fun i => row d v (i * b + j)).length = a * d :=
    fun j hj => length_flatMap_rows fun i hi => hsource hi hj
  refine ext_rows (length_foldl_overwrite hinit hbounds) ?_ fun r hr => ?_
  · rw [length_flatMap_rows hinner, Nat.mul_assoc]
  · -- row `r` is row `i` of the `j`-th part
    have ha : 0 < a := Nat.pos_of_ne_zero fun hzero => by
      rw [hzero, Nat.mul_zero] at hr
      exact Nat.not_lt_zero r hr
    obtain ⟨i, j, hi, hj, rfl⟩ : ∃ i j, i < a ∧ j < b ∧ r = j * a + i :=
      ⟨r % a, r / a, Nat.mod_lt r ha, Nat.div_lt_of_lt_mul (Nat.mul_comm b a ▸ hr),
        (Nat.div_add_mod' r a).symm⟩
    have hmem : (j * a + i, row d v (i * b + j)) ∈ ps :=
      List.mem_map.mpr ⟨(i, j), List.mem_product.mpr ⟨List.mem_range.mpr hi,
        List.mem_range.mpr hj⟩, rfl⟩
    rw [row_foldl_overwrite hinit hbounds hnodup hmem, ← row_row hi, row_flatMap_range hinner hj,
      row_flatMap_range (fun i hi => hsource hi hj) hi]

end Transpose

/-! ### The entry points -/

section Entry

variable [Field α] [LinearOrder α] [IsStrictOrderedRing α] [RealExp α]

/-- The inputs of `flash_attention`. -/
def headInputs (query key value : List α) (seqLen headDim : ℕ) (scale : α) (causal : Bool) :
    Inputs α :=
  ⟨query, key, value, seqLen, seqLen, headDim, scale, causal, 0⟩

/-- The output of `flash_attention`, as it should be. -/
def headAttention (query key value : List α) (seqLen headDim : ℕ) (scale : α) (causal : Bool) :
    List (Extended α) :=
  (List.range seqLen).flatMap
    (attentionRow (headInputs query key value seqLen headDim scale causal))

omit [LinearOrder α] [IsStrictOrderedRing α] in
theorem length_headAttention (query key value : List α) (seqLen headDim : ℕ) (scale : α)
    (causal : Bool) :
    (headAttention query key value seqLen headDim scale causal).length = seqLen * headDim :=
  length_flatMap_rows fun i _ => length_attentionRow _ i

/-- The rows of one head of a tensor with the layout `[seq_len, num_heads, head_dim]`. -/
def headRows {F : Type} (numHeads headDim : ℕ) (xs : List F) (seqLen h : ℕ) : List F :=
  (List.range seqLen).flatMap fun s => row headDim xs (s * numHeads + h)

variable {query key value : List α} {output : List (Extended α)} {seqLen headDim : ℕ} {scale : α}
  {config : FlashAttentionConfig (Extended α)}

theorem flashAttention_eq (hpos : ∀ a : α, 0 < RealExp.exp a)
    (hadd : ∀ a b : α, RealExp.exp (a + b) = RealExp.exp a * RealExp.exp b)
    (hq : 0 < config.blockSizeQ) (hkv : 0 < config.blockSizeKv)
    (hscale : resolveScale config headDim = num scale) (hseq : 0 < seqLen) (hdim : 0 < headDim)
    (hquery : seqLen * headDim ≤ query.length) (hkey : seqLen * headDim ≤ key.length)
    (hvalue : seqLen * headDim ≤ value.length) (hout : seqLen * headDim ≤ output.length) :
    flashAttention (query.map num) (key.map num) (value.map num) output seqLen headDim config =
      pure (overwrite output 0
        (headAttention query key value seqLen headDim scale config.causal)) := by
  have hvalid : validateSingleHead (query.map num) (key.map num) (value.map num) output seqLen
      headDim = .ok () := by
    simp only [validateSingleHead, List.length_map]
    rw [if_neg (by omega), if_neg (by omega), if_neg (by omega), if_neg (by omega), if_neg]
    rw [Bool.or_eq_true, decide_eq_true_iff, decide_eq_true_iff]
    omega
  have hbr : 0 < min config.blockSizeQ seqLen := lt_min hq hseq
  have hbc : 0 < min config.blockSizeKv seqLen := lt_min hkv hseq
  have htiles := attendTiles_eq (x := headInputs query key value seqLen headDim scale config.causal)
    hpos hadd hbr hbc hseq hout
  rw [flashAttention, hvalid, hscale]
  exact congrArg ExceptT.lift htiles

omit [Field α] [LinearOrder α] [IsStrictOrderedRing α] [RealExp α] in
theorem row_map_num (d : ℕ) (xs : List α) (r : ℕ) :
    row d (xs.map num) r = (row d xs r).map num := by
  rw [row, row, ← List.map_drop, ← List.map_take]

/-- The pairs of heads, by the query head. -/
theorem heads_eq (numKvHeads groupSize : ℕ) :
    ((List.range numKvHeads).flatMap fun kvH =>
      (List.range groupSize).map fun g => (kvH, kvH * groupSize + g)) =
    (List.range (numKvHeads * groupSize)).map fun qH => (qH / groupSize, qH) := by
  rw [← flatMap_range_map]
  refine List.flatMap_congr fun kvH _ => List.map_congr_left fun g hg => ?_
  rw [List.mem_range] at hg
  rw [Nat.mul_comm kvH, Nat.mul_add_div (by omega), Nat.div_eq_of_lt hg, Nat.add_zero]

/-- A head of `flash_attention_gqa`. -/
def gqaHead (query key value : List α) (groupSize seqLen headDim : ℕ) (scale : α) (causal : Bool)
    (qH : ℕ) : List (Extended α) :=
  let headSize := seqLen * headDim
  headAttention (row headSize query qH) (row headSize key (qH / groupSize))
    (row headSize value (qH / groupSize)) seqLen headDim scale causal

theorem flashAttentionGqa_eq {numQHeads numKvHeads : ℕ} (hpos : ∀ a : α, 0 < RealExp.exp a)
    (hadd : ∀ a b : α, RealExp.exp (a + b) = RealExp.exp a * RealExp.exp b)
    (hq : 0 < config.blockSizeQ) (hkv : 0 < config.blockSizeKv)
    (hscale : resolveScale config headDim = num scale) (hseq : 0 < seqLen) (hdim : 0 < headDim)
    (hheads : 0 < numKvHeads) (hdvd : numKvHeads ∣ numQHeads)
    (hquery : numQHeads * (seqLen * headDim) ≤ query.length)
    (hkey : numKvHeads * (seqLen * headDim) ≤ key.length)
    (hvalue : numKvHeads * (seqLen * headDim) ≤ value.length)
    (hout : numQHeads * (seqLen * headDim) ≤ output.length) :
    flashAttentionGqa (query.map num) (key.map num) (value.map num) output numQHeads numKvHeads
        seqLen headDim config =
      pure (overwrite output 0 ((List.range numQHeads).flatMap
        (gqaHead query key value (numQHeads / numKvHeads) seqLen headDim scale
          config.causal))) := by
  simp only [flashAttentionGqa, List.length_map, hheads.ne', hdvd, not_lt.mpr hquery,
    not_lt.mpr hkey, not_lt.mpr hvalue, not_lt.mpr hout, if_false, not_true_eq_false]
  have hgroup : numKvHeads * (numQHeads / numKvHeads) = numQHeads := Nat.mul_div_cancel' hdvd
  rw [heads_eq, hgroup, List.foldlM_map]
  refine foldlM_overwrite (fun qH => length_headAttention ..) hout fun out qH hlen hqH => ?_
  have hkvH : qH / (numQHeads / numKvHeads) < numKvHeads :=
    Nat.div_lt_of_lt_mul (by rwa [Nat.mul_comm, hgroup])
  have hfit : ∀ {n h : ℕ} {xs : List α}, n * (seqLen * headDim) ≤ xs.length → h < n →
      (row (seqLen * headDim) xs h).length = seqLen * headDim := fun hn hh =>
    length_row (le_trans (Nat.mul_le_mul_right _ hh) hn)
  have houtRow : (row (seqLen * headDim) out qH).length = seqLen * headDim :=
    length_row (le_trans (Nat.mul_le_mul_right _ hqH) (hlen.symm ▸ hout))
  dsimp only
  rw [row_map_num, row_map_num, row_map_num, flashAttention_eq hpos hadd hq hkv hscale hseq hdim
    (hfit hquery hqH).ge (hfit hkey hkvH).ge (hfit hvalue hkvH).ge houtRow.ge, pure_bind,
    overwrite_all]
  · rfl
  · rw [length_headAttention, houtRow]

/-! ### All heads -/

/-- A head of `flash_attention_forward`: query row `a` is at `seq_len_kv - seq_len_q + a`. -/
def forwardInputs (q k v : List α) (numHeads headDim seqLenQ seqLenKv : ℕ) (scale : α)
    (causal : Bool) (h : ℕ) : Inputs α :=
  ⟨headRows numHeads headDim q seqLenQ h, headRows numHeads headDim k seqLenKv h,
    headRows numHeads headDim v seqLenKv h, seqLenQ, seqLenKv, headDim, scale, causal,
    seqLenKv - seqLenQ⟩

omit [Field α] [LinearOrder α] [IsStrictOrderedRing α] [RealExp α] in
/-- A head of a transposed tensor. -/
theorem row_transposeRows {F : Type} [ExpF32 F] {numHeads seqLen h : ℕ} {xs : List F}
    (hlen : xs.length = seqLen * numHeads * headDim) (hh : h < numHeads) :
    row (seqLen * headDim) (transposeRows seqLen numHeads headDim xs) h =
      headRows numHeads headDim xs seqLen h := by
  have hrow : ∀ h < numHeads, ((List.range seqLen).flatMap fun s =>
      row headDim xs (s * numHeads + h)).length = seqLen * headDim := by
    intro h hh
    refine length_flatMap_rows fun s hs => length_row ?_
    have hle : (s + 1) * numHeads ≤ seqLen * numHeads := Nat.mul_le_mul_right _ hs
    rw [Nat.succ_mul] at hle
    rw [hlen]
    exact Nat.mul_le_mul_right _ (by omega)
  rw [transposeRows_eq hlen, row_flatMap_range hrow hh, headRows]

omit [Field α] [LinearOrder α] [IsStrictOrderedRing α] [RealExp α] in
theorem headRows_map_num (numHeads headDim : ℕ) (xs : List α) (seqLen h : ℕ) :
    headRows numHeads headDim (xs.map num) seqLen h =
      (headRows numHeads headDim xs seqLen h).map num := by
  rw [headRows, headRows, List.map_flatMap]
  simp only [row_map_num]

theorem flashAttentionForward_eq {q k v : List α} {numHeads seqLenQ seqLenKv : ℕ} {causal : Bool}
    (hpos : ∀ a : α, 0 < RealExp.exp a)
    (hadd : ∀ a b : α, RealExp.exp (a + b) = RealExp.exp a * RealExp.exp b)
    (hheads : 0 < numHeads) (hdim : 0 < headDim) (hseqQ : 0 < seqLenQ) (hseqKv : 0 < seqLenKv)
    (hq : q.length = seqLenQ * (numHeads * headDim))
    (hk : k.length = seqLenKv * (numHeads * headDim)) (hv : v.length = k.length) :
    flashAttentionForward (q.map num) (k.map num) (v.map num) numHeads headDim (num scale) causal =
      pure ((List.range seqLenQ).flatMap fun a => (List.range numHeads).flatMap fun h =>
        attentionRow (forwardInputs q k v numHeads headDim seqLenQ seqLenKv scale causal h) a) := by
  have hsize : 0 < numHeads * headDim := Nat.mul_pos hheads hdim
  simp only [flashAttentionForward, List.length_map, hq, hk, hv, hheads.ne', hdim.ne', hseqQ.ne',
    hseqKv.ne', Nat.mul_div_cancel _ hsize, dvd_mul_left, decide_false, Bool.or_false, if_false,
    not_true_eq_false, ne_eq, Bool.false_eq_true]
  set heads : ℕ → List (Extended α) := fun h => (List.range seqLenQ).flatMap
    (attentionRow (forwardInputs q k v numHeads headDim seqLenQ seqLenKv scale causal h)) with hdef
  have hlen : ∀ h, (heads h).length = seqLenQ * headDim :=
    fun h => length_flatMap_rows fun a _ => length_attentionRow _ a
  have hinit : (List.replicate (numHeads * seqLenQ * headDim) (ExpF32.zero : Extended α)).length =
      numHeads * (seqLenQ * headDim) := by rw [List.length_replicate, Nat.mul_assoc]
  have hall : ((List.range numHeads).flatMap heads).length = numHeads * (seqLenQ * headDim) :=
    length_flatMap_rows fun h _ => hlen h
  have hbody : ∀ out h, out.length = (List.replicate (numHeads * seqLenQ * headDim)
      (ExpF32.zero : Extended α)).length → h < numHeads → (do
        let out' ← flashAttentionForwardSingleHead
          (row (seqLenQ * headDim) (transposeRows seqLenQ numHeads headDim (q.map num)) h)
          (row (seqLenKv * headDim) (transposeRows seqLenKv numHeads headDim (k.map num)) h)
          (row (seqLenKv * headDim) (transposeRows seqLenKv numHeads headDim (v.map num)) h)
          (row (seqLenQ * headDim) out h) seqLenQ seqLenKv headDim (num scale) causal
        pure (overwrite out (h * (seqLenQ * headDim)) out')) =
      (pure (overwrite out (h * (seqLenQ * headDim)) (heads h)) : Option _) := by
    intro out h hout hh
    have hrow : (row (seqLenQ * headDim) out h).length = seqLenQ * headDim :=
      length_row (le_trans (Nat.mul_le_mul_right _ hh) (hout.trans hinit).ge)
    have hbr : 0 < min bq seqLenQ := lt_min (by decide) hseqQ
    have hbc : 0 < min bk seqLenKv := lt_min (by decide) hseqKv
    have htiles := attendTiles_eq
      (x := forwardInputs q k v numHeads headDim seqLenQ seqLenKv scale causal h) hpos hadd
      hbr hbc hseqKv hrow.ge
    rw [row_transposeRows (by rw [List.length_map, hq, Nat.mul_assoc]) hh,
      row_transposeRows (by rw [List.length_map, hk, Nat.mul_assoc]) hh,
      row_transposeRows (by rw [List.length_map, hv, hk, Nat.mul_assoc]) hh, headRows_map_num,
      headRows_map_num, headRows_map_num]
    refine (congrArg (· >>= fun out' => pure (overwrite out (h * (seqLenQ * headDim)) out'))
      htiles).trans ?_
    show some (overwrite out (h * (seqLenQ * headDim))
      (overwrite (row (seqLenQ * headDim) out h) 0 (heads h))) = _
    rw [overwrite_all ((hlen h).trans hrow.symm)]
    rfl
  rw [foldlM_overwrite hlen hinit.ge hbody, overwrite_all (hall.trans hinit.symm)]
  show (pure (transposeRows numHeads seqLenQ headDim ((List.range numHeads).flatMap heads)) :
    Kernel _) = _
  refine congrArg pure ((transposeRows_eq (hall.trans (Nat.mul_assoc ..).symm)).trans ?_)
  refine List.flatMap_congr fun a ha => List.flatMap_congr fun h hh => ?_
  rw [List.mem_range] at ha hh
  rw [← row_row ha, row_flatMap_range (fun h _ => hlen h) hh]
  exact row_flatMap_range (fun a _ => length_attentionRow _ a) ha

/-- **Tiled flash attention is softmax attention**, at every entry point, for all lengths, scales,
block sizes of at least one, causal or not. -/
theorem flash_attention_eq_softmax (hpos : ∀ a : α, 0 < RealExp.exp a)
    (hadd : ∀ a b : α, RealExp.exp (a + b) = RealExp.exp a * RealExp.exp b) :
    (∀ (query key value : List α) (output : List (Extended α)) (seqLen headDim : ℕ) (scale : α)
      (config : FlashAttentionConfig (Extended α)), 0 < config.blockSizeQ → 0 < config.blockSizeKv →
      resolveScale config headDim = num scale → 0 < seqLen → 0 < headDim →
      seqLen * headDim ≤ query.length → seqLen * headDim ≤ key.length →
      seqLen * headDim ≤ value.length → seqLen * headDim ≤ output.length →
      flashAttention (query.map num) (key.map num) (value.map num) output seqLen headDim config =
        pure (overwrite output 0
          (headAttention query key value seqLen headDim scale config.causal))) ∧
    (∀ (query key value : List α) (output : List (Extended α)) (numQHeads numKvHeads seqLen
      headDim : ℕ) (scale : α) (config : FlashAttentionConfig (Extended α)),
      0 < config.blockSizeQ → 0 < config.blockSizeKv → resolveScale config headDim = num scale →
      0 < seqLen → 0 < headDim → 0 < numKvHeads → numKvHeads ∣ numQHeads →
      numQHeads * (seqLen * headDim) ≤ query.length →
      numKvHeads * (seqLen * headDim) ≤ key.length →
      numKvHeads * (seqLen * headDim) ≤ value.length →
      numQHeads * (seqLen * headDim) ≤ output.length →
      flashAttentionGqa (query.map num) (key.map num) (value.map num) output numQHeads numKvHeads
          seqLen headDim config =
        pure (overwrite output 0 ((List.range numQHeads).flatMap
          (gqaHead query key value (numQHeads / numKvHeads) seqLen headDim scale
            config.causal)))) ∧
    ∀ (q k v : List α) (numHeads headDim seqLenQ seqLenKv : ℕ) (scale : α) (causal : Bool),
      0 < numHeads → 0 < headDim → 0 < seqLenQ → 0 < seqLenKv →
      q.length = seqLenQ * (numHeads * headDim) → k.length = seqLenKv * (numHeads * headDim) →
      v.length = k.length →
      flashAttentionForward (q.map num) (k.map num) (v.map num) numHeads headDim (num scale)
          causal =
        pure ((List.range seqLenQ).flatMap fun a => (List.range numHeads).flatMap fun h =>
          attentionRow (forwardInputs q k v numHeads headDim seqLenQ seqLenKv scale causal h)
            a) := by
  refine ⟨?_, ?_, ?_⟩
  · intro query key value output seqLen headDim scale config hq hkv hscale hseq hdim
    exact flashAttention_eq hpos hadd hq hkv hscale hseq hdim
  · intro query key value output numQHeads numKvHeads seqLen headDim scale config hq hkv hscale
      hseq hdim
    exact flashAttentionGqa_eq hpos hadd hq hkv hscale hseq hdim
  · intro q k v numHeads headDim seqLenQ seqLenKv scale causal
    exact flashAttentionForward_eq hpos hadd

end Entry

noncomputable instance : RealExp ℝ := ⟨Real.exp, Real.sqrt⟩

/-- Two query rows, the second one at the end of three keys. -/
theorem flash_attention_eq_softmax_real :
    flashAttentionForward ([1, 2].map num) ([3, 4, 5].map num) ([6, 7, 8].map num) 1 1
        (num (1 / 2)) true =
      pure ((List.range 2).flatMap fun a => (List.range 1).flatMap fun h =>
        attentionRow (forwardInputs [1, 2] [3, 4, 5] [6, 7, 8] 1 1 2 3 (1 / 2 : ℝ) true h) a) :=
  (flash_attention_eq_softmax Real.exp_pos Real.exp_add).2.2 [1, 2] [3, 4, 5] [6, 7, 8] 1 1 2 3
    (1 / 2) true one_pos one_pos two_pos three_pos rfl rfl rfl

end Runtime

end Oxillama
