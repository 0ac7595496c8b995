/-
Accepting, rejecting and sampling tokens
(`oxillama-runtime/src/speculative.rs`, the helpers of `generate`).

Probabilities and draws are numbers of an ordered field `K`, without rounding: the
vectors here are what `softmax` makes of a model's logits, and the draws are those
of `next_f32`.  Over the reals `expect_sampleWithProb` and `expect_sampleResidual`
say with what probability each token is sampled.
-/
import Mathlib.Data.List.GetD
import Oxillama.Lib.Draw

namespace Oxillama

namespace Speculative

open scoped ENNReal

section Definitions

variable {K : Type} [Field K] [LinearOrder K]

/-- The constant `1e-10`. -/
def tiny : K := 1 / 10 ^ 10

/-- `sample_with_prob`, on the probabilities of the logits. -/
def sampleWithProb (probs : List K) : Draw K (ℕ × K) :=
  if probs.isEmpty then .pure (0, 1)
  else Draw.next >>= fun r =>
    match Draw.pick r 0 probs with
    | some i => .pure (i, probs.getD i 0)
    | none => .pure (probs.length - 1, probs.getD (probs.length - 1) 0)

/-- The vector `sample_residual` samples from. -/
def residual (pTarget pDraft : List K) : List K :=
  let excess := (List.range (max pTarget.length pDraft.length)).map fun i =>
    max (pTarget.getD i 0 - pDraft.getD i 0) 0
  let z := excess.sum
  if tiny < z then excess.map (· / z) else pTarget

/-- `sample_residual`. -/
def sampleResidual (pTarget pDraft : List K) : Draw K ℕ :=
  Draw.next >>= fun r =>
    match Draw.pick r 0 (residual pTarget pDraft) with
    | some i => .pure i
    | none => .pure ((residual pTarget pDraft).length - 1)

/-- The probability with which a draft token is accepted. -/
def acceptThreshold (pTarget pDraft : K) : K := min (pTarget / max pDraft tiny) 1

end Definitions

/-! ### Probability vectors -/

/-- Probabilities that sum to one. -/
structure IsDist (ps : List ℝ) : Prop where
  nonneg : ∀ p ∈ ps, 0 ≤ p
  sum : ps.sum = 1

section Laws

variable {α : Type} {ps p q : List ℝ}

theorem IsDist.getD_nonneg (h : IsDist ps) (i : ℕ) : 0 ≤ ps.getD i 0 := by
  rw [List.getD_eq_getElem?_getD]
  cases hi : ps[i]? with
  | none => exact le_rfl
  | some p => exact h.nonneg p (List.mem_of_getElem? hi)

theorem sum_range_getD (ps : List ℝ) {n : ℕ} (h : ps.length ≤ n) :
    ∑ i ∈ Finset.range n, ps.getD i 0 = ps.sum := by
  induction ps generalizing n with
  | nil => simp
  | cons p ps ih =>
    obtain ⟨n, rfl⟩ : ∃ m, n = m + 1 := ⟨n - 1, by rw [List.length_cons] at h; omega⟩
    rw [Finset.sum_range_succ', List.sum_cons, ← ih (Nat.le_of_succ_le_succ h), add_comm]
    rfl

theorem IsDist.ne_nil (h : IsDist ps) : ps ≠ [] := by
  rintro rfl
  have hsum := h.sum
  simp at hsum

/-- **Each token is sampled with its probability**, together with that probability. -/
theorem expect_sampleWithProb (h : IsDist ps) (f : ℕ × ℝ → ℝ≥0∞) :
    (sampleWithProb ps).expect f =
      ∑ i ∈ Finset.range ps.length, ENNReal.ofReal (ps.getD i 0) * f (i, ps.getD i 0) := by
  rw [sampleWithProb, if_neg (fun hempty => h.ne_nil (List.isEmpty_iff.mp hempty))]
  exact Draw.expect_pick f (fun o => match o with
    | some i => .pure (i, ps.getD i 0)
    | none => .pure (ps.length - 1, ps.getD (ps.length - 1) 0)) h.nonneg h.sum

/-- What the target gives beyond the draft. -/
noncomputable def excess (p q : List ℝ) (i : ℕ) : ℝ := max (p.getD i 0 - q.getD i 0) 0

/-- All of it. -/
noncomputable def totalExcess (p q : List ℝ) : ℝ :=
  ∑ i ∈ Finset.range (max p.length q.length), excess p q i

theorem excess_nonneg (p q : List ℝ) (i : ℕ) : 0 ≤ excess p q i := le_max_right _ _

/-- The probability of a token in the vector `sample_residual` samples from. -/
noncomputable def residualProb (p q : List ℝ) (i : ℕ) : ℝ :=
  if tiny < totalExcess p q then excess p q i / totalExcess p q else p.getD i 0

theorem tiny_pos : (0 : ℝ) < tiny := by
  rw [tiny]
  positivity

private theorem sum_map_range (f : ℕ → ℝ) (n : ℕ) :
    ((List.range n).map f).sum = ∑ i ∈ Finset.range n, f i := by
  induction n with
  | zero => rfl
  | succ n ih =>
    rw [List.range_succ, List.map_append, List.sum_append, ih, Finset.sum_range_succ]
    simp

private theorem residual_eq (p q : List ℝ) : residual p q =
    if tiny < totalExcess p q then
      (List.range (max p.length q.length)).map fun i => excess p q i / totalExcess p q
    else p := by
  rw [residual, sum_map_range]
  show (if tiny < totalExcess p q then _ else _) = _
  split
  · rw [List.map_map]
    rfl
  · rfl

theorem isDist_residual (hp : IsDist p) (q : List ℝ) : IsDist (residual p q) := by
  rw [residual_eq]
  split
  · rename_i hz
    have hpos : 0 < totalExcess p q := tiny_pos.trans hz
    constructor
    · intro x hx
      obtain ⟨i, -, rfl⟩ := List.mem_map.mp hx
      exact div_nonneg (excess_nonneg p q i) hpos.le
    · rw [sum_map_range, ← Finset.sum_div]
      exact div_self hpos.ne'
  · exact hp

theorem getD_residual (p q : List ℝ) (i : ℕ) : (residual p q).getD i 0 = residualProb p q i := by
  rw [residual_eq, residualProb]
  split
  · rw [List.getD_eq_getElem?_getD, List.getElem?_map]
    by_cases hi : i < max p.length q.length
    · rw [List.getElem?_range hi]
      rfl
    · rw [List.getElem?_eq_none (by simpa using hi)]
      obtain ⟨hpi, hqi⟩ := max_le_iff.mp (not_lt.mp hi)
      rw [excess, List.getD_eq_default _ _ hpi, List.getD_eq_default _ _ hqi]
      simp
  · rfl

theorem length_residual_le (p q : List ℝ) : (residual p q).length ≤ max p.length q.length := by
  rw [residual_eq]
  split
  · rw [List.length_map, List.length_range]
  · exact le_max_left _ _

/-- **Each token is sampled from the residual with its probability there.** -/
theorem expect_sampleResidual (hp : IsDist p) (q : List ℝ) (f : ℕ → ℝ≥0∞) :
    (sampleResidual p q).expect f =
      ∑ i ∈ Finset.range (residual p q).length, ENNReal.ofReal (residualProb p q i) * f i := by
  have hdist := isDist_residual hp q
  have hpick := Draw.expect_pick f (fun o => match o with
    | some i => .pure i
    | none => .pure ((residual p q).length - 1)) hdist.nonneg hdist.sum
  simp only [getD_residual] at hpick
  exact hpick

theorem acceptThreshold_nonneg {a b : ℝ} (ha : 0 ≤ a) : 0 ≤ acceptThreshold a b :=
  le_min (div_nonneg ha (tiny_pos.le.trans (le_max_right _ _))) zero_le_one

theorem acceptThreshold_le_one (a b : ℝ) : acceptThreshold a b ≤ 1 := min_le_right _ _

end Laws

end Speculative

end Oxillama
