/-
When speculative decoding samples from the target.

The first token of a round is to have the target's law.  It need not: the draft
proposal phase stops at a token that ends the draft engine's text without having it
verified, and the bonus token is then drawn from the whole of the target.

* `law_eq_ofReal` — the law of the first token in three parts: unverified, accepted
  and rejected;
* `Balanced` — what that comes to, for any vectors;
* `Unguarded` — the two guards at `1e-10` change nothing;
* `EosHarmless` — what is never verified does no harm;
* `law_exact_iff` — the first token has the target's law exactly if so.
-/
import Oxillama.Speculative.FirstToken

namespace Oxillama

namespace Speculative

open scoped ENNReal

variable {L : Type} {E : ℕ → Bool} {p q : List ℝ}

/-! ### The three parts -/

/-- What the draft gives its end-of-sequence tokens `E`. -/
noncomputable def eosMass (E : ℕ → Bool) (q : List ℝ) : ℝ :=
  ∑ t ∈ Finset.range q.length, if E t then q.getD t 0 else 0

/-- The probability that a token is drafted first and accepted. -/
noncomputable def accepted (E : ℕ → Bool) (p q : List ℝ) (x : ℕ) : ℝ :=
  if E x then 0 else q.getD x 0 * acceptThreshold (p.getD x 0) (q.getD x 0)

/-- The probability that the token drafted first is rejected. -/
noncomputable def rejected (E : ℕ → Bool) (p q : List ℝ) : ℝ :=
  ∑ t ∈ Finset.range q.length,
    if E t then 0 else q.getD t 0 * (1 - acceptThreshold (p.getD t 0) (q.getD t 0))

theorem eosMass_nonneg (hq : IsDist q) (E : ℕ → Bool) : 0 ≤ eosMass E q := by
  refine Finset.sum_nonneg fun t _ => ?_
  split
  · exact hq.getD_nonneg t
  · exact le_rfl

theorem accepted_nonneg (hp : IsDist p) (hq : IsDist q) (E : ℕ → Bool) (x : ℕ) :
    0 ≤ accepted E p q x := by
  rw [accepted]
  split
  · exact le_rfl
  · exact mul_nonneg (hq.getD_nonneg x) (acceptThreshold_nonneg (hp.getD_nonneg x))

theorem rejected_nonneg (hq : IsDist q) (E : ℕ → Bool) (p : List ℝ) : 0 ≤ rejected E p q := by
  refine Finset.sum_nonneg fun t _ => ?_
  split
  · exact le_rfl
  · exact mul_nonneg (hq.getD_nonneg t) (sub_nonneg.mpr (acceptThreshold_le_one _ _))

theorem residualProb_nonneg (hp : IsDist p) (q : List ℝ) (x : ℕ) : 0 ≤ residualProb p q x := by
  rw [← getD_residual]
  exact (isDist_residual hp q).getD_nonneg x

/-- A token beyond the draft's vocabulary is not drafted. -/
theorem accepted_of_length_le {x : ℕ} (h : q.length ≤ x) : accepted E p q x = 0 := by
  rw [accepted, List.getD_eq_default _ _ h, zero_mul, ite_self]

/-- The three parts are all there is. -/
theorem sum_parts (hq : IsDist q) (E : ℕ → Bool) (p : List ℝ) :
    eosMass E q + ∑ x ∈ Finset.range (max p.length q.length), accepted E p q x +
      rejected E p q = 1 := by
  have hsub : ∑ x ∈ Finset.range (max p.length q.length), accepted E p q x =
      ∑ x ∈ Finset.range q.length, accepted E p q x := by
    refine (Finset.sum_subset (Finset.range_subset_range.mpr (le_max_right _ _)) ?_).symm
    intro x _ hx
    exact accepted_of_length_le (not_lt.mp (fun h => hx (Finset.mem_range.mpr h)))
  rw [hsub, eosMass, rejected, ← Finset.sum_add_distrib, ← Finset.sum_add_distrib]
  refine (Finset.sum_congr rfl fun t _ => ?_).trans ((sum_range_getD q le_rfl).trans hq.sum)
  rw [accepted]
  split <;> ring

theorem sum_residualProb (hp : IsDist p) (q : List ℝ) :
    ∑ x ∈ Finset.range (max p.length q.length), residualProb p q x = 1 := by
  rw [← (isDist_residual hp q).sum, ← sum_range_getD (residual p q) (length_residual_le p q)]
  exact Finset.sum_congr rfl fun x _ => (getD_residual p q x).symm

/-- What one drafted token contributes to the law. -/
private theorem ofReal_term (hp : IsDist p) (hq : IsDist q) (x t : ℕ) :
    ENNReal.ofReal (q.getD t 0) *
        (if E t then ENNReal.ofReal (p.getD x 0)
        else
          ENNReal.ofReal (acceptThreshold (p.getD t 0) (q.getD t 0)) * isToken x (some t) +
            ENNReal.ofReal (1 - acceptThreshold (p.getD t 0) (q.getD t 0)) *
              ENNReal.ofReal (residualProb p q x)) =
      ENNReal.ofReal ((if E t then q.getD t 0 else 0) * p.getD x 0 +
        (if t = x then accepted E p q t else 0) +
        (if E t then 0 else q.getD t 0 * (1 - acceptThreshold (p.getD t 0) (q.getD t 0))) *
          residualProb p q x) := by
  have hqt := hq.getD_nonneg t
  have ha := acceptThreshold_nonneg (b := q.getD t 0) (hp.getD_nonneg t)
  have hr := sub_nonneg.mpr (acceptThreshold_le_one (p.getD t 0) (q.getD t 0))
  have hres := residualProb_nonneg hp q x
  rw [accepted]
  split
  · rw [ite_self, add_zero, zero_mul, add_zero, ENNReal.ofReal_mul hqt]
  · rw [zero_mul, zero_add, ENNReal.ofReal_add (by split <;> positivity) (by positivity), mul_add,
      ENNReal.ofReal_mul (mul_nonneg hqt hr), ENNReal.ofReal_mul hqt, mul_assoc]
    congr 1
    by_cases htx : t = x
    · rw [isToken, if_pos (congrArg some htx), if_pos htx, mul_one, ENNReal.ofReal_mul hqt]
    · rw [isToken, if_neg (fun h => htx (Option.some.inj h)), if_neg htx, mul_zero, mul_zero,
        ENNReal.ofReal_zero]

/-- **The law of the first token**, in three parts. -/
theorem law_eq_ofReal {c : SpeculativeEngine ℝ L} {maxTokens : ℕ} {s : LoopState L} (hc : Total c)
    (hk : 0 < min c.numSpeculative (maxTokens - s.tokensGenerated))
    (hp : IsDist (c.softmax s.targetNextLogits)) (hq : IsDist (c.softmax s.draftNextLogits))
    (x : ℕ) :
    law c maxTokens s x =
      ENNReal.ofReal (
        eosMass c.draft.isEos (c.softmax s.draftNextLogits) *
            (c.softmax s.targetNextLogits).getD x 0 +
          accepted c.draft.isEos (c.softmax s.targetNextLogits) (c.softmax s.draftNextLogits) x +
          rejected c.draft.isEos (c.softmax s.targetNextLogits) (c.softmax s.draftNextLogits) *
            residualProb (c.softmax s.targetNextLogits) (c.softmax s.draftNextLogits) x) := by
  rw [law_eq hc hk hp hq]
  generalize c.softmax s.targetNextLogits = p at hp ⊢
  generalize c.softmax s.draftNextLogits = q at hq ⊢
  simp only [ofReal_term hp hq x]
  rw [← ENNReal.ofReal_sum_of_nonneg]
  · congr 1
    rw [Finset.sum_add_distrib, Finset.sum_add_distrib, ← Finset.sum_mul, ← Finset.sum_mul,
      Finset.sum_ite_eq']
    congr 2
    split
    · rfl
    · rename_i hx
      exact (accepted_of_length_le (not_lt.mp fun h => hx (Finset.mem_range.mpr h))).symm
  · intro t _
    have hqt := hq.getD_nonneg t
    have hr := sub_nonneg.mpr (acceptThreshold_le_one (p.getD t 0) (q.getD t 0))
    have hpx := hp.getD_nonneg x
    have hres := residualProb_nonneg hp q x
    have hacc := accepted_nonneg hp hq c.draft.isEos t
    refine add_nonneg (add_nonneg (mul_nonneg ?_ hpx) ?_) (mul_nonneg ?_ hres)
    · split <;> positivity
    · split <;> positivity
    · split <;> positivity

/-! ### When the law is the target's -/

/-- What is accepted and a multiple of the residual make up the target, but for what is
never verified. -/
def Balanced (E : ℕ → Bool) (p q : List ℝ) : Prop :=
  ∃ r, ∀ x, (1 - eosMass E q) * p.getD x 0 = accepted E p q x + r * residualProb p q x

/-- Such a multiple can only be the probability of a rejection. -/
theorem Balanced.eq_rejected (hp : IsDist p) (hq : IsDist q) {r : ℝ}
    (h : ∀ x, (1 - eosMass E q) * p.getD x 0 = accepted E p q x + r * residualProb p q x) :
    r = rejected E p q := by
  have hsum : (1 - eosMass E q) * ∑ x ∈ Finset.range (max p.length q.length), p.getD x 0 =
      ∑ x ∈ Finset.range (max p.length q.length), accepted E p q x +
        r * ∑ x ∈ Finset.range (max p.length q.length), residualProb p q x := by
    rw [Finset.mul_sum, Finset.mul_sum, ← Finset.sum_add_distrib]
    exact Finset.sum_congr rfl fun x _ => h x
  rw [sum_range_getD p (le_max_left _ _), hp.sum, sum_residualProb hp] at hsum
  have hparts := sum_parts hq E p
  linarith

theorem law_exact_iff_balanced {c : SpeculativeEngine ℝ L} {maxTokens : ℕ} {s : LoopState L}
    (hc : Total c) (hk : 0 < min c.numSpeculative (maxTokens - s.tokensGenerated))
    (hp : IsDist (c.softmax s.targetNextLogits)) (hq : IsDist (c.softmax s.draftNextLogits)) :
    (∀ x, law c maxTokens s x = ENNReal.ofReal ((c.softmax s.targetNextLogits).getD x 0)) ↔
      Balanced c.draft.isEos (c.softmax s.targetNextLogits) (c.softmax s.draftNextLogits) := by
  have hlaw : ∀ x, law c maxTokens s x = _ := law_eq_ofReal hc hk hp hq
  generalize c.softmax s.targetNextLogits = p at hp hlaw ⊢
  generalize c.softmax s.draftNextLogits = q at hq hlaw ⊢
  generalize c.draft.isEos = E at hlaw ⊢
  constructor
  · intro hexact
    refine ⟨rejected E p q, fun x => ?_⟩
    have hnonneg := add_nonneg (add_nonneg (mul_nonneg (eosMass_nonneg hq E) (hp.getD_nonneg x))
      (accepted_nonneg hp hq E x))
      (mul_nonneg (rejected_nonneg hq E p) (residualProb_nonneg hp q x))
    have heq := (ENNReal.ofReal_eq_ofReal_iff hnonneg (hp.getD_nonneg x)).mp
      ((hlaw x).symm.trans (hexact x))
    linarith
  · rintro ⟨r, hr⟩ x
    obtain rfl := Balanced.eq_rejected hp hq hr
    rw [hlaw x]
    congr 1
    have hx := hr x
    linarith

/-- Neither of the guards at `1e-10` changes what is committed. -/
structure Unguarded (E : ℕ → Bool) (p q : List ℝ) : Prop where
  threshold : ∀ t, E t = false →
    q.getD t 0 = 0 ∨ tiny ≤ q.getD t 0 ∨ p.getD t 0 = 0 ∨ tiny ≤ p.getD t 0
  residual : tiny < totalExcess p q ∨ ∀ t, E t = false → q.getD t 0 ≤ p.getD t 0

/-- The draft never drafts a token of `E`, or only such; or in proportion to the target,
which has no token in common with it, none of `E`, or only such. -/
def EosHarmless (E : ℕ → Bool) (p q : List ℝ) : Prop :=
  (∀ t, E t = true → q.getD t 0 = 0) ∨ (∀ t, E t = false → q.getD t 0 = 0) ∨
    ∃ a, (∀ t, 0 < p.getD t 0 → q.getD t 0 = a * p.getD t 0) ∧
      (a = 0 ∨ (∀ t, E t = true → p.getD t 0 = 0) ∨ ∀ t, E t = false → p.getD t 0 = 0)

/-- Without the guard, a token is drafted and accepted with the smaller probability. -/
theorem mul_acceptThreshold {a b : ℝ} (ha : 0 ≤ a) (hb : 0 ≤ b)
    (h : b = 0 ∨ tiny ≤ b ∨ a = 0 ∨ tiny ≤ a) : b * acceptThreshold a b = min a b := by
  have htiny : (0 : ℝ) < tiny := tiny_pos
  rcases eq_or_lt_of_le hb with rfl | hb
  · rw [zero_mul, min_eq_right ha]
  rcases eq_or_lt_of_le ha with rfl | ha
  · rw [acceptThreshold, zero_div, min_eq_left zero_le_one, mul_zero, min_eq_left hb.le]
  rw [acceptThreshold]
  rcases le_or_gt tiny b with hle | hlt
  · rw [max_eq_left hle, mul_min_of_nonneg _ _ hb.le, mul_div_cancel₀ _ hb.ne', mul_one]
  · -- so the target's probability is not small
    have hle : tiny ≤ a := by
      rcases h with h | h | h | h
      · exact absurd h hb.ne'
      · exact absurd h (not_le.mpr hlt)
      · exact absurd h ha.ne'
      · exact h
    rw [max_eq_right hlt.le, min_eq_right ((one_le_div htiny).mpr hle), mul_one,
      min_eq_right (hlt.le.trans hle)]

theorem Unguarded.accepted (h : Unguarded E p q) (hp : IsDist p) (hq : IsDist q) (x : ℕ) :
    accepted E p q x = if E x then 0 else min (p.getD x 0) (q.getD x 0) := by
  rw [Speculative.accepted]
  cases hx : E x with
  | true => rfl
  | false =>
    exact mul_acceptThreshold (hp.getD_nonneg x) (hq.getD_nonneg x) (h.threshold x hx)

/-! ### What is never verified -/

theorem one_sub_eosMass (hq : IsDist q) (E : ℕ → Bool) :
    1 - eosMass E q = ∑ t ∈ Finset.range q.length, if E t then 0 else q.getD t 0 := by
  have hone : ∑ t ∈ Finset.range q.length, q.getD t 0 = 1 :=
    (sum_range_getD q le_rfl).trans hq.sum
  rw [← hone, eosMass, ← Finset.sum_sub_distrib]
  refine Finset.sum_congr rfl fun t _ => ?_
  split <;> ring

theorem eosMass_le_one (hq : IsDist q) (E : ℕ → Bool) : eosMass E q ≤ 1 := by
  rw [← sub_nonneg, one_sub_eosMass hq]
  refine Finset.sum_nonneg fun t _ => ?_
  split
  · exact le_rfl
  · exact hq.getD_nonneg t

theorem eosMass_eq_zero_iff (hq : IsDist q) :
    eosMass E q = 0 ↔ ∀ t, E t = true → q.getD t 0 = 0 := by
  rw [eosMass, Finset.sum_eq_zero_iff_of_nonneg (fun t _ => by
    split
    · exact hq.getD_nonneg t
    · exact le_rfl)]
  constructor
  · intro h t ht
    by_cases hlen : t < q.length
    · simpa only [ht, if_true] using h t (Finset.mem_range.mpr hlen)
    · exact List.getD_eq_default _ _ (not_lt.mp hlen)
  · intro h t _
    split
    · exact h t ‹_›
    · rfl

theorem eosMass_eq_one_iff (hq : IsDist q) :
    eosMass E q = 1 ↔ ∀ t, E t = false → q.getD t 0 = 0 := by
  rw [eq_comm, ← sub_eq_zero, one_sub_eosMass hq, Finset.sum_eq_zero_iff_of_nonneg (fun t _ => by
    split
    · exact le_rfl
    · exact hq.getD_nonneg t)]
  constructor
  · intro h t ht
    by_cases hlen : t < q.length
    · simpa only [ht, Bool.false_eq_true, if_false] using h t (Finset.mem_range.mpr hlen)
    · exact List.getD_eq_default _ _ (not_lt.mp hlen)
  · intro h t _
    split
    · rfl
    · exact h t (Bool.not_eq_true _ ▸ ‹_›)

/-- Where the target is the residual too, nothing is to be rejected. -/
theorem harmless_of_balanced_target (h : Unguarded E p q) (hp : IsDist p) (hq : IsDist q)
    (hle : ∀ t, E t = false → q.getD t 0 ≤ p.getD t 0) {r : ℝ}
    (hr : ∀ x, (1 - eosMass E q) * p.getD x 0 = accepted E p q x + r * p.getD x 0) :
    EosHarmless E p q := by
  have hoff : ∀ x, E x = false → q.getD x 0 = (1 - eosMass E q - r) * p.getD x 0 := by
    intro x hx
    have hx' := hr x
    rw [h.accepted hp hq, hx, if_neg Bool.false_ne_true, min_eq_right (hle x hx)] at hx'
    linarith
  have hon : ∀ x, E x = true → (1 - eosMass E q - r) * p.getD x 0 = 0 := by
    intro x hx
    have hx' := hr x
    rw [h.accepted hp hq, hx, if_pos rfl] at hx'
    linarith
  rcases eq_or_ne (1 - eosMass E q - r) 0 with h0 | hne
  · refine .inr (.inl fun t ht => ?_)
    rw [hoff t ht, h0, zero_mul]
  · have hpE : ∀ t, E t = true → p.getD t 0 = 0 :=
      fun t ht => (mul_eq_zero.mp (hon t ht)).resolve_left hne
    refine .inr (.inr ⟨1 - eosMass E q - r, fun t ht => ?_, .inr (.inl hpE)⟩)
    cases hEt : E t with
    | true => exact absurd (hpE t hEt) ht.ne'
    | false => exact hoff t hEt

/-- Where the residual is the excess, the draft is in proportion to the target, and the
two are balanced off `E` or on it, but not on both. -/
theorem harmless_of_balanced_excess (h : Unguarded E p q) (hp : IsDist p) (hq : IsDist q)
    (h0 : 0 < eosMass E q) (h1 : eosMass E q < 1) {r : ℝ}
    (hr : ∀ x, (1 - eosMass E q) * p.getD x 0 = accepted E p q x + r * excess p q x) :
    EosHarmless E p q := by
  have haccepted := h.accepted hp hq
  generalize eosMass E q = e at h0 h1 hr
  have hlt : ∀ x, 0 < p.getD x 0 → q.getD x 0 < p.getD x 0 := by
    intro x hx
    by_contra hge
    have hge := not_lt.mp hge
    have hx' := hr x
    rw [haccepted, excess, max_eq_right (sub_nonpos.mpr hge), mul_zero, add_zero,
      min_eq_left hge] at hx'
    split at hx'
    · nlinarith
    · nlinarith
  have hon : ∀ x, E x = true → 0 < p.getD x 0 →
      (1 - e) * p.getD x 0 = r * (p.getD x 0 - q.getD x 0) := by
    intro x hE hx
    have hx' := hr x
    rwa [haccepted, hE, if_pos rfl, zero_add, excess,
      max_eq_left (sub_nonneg.mpr (hlt x hx).le)] at hx'
  have hoff : ∀ x, E x = false → 0 < p.getD x 0 →
      (1 - e) * p.getD x 0 = q.getD x 0 + r * (p.getD x 0 - q.getD x 0) := by
    intro x hE hx
    have hx' := hr x
    rwa [haccepted, hE, if_neg Bool.false_ne_true, min_eq_right (hlt x hx).le, excess,
      max_eq_left (sub_nonneg.mpr (hlt x hx).le)] at hx'
  rcases lt_trichotomy r (1 - e) with hr' | hr' | hr'
  · -- too little for `E`
    have hpE : ∀ t, E t = true → p.getD t 0 = 0 := by
      intro t hE
      by_contra hne
      have hpos := lt_of_le_of_ne (hp.getD_nonneg t) (Ne.symm hne)
      have hq0 := hq.getD_nonneg t
      have heq := hon t hE hpos
      have hlt' := hlt t hpos
      nlinarith [mul_nonneg (sub_nonneg.mpr h1.le) hq0,
        mul_pos (sub_pos.mpr hr') (sub_pos.mpr hlt')]
    refine .inr (.inr ⟨(1 - e - r) / (1 - r), fun t ht => ?_, .inr (.inl hpE)⟩)
    cases hE : E t with
    | true => exact absurd (hpE t hE) ht.ne'
    | false =>
      have hden : (1 - r) ≠ 0 := by linarith
      have heq := hoff t hE ht
      rw [div_mul_eq_mul_div, eq_div_iff hden]
      linarith
  · refine .inr (.inr ⟨0, fun t ht => ?_, .inl rfl⟩)
    rw [zero_mul]
    cases hE : E t with
    | true =>
      have heq := hon t hE ht
      rw [hr'] at heq
      have hmul : (1 - e) * q.getD t 0 = 0 := by linarith
      exact (mul_eq_zero.mp hmul).resolve_left (sub_pos.mpr h1).ne'
    | false =>
      have heq := hoff t hE ht
      rw [hr'] at heq
      have hmul : e * q.getD t 0 = 0 := by linarith
      exact (mul_eq_zero.mp hmul).resolve_left h0.ne'
  · -- too much for the other tokens
    have hpoff : ∀ t, E t = false → p.getD t 0 = 0 := by
      intro t hE
      by_contra hne
      have hpos := lt_of_le_of_ne (hp.getD_nonneg t) (Ne.symm hne)
      have hq0 := hq.getD_nonneg t
      have heq := hoff t hE hpos
      have hlt' := hlt t hpos
      nlinarith [mul_nonneg h0.le hq0, mul_pos (sub_pos.mpr hr') (sub_pos.mpr hlt')]
    refine .inr (.inr ⟨(r - (1 - e)) / r, fun t ht => ?_, .inr (.inr hpoff)⟩)
    cases hE : E t with
    | false => exact absurd (hpoff t hE) ht.ne'
    | true =>
      have hden : r ≠ 0 := by linarith
      have heq := hon t hE ht
      rw [div_mul_eq_mul_div, eq_div_iff hden]
      linarith

theorem harmless_of_balanced (h : Unguarded E p q) (hp : IsDist p) (hq : IsDist q)
    (hb : Balanced E p q) : EosHarmless E p q := by
  rcases eq_or_lt_of_le (eosMass_nonneg hq E) with h0 | h0
  · exact .inl ((eosMass_eq_zero_iff hq).mp h0.symm)
  rcases eq_or_lt_of_le (eosMass_le_one hq E) with h1 | h1
  · exact .inr (.inl ((eosMass_eq_one_iff hq).mp h1))
  obtain ⟨r, hr⟩ := hb
  by_cases hz : tiny < totalExcess p q
  · refine harmless_of_balanced_excess h hp hq h0 h1 (r := r / totalExcess p q) fun x => ?_
    rw [hr x, residualProb, if_pos hz, mul_div_assoc', div_mul_eq_mul_div]
  · refine harmless_of_balanced_target h hp hq (h.residual.resolve_left hz) (r := r) fun x => ?_
    rw [hr x, residualProb, if_neg hz]

/-- Vectors of one sum, one below the other, agree. -/
theorem getD_eq_of_le (hp : IsDist p) (hq : IsDist q) (h : ∀ t, q.getD t 0 ≤ p.getD t 0) (x : ℕ) :
    q.getD x 0 = p.getD x 0 := by
  have hsum : ∑ t ∈ Finset.range (max p.length q.length), (p.getD t 0 - q.getD t 0) = 0 := by
    rw [Finset.sum_sub_distrib, sum_range_getD p (le_max_left _ _),
      sum_range_getD q (le_max_right _ _), hp.sum, hq.sum, sub_self]
  have hall := (Finset.sum_eq_zero_iff_of_nonneg fun t _ => sub_nonneg.mpr (h t)).mp hsum
  by_cases hx : x < max p.length q.length
  · exact (sub_eq_zero.mp (hall x (Finset.mem_range.mpr hx))).symm
  · obtain ⟨hpx, hqx⟩ := max_le_iff.mp (not_lt.mp hx)
    rw [List.getD_eq_default _ _ hpx, List.getD_eq_default _ _ hqx]

/-- **Rejection sampling.**  Where nothing is drafted from `E`, accepting and replacing
from the residual give the target. -/
theorem balanced_of_verified (h : Unguarded E p q) (hp : IsDist p) (hq : IsDist q)
    (hE : ∀ t, E t = true → q.getD t 0 = 0) : Balanced E p q := by
  have haccepted : ∀ x, accepted E p q x = min (p.getD x 0) (q.getD x 0) := by
    intro x
    rw [h.accepted hp hq]
    split
    · rw [hE x ‹_›, min_eq_right (hp.getD_nonneg x)]
    · rfl
  have hexact : ∀ x, p.getD x 0 = accepted E p q x + excess p q x := by
    intro x
    rw [haccepted, excess]
    rcases le_total (p.getD x 0) (q.getD x 0) with hle | hle
    · rw [min_eq_left hle, max_eq_right (sub_nonpos.mpr hle), add_zero]
    · rw [min_eq_right hle, max_eq_left (sub_nonneg.mpr hle)]
      ring
  rw [Balanced, (eosMass_eq_zero_iff hq).mpr hE]
  by_cases hz : tiny < totalExcess p q
  · refine ⟨totalExcess p q, fun x => ?_⟩
    rw [residualProb, if_pos hz, mul_div_cancel₀ _ (tiny_pos.trans hz).ne', ← hexact, sub_zero,
      one_mul]
  · -- then the draft is the target
    have hle : ∀ t, q.getD t 0 ≤ p.getD t 0 := by
      intro t
      cases ht : E t with
      | true =>
        rw [hE t ht]
        exact hp.getD_nonneg t
      | false => exact h.residual.resolve_left hz t ht
    refine ⟨0, fun x => ?_⟩
    rw [haccepted, getD_eq_of_le hp hq hle x, min_self, sub_zero, one_mul, zero_mul, add_zero]

/-- Where the draft is in proportion to the target, so is the residual. -/
theorem residualProb_of_proportional (hp : IsDist p) (hq : IsDist q) {a : ℝ}
    (ha : ∀ t, 0 < p.getD t 0 → q.getD t 0 = a * p.getD t 0) :
    ∃ b, b ≠ 0 ∧ ∀ x, residualProb p q x = b * p.getD x 0 := by
  have hexcess : ∀ x, excess p q x = max (1 - a) 0 * p.getD x 0 := by
    intro x
    rw [excess]
    rcases eq_or_lt_of_le (hp.getD_nonneg x) with hx | hx
    · rw [← hx, zero_sub, mul_zero, max_eq_right (neg_nonpos.mpr (hq.getD_nonneg x))]
    · rw [ha x hx, max_mul_of_nonneg _ _ hx.le, zero_mul, sub_mul, one_mul]
  by_cases hz : tiny < totalExcess p q
  · refine ⟨max (1 - a) 0 / totalExcess p q, ?_, fun x => ?_⟩
    · refine div_ne_zero (fun hzero => ?_) (tiny_pos.trans hz).ne'
      have hnone : totalExcess p q = 0 :=
        Finset.sum_eq_zero fun x _ => by rw [hexcess, hzero, zero_mul]
      exact (tiny_pos.trans hz).ne' hnone
    · rw [residualProb, if_pos hz, hexcess, div_mul_eq_mul_div]
  · refine ⟨1, one_ne_zero, fun x => ?_⟩
    rw [residualProb, if_neg hz, one_mul]

theorem balanced_of_harmless (h : Unguarded E p q) (hp : IsDist p) (hq : IsDist q)
    (hE : EosHarmless E p q) : Balanced E p q := by
  rcases hE with hE | hoff | ⟨a, ha, hcases⟩
  · exact balanced_of_verified h hp hq hE
  · -- nothing is verified: the bonus token is the target's
    refine ⟨0, fun x => ?_⟩
    rw [(eosMass_eq_one_iff hq).mpr hoff, h.accepted hp hq, sub_self, zero_mul, zero_mul, add_zero]
    split
    · rfl
    · rw [hoff x (Bool.not_eq_true _ ▸ ‹_›), min_eq_right (hp.getD_nonneg x)]
  · obtain ⟨b, hb, hres⟩ := residualProb_of_proportional hp hq ha
    -- it is enough that what is accepted is in proportion to the target too
    suffices hm : ∃ m, ∀ x, accepted E p q x = m * p.getD x 0 by
      obtain ⟨m, hm⟩ := hm
      refine ⟨(1 - eosMass E q - m) / b, fun x => ?_⟩
      rw [hm, hres, ← mul_assoc, div_mul_cancel₀ _ hb]
      ring
    have hmin : ∀ x, min (p.getD x 0) (q.getD x 0) = min 1 a * p.getD x 0 := by
      intro x
      rcases eq_or_lt_of_le (hp.getD_nonneg x) with hx | hx
      · rw [← hx, mul_zero, min_eq_left (hq.getD_nonneg x)]
      · rw [ha x hx, min_mul_of_nonneg _ _ hx.le, one_mul]
    rcases hcases with rfl | hpE | hpoff
    · refine ⟨0, fun x => ?_⟩
      rw [h.accepted hp hq, hmin, min_eq_right zero_le_one, zero_mul, ite_self]
    · refine ⟨min 1 a, fun x => ?_⟩
      rw [h.accepted hp hq, hmin]
      split
      · rw [hpE x ‹_›, mul_zero]
      · rfl
    · refine ⟨0, fun x => ?_⟩
      rw [h.accepted hp hq, hmin, zero_mul]
      split
      · rfl
      · rw [hpoff x (Bool.not_eq_true _ ▸ ‹_›), mul_zero]

/-- The exact condition: where no guard acts, that the end-of-sequence tokens of the draft
do no harm; where one does, that the vectors are balanced all the same. -/
def SamplesTarget (E : ℕ → Bool) (p q : List ℝ) : Prop :=
  (Unguarded E p q → EosHarmless E p q) ∧ (¬Unguarded E p q → Balanced E p q)

theorem balanced_iff (hp : IsDist p) (hq : IsDist q) :
    Balanced E p q ↔ SamplesTarget E p q := by
  constructor
  · intro hb
    exact ⟨fun h => harmless_of_balanced h hp hq hb, fun _ => hb⟩
  · rintro ⟨hun, hguard⟩
    by_cases h : Unguarded E p q
    · exact balanced_of_harmless h hp hq (hun h)
    · exact hguard h

/-- **Exactly when speculative decoding samples from the target.**  In a round without
errors that may draft a token, the first token committed has the target's law exactly if
the draft's end-of-sequence tokens, which are never verified, do no harm. -/
theorem law_exact_iff {c : SpeculativeEngine ℝ L} {maxTokens : ℕ} {s : LoopState L} (hc : Total c)
    (hk : 0 < min c.numSpeculative (maxTokens - s.tokensGenerated))
    (hp : IsDist (c.softmax s.targetNextLogits)) (hq : IsDist (c.softmax s.draftNextLogits)) :
    (∀ x, law c maxTokens s x = ENNReal.ofReal ((c.softmax s.targetNextLogits).getD x 0)) ↔
      SamplesTarget c.draft.isEos (c.softmax s.targetNextLogits) (c.softmax s.draftNextLogits) :=
  (law_exact_iff_balanced hc hk hp hq).trans (balanced_iff hp hq)

/-! ### A pair that agrees -/

/-- An engine for two tokens, the first of which ends the text. -/
def coinEngine : Engine ℕ where
  forward cache := some cache.length
  isEos token := token == 0
  decode token := some (toString token)
  prefillChunkSize := 0

/-- Draft and target toss the same fair coin. -/
noncomputable def coins : SpeculativeEngine ℝ ℕ where
  draft := coinEngine
  target := coinEngine
  numSpeculative := 4
  softmax _ := [1 / (2 : ℕ), 1 / (2 : ℕ)]

/-- At the top of the first round after a prompt of one token. -/
def coinsStart : LoopState ℕ where
  draftCache := [1]
  targetCache := [1]
  draftNextLogits := 1
  targetNextLogits := 1
  committedLen := 1
  generated := ""
  tokensGenerated := 0
  emitted := []

private theorem coins_total : Total coins :=
  ⟨fun _ => rfl, fun _ => rfl, fun _ => rfl⟩

private theorem coins_isDist (n : ℕ) : IsDist (coins.softmax n) := by
  constructor
  · intro x hx
    have hx : x ∈ [(1 / 2 : ℝ), 1 / 2] := hx
    simp only [List.mem_cons, List.not_mem_nil, or_false, or_self] at hx
    rw [hx]
    norm_num
  · show [(1 / 2 : ℝ), 1 / 2].sum = 1
    norm_num

theorem law_exact_iff_coins :
    (∀ x, law coins 8 coinsStart x = ENNReal.ofReal (([1 / 2, 1 / 2] : List ℝ).getD x 0)) ↔
      SamplesTarget coinEngine.isEos [1 / 2, 1 / 2] [1 / 2, 1 / 2] :=
  law_exact_iff (c := coins) (s := coinsStart) coins_total (by decide) (coins_isDist 1)
    (coins_isDist 1)

/-- **The law is not the target's.**  With two fair coins the round ends the text with
probability one in four: half of the time the draft does, and then it is tossed again. -/
theorem law_coins_eos :
    Total coins ∧ IsDist (coins.softmax 1) ∧ law coins 8 coinsStart 0 = ENNReal.ofReal (1 / 4) ∧
      law coins 8 coinsStart 0 ≠ ENNReal.ofReal ((coins.softmax 1).getD 0 0) := by
  have hlaw : law coins 8 coinsStart 0 = ENNReal.ofReal (1 / 4) := by
    rw [law_eq_ofReal coins_total (by decide) (coins_isDist 1) (coins_isDist 1)]
    congr 1
    simp only [coins, coinEngine, eosMass, accepted, rejected, acceptThreshold, tiny]
    norm_num [Finset.sum_range_succ]
  refine ⟨coins_total, coins_isDist 1, hlaw, ?_⟩
  rw [hlaw]
  intro heq
  have hreal := (ENNReal.ofReal_eq_ofReal_iff (by norm_num) ((coins_isDist 1).getD_nonneg 0)).mp heq
  have hhalf : (coins.softmax 1).getD 0 0 = 1 / 2 := rfl
  rw [hhalf] at hreal
  norm_num at hreal

end Speculative

end Oxillama
