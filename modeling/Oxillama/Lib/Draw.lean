/-
Programs that draw random numbers.

A `Draw K α` ends with a result or asks for a number and goes on with it.

* `Possible` — the results a program can end with, whatever is drawn;
* `expect` — the expected value of a function of the result where every draw is
  uniform on `[0, 1)` and independent of the others, as an iterated integral;
* `pick` — choosing an index by cumulative weights, and `expect_pick`, that it
  chooses each index with its weight;
* `expect_accept` — comparing a draw with a threshold.
-/
import Mathlib.MeasureTheory.Integral.Lebesgue.Basic
import Mathlib.MeasureTheory.Measure.Lebesgue.Basic

namespace Oxillama

open MeasureTheory
open scoped ENNReal

/-- A program that may draw numbers of `K`. -/
inductive Draw (K α : Type)
  | pure (a : α)
  | draw (k : K → Draw K α)

namespace Draw

variable {K α β : Type}

/-- A program followed by another that uses its result. -/
def bind : Draw K α → (α → Draw K β) → Draw K β
  | pure a, f => f a
  | draw k, f => draw fun u => bind (k u) f

instance : Monad (Draw K) where
  pure := pure
  bind := bind

/-- One draw. -/
def next : Draw K K := draw pure

@[simp] theorem pure_bind (a : α) (f : α → Draw K β) : (pure a >>= f) = f a := rfl

@[simp] theorem draw_bind (k : K → Draw K α) (f : α → Draw K β) :
    (draw k >>= f) = draw fun u => k u >>= f := rfl

@[simp] theorem next_bind (f : K → Draw K β) : (next >>= f) = draw f := rfl

/-- The results a program can end with. -/
inductive Possible : Draw K α → α → Prop
  | pure (a : α) : Possible (pure a) a
  | draw {k : K → Draw K α} {a : α} (u : K) (h : Possible (k u) a) : Possible (draw k) a

@[simp] theorem possible_pure {a b : α} : Possible (pure a : Draw K α) b ↔ b = a := by
  constructor
  · rintro ⟨⟩
    rfl
  · rintro rfl
    exact .pure b

theorem possible_bind {d : Draw K α} {f : α → Draw K β} {b : β} :
    Possible (d >>= f) b ↔ ∃ a, Possible d a ∧ Possible (f a) b := by
  induction d with
  | pure a =>
    refine ⟨fun h => ⟨a, .pure a, h⟩, ?_⟩
    rintro ⟨a', ha', h⟩
    rwa [possible_pure.mp ha'] at h
  | draw k ih =>
    constructor
    · rintro (_ | ⟨u, h⟩)
      obtain ⟨a, ha, hb⟩ := (ih u).mp h
      exact ⟨a, .draw u ha, hb⟩
    · rintro ⟨a, _ | ⟨u, ha⟩, hb⟩
      exact .draw u ((ih u).mpr ⟨a, ha, hb⟩)

/-! ### Expected values -/

/-- The expected value of `f` of the result, for uniform draws. -/
noncomputable def expect (f : α → ℝ≥0∞) : Draw ℝ α → ℝ≥0∞
  | pure a => f a
  | draw k => ∫⁻ u in Set.Ico (0 : ℝ) 1, expect f (k u)

@[simp] theorem expect_pure (f : α → ℝ≥0∞) (a : α) : expect f (pure a) = f a := rfl

theorem expect_bind (f : β → ℝ≥0∞) (d : Draw ℝ α) (g : α → Draw ℝ β) :
    expect f (d >>= g) = expect (fun a => expect f (g a)) d := by
  induction d with
  | pure a => rfl
  | draw k ih => exact lintegral_congr fun u => ih u

/-- Where all possible results have one value, that is the expected value. -/
theorem expect_eq_of_possible {f : α → ℝ≥0∞} {x : ℝ≥0∞} {d : Draw ℝ α}
    (h : ∀ a, Possible d a → f a = x) : expect f d = x := by
  induction d with
  | pure a => exact h a (.pure a)
  | draw k ih =>
    have hconst : ∀ u, expect f (k u) = x := fun u => ih u fun a ha => h a (.draw u ha)
    rw [expect, lintegral_congr hconst, setLIntegral_const, Real.volume_Ico]
    simp

/-! ### Choosing by cumulative weights -/

section Pick

/-- The first index at which the cumulative weight, from `cumulative` on, exceeds `r`. -/
def pick [Add K] [LT K] [DecidableLT K] (r : K) : K → List K → Option ℕ
  | _, [] => none
  | cumulative, p :: ps =>
    if r < cumulative + p then some 0 else (pick r (cumulative + p) ps).map (· + 1)

private theorem lintegral_Ico_split {a b c : ℝ} (h : a ≤ b) (h' : b ≤ c) (f : ℝ → ℝ≥0∞) :
    ∫⁻ u in Set.Ico a c, f u = (∫⁻ u in Set.Ico a b, f u) + ∫⁻ u in Set.Ico b c, f u := by
  rw [← Set.Ico_union_Ico_eq_Ico h h', lintegral_union measurableSet_Ico]
  exact Set.disjoint_left.mpr fun u hu hu' => absurd hu.2 (not_lt.mpr hu'.1)

private theorem lintegral_Ico_of_eq {a b : ℝ} {f : ℝ → ℝ≥0∞} {x : ℝ≥0∞}
    (h : ∀ u, a ≤ u → u < b → f u = x) :
    ∫⁻ u in Set.Ico a b, f u = ENNReal.ofReal (b - a) * x := by
  have hconst : ∫⁻ u in Set.Ico a b, f u = ∫⁻ _ in Set.Ico a b, x :=
    setLIntegral_congr_fun measurableSet_Ico fun u hu => h u hu.1 hu.2
  rw [hconst, setLIntegral_const, Real.volume_Ico, mul_comm]

/-- The index picked by a uniform number of the interval that the weights cover. -/
theorem lintegral_pick (F : Option ℕ → ℝ≥0∞) {ps : List ℝ} (hps : ∀ p ∈ ps, 0 ≤ p) (c : ℝ) :
    ∫⁻ u in Set.Ico c (c + ps.sum), F (pick u c ps) =
      ∑ i ∈ Finset.range ps.length, ENNReal.ofReal (ps.getD i 0) * F (some i) := by
  induction ps generalizing c F with
  | nil => simp
  | cons p ps ih =>
    have hp : 0 ≤ p := hps p List.mem_cons_self
    have htail : ∀ p ∈ ps, 0 ≤ p := fun p hmem => hps p (List.mem_cons_of_mem _ hmem)
    have hsum : 0 ≤ ps.sum := List.sum_nonneg htail
    have hsplit : c + (p :: ps).sum = c + p + ps.sum := by rw [List.sum_cons, add_assoc]
    rw [hsplit, lintegral_Ico_split (b := c + p) (by linarith) (by linarith)]
    have hfirst : ∫⁻ u in Set.Ico c (c + p), F (pick u c (p :: ps)) =
        ENNReal.ofReal p * F (some 0) := by
      rw [lintegral_Ico_of_eq (x := F (some 0)), add_sub_cancel_left]
      intro u _ hu
      rw [pick, if_pos hu]
    have hrest : ∫⁻ u in Set.Ico (c + p) (c + p + ps.sum), F (pick u c (p :: ps)) =
        ∫⁻ u in Set.Ico (c + p) (c + p + ps.sum), F ((pick u (c + p) ps).map (· + 1)) := by
      refine setLIntegral_congr_fun measurableSet_Ico fun u hu => ?_
      rw [pick, if_neg (not_lt.mpr hu.1)]
    rw [hfirst, hrest, ih (fun o => F (o.map (· + 1))) htail, List.length_cons,
      Finset.sum_range_succ', add_comm]
    rfl

/-- **A uniform draw picks each index with its weight.** -/
theorem expect_pick (f : α → ℝ≥0∞) (k : Option ℕ → Draw ℝ α) {ps : List ℝ}
    (hps : ∀ p ∈ ps, 0 ≤ p) (hsum : ps.sum = 1) :
    expect f (next >>= fun r => k (pick r 0 ps)) =
      ∑ i ∈ Finset.range ps.length, ENNReal.ofReal (ps.getD i 0) * expect f (k (some i)) := by
  have hpick := lintegral_pick (fun o => expect f (k o)) hps 0
  rw [hsum, zero_add] at hpick
  exact hpick

/-- **A uniform draw stays within a threshold with that probability.** -/
theorem expect_accept (f : α → ℝ≥0∞) {t : ℝ} (ht : 0 ≤ t) (ht' : t ≤ 1) (d d' : Draw ℝ α) :
    expect f (next >>= fun u => if u ≤ t then d else d') =
      ENNReal.ofReal t * expect f d + ENNReal.ofReal (1 - t) * expect f d' := by
  show ∫⁻ u in Set.Ico (0 : ℝ) 1, expect f (if u ≤ t then d else d') = _
  have hae : ∫⁻ u in Set.Ico (0 : ℝ) 1, expect f (if u ≤ t then d else d') =
      ∫⁻ u in Set.Ico (0 : ℝ) 1, expect f (if u < t then d else d') := by
    -- the two differ at one number only
    refine lintegral_congr_ae ((ae_restrict_of_ae (measure_eq_zero_iff_ae_notMem.mp
      (Real.volume_singleton (a := t)))).mono fun u hu => ?_)
    have hne : u ≠ t := hu
    simp only [lt_iff_le_and_ne, hne, ne_eq, not_false_iff, and_true]
  rw [hae, lintegral_Ico_split ht ht',
    lintegral_Ico_of_eq (x := expect f d) fun u _ hu => by rw [if_pos hu],
    lintegral_Ico_of_eq (x := expect f d') fun u hu _ => by rw [if_neg (not_lt.mpr hu)], sub_zero]

end Pick

end Draw

end Oxillama
