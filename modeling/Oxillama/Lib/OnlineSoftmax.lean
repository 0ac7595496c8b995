/-
Softmax attention, and its sums relative to a running maximum.

The exponential is any function into the positives that turns sums into products.

* `shiftedSum_mul` — sums relative to one number are corrected to another;
* `shiftedSum_range_add` — a tile of columns adds its own sum;
* `shiftedSum_div` — **whatever the sums are relative to, their quotient is softmax
  attention**.
-/
import Mathlib.Algebra.BigOperators.Field
import Mathlib.Algebra.Order.BigOperators.Group.Finset
import Mathlib.Algebra.Order.Field.Basic
import Mathlib.Tactic.Ring

namespace Oxillama

open Finset

/-- Softmax attention: the values of columns, averaged with the softmax of their scores as
weights. -/
def softmaxAttention {α : Type} [Field α] (exp : α → α) (cols : Finset ℕ) (score value : ℕ → α) :
    α :=
  (∑ c ∈ cols, exp (score c) * value c) / ∑ c ∈ cols, exp (score c)

/-- The weighted sum of values, with the scores relative to `m`. -/
def shiftedSum {α : Type} [Field α] (exp : α → α) (score : ℕ → α) (m : α) (cols : Finset ℕ)
    (value : ℕ → α) : α :=
  ∑ c ∈ cols, exp (score c - m) * value c

section Shifted

variable {α : Type} [Field α] {exp : α → α} {score value : ℕ → α} {m m' : α} {cols : Finset ℕ}

@[simp] theorem shiftedSum_empty : shiftedSum exp score m ∅ value = 0 := sum_empty

theorem shiftedSum_mul (hadd : ∀ a b, exp (a + b) = exp a * exp b) :
    shiftedSum exp score m cols value * exp (m - m') = shiftedSum exp score m' cols value := by
  rw [shiftedSum, shiftedSum, sum_mul]
  refine sum_congr rfl fun c _ => ?_
  have hexp : exp (score c - m') = exp (score c - m) * exp (m - m') := by
    rw [← hadd, sub_add_sub_cancel]
  rw [hexp]
  ring

/-- A tile of columns. -/
theorem shiftedSum_range_add (visible : ℕ → Prop) [DecidablePred visible] (j n : ℕ) :
    shiftedSum exp score m ((range (j + n)).filter visible) value =
      shiftedSum exp score m ((range j).filter visible) value +
        ∑ c ∈ range n, if visible (j + c) then exp (score (j + c) - m) * value (j + c) else 0 := by
  rw [shiftedSum, shiftedSum, sum_filter, sum_filter, sum_range_add]

variable [LinearOrder α]

/-- **The quotient of the shifted sums is softmax attention.** -/
theorem shiftedSum_div (hpos : ∀ a, 0 < exp a) (hadd : ∀ a b, exp (a + b) = exp a * exp b) :
    shiftedSum exp score m cols value / shiftedSum exp score m cols (fun _ => 1) =
      softmaxAttention exp cols score value := by
  have hfactor : ∀ f : ℕ → α, ∑ c ∈ cols, exp (score c) * f c =
      shiftedSum exp score m cols f * exp m := by
    intro f
    rw [shiftedSum, sum_mul]
    refine sum_congr rfl fun c _ => ?_
    have hexp : exp (score c) = exp (score c - m) * exp m := by rw [← hadd, sub_add_cancel]
    rw [hexp]
    ring
  have hone : ∑ c ∈ cols, exp (score c) = shiftedSum exp score m cols (fun _ => 1) * exp m := by
    rw [← hfactor]
    exact sum_congr rfl fun c _ => (mul_one _).symm
  rw [softmaxAttention, hfactor, hone, mul_div_mul_right _ _ (hpos m).ne']

variable [IsStrictOrderedRing α]

theorem shiftedSum_pos (hpos : ∀ a, 0 < exp a) (hcols : cols.Nonempty) :
    0 < shiftedSum exp score m cols fun _ => 1 :=
  sum_pos (fun _ _ => mul_pos (hpos _) one_pos) hcols

end Shifted

end Oxillama
