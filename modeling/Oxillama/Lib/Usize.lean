/-
Partial operations on machine words and slices.

An operation that panics in the source answers `none` here, and so does a
checked operation that overflows; each has one lemma that says exactly when it
answers and what.
-/
import Mathlib.Algebra.Group.Nat.Defs
import Mathlib.Data.List.Basic

namespace Oxillama

/-- `a - b` on `usize`: a panic when it would underflow. -/
def usizeSub (a b : ℕ) : Option ℕ := if b ≤ a then some (a - b) else none

/-- `a + b` on `usize`: a panic when it would overflow. -/
def usizeAdd (a b : ℕ) : Option ℕ := if a + b < 2 ^ 64 then some (a + b) else none

/-- `xs[a..b]`: a panic when the range is out of bounds. -/
def sliceRange {α : Type} (xs : List α) (a b : ℕ) : Option (List α) :=
  if a ≤ b ∧ b ≤ xs.length then some ((xs.drop a).take (b - a)) else none

/-- `a.checked_add(b)` on `u64`. -/
def checkedAdd (a b : ℕ) : Option ℕ := if a + b < 2 ^ 64 then some (a + b) else none

/-- `a.checked_mul(b)` on `u64`. -/
def checkedMul (a b : ℕ) : Option ℕ := if a * b < 2 ^ 64 then some (a * b) else none

/-- `a.saturating_add(b)` on `u64`. -/
def saturatingAdd (a b : ℕ) : ℕ := min (a + b) (2 ^ 64 - 1)

theorem usizeSub_eq_some {a b c : ℕ} : usizeSub a b = some c ↔ b ≤ a ∧ c = a - b := by
  unfold usizeSub
  split
  · rename_i h
    simp [h, eq_comm]
  · rename_i h
    simp [h]

theorem usizeSub_of_le {a b : ℕ} (h : b ≤ a) : usizeSub a b = some (a - b) :=
  usizeSub_eq_some.mpr ⟨h, rfl⟩

theorem usizeAdd_of_lt {a b : ℕ} (h : a + b < 2 ^ 64) : usizeAdd a b = some (a + b) := if_pos h

theorem sliceRange_of_le {α : Type} {xs : List α} {a n : ℕ} (h : a + n ≤ xs.length) :
    sliceRange xs a (a + n) = some ((xs.drop a).take n) := by
  rw [sliceRange, if_pos ⟨Nat.le_add_right a n, h⟩, Nat.add_sub_cancel_left]

theorem checkedAdd_eq_some {a b c : ℕ} :
    checkedAdd a b = some c ↔ a + b < 2 ^ 64 ∧ c = a + b := by
  rw [checkedAdd, Option.ite_none_right_eq_some, Option.some_inj, eq_comm (a := c)]

theorem checkedMul_eq_some {a b c : ℕ} :
    checkedMul a b = some c ↔ a * b < 2 ^ 64 ∧ c = a * b := by
  rw [checkedMul, Option.ite_none_right_eq_some, Option.some_inj, eq_comm (a := c)]

theorem saturatingAdd_of_lt {a b : ℕ} (h : a + b < 2 ^ 64) : saturatingAdd a b = a + b :=
  Nat.min_eq_left (by omega)

theorem sliceRange_eq_some {α : Type} {xs ys : List α} {a b : ℕ} :
    sliceRange xs a b = some ys ↔ a ≤ b ∧ b ≤ xs.length ∧ ys = (xs.drop a).take (b - a) := by
  unfold sliceRange
  split
  · rename_i h
    simp [h, eq_comm]
  · rename_i h
    rw [not_and] at h
    simp only [reduceCtorEq, false_iff, not_and]
    exact fun hab hb => absurd hb (h hab)

end Oxillama
