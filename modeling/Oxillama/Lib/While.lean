/-
Loops that count up to a bound.

`whileBelow n step body` is `while i < n { body; i += step }`.  It has no result
when the counter stops below the bound, as it does with steps of zero.

* `whileBelow_inv` — **with positive steps the loop ends, in a state that satisfies
  its invariant**.
-/
import Mathlib.Order.Basic
import Mathlib.Tactic.Ring

namespace Oxillama

variable {σ : Type}

/-- At most `fuel` rounds of a loop. -/
def whileRounds (n step : ℕ) (body : ℕ → σ → Option σ) : ℕ → ℕ → σ → Option σ
  | 0, i, s => if i < n then none else some s
  | fuel + 1, i, s =>
    if i < n then (body i s).bind (whileRounds n step body fuel (i + step)) else some s

/-- `while i < n { body; i += step; }`, from `i = 0`.  More than `n` rounds take a step of
zero, and then the loop never ends. -/
def whileBelow (n step : ℕ) (body : ℕ → σ → Option σ) (s : σ) : Option σ :=
  whileRounds n step body n 0 s

variable {n step : ℕ} {body : ℕ → σ → Option σ} (inv : ℕ → σ → Prop) {s : σ}

theorem whileRounds_inv (hstep : 0 < step)
    (hbody : ∀ i s, i < n → inv i s → ∃ s', body i s = some s' ∧ inv (i + step) s')
    {fuel i : ℕ} (hfuel : n ≤ i + fuel) (h : inv i s) :
    ∃ s' i', whileRounds n step body fuel i s = some s' ∧ n ≤ i' ∧ inv i' s' := by
  induction fuel generalizing i s with
  | zero => exact ⟨s, i, if_neg (by omega), by omega, h⟩
  | succ fuel ih =>
    by_cases hi : i < n
    · obtain ⟨s', hs', hinv⟩ := hbody i s hi h
      obtain ⟨s'', i'', hrest, hend, hinv'⟩ := ih (by omega) hinv
      refine ⟨s'', i'', ?_, hend, hinv'⟩
      rw [whileRounds, if_pos hi, hs']
      exact hrest
    · exact ⟨s, i, if_neg hi, by omega, h⟩

/-- **The invariant rule.** -/
theorem whileBelow_inv (hstep : 0 < step) (h : inv 0 s)
    (hbody : ∀ i s, i < n → inv i s → ∃ s', body i s = some s' ∧ inv (i + step) s') :
    ∃ s' i, whileBelow n step body s = some s' ∧ n ≤ i ∧ inv i s' :=
  whileRounds_inv inv hstep hbody (by omega) h

end Oxillama
