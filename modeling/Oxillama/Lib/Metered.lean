/-
Calls that are paid for with tokens.

Tokens come in at a fixed rate up to a capacity, and an accepted call takes one.  Whatever a
meter does beyond that, `Metered capacity rate tokens since calls` says that it never spends
more than that gives, starting with `tokens` at the time `since`.

* `Metered.inWindow_le` — what a meter accepts from some time on;
* `Metered.inWindow_le_capacity` — what it accepts in any window: the capacity, and what comes
  in while the window lasts.
-/
import Mathlib.Algebra.Order.Ring.Defs
import Mathlib.Tactic.Linarith

namespace Oxillama

variable {K : Type*} [LinearOrder K]

/-- The number of accepted calls from `first` to `last`. -/
def inWindow (first last : K) (calls : List (K × Bool)) : ℕ :=
  calls.countP fun call => decide (first ≤ call.1 ∧ call.1 ≤ last) && call.2

theorem inWindow_cons (first last now : K) (accepted : Bool) (calls : List (K × Bool)) :
    inWindow first last ((now, accepted) :: calls) = inWindow first last calls +
      if (first ≤ now ∧ now ≤ last) ∧ accepted then 1 else 0 := by
  simp [inWindow, List.countP_cons]

/-- A call outside of the window does not count. -/
theorem inWindow_cons_of_outside {first last now : K} (accepted : Bool) (calls : List (K × Bool))
    (hnow : ¬ (first ≤ now ∧ now ≤ last)) :
    inWindow first last ((now, accepted) :: calls) = inWindow first last calls := by
  rw [inWindow_cons, if_neg fun hcounts => hnow hcounts.1, Nat.add_zero]

/-- A call counts for no more than it takes. -/
theorem inWindow_cons_le (first last now : K) (accepted : Bool) (calls : List (K × Bool)) :
    inWindow first last ((now, accepted) :: calls) ≤
      inWindow first last calls + if accepted then 1 else 0 := by
  rw [inWindow_cons]
  refine Nat.add_le_add_left ?_ _
  split
  · rename_i hcounts
    rw [if_pos hcounts.2]
  · exact Nat.zero_le _

variable [CommRing K]

/-- The calls, each with its time and whether it was accepted, never spend more tokens than
there are: `tokens` at the time `since`, and then `rate` for each unit of time, with at most
`capacity` at any time. -/
inductive Metered (capacity rate : K) : K → K → List (K × Bool) → Prop
  | nil (tokens since : K) : Metered capacity rate tokens since []
  | cons {tokens tokens' since now : K} {accepted : Bool} {calls : List (K × Bool)}
      (hnow : since ≤ now) (hleft : 0 ≤ tokens')
      (hspent : tokens' + (if accepted then 1 else 0) ≤
        min (tokens + rate * (now - since)) capacity)
      (hrest : Metered capacity rate tokens' now calls) :
      Metered capacity rate tokens since ((now, accepted) :: calls)

namespace Metered

variable {capacity rate tokens since first last : K} {calls : List (K × Bool)}

/-- After the window nothing counts. -/
theorem inWindow_of_lt (h : Metered capacity rate tokens since calls) (hlate : last < since) :
    inWindow first last calls = 0 := by
  induction h with
  | nil => rfl
  | cons hnow _ _ _ ih =>
    have hlate' := lt_of_lt_of_le hlate hnow
    rw [inWindow_cons_of_outside _ _ fun hin => not_lt.2 hin.2 hlate']
    exact ih hlate'

variable [IsStrictOrderedRing K]

/-- **From some time on** a meter accepts no more calls than it has tokens and than come in. -/
theorem inWindow_le (hrate : 0 ≤ rate) (h : Metered capacity rate tokens since calls)
    (htokens : 0 ≤ tokens) (hsince : since ≤ last) :
    (inWindow first last calls : K) ≤ tokens + rate * (last - since) := by
  induction h with
  | nil tokens since =>
    have hin := mul_nonneg hrate (sub_nonneg.2 hsince)
    simpa [inWindow] using add_nonneg htokens hin
  | @cons tokens tokens' since now accepted calls hnow hleft hspent hrest ih =>
    have hspent' := le_trans hspent (min_le_left _ _)
    rcases lt_or_ge last now with hlate | hlast
    · -- this call and those after it come too late
      rw [inWindow_cons_of_outside _ _ fun hin => not_lt.2 hin.2 hlate,
        hrest.inWindow_of_lt hlate, Nat.cast_zero]
      exact add_nonneg htokens (mul_nonneg hrate (sub_nonneg.2 hsince))
    · have hcall : (inWindow first last ((now, accepted) :: calls) : K) ≤
          inWindow first last calls + if accepted then 1 else 0 := by
        exact_mod_cast inWindow_cons_le first last now accepted calls
      have hafter := ih hleft hlast
      rw [mul_sub] at hspent' hafter ⊢
      linarith

/-- **In any window** a meter accepts no more calls than the capacity and than come in while
the window lasts. -/
theorem inWindow_le_capacity (hcapacity : 0 ≤ capacity) (hrate : 0 ≤ rate)
    (h : Metered capacity rate tokens since calls) (hwindow : first ≤ last) :
    (inWindow first last calls : K) ≤ capacity + rate * (last - first) := by
  have hin := mul_nonneg hrate (sub_nonneg.2 hwindow)
  induction h with
  | nil => simpa [inWindow] using add_nonneg hcapacity hin
  | @cons tokens tokens' since now accepted calls hnow hleft hspent hrest ih =>
    rcases lt_or_ge now first with hearly | hfirst
    · rw [inWindow_cons_of_outside _ _ fun hcounts => not_lt.2 hcounts.1 hearly]
      exact ih
    · rcases lt_or_ge last now with hlate | hlast
      · rw [inWindow_cons_of_outside _ _ fun hcounts => not_lt.2 hcounts.2 hlate,
          hrest.inWindow_of_lt hlate, Nat.cast_zero]
        exact add_nonneg hcapacity hin
      · -- from here on there are at most the tokens of a full bucket
        have hspent' := le_trans hspent (min_le_right _ _)
        have hafter : (inWindow first last calls : K) ≤ tokens' + rate * (last - now) :=
          hrest.inWindow_le hrate hleft hlast
        have hshorter := mul_le_mul_of_nonneg_left (sub_le_sub_left hfirst last) hrate
        have hcall : (inWindow first last ((now, accepted) :: calls) : K) ≤
            inWindow first last calls + if accepted then 1 else 0 := by
          exact_mod_cast inWindow_cons_le first last now accepted calls
        linarith

end Metered

end Oxillama
