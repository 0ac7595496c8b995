/-
Scanning a stream that arrives in pieces.

A `Scanner` reads one token off the front of a list of symbols, or says that the
symbols do not decide one yet.  What it decides it must not take back when more
symbols follow.

* `scan` — all tokens of a list, and the undecided rest;
* `scan_append` — scanning `a ++ b` is scanning `a`, and then its rest with `b`;
* `head_scan_rest` — the rest is where no token is decided.
-/
import Mathlib.Data.List.Basic

namespace Oxillama

variable {σ τ : Type*}

/-- A front end that reads tokens `τ` off a list of symbols `σ`. -/
structure Scanner (σ τ : Type*) where
  /-- The first token and the number of its symbols, where they decide one. -/
  head : List σ → Option (τ × ℕ)
  width : ∀ {s t w}, head s = some (t, w) → 0 < w ∧ w ≤ s.length
  stable : ∀ {s t w}, head s = some (t, w) → ∀ more, head (s ++ more) = some (t, w)

namespace Scanner

/-- All tokens of a list, and the rest that decides none. -/
def scan (S : Scanner σ τ) (s : List σ) : List τ × List σ :=
  match _h : S.head s with
  | none => ([], s)
  | some (t, w) =>
    let tail := S.scan (s.drop w)
    (t :: tail.1, tail.2)
termination_by s.length
decreasing_by
  have hw := S.width _h
  rw [List.length_drop]
  omega

variable {S : Scanner σ τ} {s : List σ}

theorem scan_of_head_eq_none (h : S.head s = none) : S.scan s = ([], s) := by
  rw [scan]
  split
  · rfl
  · rename_i heq
    rw [h] at heq
    cases heq

theorem scan_of_head_eq_some {t : τ} {w : ℕ} (h : S.head s = some (t, w)) :
    S.scan s = (t :: (S.scan (s.drop w)).1, (S.scan (s.drop w)).2) := by
  rw [scan]
  split
  · rename_i heq
    rw [h] at heq
    cases heq
  · rename_i heq
    obtain ⟨rfl, rfl⟩ := Prod.mk.inj (Option.some.inj (heq.symm.trans h))
    rfl

/-- Induction along the tokens of a list. -/
@[elab_as_elim]
theorem scan_induction (S : Scanner σ τ) {motive : List σ → Prop}
    (undecided : ∀ s, S.head s = none → motive s)
    (token : ∀ s t w, S.head s = some (t, w) → motive (s.drop w) → motive s) (s : List σ) :
    motive s := by
  induction hn : s.length using Nat.strongRecOn generalizing s with
  | _ n ih =>
    cases h : S.head s with
    | none => exact undecided s h
    | some tw =>
      obtain ⟨t, w⟩ := tw
      have hw := S.width h
      have hlt : (s.drop w).length < n := by
        rw [List.length_drop]
        omega
      exact token s t w h (ih _ hlt _ rfl)

/-- **Scanning does not depend on where the input is cut.** -/
theorem scan_append (S : Scanner σ τ) (a b : List σ) :
    S.scan (a ++ b) = ((S.scan a).1 ++ (S.scan ((S.scan a).2 ++ b)).1,
      (S.scan ((S.scan a).2 ++ b)).2) := by
  induction a using S.scan_induction with
  | undecided a h =>
    rw [scan_of_head_eq_none h]
    rfl
  | token a t w h ih =>
    have hw := S.width h
    rw [scan_of_head_eq_some (S.stable h b), scan_of_head_eq_some h,
      List.drop_append_of_le_length hw.2, ih]
    rfl

/-- The rest decides no token. -/
theorem head_scan_rest (S : Scanner σ τ) (s : List σ) : S.head (S.scan s).2 = none := by
  induction s using S.scan_induction with
  | undecided s h => rwa [scan_of_head_eq_none h]
  | token s t w h ih => rwa [scan_of_head_eq_some h]

end Scanner

end Oxillama
