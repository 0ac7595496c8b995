/-
Greedy merging of neighbours.

A list of pieces, and a rank for the pairs of pieces that may be merged: as long as there is
such a pair, the neighbours of the least rank are merged, the first of them if there are
several.

* `bestPair_eq_some`, `bestPair_eq_none` — what the best pair is;
* `bestPair_segment` — merging goes on until no pair is left;
* `greedy_congr` — two ranks that agree on the best pairs leave the same;
* `built_of_mem_segment` — **every piece that is left was built by merging**;
* `flatten_segment` — the pieces that are left make up the list.
-/
import Mathlib.Data.Nat.Notation
import Mathlib.Order.Defs.LinearOrder
import Mathlib.Order.Lattice

namespace Oxillama

variable {α κ : Type} [LinearOrder κ]

/-- The rank and the position of the neighbours to merge. -/
def bestPair (rank : List α → List α → Option κ) : List (List α) → Option (κ × ℕ)
  | p :: q :: rest =>
    match rank p q, bestPair rank (q :: rest) with
    | none, best => best.map fun best => (best.1, best.2 + 1)
    | some k, none => some (k, 0)
    | some k, some best => if k ≤ best.1 then some (k, 0) else some (best.1, best.2 + 1)
  | _ => none

/-- The neighbours at a position are merged. -/
def mergeAt : ℕ → List (List α) → List (List α)
  | 0, p :: q :: rest => (p ++ q) :: rest
  | i + 1, p :: rest => p :: mergeAt i rest
  | _, pieces => pieces

/-- What is left after at most `n` merges. -/
def greedy (rank : List α → List α → Option κ) : ℕ → List (List α) → List (List α)
  | 0, pieces => pieces
  | n + 1, pieces =>
    match bestPair rank pieces with
    | none => pieces
    | some best => greedy rank n (mergeAt best.2 pieces)

/-- The pieces that greedy merging leaves of a list. -/
def segment (rank : List α → List α → Option κ) (xs : List α) : List (List α) :=
  greedy rank xs.length (xs.map fun x => [x])

/-- What merging can build, in whatever order. -/
inductive Built (rank : List α → List α → Option κ) : List α → Prop where
  | single (x : α) : Built rank [x]
  | merge {p q : List α} {k : κ} : Built rank p → Built rank q → rank p q = some k →
      Built rank (p ++ q)

variable {rank : List α → List α → Option κ} {a b pieces : List (List α)} {p q : List α} {k : κ}
  {i n : ℕ}

theorem exists_of_bestPair (h : bestPair rank pieces = some (k, i)) :
    ∃ a p q b, pieces = a ++ p :: q :: b ∧ a.length = i ∧ rank p q = some k := by
  induction pieces generalizing k i with
  | nil => cases h
  | cons p pieces ih =>
    rcases pieces with - | ⟨q, rest⟩
    · cases h
    · have hlater {k' : κ} {i' : ℕ} (hbest : bestPair rank (q :: rest) = some (k', i')) :
          ∃ a p' q' b, p :: q :: rest = a ++ p' :: q' :: b ∧ a.length = i' + 1 ∧
            rank p' q' = some k' := by
        obtain ⟨a, p', q', b, hpieces, hlength, hrank⟩ := ih hbest
        exact ⟨p :: a, p', q', b, by rw [hpieces, List.cons_append], by simp [hlength], hrank⟩
      rw [bestPair] at h
      rcases hrank : rank p q with - | k₀
      · rw [hrank] at h
        obtain ⟨⟨k', i'⟩, hbest, heq⟩ := Option.map_eq_some_iff.1 h
        cases heq
        exact hlater hbest
      · rcases hbest : bestPair rank (q :: rest) with - | ⟨k', i'⟩
        · rw [hrank, hbest] at h
          cases h
          exact ⟨[], p, q, rest, rfl, rfl, hrank⟩
        · rw [hrank, hbest] at h
          dsimp only at h
          split at h
          · cases h
            exact ⟨[], p, q, rest, rfl, rfl, hrank⟩
          · cases h
            exact hlater hbest

/-- Without a best pair no neighbours have a rank. -/
theorem rank_eq_none_of_bestPair (h : bestPair rank pieces = none)
    (hpieces : pieces = a ++ p :: q :: b) : rank p q = none := by
  induction a generalizing pieces with
  | nil =>
    rw [hpieces, List.nil_append, bestPair] at h
    rcases hrank : rank p q with - | k
    · rfl
    · rw [hrank] at h
      rcases hbest : bestPair rank (q :: b) with - | best
      · rw [hbest] at h
        cases h
      · rw [hbest] at h
        dsimp only at h
        split at h
        · cases h
        · cases h
  | cons first a ih =>
    refine ih ?_ rfl
    obtain ⟨second, rest, hrest⟩ : ∃ second rest, a ++ p :: q :: b = second :: rest := by
      rcases a with - | ⟨second, a⟩
      · exact ⟨p, q :: b, rfl⟩
      · exact ⟨second, a ++ p :: q :: b, rfl⟩
    rw [hpieces, List.cons_append, hrest, bestPair] at h
    rw [hrest]
    rcases hbest : bestPair rank (second :: rest) with - | best
    · rfl
    · rw [hbest] at h
      rcases hrank : rank first second with - | k
      · rw [hrank] at h
        cases h
      · rw [hrank] at h
        dsimp only at h
        split at h
        · cases h
        · cases h

/-- No neighbours come before the best pair. -/
theorem bestPair_first {a' b' : List (List α)} {p' q' : List α} {k' : κ}
    (h : bestPair rank pieces = some (k, i)) (hpieces : pieces = a' ++ p' :: q' :: b')
    (hrank : rank p' q' = some k') : k < k' ∨ k = k' ∧ i ≤ a'.length := by
  induction pieces generalizing k i a' with
  | nil => cases h
  | cons p pieces ih =>
    rcases pieces with - | ⟨q, rest⟩
    · cases h
    · rw [bestPair] at h
      rcases a' with - | ⟨first, a'⟩
      · -- The pair in front: a later one is taken only if it is strictly better.
        obtain ⟨rfl, hrest⟩ := List.cons.inj hpieces
        obtain ⟨rfl, rfl⟩ := List.cons.inj hrest
        rw [hrank] at h
        rcases hbest : bestPair rank (q :: rest) with - | ⟨k₁, i₁⟩
        · rw [hbest] at h
          cases h
          exact .inr ⟨rfl, Nat.le_refl _⟩
        · rw [hbest] at h
          dsimp only at h
          split at h
          · cases h
            exact .inr ⟨rfl, Nat.le_refl _⟩
          next hle =>
            cases h
            exact .inl (not_le.1 hle)
      · -- A later pair: the best of the later ones is not behind it.
        obtain ⟨rfl, hrest⟩ := List.cons.inj hpieces
        rcases hbest : bestPair rank (q :: rest) with - | ⟨k₁, i₁⟩
        · rw [rank_eq_none_of_bestPair hbest hrest] at hrank
          cases hrank
        · have hlater := ih hbest hrest
          rw [hbest] at h
          rcases hfirst : rank p q with - | k₀
          · rw [hfirst] at h
            cases h
            refine hlater.imp_right fun hsame => ⟨hsame.1, ?_⟩
            rw [List.length_cons]
            omega
          · rw [hfirst] at h
            dsimp only at h
            split at h
            next hle =>
              cases h
              rcases hlater with hlt | ⟨rfl, -⟩
              · exact .inl (lt_of_le_of_lt hle hlt)
              · rcases lt_or_eq_of_le hle with hlt | heq
                · exact .inl hlt
                · exact .inr ⟨heq, Nat.zero_le _⟩
            next hle =>
              cases h
              refine hlater.imp_right fun hsame => ⟨hsame.1, ?_⟩
              rw [List.length_cons]
              omega

/-- No neighbours can be merged. -/
theorem bestPair_eq_none (h : ∀ a p q b, pieces = a ++ p :: q :: b → rank p q = none) :
    bestPair rank pieces = none := by
  rcases hbest : bestPair rank pieces with - | ⟨k, i⟩
  · rfl
  · obtain ⟨a, p, q, b, hpieces, -, hrank⟩ := exists_of_bestPair hbest
    rw [h a p q b hpieces] at hrank
    cases hrank

/-- The neighbours before which no others come. -/
theorem bestPair_eq_some (hrank : rank p q = some k)
    (hbest : ∀ a' p' q' b' k', a ++ p :: q :: b = a' ++ p' :: q' :: b' → rank p' q' = some k' →
      k < k' ∨ k = k' ∧ a.length ≤ a'.length) :
    bestPair rank (a ++ p :: q :: b) = some (k, a.length) := by
  induction a with
  | nil =>
    rw [List.nil_append, bestPair, hrank]
    rcases hlater : bestPair rank (q :: b) with - | ⟨k', i'⟩
    · rfl
    · obtain ⟨a', p', q', b', hpieces, -, hrank'⟩ := exists_of_bestPair hlater
      have hle : k ≤ k' := by
        rcases hbest (p :: a') p' q' b' k' (by rw [List.nil_append, hpieces]; rfl) hrank'
          with hlt | ⟨rfl, -⟩
        · exact le_of_lt hlt
        · exact le_rfl
      exact if_pos hle
  | cons first a ih =>
    have htail := ih fun a' p' q' b' k' hpieces hrank' => by
      rcases hbest (first :: a') p' q' b' k' (by rw [List.cons_append, hpieces]; rfl) hrank'
        with hlt | ⟨rfl, hle⟩
      · exact .inl hlt
      · exact .inr ⟨rfl, Nat.le_of_succ_le_succ hle⟩
    obtain ⟨second, rest, hrest⟩ : ∃ second rest, a ++ p :: q :: b = second :: rest := by
      rcases a with - | ⟨second, a⟩
      · exact ⟨p, q :: b, rfl⟩
      · exact ⟨second, a ++ p :: q :: b, rfl⟩
    rw [List.cons_append, hrest, bestPair, ← hrest, htail]
    rcases hfirst : rank first second with - | k'
    · rfl
    · have hlt : k < k' := by
        rcases hbest [] first second rest k' (by rw [List.cons_append, hrest]; rfl) hfirst
          with hlt | ⟨-, hle⟩
        · exact hlt
        · exact absurd hle (by simp)
      exact if_neg (not_le.2 hlt)

theorem mergeAt_append (a b : List (List α)) (p q : List α) :
    mergeAt a.length (a ++ p :: q :: b) = a ++ (p ++ q) :: b := by
  induction a with
  | nil => rfl
  | cons first a ih => exact congrArg (first :: ·) ih

theorem greedy_of_none (h : bestPair rank pieces = none) : greedy rank n pieces = pieces := by
  rcases n with - | n
  · rfl
  · rw [greedy, h]

/-- A merge leaves one piece less. -/
theorem length_mergeAt (h : bestPair rank pieces = some (k, i)) :
    (mergeAt i pieces).length + 1 = pieces.length := by
  obtain ⟨a, p, q, b, rfl, rfl, -⟩ := exists_of_bestPair h
  rw [mergeAt_append]
  simp only [List.length_append, List.length_cons]
  omega

/-- **Merging goes on** until no pair is left. -/
theorem bestPair_greedy (h : pieces.length ≤ n + 1) :
    bestPair rank (greedy rank n pieces) = none := by
  induction n generalizing pieces with
  | zero =>
    refine bestPair_eq_none fun a p q b hpieces => ?_
    have hlength := congrArg List.length hpieces
    simp only [greedy, List.length_append, List.length_cons] at hlength
    omega
  | succ n ih =>
    rw [greedy]
    rcases hbest : bestPair rank pieces with - | ⟨k, i⟩
    · exact hbest
    · have hlength := length_mergeAt hbest
      have hle : (mergeAt i pieces).length ≤ n + 1 := by omega
      exact ih hle

theorem bestPair_segment (rank : List α → List α → Option κ) (xs : List α) :
    bestPair rank (segment rank xs) = none := by
  refine bestPair_greedy ?_
  rw [List.length_map]
  omega

/-- **Two ranks** that choose the same neighbours at every step leave the same pieces. -/
theorem greedy_congr {κ' : Type} [LinearOrder κ'] {rank' : List α → List α → Option κ'}
    (h : ∀ m < n, (bestPair rank' (greedy rank m pieces)).map Prod.snd =
      (bestPair rank (greedy rank m pieces)).map Prod.snd) :
    greedy rank' n pieces = greedy rank n pieces := by
  induction n generalizing pieces with
  | zero => rfl
  | succ n ih =>
    have hfirst := h 0 (Nat.succ_pos n)
    rw [greedy] at hfirst
    rw [greedy, greedy]
    rcases hbest : bestPair rank pieces with - | ⟨k, i⟩
    · rw [hbest] at hfirst
      rw [Option.map_eq_none_iff.1 hfirst]
    · rw [hbest] at hfirst
      obtain ⟨⟨k', i'⟩, hbest', rfl⟩ := Option.map_eq_some_iff.1 hfirst
      rw [hbest']
      refine ih fun m hm => ?_
      have hlater := h (m + 1) (Nat.succ_lt_succ hm)
      rw [greedy, hbest] at hlater
      exact hlater

/-- **What merging keeps** holds of the pieces that are left. -/
theorem greedy_induction {Good : List α → Prop}
    (hmerge : ∀ p q k, rank p q = some k → Good p → Good q → Good (p ++ q))
    (hpieces : ∀ p ∈ pieces, Good p) : ∀ p ∈ greedy rank n pieces, Good p := by
  induction n generalizing pieces with
  | zero => exact hpieces
  | succ n ih =>
    rw [greedy]
    rcases hbest : bestPair rank pieces with - | ⟨k, i⟩
    · exact hpieces
    · obtain ⟨a, p, q, b, rfl, rfl, hrank⟩ := exists_of_bestPair hbest
      refine ih ?_
      rw [mergeAt_append]
      intro r hr
      rcases List.mem_append.1 hr with hr | hr
      · exact hpieces r (List.mem_append_left _ hr)
      · rcases List.mem_cons.1 hr with rfl | hr
        · exact hmerge p q k hrank (hpieces p (by simp)) (hpieces q (by simp))
        · exact hpieces r
            (List.mem_append_right _ (List.mem_cons_of_mem _ (List.mem_cons_of_mem _ hr)))

/-- **What is left was built** by merging. -/
theorem built_of_mem_segment {xs p : List α} (hp : p ∈ segment rank xs) : Built rank p := by
  refine greedy_induction (fun p q k hrank hp hq => .merge hp hq hrank) ?_ p hp
  intro p hp
  obtain ⟨x, -, rfl⟩ := List.mem_map.1 hp
  exact .single x

theorem flatten_greedy (rank : List α → List α → Option κ) (n : ℕ) (pieces : List (List α)) :
    (greedy rank n pieces).flatten = pieces.flatten := by
  induction n generalizing pieces with
  | zero => rfl
  | succ n ih =>
    rw [greedy]
    rcases hbest : bestPair rank pieces with - | ⟨k, i⟩
    · rfl
    · obtain ⟨a, p, q, b, rfl, rfl, -⟩ := exists_of_bestPair hbest
      refine (ih _).trans ?_
      rw [mergeAt_append]
      simp

/-- What is left makes up the list. -/
theorem flatten_segment (rank : List α → List α → Option κ) (xs : List α) :
    (segment rank xs).flatten = xs := by
  refine (flatten_greedy rank _ _).trans ?_
  induction xs with
  | nil => rfl
  | cons x xs ih => exact congrArg (x :: ·) ih

end Oxillama
