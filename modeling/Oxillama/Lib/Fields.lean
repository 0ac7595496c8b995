/-
Texts that are written one behind the other with a separator between them.

Nothing keeps the separator out of the texts themselves, so one text can be read
as several lists of fields.

* `intercalate_eq_iff` — two lists of fields are written alike exactly if they are
  the same, or a field of one of them runs over a separator of the other
  (`Straddles`);
* `Straddles.exists_mem` — a field that does so contains the separator.
-/
import Mathlib.Data.List.Basic

namespace Oxillama

namespace Fields

variable {α : Type} {sep : α} {x y : List α} {xs ys : List (List α)}

/-- Two lists of fields are read off the same text: wherever one of them has a separator, the
other has it too, or has it inside of a field. -/
inductive ReadsAs (sep : α) : List (List α) → List (List α) → Prop
  | single (x : List α) : ReadsAs sep [x] [x]
  | cons (x : List α) {xs ys : List (List α)} (h : ReadsAs sep xs ys) :
      ReadsAs sep (x :: xs) (x :: ys)
  | left (x y : List α) {xs ys : List (List α)} (h : ReadsAs sep xs (y :: ys)) :
      ReadsAs sep (x :: xs) ((x ++ sep :: y) :: ys)
  | right (x y : List α) {xs ys : List (List α)} (h : ReadsAs sep (y :: xs) ys) :
      ReadsAs sep ((x ++ sep :: y) :: xs) (x :: ys)

/-- The first fields that are not the same: one of them is the other one, a separator and more,
and the rest reads on alike. -/
inductive Straddles (sep : α) : List (List α) → List (List α) → Prop
  | left (x y : List α) {xs ys : List (List α)} (h : ReadsAs sep xs (y :: ys)) :
      Straddles sep (x :: xs) ((x ++ sep :: y) :: ys)
  | right (x y : List α) {xs ys : List (List α)} (h : ReadsAs sep (y :: xs) ys) :
      Straddles sep ((x ++ sep :: y) :: xs) (x :: ys)
  | cons (x : List α) {xs ys : List (List α)} (h : Straddles sep xs ys) :
      Straddles sep (x :: xs) (x :: ys)

theorem ReadsAs.left_ne_nil (h : ReadsAs sep xs ys) : xs ≠ [] := by
  cases h <;> exact List.cons_ne_nil _ _

theorem ReadsAs.right_ne_nil (h : ReadsAs sep xs ys) : ys ≠ [] := by
  cases h <;> exact List.cons_ne_nil _ _

theorem intercalate_cons (h : xs ≠ []) :
    [sep].intercalate (x :: xs) = x ++ sep :: [sep].intercalate xs := by
  rw [List.intercalate_cons_of_ne_nil h, List.append_assoc, List.singleton_append]

theorem intercalate_append_cons :
    [sep].intercalate ((x ++ sep :: y) :: xs) = x ++ sep :: [sep].intercalate (y :: xs) := by
  cases xs with
  | nil => rw [List.intercalate_singleton, List.intercalate_singleton]
  | cons x' xs =>
    rw [intercalate_cons (List.cons_ne_nil _ _), intercalate_cons (List.cons_ne_nil _ _),
      List.append_assoc, List.cons_append]

theorem ReadsAs.refl (h : xs ≠ []) : ReadsAs sep xs xs := by
  induction xs with
  | nil => exact absurd rfl h
  | cons x xs ih =>
    by_cases hxs : xs = []
    · rw [hxs]
      exact .single x
    · exact .cons x (ih hxs)

/-- **Lists of fields that read alike** are those with one text. -/
theorem readsAs_iff (hx : xs ≠ []) (hy : ys ≠ []) :
    ReadsAs sep xs ys ↔ [sep].intercalate xs = [sep].intercalate ys := by
  constructor
  · intro h
    induction h with
    | single x => rfl
    | cons x h ih =>
      rw [intercalate_cons h.left_ne_nil, intercalate_cons h.right_ne_nil,
        ih h.left_ne_nil h.right_ne_nil]
    | left x y h ih =>
      rw [intercalate_cons h.left_ne_nil, intercalate_append_cons,
        ih h.left_ne_nil h.right_ne_nil]
    | right x y h ih =>
      rw [intercalate_cons h.right_ne_nil, intercalate_append_cons,
        ih h.left_ne_nil h.right_ne_nil]
  · intro h
    -- the list with the separator first goes one field further
    obtain ⟨n, hn⟩ : ∃ n, xs.length + ys.length = n := ⟨_, rfl⟩
    induction n using Nat.strongRecOn generalizing xs ys with
    | _ n ih =>
    subst hn
    obtain ⟨x, xs, rfl⟩ := List.exists_cons_of_ne_nil hx
    obtain ⟨y, ys, rfl⟩ := List.exists_cons_of_ne_nil hy
    rcases eq_or_ne xs [] with rfl | hxs
    · rcases eq_or_ne ys [] with rfl | hys
      · rw [List.intercalate_singleton, List.intercalate_singleton] at h
        rw [h]
        exact .single y
      · rw [List.intercalate_singleton, intercalate_cons hys] at h
        subst h
        exact .right y _ (ih _ (by simp) (List.cons_ne_nil _ _) hys List.intercalate_singleton rfl)
    · rcases eq_or_ne ys [] with rfl | hys
      · rw [List.intercalate_singleton, intercalate_cons hxs] at h
        subst h
        exact .left x _ (ih _ (by simp) hxs (List.cons_ne_nil _ _)
          List.intercalate_singleton.symm rfl)
      · rw [intercalate_cons hxs, intercalate_cons hys] at h
        rcases List.append_eq_append_iff.mp h with ⟨z, rfl, hz⟩ | ⟨z, rfl, hz⟩
        · cases z with
          | nil =>
            rw [List.nil_append, List.cons.injEq] at hz
            rw [List.append_nil]
            exact .cons x (ih _ (by simp only [List.length_cons]; omega) hxs hys hz.2 rfl)
          | cons c z =>
            rw [List.cons_append, List.cons.injEq] at hz
            obtain ⟨rfl, hz⟩ := hz
            refine .left x z (ih _ (by simp) hxs (List.cons_ne_nil _ _) ?_ rfl)
            rw [intercalate_cons hys, hz]
        · cases z with
          | nil =>
            rw [List.nil_append, List.cons.injEq] at hz
            rw [List.append_nil]
            exact .cons y (ih _ (by simp only [List.length_cons]; omega) hxs hys hz.2.symm rfl)
          | cons c z =>
            rw [List.cons_append, List.cons.injEq] at hz
            obtain ⟨rfl, hz⟩ := hz
            refine .right y z (ih _ (by simp) (List.cons_ne_nil _ _) hys ?_ rfl)
            rw [intercalate_cons hxs, hz]

theorem Straddles.readsAs (h : Straddles sep xs ys) : ReadsAs sep xs ys := by
  induction h with
  | left x y h => exact .left x y h
  | right x y h => exact .right x y h
  | cons x _ ih => exact .cons x ih

theorem Straddles.ne (h : Straddles sep xs ys) : xs ≠ ys := by
  induction h with
  | left x y _ =>
    intro heq
    have := List.self_eq_append_right.mp (List.cons.inj heq).1
    cases this
  | right x y _ =>
    intro heq
    have := List.append_right_eq_self.mp (List.cons.inj heq).1
    cases this
  | cons x _ ih => exact fun heq => ih (List.cons.inj heq).2

theorem ReadsAs.eq_or_straddles (h : ReadsAs sep xs ys) : xs = ys ∨ Straddles sep xs ys := by
  induction h with
  | single x => exact .inl rfl
  | cons x _ ih =>
    rcases ih with rfl | hstraddles
    · exact .inl rfl
    · exact .inr (.cons x hstraddles)
  | left x y h => exact .inr (.left x y h)
  | right x y h => exact .inr (.right x y h)

/-- **When lists of fields have one text**. -/
theorem intercalate_eq_iff (hx : xs ≠ []) (hy : ys ≠ []) :
    [sep].intercalate xs = [sep].intercalate ys ↔ xs = ys ∨ Straddles sep xs ys := by
  constructor
  · intro h
    exact ((readsAs_iff hx hy).mpr h).eq_or_straddles
  · rintro (rfl | h)
    · rfl
    · exact (readsAs_iff hx hy).mp h.readsAs

/-- A field that runs over a separator contains it. -/
theorem Straddles.exists_mem (h : Straddles sep xs ys) : ∃ x ∈ xs ++ ys, sep ∈ x := by
  induction h with
  | left x y _ => exact ⟨x ++ sep :: y, by simp, by simp⟩
  | right x y _ => exact ⟨x ++ sep :: y, by simp, by simp⟩
  | cons x _ ih =>
    obtain ⟨z, hz, hmem⟩ := ih
    refine ⟨z, ?_, hmem⟩
    rw [List.mem_append] at hz
    rw [List.mem_append]
    exact hz.imp (List.mem_cons_of_mem _) (List.mem_cons_of_mem _)

end Fields

end Oxillama
