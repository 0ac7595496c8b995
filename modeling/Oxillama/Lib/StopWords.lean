/-
Words watched for in a text that grows.

`OccursAt words text p` says that a nonempty word stands at position `p`, and
`Withheld words text held` that `held` is the longest suffix of `text` that
properly starts a word.  Of a text without occurrences that suffix is all one
has to remember:

* `occursAt_append_iff` — a word in the longer text stands in the remembered
  suffix and what follows it;
* `withheld_append` — so does the suffix to remember next.
-/
import Mathlib.Data.List.Infix
import Mathlib.Order.Bounds.Basic

namespace Oxillama

variable {α : Type*}

/-- A nonempty word of `words` stands at position `p` of `text`. -/
def OccursAt (words : List (List α)) (text : List α) (p : ℕ) : Prop :=
  ∃ word ∈ words, word ≠ [] ∧ word <+: text.drop p

/-- A nonempty word of `words` stands somewhere in `text`. -/
def Occurs (words : List (List α)) (text : List α) : Prop := ∃ p, OccursAt words text p

/-- `s` is a proper prefix of a word. -/
def Starts (words : List (List α)) (s : List α) : Prop := ∃ word ∈ words, s <+: word ∧ s ≠ word

/-- `held` is the longest suffix of `text` that is a proper prefix of a word. -/
structure Withheld (words : List (List α)) (text held : List α) : Prop where
  suffix : held <:+ text
  starts : held ≠ [] → Starts words held
  longest : ∀ s, s <:+ text → Starts words s → s.length ≤ held.length

section Growing

variable {words : List (List α)} {text held chunk : List α} {p : ℕ}

theorem OccursAt.lt_length (h : OccursAt words text p) : p < text.length := by
  obtain ⟨word, -, hne, hpre⟩ := h
  by_contra hle
  rw [List.drop_eq_nil_of_le (not_lt.mp hle)] at hpre
  exact hne (List.prefix_nil.mp hpre)

theorem OccursAt.append (h : OccursAt words text p) (more : List α) :
    OccursAt words (text ++ more) p := by
  have hlt := h.lt_length
  obtain ⟨word, hmem, hne, hpre⟩ := h
  refine ⟨word, hmem, hne, ?_⟩
  rw [List.drop_append_of_le_length (Nat.le_of_lt hlt)]
  exact hpre.trans (List.prefix_append _ _)

theorem Occurs.append (h : Occurs words text) (more : List α) : Occurs words (text ++ more) := by
  obtain ⟨p, hp⟩ := h
  exact ⟨p, hp.append more⟩

theorem not_occurs_nil (words : List (List α)) : ¬ Occurs words [] := by
  rintro ⟨p, hp⟩
  exact absurd hp.lt_length (Nat.not_lt_zero p)

theorem withheld_nil (words : List (List α)) : Withheld words [] [] where
  suffix := List.suffix_refl []
  starts h := absurd rfl h
  longest s hs _ := by rw [List.suffix_nil.mp hs]

theorem Starts.of_prefix {s s' : List α} (h : Starts words s) (hs : s' <+: s) :
    Starts words s' := by
  obtain ⟨word, hmem, hpre, hne⟩ := h
  refine ⟨word, hmem, hs.trans hpre, ?_⟩
  rintro rfl
  exact hne (hpre.eq_of_length_le hs.length_le)

/-- A word that stands in the longer text, but not in `text`, starts in the suffix. -/
theorem Withheld.length_le_of_occursAt (h : Withheld words text held) (hno : ¬ Occurs words text)
    (hocc : OccursAt words (text ++ chunk) p) : text.length ≤ p + held.length := by
  by_contra hlt
  have hp : p ≤ text.length := by omega
  obtain ⟨word, hmem, hne, hpre⟩ := hocc
  rw [List.drop_append_of_le_length hp] at hpre
  rcases List.prefix_or_prefix_of_prefix hpre (List.prefix_append _ _) with hin | hover
  · exact hno ⟨p, word, hmem, hne, hin⟩
  · -- the rest of the text starts the word, and is longer than the longest such suffix
    have hstarts : Starts words (text.drop p) := by
      refine ⟨word, hmem, hover, ?_⟩
      rintro rfl
      exact hno ⟨p, _, hmem, hne, List.prefix_rfl⟩
    have hle := h.longest _ (List.drop_suffix p text) hstarts
    rw [List.length_drop] at hle
    omega

/-- **A word in the longer text stands in what was remembered.** -/
theorem occursAt_append_iff {emitted : List α} (h : Withheld words (emitted ++ held) held)
    (hno : ¬ Occurs words (emitted ++ held)) :
    OccursAt words (emitted ++ held ++ chunk) p ↔
      ∃ q, p = emitted.length + q ∧ OccursAt words (held ++ chunk) q := by
  have hdrop : ∀ q, (emitted ++ held ++ chunk).drop (emitted.length + q) =
      (held ++ chunk).drop q := by
    intro q
    rw [List.append_assoc, List.drop_length_add_append]
  constructor
  · intro hocc
    have hle := h.length_le_of_occursAt hno hocc
    rw [List.length_append] at hle
    obtain ⟨q, rfl⟩ : ∃ q, p = emitted.length + q := ⟨p - emitted.length, by omega⟩
    obtain ⟨word, hmem, hne, hpre⟩ := hocc
    rw [hdrop] at hpre
    exact ⟨q, rfl, word, hmem, hne, hpre⟩
  · rintro ⟨q, rfl, word, hmem, hne, hpre⟩
    refine ⟨word, hmem, hne, ?_⟩
    rwa [hdrop]

/-- **The suffix to remember next** is found in what was remembered. -/
theorem withheld_append {held' : List α} (h : Withheld words text held)
    (h' : Withheld words (held ++ chunk) held') : Withheld words (text ++ chunk) held' where
  suffix := by
    obtain ⟨emitted, rfl⟩ := h.suffix
    rw [List.append_assoc]
    exact h'.suffix.trans (List.suffix_append _ _)
  starts := h'.starts
  longest s hs hstarts := by
    obtain ⟨emitted, rfl⟩ := h.suffix
    have hkept : held ++ chunk <:+ emitted ++ held ++ chunk := by
      rw [List.append_assoc]
      exact List.suffix_append _ _
    by_cases hle : s.length ≤ (held ++ chunk).length
    · exact h'.longest s (List.suffix_of_suffix_length_le hs hkept hle) hstarts
    · -- cut off the chunk, `s` would be a longer suffix than `held`
      rw [List.length_append] at hle
      obtain ⟨s', rfl⟩ : chunk <:+ s :=
        List.suffix_of_suffix_length_le (List.suffix_append _ _) hs (by omega)
      have hlong := h.longest s' (List.suffix_append_self_iff.mp hs)
        (hstarts.of_prefix (List.prefix_append _ _))
      rw [List.length_append] at hle
      omega

end Growing

end Oxillama
