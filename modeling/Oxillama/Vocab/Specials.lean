/-
What is left between special tokens (`GgufVocab::partition_specials`).

A text is cut at one token after the other, the longest first.  Cutting only makes fragments
shorter, so that a token that was looked for once is in no fragment afterwards, however the
texts of the tokens overlap or contain each other.

* `splitOut_raw` — cutting at one token leaves parts of the text without the token;
* `rounds_raw` — **every round keeps** what the rounds before it saw to;
* `partitionSpecials_complete` — **the fragments make up the text**, and none of them has a
  token in it that is recognised.
-/
import Oxillama.Vocab.GgufVocab

namespace Oxillama

namespace Vocab

/-- A token is recognised, with or without special tokens parsed. -/
def GgufVocab.Recognised (vocab : GgufVocab) (parseSpecial : Bool) (id : ℕ) : Prop :=
  id ∈ vocab.preSplitIds ∧ (parseSpecial = true ∨ vocab.isSpecial id = false)

variable {vocab : GgufVocab} {parseSpecial : Bool} {needle raw : Text} {id : ℕ}

/-- A token is not in the text before its first occurrence. -/
theorem not_infix_of_first {pre : Text} (hne : needle ≠ []) (h : Text.First needle pre) :
    ¬ needle <:+: pre := by
  rintro ⟨a, b, rfl⟩
  have hle := h a (b ++ needle) (by simp)
  have hpos := List.length_pos_of_ne_nil hne
  simp only [List.length_append] at hle
  omega

/-- **Cutting at one token** leaves parts of the text, without the token. -/
theorem splitOut_raw (hne : needle ≠ []) {fuel : ℕ} {rest : Text} {next : List Fragment}
    (h : splitOut needle id fuel rest = some next) (hraw : .text raw ∈ next) :
    raw <:+: rest ∧ ¬ needle <:+: raw := by
  induction fuel generalizing rest next with
  | zero => cases h
  | succ fuel ih =>
    rw [splitOut] at h
    rcases hfind : rest.find needle with - | pos
    · rw [hfind] at h
      obtain rfl := Option.some.inj h
      by_cases hrest : rest.isEmpty = true
      · rw [if_pos hrest] at hraw
        cases hraw
      · rw [if_neg hrest] at hraw
        obtain rfl : raw = rest := Fragment.text.inj (List.mem_singleton.1 hraw)
        exact ⟨List.infix_refl _, Text.find_eq_none_iff.1 hfind⟩
    · obtain ⟨before, behind, rfl, rfl, hfirst⟩ := Text.find_eq_some_iff.1 hfind
      have hcut : Text.splitAt before.len (before ++ needle ++ behind) =
          some (before, needle ++ behind) := by
        rw [List.append_assoc, Text.splitAt_append]
      rw [hfind] at h
      simp only [hcut, Text.splitAt_append, Option.bind_eq_bind, Option.bind_some] at h
      obtain ⟨later, hlater, heq⟩ := Option.bind_eq_some_iff.1 h
      obtain rfl := Option.some.inj heq
      rcases List.mem_append.1 hraw with hraw | hraw
      · -- The part in front of the first occurrence.
        split at hraw
        · obtain rfl : raw = before := Fragment.text.inj (List.mem_singleton.1 hraw)
          exact ⟨⟨[], needle ++ behind, by simp⟩, not_infix_of_first hne hfirst⟩
        · cases hraw
      · rcases List.mem_cons.1 hraw with hraw | hraw
        · cases hraw
        · obtain ⟨hwithin, hfree⟩ := ih hlater hraw
          exact ⟨hwithin.trans (List.suffix_append _ behind).isInfix, hfree⟩

/-- What a loop over a list collects comes from one of its elements. -/
theorem mem_flatten_of_mapM {α β : Type} {f : α → Option (List β)} {xs : List α}
    {parts : List (List β)} {y : β} (h : xs.mapM f = some parts) (hy : y ∈ parts.flatten) :
    ∃ x ∈ xs, ∃ ys, f x = some ys ∧ y ∈ ys := by
  induction xs generalizing parts with
  | nil =>
    obtain rfl : [] = parts := Option.some.inj h
    cases hy
  | cons x xs ih =>
    rw [List.mapM_cons] at h
    obtain ⟨ys, hys, hrest⟩ := Option.bind_eq_some_iff.1 h
    obtain ⟨later, hlater, heq⟩ := Option.bind_eq_some_iff.1 hrest
    obtain rfl := Option.some.inj heq
    rcases List.mem_append.1 (List.flatten_cons ▸ hy) with hy | hy
    · exact ⟨x, List.mem_cons_self, ys, hys, hy⟩
    · obtain ⟨x', hx', hfound⟩ := ih hlater hy
      exact ⟨x', List.mem_cons_of_mem _ hx', hfound⟩

/-- **The round of one token** makes fragments shorter, and takes the token out of them. -/
theorem splitRound_raw (hid : id ∈ vocab.preSplitIds) {fragments next : List Fragment}
    (h : vocab.splitRound parseSpecial fragments id = some next) (hraw : .text raw ∈ next) :
    (∃ raw', .text raw' ∈ fragments ∧ raw <:+: raw') ∧
      (vocab.Recognised parseSpecial id → vocab.tokens[id]? = some needle → ¬ needle <:+: raw) := by
  rw [GgufVocab.splitRound] at h
  split at h
  next hskip =>
    obtain rfl := Option.some.inj h
    refine ⟨⟨raw, hraw, List.infix_refl _⟩, fun hrecognised => ?_⟩
    obtain ⟨hparse, hspecial⟩ : parseSpecial = false ∧ vocab.isSpecial id = true := by
      simpa using hskip
    rcases hrecognised.2 with htrue | hfalse
    · rw [hparse] at htrue
      cases htrue
    · rw [hspecial] at hfalse
      cases hfalse
  next =>
    obtain ⟨text, -, htext, hne, -⟩ := GgufVocab.mem_preSplitIds.1 hid
    simp only [htext, Option.bind_eq_bind, Option.bind_some] at h
    obtain ⟨parts, hmap, heq⟩ := Option.bind_eq_some_iff.1 h
    obtain rfl := Option.some.inj heq
    obtain ⟨fragment, hfragment, pieces, hpieces, hmem⟩ := mem_flatten_of_mapM hmap hraw
    rcases fragment with raw' | t
    · obtain ⟨hwithin, hfree⟩ := splitOut_raw hne hpieces hmem
      refine ⟨⟨raw', hfragment, hwithin⟩, fun _ hneedle => ?_⟩
      obtain rfl : text = needle := Option.some.inj (htext.symm.trans hneedle)
      exact hfree
    · obtain rfl : [Fragment.token t] = pieces := Option.some.inj hpieces
      cases List.mem_singleton.1 hmem

/-- **The rounds of some tokens** take all of them out: what one round saw to, the later ones
keep. -/
theorem rounds_raw {ids : List ℕ} (hids : ∀ id ∈ ids, id ∈ vocab.preSplitIds)
    {fragments next : List Fragment}
    (h : ids.foldlM (vocab.splitRound parseSpecial) fragments = some next)
    (hraw : .text raw ∈ next) :
    (∃ raw', .text raw' ∈ fragments ∧ raw <:+: raw') ∧
      ∀ id ∈ ids, ∀ needle, vocab.Recognised parseSpecial id → vocab.tokens[id]? = some needle →
        ¬ needle <:+: raw := by
  induction ids generalizing fragments with
  | nil =>
    obtain rfl : fragments = next := Option.some.inj h
    exact ⟨⟨raw, hraw, List.infix_refl _⟩, by nofun⟩
  | cons id ids ih =>
    rw [List.foldlM_cons] at h
    obtain ⟨mid, hround, hlater⟩ := Option.bind_eq_some_iff.1 h
    obtain ⟨⟨raw', hraw', hwithin₁⟩, hfree⟩ :=
      ih (fun id hid => hids id (List.mem_cons_of_mem _ hid)) hlater
    have hid := hids id List.mem_cons_self
    obtain ⟨raw'', hraw'', hwithin₂⟩ :=
      (@splitRound_raw vocab parseSpecial [] raw' id hid _ _ hround hraw').1
    refine ⟨⟨raw'', hraw'', hwithin₁.trans hwithin₂⟩, fun id' hid' needle hrecognised hneedle => ?_⟩
    rcases List.mem_cons.1 hid' with rfl | hid'
    · have hout := (splitRound_raw hid hround hraw').2 hrecognised hneedle
      exact fun hwithin => hout (hwithin.trans hwithin₁)
    · exact hfree id' hid' needle hrecognised hneedle

/-- **Splitting out special tokens** is lossless and complete: the fragments make up the text,
and no text among them contains the text of a token that is recognised. -/
theorem partitionSpecials_complete (vocab : GgufVocab) (text : Text) (parseSpecial : Bool) :
    ∃ fragments, vocab.partitionSpecials text parseSpecial = some fragments ∧
      fragments.flatMap vocab.content = text ∧
      ∀ raw, .text raw ∈ fragments → ∀ id needle, vocab.Recognised parseSpecial id →
        vocab.tokens[id]? = some needle → ¬ needle <:+: raw := by
  obtain ⟨fragments, hfragments, hpartition⟩ := partitionSpecials_spec vocab text parseSpecial
  refine ⟨fragments, hfragments, hpartition.content_eq, fun raw hraw id needle hid hneedle => ?_⟩
  exact (rounds_raw (fun _ hid => hid) hfragments hraw).2 id hid.1 needle hid hneedle

end Vocab

end Oxillama
