/-
The order in which the tokenizers merge (`gguf_vocab/bpe.rs`, `gguf_vocab/spm.rs`).

Both loops are to merge as one would by hand: the best pair of neighbours first, the left-most
of several.  BPE compares ranks, and does.  SentencePiece compares scores with `total_cmp`, for
which `-0.0` comes before `0.0`: neighbours that score `0.0` are merged before others to their
left that score the same but for the sign.

* `mergesBy_of_spec` — **no stale candidate is applied**, and what is left is what greedy merging
  leaves, for every tokenizer that queues its candidates by rank;
* `greedy_mergeRank` — merging by `total_cmp` is merging by score while the signs of zeros agree;
* `mergesGreedily_of_signsAgree` — **both loops**;
* `not_mergesGreedily_zeros` — a vocabulary for which SentencePiece does not.
-/
import Oxillama.Vocab.Bpe
import Oxillama.Vocab.Spm

namespace Oxillama

namespace Vocab

/-! ### Merging by rank -/

variable {β σ : Type}

/-- The texts of the symbols that the loop leaves; on an empty text it is not run. -/
def Merger.pieces (m : Merger β σ) (text : Text) (s : σ) : Option (List Text) :=
  if text.isEmpty then some []
  else do
    let (symbols, _) ← m.merge text s
    let found ← walk symbols symbols.length (some 0)
    return found.map (Symbol.text · text)

/-- **The loop merges by rank**: it ends, with the symbols that are left when the neighbours of
the lowest rank are merged, the left-most first, until no neighbours have a rank; and no stale
candidate is applied on the way. -/
structure Merger.MergesBy {κ : Type} [LinearOrder κ] (m : Merger β σ)
    (rank : Text → Text → Option κ) (text : Text) (s : σ) : Prop where
  result : m.pieces text s = some (segment rank text)
  ended : bestPair rank (segment rank text) = none
  fresh : ∀ st e, m.Reaches text s st → m.Applies st e → m.Current st e

variable {κ : Type} [LinearOrder κ] {m : Merger β σ} {rank : Text → Text → Option κ}
  {key : β → κ} {Offers : β → Text → Text → Prop} {Inv : σ → Prop} {text : Text} {s : σ}

theorem pieces_of_spec (hspec : m.Spec text rank key Offers Inv) (hs : Inv s) :
    m.pieces text s = some (segment rank text) := by
  rw [Merger.pieces]
  by_cases htext : text = []
  · subst htext
    rfl
  · rw [if_neg (by simpa using htext)]
    obtain ⟨symbols, s', live, hmerge, hlive, -, hpieces, -⟩ := merge_spec hspec hs
    obtain ⟨found, hfound, hmap, -⟩ := hlive.walk htext
    simp only [hmerge, Option.bind_eq_bind, Option.bind_some, hfound]
    rw [← hpieces, ← hmap]
    rfl

/-- **A candidate that is applied is current**, if its symbols and what it was queued for
determine it. -/
theorem current_of_applies (hspec : m.Spec text rank key Offers Inv) (hs : Inv s)
    (hunique : ∀ {e e' : β} {p q : Text}, Offers e p q → Offers e' p q → m.left e = m.left e' →
      m.right e = m.right e' → e = e') {st : List Symbol × List β × σ} {e : β}
    (hreaches : m.Reaches text s st) (happlies : m.Applies st e) : m.Current st e := by
  obtain ⟨live, hmerging⟩ := merging_of_reaches hspec hs hreaches
  obtain ⟨a, b, p, q, rfl, hoffers⟩ := hmerging.neighbours hspec happlies
  refine ⟨⟨_, hmerging.spans.symbol.1, rfl⟩, ?_⟩
  obtain ⟨queue, s', hoffer, -, hqueue⟩ := hspec.offer [] hmerging.spans hmerging.inv
  refine ⟨s', hoffer.trans ?_⟩
  rcases hqueue with ⟨hnone, -⟩ | ⟨e', rfl, hleft, hright, hoffers'⟩
  · rw [hspec.rank_eq hoffers] at hnone
    cases hnone
  · obtain rfl := hunique hoffers hoffers' hleft.symm hright.symm
    rfl

/-- **Merging by rank**, for every tokenizer. -/
theorem mergesBy_of_spec (hspec : m.Spec text rank key Offers Inv) (hs : Inv s)
    (hunique : ∀ {e e' : β} {p q : Text}, Offers e p q → Offers e' p q → m.left e = m.left e' →
      m.right e = m.right e' → e = e') : m.MergesBy rank text s where
  result := pieces_of_spec hspec hs
  ended := bestPair_segment rank text
  fresh _ _ hreaches happlies := current_of_applies hspec hs hunique hreaches happlies

/-- BPE merges by rank. -/
theorem Bpe.mergesBy (vocab : GgufVocab) (word : Text) :
    (Bpe.merger vocab word).MergesBy vocab.mergeRank word () := by
  refine mergesBy_of_spec (Bpe.merger_spec vocab word) trivial ?_
  rintro ⟨left, right, rank, leftLen, rightLen⟩ ⟨left', right', rank', leftLen', rightLen'⟩ p q
    ⟨hrank, hl, hr⟩ ⟨hrank', hl', hr'⟩ hleft hright
  obtain rfl : rank = rank' := Option.some.inj (hrank.symm.trans hrank')
  obtain rfl : leftLen = leftLen' := hl.trans hl'.symm
  obtain rfl : rightLen = rightLen' := hr.trans hr'.symm
  obtain rfl : left = left' := hleft
  obtain rfl : right = right' := hright
  rfl

namespace Spm

/-! ### Scores -/

theorem totalKey_injective {x y : UInt32} (h : totalKey x = totalKey y) : x = y := by
  rw [← UInt32.toNat_inj]
  have hx := x.toNat_lt
  have hy := y.toNat_lt
  simp only [totalKey] at h
  split at h
  · split at h
    · omega
    · omega
  · split at h
    · omega
    · omega

/-- SentencePiece merges by what `total_cmp` compares. -/
theorem mergesBy_mergeRank (vocab : GgufVocab) (text : Text) :
    (merger vocab text).MergesBy (mergeRank vocab) text [] := by
  refine mergesBy_of_spec (merger_spec vocab text) (by nofun) ?_
  rintro ⟨left, right, score, size⟩ ⟨left', right', score', size'⟩ p q ⟨hrank, hsize⟩
    ⟨hrank', hsize'⟩ hleft hright
  have hkey : -totalKey score = -totalKey score' := Option.some.inj (hrank.symm.trans hrank')
  obtain rfl : score = score' := totalKey_injective (by omega)
  obtain rfl : size = size' := hsize.trans hsize'.symm
  obtain rfl : left = left' := hleft
  obtain rfl : right = right' := hright
  rfl

/-- The place of a score among the scores: that of `total_cmp`, but `-0.0` is where `0.0` is.
(A NaN has no place among the numbers, and keeps the one that `total_cmp` gives it.) -/
def scoreKey (bits : UInt32) : ℤ := if bits = 0x80000000 then 0 else totalKey bits

/-- The rank of two pieces: the higher the score of the token they make, the lower. -/
def scoreRank (vocab : GgufVocab) (left right : Text) : Option ℤ :=
  (vocab.tokenToId (left ++ right)).map fun id => -scoreKey (vocab.tokenScore id)

/-- The score of the token that two pieces make. -/
def pairScore (vocab : GgufVocab) (left right : Text) : Option UInt32 :=
  (vocab.tokenToId (left ++ right)).map vocab.tokenScore

/-- The best pair, left-most of several, scores `-0.0`, and another pair scores `0.0`. -/
def SignedZeros (vocab : GgufVocab) (pieces : List Text) : Prop :=
  ∃ k a p q b a' p' q' b', bestPair (scoreRank vocab) pieces = some (k, a.length) ∧
    pieces = a ++ p :: q :: b ∧ pairScore vocab p q = some 0x80000000 ∧
    pieces = a' ++ p' :: q' :: b' ∧ pairScore vocab p' q' = some 0

/-- On the way of greedy merging by score the signs of zeros make no difference. -/
def SignsAgree (vocab : GgufVocab) (text : Text) : Prop :=
  ∀ n, ¬ SignedZeros vocab (greedy (scoreRank vocab) n (text.map fun c => [c]))

variable {vocab : GgufVocab} {pieces : List Text}

theorem scoreRank_eq (p q : Text) :
    scoreRank vocab p q = (pairScore vocab p q).map fun score => -scoreKey score := by
  rw [scoreRank, pairScore, Option.map_map]
  rfl

theorem mergeRank_eq (p q : Text) :
    mergeRank vocab p q = (pairScore vocab p q).map fun score => -totalKey score := by
  rw [mergeRank, pairScore, Option.map_map]
  rfl

theorem totalKey_negZero : totalKey 0x80000000 = -1 := by decide

/-- A lower score is lower for `total_cmp`. -/
theorem totalKey_lt {x y : UInt32} (h : scoreKey x < scoreKey y) : totalKey x < totalKey y := by
  have hnegZero := totalKey_negZero
  simp only [scoreKey] at h
  split at h
  next hx =>
    subst hx
    split at h
    · omega
    · omega
  next hx =>
    split at h
    next hy =>
      -- No score lies between the zeros.
      subst hy
      have hne : totalKey x ≠ totalKey 0x80000000 := fun heq => hx (totalKey_injective heq)
      omega
    · exact h

/-- Equal scores are equal for `total_cmp`, or zeros. -/
theorem totalKey_eq_or {x y : UInt32} (h : scoreKey x = scoreKey y) :
    totalKey x = totalKey y ∨ x = 0x80000000 ∧ y = 0 ∨ x = 0 ∧ y = 0x80000000 := by
  have hzero {z : UInt32} (hz : totalKey z = 0) : z = 0 := totalKey_injective hz
  simp only [scoreKey] at h
  split at h
  next hx =>
    split at h
    next hy => exact .inl (by rw [hx, hy])
    next hy => exact .inr (.inl ⟨hx, hzero h.symm⟩)
  next hx =>
    split at h
    next hy => exact .inr (.inr ⟨hzero h, hy⟩)
    next hy => exact .inl h

/-- **The best pair** is the same for `total_cmp`, unless zeros of both signs compete. -/
theorem bestPair_mergeRank (h : ¬ SignedZeros vocab pieces) :
    (bestPair (mergeRank vocab) pieces).map Prod.snd =
      (bestPair (scoreRank vocab) pieces).map Prod.snd := by
  rcases hbest : bestPair (scoreRank vocab) pieces with - | ⟨k, i⟩
  · have hnone : bestPair (mergeRank vocab) pieces = none := by
      refine bestPair_eq_none fun a p q b hpieces => ?_
      have hrank := rank_eq_none_of_bestPair hbest hpieces
      rw [scoreRank_eq, Option.map_eq_none_iff] at hrank
      rw [mergeRank_eq, hrank]
      rfl
    rw [hnone]
  · obtain ⟨a, p, q, b, hpieces, rfl, hrank⟩ := exists_of_bestPair hbest
    have hscore := hrank
    rw [scoreRank_eq] at hscore
    obtain ⟨score, hscore, hk⟩ := Option.map_eq_some_iff.1 hscore
    have htotal : mergeRank vocab p q = some (-totalKey score) := by
      rw [mergeRank_eq, hscore]
      rfl
    have hfirst : bestPair (mergeRank vocab) pieces = some (-totalKey score, a.length) := by
      rw [hpieces]
      refine bestPair_eq_some htotal fun a' p' q' b' t hpieces' ht => ?_
      rw [mergeRank_eq] at ht
      obtain ⟨score', hscore', rfl⟩ := Option.map_eq_some_iff.1 ht
      have hrank' : scoreRank vocab p' q' = some (-scoreKey score') := by
        rw [scoreRank_eq, hscore']
        rfl
      rcases bestPair_first hbest (hpieces.trans hpieces') hrank' with hlt | ⟨heq, hle⟩
      · have hlower := totalKey_lt (x := score') (y := score) (by omega)
        exact .inl (by omega)
      · rcases totalKey_eq_or (x := score) (y := score') (by omega) with
          hsame | ⟨rfl, rfl⟩ | ⟨rfl, rfl⟩
        · exact .inr ⟨by omega, hle⟩
        · exact absurd ⟨k, a, p, q, b, a', p', q', b', hbest, hpieces, hscore,
            hpieces.trans hpieces', hscore'⟩ h
        · refine .inl ?_
          have hnegZero := totalKey_negZero
          have hzero : totalKey 0 = 0 := rfl
          omega
    rw [hfirst]
    rfl

/-- **Merging by `total_cmp`** is merging by score where the signs of zeros make no difference. -/
theorem segment_mergeRank {text : Text} (h : SignsAgree vocab text) :
    segment (mergeRank vocab) text = segment (scoreRank vocab) text :=
  greedy_congr fun n _ => bestPair_mergeRank (h n)

/-- Without a token that scores `-0.0` they make none. -/
theorem signsAgree_of_not_mem (h : 0x80000000 ∉ vocab.scores) (text : Text) :
    SignsAgree vocab text := by
  rintro n ⟨k, a, p, q, b, a', p', q', b', -, -, hscore, -⟩
  obtain ⟨id, -, hid⟩ := Option.map_eq_some_iff.1 hscore
  rw [GgufVocab.tokenScore] at hid
  rcases hget : vocab.scores[id]? with - | score
  · rw [hget] at hid
    cases hid
  · rw [hget, Option.getD_some] at hid
    exact h (hid ▸ List.mem_of_getElem? hget)

end Spm

/-! ### Both loops -/

/-- **The loops merge greedily**: that of BPE by rank, that of SentencePiece by score. -/
def MergesGreedily (vocab : GgufVocab) (word : Text) : Prop :=
  (Bpe.merger vocab word).MergesBy vocab.mergeRank word () ∧
    (Spm.merger vocab word).MergesBy (Spm.scoreRank vocab) word []

/-- **Both loops merge greedily** where the signs of zeros make no difference. -/
theorem mergesGreedily_of_signsAgree {vocab : GgufVocab} {word : Text}
    (h : Spm.SignsAgree vocab word) : MergesGreedily vocab word := by
  have hspm := Spm.mergesBy_mergeRank vocab word
  refine ⟨Bpe.mergesBy vocab word, ?_, bestPair_segment _ _, hspm.fresh⟩
  rw [← Spm.segment_mergeRank h]
  exact hspm.result

/-- A vocabulary of three characters and the tokens `ab` and `bc`, with their scores. -/
def abcVocab (ab bc : UInt32) : GgufVocab where
  vocabType := .spm
  tokens := [['a'], ['b'], ['c'], ['a', 'b'], ['b', 'c']]
  scores := [0, 0, 0, ab, bc]
  types := List.replicate 5 .normal
  bpeRanks _ := none
  preTokenizer := none
  bosId := none
  eosId := none
  unkId := none
  addBos := false
  addEos := false
  addSpacePrefix := false
  ignoreMerges := false
  length_types := rfl

/-- With the scores `-1.0` and `-2.0` the loops merge greedily. -/
theorem mergesGreedily_abc : MergesGreedily (abcVocab 0xBF800000 0xC0000000) ['a', 'b', 'c'] :=
  mergesGreedily_of_signsAgree (Spm.signsAgree_of_not_mem (by decide) _)

/-- With the scores `-0.0` and `0.0` it is not the left-most pair that is merged. -/
theorem not_mergesGreedily_zeros : ¬ MergesGreedily (abcVocab 0x80000000 0) ['a', 'b', 'c'] := by
  rintro ⟨-, hspm⟩
  have htotal := (Spm.mergesBy_mergeRank (abcVocab 0x80000000 0) ['a', 'b', 'c']).result
  have hsame := Option.some.inj (hspm.result.symm.trans htotal)
  revert hsame
  decide

end Vocab

end Oxillama
