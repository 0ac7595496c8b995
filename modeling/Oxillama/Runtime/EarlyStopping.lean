/-
Early stopping of the beam search (`oxillama-runtime/src/beam_search.rs`).

With `early_stopping` a search ends as soon as no active beam scores better, at its present
length, than the best finished one.  The comment there calls the present score the best one an
active beam can still reach.  It is not: log-probabilities are negative, and a longer hypothesis
has its sum divided by more.

The log-probabilities are non-positive rationals here, given by the forward pass itself, and the
length penalty is a natural number.

* `Unbeaten` — no continuation of an active beam beats the finished ones;
* `Unbeatable` — none does, whatever the model answers from here on;
* `unbeatable_iff` — **when a stop is sound**: each active sum has to be compared at the greatest
  length, not at the present one.
-/
import Mathlib.Algebra.Order.Ring.Rat
import Mathlib.Data.Rat.Cast.Order
import Mathlib.Tactic.Linarith
import Oxillama.Runtime.BeamSearch

namespace Oxillama

namespace Beam

/-! ### Log-probabilities -/

/-- The functions on rational log-probabilities. -/
def ideal : BeamMath ℚ ℕ where
  logSoftmax := id
  powf x p := x ^ p

/-- A forward pass answers a non-positive log-probability for each token of the vocabulary. -/
def AnswersLogProbs {ε : Type} (vocab : ℕ)
    (forward : List Kv.Token → Except (RuntimeError ε) (List ℚ)) : Prop :=
  ∀ tokens logProbs, forward tokens = .ok logProbs →
    logProbs.length = vocab ∧ ∀ lp ∈ logProbs, lp ≤ 0

/-- What is below a running maximum is below one of its values. -/
theorem le_foldl_max_iff {α β : Type} [LinearOrder β] {f : α → β} {x first : β} {xs : List α} :
    x ≤ (xs.map f).foldl max first ↔ x ≤ first ∨ ∃ y ∈ xs, x ≤ f y := by
  induction xs generalizing first with
  | nil => simp
  | cons y ys ih =>
    rw [List.map_cons, List.foldl_cons, ih, le_max_iff, or_assoc]
    simp only [List.mem_cons, exists_eq_or_imp]

namespace Search

/-- A search with other answers of the model. -/
def answering {F P ε : Type} [Field F] [LinearOrder F] (s : Search F P ε)
    (forward : List Kv.Token → Except (RuntimeError ε) (List F)) : Search F P ε :=
  { s with forward := forward }

variable {ε : Type} {s : Search ℚ ℕ ε} {vocab k n : ℕ} {h h' : BeamHypothesis ℚ} {beams : Beams ℚ}

/-! ### Soundness of a stop -/

/-- No continuation of an active beam has a better score than all finished hypotheses. -/
def Unbeaten (s : Search ℚ ℕ ε) (beams : Beams ℚ) : Prop :=
  ∀ h ∈ beams.active, ∀ h', s.Grows h h' →
    h'.tokens.length ≤ s.promptTokens.length + s.config.maxNewTokens →
    s.score h' ≤ s.bestScore beams.finished

/-- **A stop is sound** after `k` rounds: no continuation is better, whatever the model will
answer for the sequences that it has not been asked about. -/
def Unbeatable (s : Search ℚ ℕ ε) (vocab k : ℕ) (beams : Beams ℚ) : Prop :=
  ∀ forward, AnswersLogProbs vocab forward →
    (∀ tokens, tokens.length < s.promptTokens.length + k → forward tokens = s.forward tokens) →
    Unbeaten (s.answering forward) beams

/-! ### Scores -/

/-- The score of a hypothesis with tokens of its own. -/
theorem score_eq (hmath : s.math = ideal) (hn : 0 < n)
    (hlength : h.tokens.length = s.promptTokens.length + n) :
    s.score h = ((h.logprobSum / (n : ℚ) ^ s.config.lengthPenalty : ℚ) : WithBot ℚ) := by
  have hgen : h.tokens.length - s.promptTokens.length = n := by omega
  have hpos : (0 : ℚ) < (n : ℚ) ^ s.config.lengthPenalty := pow_pos (Nat.cast_pos.2 hn) _
  rw [score, BeamHypothesis.score, hmath]
  simp only [hgen, ideal]
  rw [if_neg (by omega), if_pos hpos]

/-- What is below the best score is below some score. -/
theorem le_bestScore_iff {x : ℚ} {hs : List (BeamHypothesis ℚ)} :
    (x : WithBot ℚ) ≤ s.bestScore hs ↔ ∃ f ∈ hs, (x : WithBot ℚ) ≤ s.score f := by
  rw [bestScore, le_foldl_max_iff]
  simp only [WithBot.not_coe_le_bot, false_or]

/-- A continuation has no greater sum, and no fewer tokens. -/
theorem Grows.sum_le (hgrows : s.Grows h h') (hmath : s.math = ideal)
    (hanswers : AnswersLogProbs vocab s.forward) :
    h'.logprobSum ≤ h.logprobSum ∧ h.tokens.length ≤ h'.tokens.length := by
  induction hgrows with
  | refl => exact ⟨le_rfl, le_rfl⟩
  | @snoc h' logits i lp _ _ hforward hlp ih =>
    rw [hmath] at hlp
    have hneg := (hanswers _ _ hforward).2 lp (List.mem_of_getElem? hlp)
    refine ⟨?_, ?_⟩
    · show h'.logprobSum + lp ≤ h.logprobSum
      linarith [ih.1]
    · rw [extend, List.length_append]
      exact ih.2.trans (Nat.le_add_right _ _)

/-- A beam that is still active after some rounds ends with a token other than the end token. -/
theorem Grows.exists_token (hgrows : s.Grows h h') (hmath : s.math = ideal)
    (hanswers : AnswersLogProbs vocab s.forward) (hactive : h'.finished = false)
    (hlonger : h.tokens.length < h'.tokens.length) :
    ∃ i < vocab, (UInt32.ofNat i == s.eosTokenId) = false := by
  rcases hgrows with - | @⟨h', logits, i, lp, _, _, hforward, hlp⟩
  · omega
  · rw [hmath] at hlp
    have hlt := (List.getElem?_eq_some_iff.1 hlp).1
    exact ⟨i, (hanswers _ _ hforward).1 ▸ hlt, hactive⟩

/-! ### A model that is certain -/

/-- The answers so far, and from here on every token is certain. -/
def thenCertain (s : Search ℚ ℕ ε) (vocab k : ℕ) (tokens : List Kv.Token) :
    Except (RuntimeError ε) (List ℚ) :=
  if tokens.length < s.promptTokens.length + k then s.forward tokens
  else .ok (List.replicate vocab 0)

theorem answersLogProbs_thenCertain (hanswers : AnswersLogProbs vocab s.forward) :
    AnswersLogProbs vocab (s.thenCertain vocab k) := by
  intro tokens logProbs hforward
  rw [thenCertain] at hforward
  split at hforward
  · exact hanswers tokens logProbs hforward
  · obtain rfl := Except.ok.inj hforward
    exact ⟨List.length_replicate, fun lp hlp => (List.eq_of_mem_replicate hlp).le⟩

/-- An active beam then goes on to any length, for nothing. -/
theorem exists_grows_thenCertain (hmath : s.math = ideal) (hactive : h.finished = false)
    (hlength : h.tokens.length = s.promptTokens.length + k)
    {i : ℕ} (hi : i < vocab) (hother : (UInt32.ofNat i == s.eosTokenId) = false) (n : ℕ) :
    ∃ h', (s.answering (s.thenCertain vocab k)).Grows h h' ∧ h'.finished = false ∧
      h'.logprobSum = h.logprobSum ∧ h'.tokens.length = h.tokens.length + n := by
  induction n with
  | zero => exact ⟨h, .refl h, hactive, rfl, rfl⟩
  | succ n ih =>
    obtain ⟨h', hgrows, hactive', hsum, hlength'⟩ := ih
    have hforward : (s.answering (s.thenCertain vocab k)).forward h'.tokens =
        .ok (List.replicate vocab 0) := if_neg (by omega)
    have hlp : ((s.answering (s.thenCertain vocab k)).math.logSoftmax
        (List.replicate vocab 0))[i]? = some 0 := by
      show (s.math.logSoftmax _)[i]? = _
      rw [hmath]
      exact List.getElem?_replicate_of_lt hi
    refine ⟨_, hgrows.snoc hactive' hforward hlp, hother, ?_, ?_⟩
    · show h'.logprobSum + 0 = h.logprobSum
      rw [add_zero, hsum]
    · rw [extend, List.length_append, hlength']
      rfl

/-! ### When a stop is sound -/

/-- A stop comes after a round. -/
theorem Reached.pos_of_stops (hreached : Reached s k beams) (hstops : s.stops beams = true) :
    0 < k := by
  rcases hreached with - | _
  · rw [stops_start] at hstops
    cases hstops
  · exact Nat.succ_pos _

/-- The loop ends where it stops, and else goes on from there. -/
theorem Reached.decodeLoop_eq (hreached : Reached s k beams) :
    s.decodeLoop s.config.maxNewTokens s.start =
      if s.stops beams = true then .ok beams
      else s.decodeLoop (s.config.maxNewTokens - k) beams := by
  induction hreached with
  | start => rw [stops_start, if_neg Bool.false_ne_true, Nat.sub_zero]
  | @round k beams beams' _ hlt hactive hgoes hround ih =>
    obtain ⟨left, hleft⟩ := Nat.exists_eq_add_of_lt hlt
    rw [ih, hgoes, if_neg Bool.false_ne_true,
      show s.config.maxNewTokens - k = left + 1 by omega,
      show s.config.maxNewTokens - (k + 1) = left by omega, decodeLoop,
      if_neg (by simpa using hactive), hround]
    rfl

/-- **When an early stop is sound**: exactly if the sum of each active beam, divided as it would
be at the greatest length, is at most the score of some finished hypothesis. -/
theorem unbeatable_iff (hmath : s.math = ideal) (hanswers : AnswersLogProbs vocab s.forward)
    (hreached : Reached s k beams) (hstops : s.stops beams = true) :
    Unbeatable s vocab k beams ↔ ∀ h ∈ beams.active, ∃ f ∈ beams.finished,
      ((h.logprobSum / (s.config.maxNewTokens : ℚ) ^ s.config.lengthPenalty : ℚ) : WithBot ℚ) ≤
        s.score f := by
  have hk := hreached.pos_of_stops hstops
  have hle := hreached.le
  refine ⟨fun hunbeatable h hmem => ?_, fun hsums forward hanswers' hagree => ?_⟩
  · -- The model may be certain from here on: the sum stays, and the length becomes the greatest.
    obtain ⟨hgrown, hactive, hlength⟩ := hreached.wellGrown.active h hmem
    obtain ⟨i, hi, hother⟩ := hgrown.exists_token hmath hanswers hactive (by
      show s.promptTokens.length < h.tokens.length
      omega)
    obtain ⟨h', hgrows, -, hsum, hlength'⟩ :=
      exists_grows_thenCertain hmath hactive hlength hi hother (s.config.maxNewTokens - k)
    have hat : h'.tokens.length = s.promptTokens.length + s.config.maxNewTokens := by omega
    have hbeaten := hunbeatable (s.thenCertain vocab k) (answersLogProbs_thenCertain hanswers)
      (fun tokens hshort => if_pos hshort) h hmem h' hgrows hat.le
    refine le_bestScore_iff.1 ?_
    rw [← hsum, ← score_eq hmath (hk.trans_le hle) hat]
    exact hbeaten
  · -- A sum only falls, and is non-positive: it is divided by at most the greatest length.
    intro h hmem h' hgrows hlimit
    obtain ⟨hgrown, -, hlength⟩ := hreached.wellGrown.active h hmem
    have hneg : h.logprobSum ≤ 0 := (hgrown.sum_le hmath hanswers).1
    obtain ⟨hsum, hlonger⟩ := hgrows.sum_le hmath hanswers'
    obtain ⟨n, hn⟩ := Nat.exists_eq_add_of_le
      (show s.promptTokens.length ≤ h'.tokens.length by omega)
    have hlimit : n ≤ s.config.maxNewTokens := by
      have : h'.tokens.length ≤ s.promptTokens.length + s.config.maxNewTokens := hlimit
      omega
    have hnpos : 0 < n := by omega
    have hpow : (0 : ℚ) < (n : ℚ) ^ s.config.lengthPenalty := pow_pos (Nat.cast_pos.2 hnpos) _
    have hpows : (n : ℚ) ^ s.config.lengthPenalty ≤
        (s.config.maxNewTokens : ℚ) ^ s.config.lengthPenalty :=
      pow_le_pow_left₀ (Nat.cast_nonneg _) (Nat.cast_le.2 hlimit) _
    have hscore : s.score h' ≤
        ((h.logprobSum / (s.config.maxNewTokens : ℚ) ^ s.config.lengthPenalty : ℚ) :
          WithBot ℚ) := by
      rw [score_eq hmath hnpos hn, WithBot.coe_le_coe]
      calc h'.logprobSum / (n : ℚ) ^ s.config.lengthPenalty
          ≤ h.logprobSum / (n : ℚ) ^ s.config.lengthPenalty :=
            div_le_div_of_nonneg_right hsum hpow.le
        _ ≤ h.logprobSum / (s.config.maxNewTokens : ℚ) ^ s.config.lengthPenalty := by
            rw [← neg_le_neg_iff, ← neg_div, ← neg_div]
            exact div_le_div_of_nonneg_left (neg_nonneg.2 hneg) hpow hpows
    exact hscore.trans (le_bestScore_iff.2 (hsums h hmem))

/-- Without a length penalty every stop is sound. -/
theorem unbeatable_of_no_penalty (hmath : s.math = ideal)
    (hanswers : AnswersLogProbs vocab s.forward) (hreached : Reached s k beams)
    (hstops : s.stops beams = true) (hpenalty : s.config.lengthPenalty = 0) :
    Unbeatable s vocab k beams := by
  refine (unbeatable_iff hmath hanswers hreached hstops).2 fun h hmem => ?_
  obtain ⟨-, -, hlength⟩ := hreached.wellGrown.active h hmem
  have hscore := score_eq hmath (hreached.pos_of_stops hstops) hlength
  -- The present score is already the one at the greatest length.
  have hpresent : ((h.logprobSum / (s.config.maxNewTokens : ℚ) ^ s.config.lengthPenalty : ℚ) :
      WithBot ℚ) = s.score h := by
    rw [hscore, hpenalty, pow_zero, pow_zero]
  have hle : s.score h ≤ s.bestScore beams.finished := by
    rw [stops, Bool.and_eq_true, decide_eq_true_eq] at hstops
    exact (le_foldl_max_iff.2 (.inr ⟨h, hmem, le_rfl⟩)).trans hstops.2
  rw [← hpresent] at hle
  exact le_bestScore_iff.1 hle

end Search

/-! ### A stop that comes too early -/

/-- Two beams over two tokens, of which the second ends the sequence.  At first the end is a little
more likely than the other token; from then on it is not. -/
def endsFirst (lengthPenalty : ℕ) : Search ℚ ℕ Empty where
  math := ideal
  byLogprob := byInsertion ℚ
  byScore := byInsertion (WithBot ℚ)
  forward tokens := .ok (if tokens.length ≤ 1 then [-6 / 5, -1] else [-1 / 10, -3])
  promptTokens := [7]
  config := { beamWidth := 2, maxNewTokens := 2, lengthPenalty, earlyStopping := true }
  eosTokenId := 1

/-- The beams after a round. -/
def afterRound : Beams ℚ where
  active := [{ tokens := [7, 0], logprobSum := -6 / 5, finished := false }]
  finished := [{ tokens := [7, 1], logprobSum := -1, finished := true }]

theorem answersLogProbs_endsFirst (p : ℕ) : AnswersLogProbs 2 (endsFirst p).forward := by
  intro tokens logProbs hforward
  obtain rfl := Except.ok.inj hforward
  split
  · exact ⟨rfl, by decide +kernel⟩
  · exact ⟨rfl, by decide +kernel⟩

theorem reached_afterRound {p : ℕ}
    (hround : (endsFirst p).round (endsFirst p).start = .ok afterRound) :
    Search.Reached (endsFirst p) 1 afterRound :=
  Search.Reached.start.round Nat.zero_lt_two (List.cons_ne_nil _ _) (Search.stops_start _) hround

/-- Without a length penalty the search is right to stop there, and with one it is not. -/
theorem unbeatable_endsFirst :
    Search.Unbeatable (endsFirst 0) 2 1 afterRound ∧
      ¬ Search.Unbeatable (endsFirst 1) 2 1 afterRound := by
  refine ⟨?_, fun hunbeatable => ?_⟩
  · refine (Search.unbeatable_iff rfl (answersLogProbs_endsFirst 0)
      (reached_afterRound (by decide +kernel)) (by decide +kernel)).2 ?_
    decide +kernel
  · have hsums := (Search.unbeatable_iff rfl (answersLogProbs_endsFirst 1)
      (reached_afterRound (by decide +kernel)) (by decide +kernel)).1 hunbeatable
    revert hsums
    decide +kernel

/-- **A search that stops too early**: it ends after the first of two rounds with the finished
score `-1`, and the active beam goes on to `-13/20`. -/
theorem exists_unsound_stop :
    AnswersLogProbs 2 (endsFirst 1).forward ∧ Search.Reached (endsFirst 1) 1 afterRound ∧
      1 < (endsFirst 1).config.maxNewTokens ∧
      (endsFirst 1).decodeLoop (endsFirst 1).config.maxNewTokens (endsFirst 1).start =
        .ok afterRound ∧
      ¬ (endsFirst 1).Unbeaten afterRound := by
  have hreached : Search.Reached (endsFirst 1) 1 afterRound :=
    reached_afterRound (by decide +kernel)
  refine ⟨answersLogProbs_endsFirst 1, hreached, Nat.one_lt_two, ?_, fun hunbeaten => ?_⟩
  · rw [hreached.decodeLoop_eq, if_pos (by decide +kernel)]
  · have hgrows : (endsFirst 1).Grows ⟨[7, 0], -6 / 5, false⟩
        ⟨[7, 0, 0], -6 / 5 + -1 / 10, false⟩ := .snoc (i := 0) (.refl _) rfl rfl rfl
    have hbeaten := hunbeaten _ (List.mem_singleton_self _) _ hgrows (Nat.le_refl 3)
    revert hbeaten
    decide +kernel

end Beam

end Oxillama
