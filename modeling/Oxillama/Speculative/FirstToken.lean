/-
The first token of a round and its law.

`firstToken` reads the first token that a round commits, an end-of-sequence token
included, off its end; `law` is its probability for uniform draws.  Where no engine
call fails, a round that may draft a token commits

* a token drawn from the target, if the first token drafted ends the draft engine's
  text: nothing is proposed then, and nothing is verified;
* the token drafted, if the target accepts it;
* a token drawn from the residual, if the target rejects it.

`law_eq` sums these up; what becomes of the other proposals does not matter.
-/
import Oxillama.Speculative.Rollback

namespace Oxillama

namespace Speculative

open scoped ENNReal

variable {K L : Type}

/-- The end-of-sequence token that ended the loop. -/
def RoundEnd.eos : RoundEnd L → Option ℕ
  | .finished _ eos => eos
  | _ => none

/-- The first token a round from `s₀` on commits. -/
def firstToken (s₀ : LoopState L) (r : RoundEnd L) : Option ℕ :=
  (r.state.emitted ++ r.eos.toList)[s₀.emitted.length]?

/-- No engine call of the loop fails. -/
structure Total (c : SpeculativeEngine K L) : Prop where
  draftForward : ∀ tokens, (c.draft.forward tokens).isSome
  targetForward : ∀ tokens, (c.target.forward tokens).isSome
  targetDecode : ∀ token, (c.target.decode token).isSome

/-! ### Rounds without errors -/

section NoErrors

theorem Engine.forwardOne_isSome {engine : Engine L} (h : ∀ tokens, (engine.forward tokens).isSome)
    (token : ℕ) (cache : List ℕ) :
    ∃ l, engine.forwardOne token cache = some (cache ++ [token], l) := by
  obtain ⟨l, hl⟩ := Option.isSome_iff_exists.mp (h (cache ++ [token]))
  refine ⟨l, ?_⟩
  rw [Engine.forwardOne, hl]
  rfl

theorem emitTokens_all {engine : Engine L} (h : ∀ token, (engine.decode token).isSome)
    (tokens : List ℕ) (s : LoopState L) :
    ∃ text, emitTokens engine tokens s = ({ s with
      generated := text
      tokensGenerated := s.tokensGenerated + tokens.length
      emitted := s.emitted ++ tokens }, true) := by
  have hok : ∀ s, (emitTokens engine tokens s).2 = true := by
    induction tokens with
    | nil => exact fun s => rfl
    | cons token tokens ih =>
      intro s
      obtain ⟨text, htext⟩ := Option.isSome_iff_exists.mp (h token)
      rw [emitTokens, emitToken, htext]
      exact ih _
  obtain ⟨n, text, -, hall, hs⟩ := emitTokens_spec engine tokens s
  obtain rfl := hall (hok s)
  rw [List.take_length] at hs
  exact ⟨text, Prod.ext hs (hok s)⟩

variable {c : SpeculativeEngine K L} {s s₀ : LoopState L}

/-- What is emitted first is the first token, whatever follows it. -/
theorem firstToken_of_emitted {r : RoundEnd L} {token : ℕ}
    (h : s₀.emitted ++ [token] <+: r.state.emitted) : firstToken s₀ r = some token := by
  obtain ⟨rest, hrest⟩ := h
  rw [firstToken, ← hrest, List.append_assoc, List.append_assoc,
    List.getElem?_append_right le_rfl, Nat.sub_self]
  rfl

/-- Where nothing was emitted yet, the bonus token is the first. -/
theorem firstToken_commitBonus (hc : Total c) (hs : s.emitted = s₀.emitted) (bonus : ℕ) :
    firstToken s₀ (commitBonus c bonus s) = some bonus := by
  rw [commitBonus]
  split
  · rw [firstToken, ← hs]
    exact List.getElem?_concat_length
  · obtain ⟨l, hl⟩ := Engine.forwardOne_isSome hc.targetForward bonus s.targetCache
    obtain ⟨text, htext⟩ := emitTokens_all hc.targetDecode [bonus] { s with
      targetCache := s.targetCache ++ [bonus], targetNextLogits := l }
    rw [hl]
    dsimp only
    rw [htext]
    dsimp only
    obtain ⟨l', hl'⟩ := Engine.forwardOne_isSome hc.draftForward bonus
      (truncate (s.committedLen + 1 - 1) s.draftCache)
    rw [hl']
    refine firstToken_of_emitted ?_
    show s₀.emitted ++ [bonus] <+: s.emitted ++ [bonus]
    rw [hs]

/-- Committing the bonus token takes nothing back. -/
theorem commitBonus_emitted (c : SpeculativeEngine K L) (bonus : ℕ) (s : LoopState L) :
    s.emitted <+: (commitBonus c bonus s).state.emitted := by
  rw [commitBonus]
  split
  · exact List.prefix_refl _
  · split
    · exact List.prefix_refl _
    · rename_i targetCache targetNextLogits _
      obtain ⟨n, text, -, -, hs⟩ := emitTokens_spec c.target [bonus] { s with
        targetCache := targetCache, targetNextLogits := targetNextLogits }
      generalize emitTokens c.target [bonus] _ = emitted at hs ⊢
      obtain ⟨s₁, ok⟩ := emitted
      dsimp only at hs
      have hkept : s.emitted <+: s₁.emitted := by
        rw [hs]
        exact List.prefix_append _ _
      cases ok with
      | false => exact hkept
      | true =>
        dsimp only
        split <;> exact hkept

variable [Field K] [LinearOrder K] {maxTokens : ℕ} {proposals : List (Proposal K L)} {v : Verdict L}

/-- With a proposal accepted, the first proposal is the first token. -/
theorem firstToken_commit_accepted (hc : Total c) (hs : s.emitted = s₀.emitted)
    (hv : 0 < v.accepted) {p : Proposal K L} {r : RoundEnd L}
    (hr : (commit c maxTokens (p :: proposals) v s).Possible r) :
    firstToken s₀ r = some p.token := by
  obtain ⟨n, hn⟩ := Nat.exists_eq_succ_of_ne_zero hv.ne'
  rw [commit, hn, List.map_cons, List.take_succ_cons] at hr
  obtain ⟨text, htext⟩ := emitTokens_all hc.targetDecode
    (p.token :: (proposals.map Proposal.token).take n) s
  rw [htext] at hr
  dsimp only at hr
  have hfirst : s₀.emitted ++ [p.token] <+:
      s.emitted ++ p.token :: (proposals.map Proposal.token).take n :=
    ⟨(proposals.map Proposal.token).take n, by rw [hs, List.append_assoc]; rfl⟩
  split at hr
  · obtain rfl := Draw.possible_pure.mp hr
    exact firstToken_of_emitted hfirst
  · split at hr
    · obtain rfl := Draw.possible_pure.mp hr
      exact firstToken_of_emitted hfirst
    · obtain ⟨bonus, -, hr⟩ := Draw.possible_bind.mp hr
      obtain rfl := Draw.possible_pure.mp hr
      refine firstToken_of_emitted (List.IsPrefix.trans ?_ (commitBonus_emitted c bonus _))
      exact hfirst

/-- With none accepted, the end-of-sequence token that was confirmed ends the loop, or
the bonus token is drawn. -/
theorem commit_none_accepted (hv : v.accepted = 0) (hlt : s.tokensGenerated < maxTokens) :
    commit c maxTokens proposals v s =
      if v.eosReached then .pure (.finished s (proposals.map Proposal.token)[0]?)
      else drawBonus c v.bonusToken s.targetNextLogits >>= fun bonus =>
        .pure (commitBonus c bonus s) := by
  rw [commit, hv, List.take_zero, emitTokens]
  dsimp only
  rw [Nat.add_zero, if_neg (not_le.mpr hlt)]

/-- The draft proposal phase does not fail. -/
theorem propose_isSome (hc : Total c) {k : ℕ} {cache : List ℕ} {cur : L}
    {result : Option (List ℕ × List (Proposal K L))}
    (h : (propose c k cache cur).Possible result) : ∃ r, result = some r := by
  induction k generalizing cache cur result with
  | zero => exact ⟨_, Draw.possible_pure.mp h⟩
  | succ k ih =>
    obtain ⟨⟨token, prob⟩, -, h⟩ := Draw.possible_bind.mp h
    dsimp only at h
    split at h
    · exact ⟨_, Draw.possible_pure.mp h⟩
    · obtain ⟨l, hl⟩ := Engine.forwardOne_isSome hc.draftForward token cache
      rw [hl] at h
      obtain ⟨result, hrec, h⟩ := Draw.possible_bind.mp h
      obtain ⟨r, rfl⟩ := ih hrec
      exact ⟨_, Draw.possible_pure.mp h⟩

/-- The verification phase does not fail. -/
theorem verify_isSome (hc : Total c) {cache : List ℕ} {cur : L} {result : Option (Verdict L)}
    (h : (verify c proposals cache cur).Possible result) : ∃ v, result = some v := by
  induction proposals generalizing cache cur result with
  | nil => exact ⟨_, Draw.possible_pure.mp h⟩
  | cons p rest ih =>
    obtain ⟨u, -, h⟩ := Draw.possible_bind.mp h
    split at h
    · split at h
      · exact ⟨_, Draw.possible_pure.mp h⟩
      · obtain ⟨l, hl⟩ := Engine.forwardOne_isSome hc.targetForward p.token cache
        rw [hl] at h
        obtain ⟨result, hrec, h⟩ := Draw.possible_bind.mp h
        obtain ⟨v, rfl⟩ := ih hrec
        exact ⟨_, Draw.possible_pure.mp h⟩
    · obtain ⟨bonus, -, h⟩ := Draw.possible_bind.mp h
      exact ⟨_, Draw.possible_pure.mp h⟩

end NoErrors

/-! ### The law of the first token -/

section Law

variable {c : SpeculativeEngine ℝ L} {s s₀ : LoopState L} {maxTokens : ℕ}

/-- The indicator of a token. -/
noncomputable def isToken (x : ℕ) (o : Option ℕ) : ℝ≥0∞ := if o = some x then 1 else 0

/-- The probability that `x` is the first token that a round from `s` on commits. -/
noncomputable def law (c : SpeculativeEngine ℝ L) (maxTokens : ℕ) (s : LoopState L) (x : ℕ) :
    ℝ≥0∞ :=
  (round c maxTokens s).expect fun r => isToken x (firstToken s r)

/-- One token's term of a sum over a vector. -/
private theorem sum_isToken (f : ℕ → ℝ≥0∞) {n x : ℕ} (h : n ≤ x → f x = 0) :
    ∑ i ∈ Finset.range n, f i * isToken x (some i) = f x := by
  have hterm : ∀ i, f i * isToken x (some i) = if i = x then f x else 0 := by
    intro i
    rw [isToken]
    by_cases hi : i = x
    · rw [if_pos hi, if_pos (congrArg some hi), mul_one, hi]
    · rw [if_neg hi, if_neg (fun h => hi (Option.some.inj h)), mul_zero]
  simp only [hterm, Finset.sum_ite_eq', Finset.mem_range]
  split
  · rfl
  · rename_i hx
    exact (h (not_lt.mp hx)).symm

/-- The bonus token that is drawn afresh has the target's law. -/
theorem expect_freshBonus (hc : Total c) (hs : s.emitted = s₀.emitted)
    (hp : IsDist (c.softmax s.targetNextLogits)) (x : ℕ) :
    ((drawBonus c none s.targetNextLogits >>= fun bonus => Draw.pure (commitBonus c bonus s)).expect
        fun r => isToken x (firstToken s₀ r)) =
      ENNReal.ofReal ((c.softmax s.targetNextLogits).getD x 0) := by
  simp only [drawBonus, Draw.expect_bind, Draw.expect_pure, firstToken_commitBonus hc hs]
  rw [expect_sampleWithProb hp]
  refine sum_isToken (fun i => ENNReal.ofReal ((c.softmax s.targetNextLogits).getD i 0))
    fun hx => ?_
  rw [List.getD_eq_default _ _ hx, ENNReal.ofReal_zero]

/-- A rejected proposal is replaced by a token of the residual. -/
theorem expect_residualBonus {p q : List ℝ} (hp : IsDist p)
    {f : ℕ → RoundEnd L} (hf : ∀ bonus, firstToken s₀ (f bonus) = some bonus) (x : ℕ) :
    ((sampleResidual p q).expect fun bonus => isToken x (firstToken s₀ (f bonus))) =
      ENNReal.ofReal (residualProb p q x) := by
  simp only [hf]
  rw [expect_sampleResidual hp]
  refine sum_isToken (fun i => ENNReal.ofReal (residualProb p q i)) fun hx => ?_
  rw [← getD_residual, List.getD_eq_default _ _ hx, ENNReal.ofReal_zero]

/-- A round from the end of the draft proposal phase on. -/
noncomputable def verifyAndCommit (c : SpeculativeEngine ℝ L) (maxTokens : ℕ) (s : LoopState L)
    (draftCache : List ℕ) (proposals : List (Proposal ℝ L)) : Draw ℝ (RoundEnd L) :=
  verify c proposals s.targetCache s.targetNextLogits >>= fun verdict =>
    match verdict with
    | none => .pure (.failed s)
    | some v =>
      commit c maxTokens proposals v { s with
        draftCache := draftCache
        targetCache := v.cache
        targetNextLogits := v.nextLogits }

/-- Without a proposal the first token is the target's. -/
theorem expect_verifyAndCommit_nil (hc : Total c) (hlt : s.tokensGenerated < maxTokens)
    (hp : IsDist (c.softmax s.targetNextLogits)) (draftCache : List ℕ) (x : ℕ) :
    ((verifyAndCommit c maxTokens s draftCache []).expect fun r => isToken x (firstToken s r)) =
      ENNReal.ofReal ((c.softmax s.targetNextLogits).getD x 0) := by
  rw [verifyAndCommit, verify, Draw.pure_bind]
  dsimp only
  rw [commit_none_accepted (s := { s with draftCache := draftCache }) rfl hlt,
    if_neg Bool.false_ne_true]
  exact expect_freshBonus (s := { s with draftCache := draftCache }) hc rfl hp x

/-- The first proposal is accepted, or replaced from the residual. -/
theorem expect_verifyAndCommit_cons (hc : Total c) (hlt : s.tokensGenerated < maxTokens)
    (hp : IsDist (c.softmax s.targetNextLogits)) (draftCache : List ℕ) (first : Proposal ℝ L)
    (rest : List (Proposal ℝ L)) (x : ℕ) :
    ((verifyAndCommit c maxTokens s draftCache (first :: rest)).expect
        fun r => isToken x (firstToken s r)) =
      ENNReal.ofReal (acceptThreshold ((c.softmax s.targetNextLogits).getD first.token 0)
          first.prob) * isToken x (some first.token) +
        ENNReal.ofReal (1 - acceptThreshold ((c.softmax s.targetNextLogits).getD first.token 0)
          first.prob) *
          ENNReal.ofReal (residualProb (c.softmax s.targetNextLogits)
            (c.softmax first.stepLogits) x) := by
  rw [verifyAndCommit, verify, Draw.expect_bind]
  rw [Draw.expect_accept _ (acceptThreshold_nonneg (hp.getD_nonneg _))
    (acceptThreshold_le_one _ _)]
  congr 1
  · -- accepted: the first token is decided
    congr 1
    refine Draw.expect_eq_of_possible fun verdict hverdict => ?_
    split at hverdict
    · obtain rfl := Draw.possible_pure.mp hverdict
      dsimp only
      rw [commit_none_accepted (s := { s with draftCache := draftCache }) rfl hlt, if_pos rfl,
        Draw.expect_pure, firstToken]
      congr 1
      exact List.getElem?_concat_length
    · obtain ⟨l, hl⟩ := Engine.forwardOne_isSome hc.targetForward first.token s.targetCache
      rw [hl] at hverdict
      obtain ⟨result, hrest, hverdict⟩ := Draw.possible_bind.mp hverdict
      obtain ⟨v, rfl⟩ := verify_isSome hc hrest
      obtain rfl := Draw.possible_pure.mp hverdict
      refine Draw.expect_eq_of_possible fun r hr => ?_
      exact congrArg (isToken x) (firstToken_commit_accepted
        (v := { v with accepted := v.accepted + 1 })
        (s := { s with
          draftCache := draftCache
          targetCache := v.cache
          targetNextLogits := v.nextLogits }) hc rfl (Nat.succ_pos v.accepted) hr)
  · -- rejected
    congr 1
    rw [Draw.expect_bind]
    simp only [Draw.expect_pure]
    have hbonus : ∀ bonus, (commit c maxTokens (first :: rest)
        ⟨s.targetCache, s.targetNextLogits, 0, some bonus, false⟩
        { s with draftCache := draftCache }) =
        .pure (commitBonus c bonus { s with draftCache := draftCache }) := by
      intro bonus
      rw [commit_none_accepted (s := { s with draftCache := draftCache }) rfl hlt,
        if_neg Bool.false_ne_true]
      rfl
    simp only [hbonus, Draw.expect_pure]
    exact expect_residualBonus hp (fun bonus =>
      firstToken_commitBonus (s := { s with draftCache := draftCache }) hc rfl bonus) x

/-- **The law of the first token.** -/
theorem law_eq (hc : Total c) (hk : 0 < min c.numSpeculative (maxTokens - s.tokensGenerated))
    (hp : IsDist (c.softmax s.targetNextLogits)) (hq : IsDist (c.softmax s.draftNextLogits))
    (x : ℕ) :
    law c maxTokens s x = ∑ t ∈ Finset.range (c.softmax s.draftNextLogits).length,
      ENNReal.ofReal ((c.softmax s.draftNextLogits).getD t 0) *
        if c.draft.isEos t then ENNReal.ofReal ((c.softmax s.targetNextLogits).getD x 0)
        else
          ENNReal.ofReal (acceptThreshold ((c.softmax s.targetNextLogits).getD t 0)
              ((c.softmax s.draftNextLogits).getD t 0)) * isToken x (some t) +
            ENNReal.ofReal (1 - acceptThreshold ((c.softmax s.targetNextLogits).getD t 0)
              ((c.softmax s.draftNextLogits).getD t 0)) *
              ENNReal.ofReal (residualProb (c.softmax s.targetNextLogits)
                (c.softmax s.draftNextLogits) x) := by
  obtain ⟨k, hk⟩ := Nat.exists_eq_succ_of_ne_zero hk.ne'
  have hlt : s.tokensGenerated < maxTokens := by omega
  rw [law, round, hk, propose, Draw.expect_bind, Draw.expect_bind, expect_sampleWithProb hq]
  refine Finset.sum_congr rfl fun t _ => ?_
  congr 1
  dsimp only
  split
  · exact expect_verifyAndCommit_nil hc hlt hp s.draftCache x
  · obtain ⟨l, hl⟩ := Engine.forwardOne_isSome hc.draftForward t s.draftCache
    rw [hl]
    -- what is proposed after the first token does not matter
    refine Draw.expect_eq_of_possible fun result hresult => ?_
    obtain ⟨result', hrest, hresult⟩ := Draw.possible_bind.mp hresult
    obtain ⟨⟨draftCache, rest⟩, rfl⟩ := propose_isSome hc hrest
    obtain rfl := Draw.possible_pure.mp hresult
    exact expect_verifyAndCommit_cons hc hlt hp draftCache
      ⟨t, (c.softmax s.draftNextLogits).getD t 0, s.draftNextLogits⟩ rest x

end Law

end Speculative

end Oxillama
