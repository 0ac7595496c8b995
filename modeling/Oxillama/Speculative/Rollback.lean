/-
What the caches hold at the top of a round.

A fresh prefill of a sequence is `Engine.fresh`.  At the top of a round both engines
are as a fresh prefill of the prompt and the tokens emitted so far would leave them
(`Synced`): a round lets the draft engine run ahead of the target, and the rollback
takes back exactly what was not accepted.

* `propose_spec`, `verify_spec`, `emitTokens_spec` — what each phase of a round leaves;
* `commitBonus_spec`, `commit_spec`, `round_spec` — a round keeps `Synced`, and one
  that is followed by another emits a token at least;
* `generate_synced` — so for a whole run, which ends after at most `maxTokens` rounds.
-/
import Oxillama.Kv.KvCache
import Oxillama.Speculative.Round

namespace Oxillama

namespace Speculative

variable {K L : Type}

namespace Engine

/-! ### A fresh prefill -/

/-- Prefilling an empty cache with all tokens but the last, which `forward_one` takes:
the cache, and the logits after the last token. -/
def fresh (engine : Engine L) (tokens : List ℕ) : Option (List ℕ × L) := do
  let last ← tokens.getLast?
  let cache ← engine.prefill tokens.dropLast []
  engine.forwardOne last cache

variable {engine : Engine L} {cache cache' tokens : List ℕ} {token : ℕ} {logits : L}

theorem forwardOne_eq_some (h : engine.forwardOne token cache = some (cache', logits)) :
    cache' = cache ++ [token] ∧ engine.forward (cache ++ [token]) = some logits := by
  obtain ⟨l, hl, heq⟩ := Option.bind_eq_some_iff.mp h
  obtain ⟨rfl, rfl⟩ := Prod.mk.inj (Option.some.inj heq)
  exact ⟨rfl, hl⟩

private theorem prefillChunks_nil (engine : Engine L) (size : ℕ) (cache : List ℕ) :
    engine.prefillChunks size [] cache = some cache := by
  rw [prefillChunks, dif_pos rfl]

private theorem prefillChunks_of_ne (engine : Engine L) (size : ℕ) {tokens : List ℕ}
    (h : tokens ≠ []) (cache : List ℕ) :
    engine.prefillChunks size tokens cache =
      (engine.forward (cache ++ tokens.take (max size 1))).bind fun _ =>
        engine.prefillChunks size (tokens.drop (max size 1))
          (cache ++ tokens.take (max size 1)) := by
  rw [prefillChunks, dif_neg h]
  rfl

/-- One chunk holds all tokens. -/
theorem prefillChunks_one {size : ℕ} (hne : tokens ≠ []) (hlen : tokens.length ≤ max size 1)
    (hforward : engine.forward (cache ++ tokens) = some logits) :
    engine.prefillChunks size tokens cache = some (cache ++ tokens) := by
  rw [prefillChunks_of_ne engine size hne, List.take_of_length_le hlen,
    List.drop_of_length_le hlen, hforward]
  exact prefillChunks_nil engine size _

/-- Prefilling appends the tokens to the cache. -/
theorem prefillChunks_eq_some {size : ℕ}
    (h : engine.prefillChunks size tokens cache = some cache') :
    cache' = cache ++ tokens := by
  induction tokens, cache using Engine.prefillChunks.induct size with
  | case1 cache =>
    rw [prefillChunks_nil] at h
    rw [← Option.some.inj h, List.append_nil]
  | case2 tokens cache hne chunk ih =>
    rw [prefillChunks_of_ne engine size hne] at h
    obtain ⟨l, -, hrest⟩ := Option.bind_eq_some_iff.mp h
    rw [ih hrest, List.append_assoc, List.take_append_drop]

/-- What was prefilled can be prefilled with one more token, if that can be computed. -/
theorem prefillChunks_snoc {size : ℕ} (h : engine.prefillChunks size tokens cache = some cache')
    (hforward : engine.forward (cache ++ tokens ++ [token]) = some logits) :
    engine.prefillChunks size (tokens ++ [token]) cache = some (cache ++ tokens ++ [token]) := by
  induction tokens, cache using Engine.prefillChunks.induct size with
  | case1 cache =>
    rw [List.append_nil] at hforward ⊢
    exact prefillChunks_one (List.cons_ne_nil _ _) (le_max_right _ _) hforward
  | case2 tokens cache hne chunk ih =>
    rw [prefillChunks_of_ne engine size hne] at h
    obtain ⟨l, hl, hrest⟩ := Option.bind_eq_some_iff.mp h
    rcases Nat.lt_or_ge tokens.length (max size 1) with hlt | hge
    · -- the token still fits in the last chunk
      have hlen : (tokens ++ [token]).length ≤ max size 1 := by
        rw [List.length_append]
        exact hlt
      rw [List.append_assoc] at hforward ⊢
      exact prefillChunks_one (by simp) hlen hforward
    · rw [prefillChunks_of_ne engine size (by simp), List.take_append_of_le_length hge,
        List.drop_append_of_le_length hge, hl]
      rw [List.append_assoc cache, List.take_append_drop] at ih
      exact ih hrest hforward

theorem fresh_eq_some (h : engine.fresh tokens = some (cache, logits)) :
    cache = tokens ∧ engine.forward tokens = some logits := by
  obtain ⟨last, hlast, h⟩ := Option.bind_eq_some_iff.mp h
  obtain ⟨prefilled, hprefill, h⟩ := Option.bind_eq_some_iff.mp h
  obtain ⟨rfl, hforward⟩ := forwardOne_eq_some h
  have hall : prefilled ++ [last] = tokens := by
    rw [prefillChunks_eq_some hprefill, List.nil_append]
    exact List.dropLast_append_getLast? last hlast
  rw [hall] at hforward ⊢
  exact ⟨rfl, hforward⟩

/-- All of a sequence that was prefilled afresh can be prefilled at once. -/
theorem prefill_of_fresh (h : engine.fresh tokens = some (cache, logits)) :
    engine.prefill tokens [] = some tokens := by
  have hforward := (fresh_eq_some h).2
  obtain ⟨last, hlast, h⟩ := Option.bind_eq_some_iff.mp h
  obtain ⟨prefilled, hprefill, -⟩ := Option.bind_eq_some_iff.mp h
  have hall : tokens.dropLast ++ [last] = tokens := List.dropLast_append_getLast? last hlast
  rw [prefill] at hprefill ⊢
  by_cases hsize : engine.prefillChunkSize = 0
  · -- one chunk, whatever the length
    have hne : tokens ≠ [] := by
      rintro rfl
      cases hlast
    rw [if_pos hsize]
    exact prefillChunks_one hne (le_max_left _ _) hforward
  · rw [if_neg hsize] at hprefill ⊢
    have hlastForward : engine.forward ([] ++ tokens.dropLast ++ [last]) = some logits := by
      rw [List.nil_append, hall]
      exact hforward
    have hsnoc := prefillChunks_snoc hprefill hlastForward
    rwa [List.nil_append, hall] at hsnoc

/-- **One more token.**  Where `forward_one` goes on from a fresh prefill, it leaves what
a fresh prefill of the longer sequence would. -/
theorem fresh_forwardOne (h : engine.fresh tokens = some (cache, logits)) {logits' : L}
    (hone : engine.forwardOne token cache = some (cache', logits')) :
    cache' = tokens ++ [token] ∧ engine.fresh (tokens ++ [token]) = some (cache', logits') := by
  obtain ⟨rfl, -⟩ := fresh_eq_some h
  obtain ⟨rfl, hforward⟩ := forwardOne_eq_some hone
  refine ⟨rfl, ?_⟩
  rw [fresh, List.getLast?_concat, List.dropLast_concat, prefill_of_fresh h]
  exact hone

/-- From `cache` on, the engine was fed `tokens`, and after each of them was as a fresh
prefill leaves it. -/
def RanAhead (engine : Engine L) (cache tokens : List ℕ) : Prop :=
  ∀ n, ∃ l, engine.fresh (cache ++ tokens.take n) = some (cache ++ tokens.take n, l)

theorem ranAhead_nil (h : engine.fresh cache = some (cache, logits)) :
    engine.RanAhead cache [] := by
  intro n
  rw [List.take_nil, List.append_nil]
  exact ⟨logits, h⟩

theorem ranAhead_cons (h : engine.fresh cache = some (cache, logits))
    (hahead : engine.RanAhead (cache ++ [token]) tokens) :
    engine.RanAhead cache (token :: tokens) := by
  intro n
  cases n with
  | zero => exact ranAhead_nil h 0
  | succ n =>
    rw [List.take_succ_cons, List.append_cons]
    exact hahead n

end Engine

/-- Truncating the tokens follows `KvCache::truncate`. -/
theorem truncate_seqLen (n : ℕ) {kv : Kv.KvCache} {cache : List ℕ} (h : kv.seqLen = cache.length) :
    (kv.truncate n).seqLen = (truncate n cache).length := by
  rw [Kv.KvCache.truncate, truncate, List.length_take, h, min_assoc, min_self]

/-- Rolling back what came after. -/
theorem truncate_append (cache ahead : List ℕ) :
    truncate cache.length (cache ++ ahead) = cache := by
  have hle : cache.length ≤ (cache ++ ahead).length := by
    rw [List.length_append]
    exact Nat.le_add_right _ _
  rw [truncate, Nat.min_eq_left hle, List.take_left]

/-! ### The phases of a round -/

/-- What emitting tokens changes: some of them, first ones first, all if none fails. -/
theorem emitTokens_spec (engine : Engine L) (tokens : List ℕ) (s : LoopState L) :
    ∃ n text, n ≤ tokens.length ∧ ((emitTokens engine tokens s).2 = true → n = tokens.length) ∧
      (emitTokens engine tokens s).1 = { s with
        generated := text
        tokensGenerated := s.tokensGenerated + n
        emitted := s.emitted ++ tokens.take n } := by
  induction tokens generalizing s with
  | nil => exact ⟨0, s.generated, le_rfl, fun _ => rfl, by simp [emitTokens]⟩
  | cons token tokens ih =>
    rw [emitTokens, emitToken]
    cases engine.decode token with
    | none => exact ⟨0, s.generated, Nat.zero_le _, fun h => absurd h (by simp), by simp⟩
    | some text =>
      obtain ⟨n, text', hn, hall, hs⟩ := ih { s with
        generated := s.generated ++ text
        tokensGenerated := s.tokensGenerated + 1
        emitted := s.emitted ++ [token] }
      refine ⟨n + 1, text', Nat.succ_le_succ hn, fun h => congrArg (· + 1) (hall h), ?_⟩
      refine hs.trans ?_
      simp only [List.take_succ_cons, List.append_assoc, List.singleton_append, LoopState.mk.injEq,
        true_and, and_true]
      omega

section Phases

variable [Field K] [LinearOrder K] {c : SpeculativeEngine K L} {cache cache' : List ℕ} {cur : L}

/-- The draft proposal phase feeds the draft engine its proposals, at most `k`. -/
theorem propose_spec {k : ℕ} {proposals : List (Proposal K L)}
    (hfresh : c.draft.fresh cache = some (cache, cur))
    (h : (propose c k cache cur).Possible (some (cache', proposals))) :
    cache' = cache ++ proposals.map Proposal.token ∧ proposals.length ≤ k ∧
      c.draft.RanAhead cache (proposals.map Proposal.token) := by
  induction k generalizing cache cur proposals with
  | zero =>
    obtain ⟨rfl, rfl⟩ := Prod.mk.inj (Option.some.inj (Draw.possible_pure.mp h))
    exact ⟨(List.append_nil _).symm, le_rfl, Engine.ranAhead_nil hfresh⟩
  | succ k ih =>
    obtain ⟨⟨token, prob⟩, -, h⟩ := Draw.possible_bind.mp h
    dsimp only at h
    split at h
    · obtain ⟨rfl, rfl⟩ := Prod.mk.inj (Option.some.inj (Draw.possible_pure.mp h))
      exact ⟨(List.append_nil _).symm, Nat.zero_le _, Engine.ranAhead_nil hfresh⟩
    · cases hone : c.draft.forwardOne token cache with
      | none =>
        rw [hone] at h
        cases Draw.possible_pure.mp h
      | some r =>
        obtain ⟨cache₁, next⟩ := r
        rw [hone] at h
        obtain ⟨result, hrec, h⟩ := Draw.possible_bind.mp h
        obtain ⟨⟨cache₂, rest⟩, rfl, heq⟩ :=
          Option.map_eq_some_iff.mp (Draw.possible_pure.mp h).symm
        obtain ⟨rfl, rfl⟩ := Prod.mk.inj heq
        obtain ⟨rfl, hfresh'⟩ := Engine.fresh_forwardOne hfresh hone
        obtain ⟨hcache, hlen, hahead⟩ := ih hfresh' hrec
        exact ⟨by simpa using hcache, Nat.succ_le_succ hlen, Engine.ranAhead_cons hfresh hahead⟩

/-- The verification phase feeds the target engine the accepted proposals. -/
theorem verify_spec {proposals : List (Proposal K L)} {v : Verdict L}
    (hfresh : c.target.fresh cache = some (cache, cur))
    (h : (verify c proposals cache cur).Possible (some v)) :
    v.accepted ≤ proposals.length ∧
      v.cache = cache ++ (proposals.map Proposal.token).take v.accepted ∧
      c.target.fresh v.cache = some (v.cache, v.nextLogits) := by
  induction proposals generalizing cache cur v with
  | nil =>
    obtain rfl := Option.some.inj (Draw.possible_pure.mp h)
    exact ⟨le_rfl, by simp, hfresh⟩
  | cons p rest ih =>
    obtain ⟨u, -, h⟩ := Draw.possible_bind.mp h
    split at h
    · split at h
      · obtain rfl := Option.some.inj (Draw.possible_pure.mp h)
        exact ⟨Nat.zero_le _, by simp, hfresh⟩
      · cases hone : c.target.forwardOne p.token cache with
        | none =>
          rw [hone] at h
          cases Draw.possible_pure.mp h
        | some r =>
          obtain ⟨cache₁, next⟩ := r
          rw [hone] at h
          obtain ⟨result, hrec, h⟩ := Draw.possible_bind.mp h
          obtain ⟨w, rfl, rfl⟩ := Option.map_eq_some_iff.mp (Draw.possible_pure.mp h).symm
          obtain ⟨rfl, hfresh'⟩ := Engine.fresh_forwardOne hfresh hone
          obtain ⟨hle, hcache, hnext⟩ := ih hfresh' hrec
          exact ⟨Nat.succ_le_succ hle, by simpa using hcache, hnext⟩
    · obtain ⟨bonus, -, h⟩ := Draw.possible_bind.mp h
      obtain rfl := Option.some.inj (Draw.possible_pure.mp h)
      exact ⟨Nat.zero_le _, by simp, hfresh⟩

end Phases

/-! ### A round -/

/-- At the top of a round: both engines are as a fresh prefill of the prompt and the
emitted tokens leaves them, and no more than `maxTokens` were emitted. -/
structure Synced (c : SpeculativeEngine K L) (maxTokens : ℕ) (prompt : List ℕ)
    (s : LoopState L) : Prop where
  draftCache : s.draftCache = prompt ++ s.emitted
  targetCache : s.targetCache = prompt ++ s.emitted
  draft : c.draft.fresh (prompt ++ s.emitted) = some (s.draftCache, s.draftNextLogits)
  target : c.target.fresh (prompt ++ s.emitted) = some (s.targetCache, s.targetNextLogits)
  committedLen : s.committedLen = (prompt ++ s.emitted).length
  tokensGenerated : s.tokensGenerated = s.emitted.length
  bounded : s.emitted.length ≤ maxTokens

/-- When the bonus token is drawn: the draft engine is ahead by some tokens. -/
structure Verified (c : SpeculativeEngine K L) (prompt : List ℕ) (s : LoopState L) : Prop where
  draftCache : ∃ ahead, s.draftCache = prompt ++ s.emitted ++ ahead
  draft : ∃ l, c.draft.fresh (prompt ++ s.emitted) = some (prompt ++ s.emitted, l)
  target : c.target.fresh (prompt ++ s.emitted) = some (s.targetCache, s.targetNextLogits)
  committedLen : s.committedLen = (prompt ++ s.emitted).length
  tokensGenerated : s.tokensGenerated = s.emitted.length

/-- What a round may end with that began in `s`. -/
def Kept (c : SpeculativeEngine K L) (maxTokens : ℕ) (prompt : List ℕ) (s : LoopState L)
    (r : RoundEnd L) : Prop :=
  r.state.emitted.length ≤ maxTokens ∧
    ∀ s', r = .next s' → Synced c maxTokens prompt s' ∧ s.emitted.length < s'.emitted.length

section Round

variable {c : SpeculativeEngine K L} {maxTokens : ℕ} {prompt : List ℕ} {s : LoopState L}

/-- A round that ends the loop keeps within the budget. -/
theorem kept_of_ends {r : RoundEnd L} (hle : r.state.emitted.length ≤ maxTokens)
    (hends : ∀ s', r ≠ .next s') : Kept c maxTokens prompt s r :=
  ⟨hle, fun s' h => absurd h (hends s')⟩

/-- A run begins in step. -/
theorem start_synced (hstart : start c prompt = some s) : Synced c maxTokens prompt s := by
  obtain ⟨last, hlast, h⟩ := Option.bind_eq_some_iff.mp hstart
  obtain ⟨draftCache, hdraft, h⟩ := Option.bind_eq_some_iff.mp h
  obtain ⟨targetCache, htarget, h⟩ := Option.bind_eq_some_iff.mp h
  obtain ⟨⟨draftCache', draftNext⟩, hdraft', h⟩ := Option.bind_eq_some_iff.mp h
  obtain ⟨⟨targetCache', targetNext⟩, htarget', h⟩ := Option.bind_eq_some_iff.mp h
  obtain rfl := Option.some.inj h
  have hfresh : ∀ {engine : Engine L} {cache cache' : List ℕ} {l : L},
      engine.prefill prompt.dropLast [] = some cache →
      engine.forwardOne last cache = some (cache', l) →
      engine.fresh prompt = some (cache', l) := by
    intro engine cache cache' l hprefill hone
    rw [Engine.fresh, hlast]
    show (engine.prefill prompt.dropLast []).bind _ = _
    rw [hprefill]
    exact hone
  have hdraft := hfresh hdraft hdraft'
  have htarget := hfresh htarget htarget'
  refine ⟨?_, ?_, ?_, ?_, ?_, rfl, Nat.zero_le _⟩
  · exact (Engine.fresh_eq_some hdraft).1.trans (List.append_nil _).symm
  · exact (Engine.fresh_eq_some htarget).1.trans (List.append_nil _).symm
  · exact (List.append_nil prompt).symm ▸ hdraft
  · exact (List.append_nil prompt).symm ▸ htarget
  · exact congrArg List.length (List.append_nil prompt).symm

/-- The rollback leaves what was verified, and the bonus token follows it in both caches. -/
theorem commitBonus_spec (h : Verified c prompt s) (hlt : s.tokensGenerated < maxTokens)
    (bonus : ℕ) : Kept c maxTokens prompt s (commitBonus c bonus s) := by
  have hbound : s.emitted.length < maxTokens := h.tokensGenerated ▸ hlt
  rw [commitBonus]
  split
  · exact kept_of_ends hbound.le nofun
  · split
    · exact kept_of_ends hbound.le nofun
    · rename_i targetCache targetNextLogits hone
      obtain ⟨rfl, htarget⟩ := Engine.fresh_forwardOne h.target hone
      obtain ⟨n, text, hn, hall, hs⟩ := emitTokens_spec c.target [bonus] { s with
        targetCache := prompt ++ s.emitted ++ [bonus]
        targetNextLogits := targetNextLogits }
      generalize emitTokens c.target [bonus] _ = emitted at hall hs ⊢
      obtain ⟨s₁, ok⟩ := emitted
      dsimp only at hs
      have hlen : s₁.emitted.length ≤ s.emitted.length + 1 := by
        rw [hs, List.length_append, List.length_take]
        have hmin := Nat.min_le_right n [bonus].length
        simp only [List.length_singleton] at hmin ⊢
        omega
      cases ok with
      | false => exact kept_of_ends (hlen.trans hbound) nofun
      | true =>
        obtain rfl : n = 1 := hall rfl
        obtain ⟨ahead, hahead⟩ := h.draftCache
        obtain ⟨l, hdraft⟩ := h.draft
        have hrollback :
            truncate (s₁.committedLen + 1 - 1) s₁.draftCache = prompt ++ s.emitted := by
          rw [hs, Nat.add_sub_cancel, h.committedLen, hahead, truncate_append]
        dsimp only
        rw [hrollback]
        cases hsync : c.draft.forwardOne bonus (prompt ++ s.emitted) with
        | none => exact kept_of_ends (hlen.trans hbound) nofun
        | some r =>
          obtain ⟨draftCache, draftNextLogits⟩ := r
          obtain ⟨rfl, hfresh⟩ := Engine.fresh_forwardOne hdraft hsync
          refine ⟨hlen.trans hbound, fun s' h' => ?_⟩
          obtain rfl := RoundEnd.next.inj h'
          have hemitted : s₁.emitted = s.emitted ++ [bonus] := by
            rw [hs]
            rfl
          have hwhole : prompt ++ s₁.emitted = prompt ++ s.emitted ++ [bonus] := by
            rw [hemitted, List.append_assoc]
          refine ⟨⟨hwhole.symm, ?_, ?_, ?_, ?_, ?_, hlen.trans hbound⟩, ?_⟩
          · rw [hwhole, hs]
          · rw [hwhole]
            exact hfresh
          · rw [hwhole, htarget, hs]
          · rw [hwhole, hs, List.length_append]
            exact congrArg (· + 1) h.committedLen
          · rw [hemitted, hs, List.length_append]
            exact congrArg (· + 1) h.tokensGenerated
          · rw [hemitted, List.length_append]
            exact Nat.lt_succ_self _

variable [Field K] [LinearOrder K]

/-- Committing the accepted proposals and the bonus token. -/
theorem commit_spec (h : Synced c maxTokens prompt s) {proposals : List (Proposal K L)}
    {v : Verdict L} (hlen : s.emitted.length + proposals.length ≤ maxTokens)
    (hahead : c.draft.RanAhead (prompt ++ s.emitted) (proposals.map Proposal.token))
    (haccepted : v.accepted ≤ proposals.length)
    (hcache : v.cache = prompt ++ s.emitted ++ (proposals.map Proposal.token).take v.accepted)
    (hnext : c.target.fresh v.cache = some (v.cache, v.nextLogits)) {r : RoundEnd L}
    (hr : (commit c maxTokens proposals v { s with
      draftCache := prompt ++ s.emitted ++ proposals.map Proposal.token
      targetCache := v.cache
      targetNextLogits := v.nextLogits }).Possible r) : Kept c maxTokens prompt s r := by
  rw [commit] at hr
  obtain ⟨n, text, hn, hall, hs⟩ := emitTokens_spec c.target
    ((proposals.map Proposal.token).take v.accepted) { s with
      draftCache := prompt ++ s.emitted ++ proposals.map Proposal.token
      targetCache := v.cache
      targetNextLogits := v.nextLogits }
  dsimp only at hr
  generalize emitTokens c.target _ _ = emitted at hall hs hr
  obtain ⟨s₁, ok⟩ := emitted
  dsimp only at hs
  have hlen₁ : s.emitted.length ≤ s₁.emitted.length ∧ s₁.emitted.length ≤ maxTokens := by
    rw [hs]
    simp only [List.length_append, List.length_take, List.length_map] at hn ⊢
    omega
  cases ok with
  | false =>
    obtain rfl := Draw.possible_pure.mp hr
    exact kept_of_ends hlen₁.2 nofun
  | true =>
    obtain rfl := hall rfl
    dsimp only at hr
    split at hr
    · obtain rfl := Draw.possible_pure.mp hr
      exact kept_of_ends hlen₁.2 nofun
    · split at hr
      · obtain rfl := Draw.possible_pure.mp hr
        exact kept_of_ends hlen₁.2 nofun
      · rename_i hbudget
        obtain ⟨bonus, -, hr⟩ := Draw.possible_bind.mp hr
        obtain rfl := Draw.possible_pure.mp hr
        have hemitted : s₁.emitted =
            s.emitted ++ (proposals.map Proposal.token).take v.accepted := by
          rw [hs]
          simp only [List.take_length]
        have hwhole : prompt ++ s₁.emitted = v.cache := by
          rw [hemitted, hcache, List.append_assoc]
        have hverified : Verified c prompt { s₁ with
            committedLen := s₁.committedLen + v.accepted } := by
          refine ⟨⟨(proposals.map Proposal.token).drop v.accepted, ?_⟩, ?_, ?_, ?_, ?_⟩
          · rw [hwhole, hcache, hs, List.append_assoc _ (List.take _ _), List.take_append_drop]
          · rw [hwhole, hcache]
            exact hahead v.accepted
          · rw [hwhole, hs]
            exact hnext
          · rw [hwhole, hcache, hs, List.length_append, ← h.committedLen, List.length_take,
              List.length_map, Nat.min_eq_left haccepted]
          · rw [hemitted, hs, List.length_append, ← h.tokensGenerated]
        obtain ⟨hle, hkept⟩ := commitBonus_spec hverified (not_le.mp hbudget) bonus
        refine ⟨hle, fun s' h' => ?_⟩
        obtain ⟨hsync, hmore⟩ := hkept s' h'
        exact ⟨hsync, hlen₁.1.trans_lt hmore⟩

/-- **A round.**  It keeps the engines in step, and gets on. -/
theorem round_spec (h : Synced c maxTokens prompt s) {r : RoundEnd L}
    (hr : (round c maxTokens s).Possible r) : Kept c maxTokens prompt s r := by
  obtain ⟨result, hpropose, hr⟩ := Draw.possible_bind.mp hr
  cases result with
  | none =>
    obtain rfl := Draw.possible_pure.mp hr
    exact kept_of_ends h.bounded nofun
  | some result =>
    obtain ⟨draftCache, proposals⟩ := result
    obtain ⟨verdict, hverify, hr⟩ := Draw.possible_bind.mp hr
    cases verdict with
    | none =>
      obtain rfl := Draw.possible_pure.mp hr
      exact kept_of_ends h.bounded nofun
    | some v =>
      obtain ⟨hdraft, hlen, hahead⟩ := propose_spec (h.draftCache ▸ h.draft) hpropose
      obtain ⟨haccepted, hcache, hnext⟩ := verify_spec (h.targetCache ▸ h.target) hverify
      rw [h.draftCache] at hdraft hahead
      rw [h.targetCache] at hcache
      have hbudget : s.emitted.length + proposals.length ≤ maxTokens := by
        have hk := hlen.trans (Nat.min_le_right _ _)
        have hbounded := h.bounded
        rw [h.tokensGenerated] at hk
        omega
      subst hdraft
      exact commit_spec h hbudget hahead haccepted hcache hnext hr

end Round

/-! ### Runs -/

section Runs

variable [Field K] [LinearOrder K] (c : SpeculativeEngine K L) (maxTokens : ℕ)

/-- The states at the top of a round in runs of the loop from `s₀`. -/
inductive TopOfRound (s₀ : LoopState L) : LoopState L → Prop
  | start : TopOfRound s₀ s₀
  | round {s s' : LoopState L} (h : TopOfRound s₀ s) (hlt : s.tokensGenerated < maxTokens)
      (hr : (round c maxTokens s).Possible (.next s')) : TopOfRound s₀ s'

variable {c maxTokens} {prompt : List ℕ} {s s₀ : LoopState L}

theorem TopOfRound.synced (h : TopOfRound c maxTokens s₀ s)
    (hs₀ : Synced c maxTokens prompt s₀) : Synced c maxTokens prompt s := by
  induction h with
  | start => exact hs₀
  | round _ _ hr ih => exact ((round_spec ih hr).2 _ rfl).1

/-- The loop ends before it has run as many rounds as tokens are left, and one. -/
theorem generateLoop_ends {fuel : ℕ} (h : Synced c maxTokens prompt s)
    (hfuel : maxTokens < s.emitted.length + fuel) {e : Option (RoundEnd L)}
    (he : (generateLoop c maxTokens fuel s).Possible e) :
    ∃ r, e = some r ∧ r.state.emitted.length ≤ maxTokens := by
  induction fuel generalizing s with
  | zero => exact absurd h.bounded (not_le.mpr hfuel)
  | succ fuel ih =>
    rw [generateLoop] at he
    split at he
    · obtain ⟨r, hr, he⟩ := Draw.possible_bind.mp he
      obtain ⟨hle, hkept⟩ := round_spec h hr
      cases r with
      | next s' =>
        obtain ⟨hsync, hmore⟩ := hkept s' rfl
        exact ih hsync (by omega) he
      | finished s' eos => exact ⟨_, Draw.possible_pure.mp he, hle⟩
      | failed s' => exact ⟨_, Draw.possible_pure.mp he, hle⟩
    · exact ⟨_, Draw.possible_pure.mp he, h.bounded⟩

end Runs

/-- **Rollback is recomputation.**  In every run of the speculative loop, at the top of
every round both caches hold the prompt and the tokens emitted so far, and the caches and
the next logits are those of a fresh prefill; the loop ends, and never emits more than
`maxTokens`. -/
theorem generate_synced [Field K] [LinearOrder K] (c : SpeculativeEngine K L) (maxTokens : ℕ)
    (prompt : List ℕ) (s₀ : LoopState L) (hstart : start c prompt = some s₀) :
    (∀ s, TopOfRound c maxTokens s₀ s → Synced c maxTokens prompt s) ∧
      ∀ fuel, maxTokens < fuel → ∀ e, (generateLoop c maxTokens fuel s₀).Possible e →
        ∃ r, e = some r ∧ r.state.emitted.length ≤ maxTokens := by
  have hs₀ : Synced c maxTokens prompt s₀ := start_synced hstart
  refine ⟨fun s h => h.synced hs₀, fun fuel hfuel e he => ?_⟩
  exact generateLoop_ends hs₀ (Nat.lt_of_lt_of_le hfuel (Nat.le_add_left _ _)) he

/-- An engine that always predicts token `0`; its logits are the length of the cache. -/
def constantEngine : Engine ℕ where
  forward cache := some cache.length
  isEos _ := false
  decode token := some (toString token)
  prefillChunkSize := 0

/-- It drafts for itself. -/
def constantPair : SpeculativeEngine ℚ ℕ where
  draft := constantEngine
  target := constantEngine
  numSpeculative := 2
  softmax _ := [1]

/-- The top of the first round after the prompt `[7, 8]`. -/
def constantStart : LoopState ℕ where
  draftCache := [7, 8]
  targetCache := [7, 8]
  draftNextLogits := 2
  targetNextLogits := 2
  committedLen := 2
  generated := ""
  tokensGenerated := 0
  emitted := []

/-- The top of the second round: two proposals and a bonus token later. -/
def constantNext : LoopState ℕ where
  draftCache := [7, 8, 0, 0, 0]
  targetCache := [7, 8, 0, 0, 0]
  draftNextLogits := 5
  targetNextLogits := 5
  committedLen := 5
  generated := "000"
  tokensGenerated := 3
  emitted := [0, 0, 0]

private theorem start_constantPair : start constantPair [7, 8] = some constantStart := by
  have hprefill : constantEngine.prefill [7] [] = some [7] :=
    Engine.prefillChunks_one (List.cons_ne_nil _ _) le_rfl rfl
  show (constantEngine.prefill [7] []).bind _ = _
  rw [hprefill]
  show (constantEngine.prefill [7] []).bind _ = _
  rw [hprefill]
  rfl

private theorem sample_one : (sampleWithProb ([1] : List ℚ)).Possible (0, 1) := by
  have hpick : Draw.pick (0 : ℚ) 0 [1] = some 0 := by simp [Draw.pick]
  rw [sampleWithProb, if_neg (by simp)]
  refine Draw.possible_bind.mpr ⟨0, .draw 0 (.pure _), ?_⟩
  rw [hpick]
  exact .pure _

private theorem propose_constantPair :
    (propose constantPair 2 [7, 8] 2).Possible
      (some ([7, 8, 0, 0], [⟨0, 1, 2⟩, ⟨0, 1, 3⟩])) := by
  refine Draw.possible_bind.mpr ⟨(0, 1), sample_one, ?_⟩
  refine Draw.possible_bind.mpr ⟨some ([7, 8, 0, 0], [⟨0, 1, 3⟩]), ?_, .pure _⟩
  refine Draw.possible_bind.mpr ⟨(0, 1), sample_one, ?_⟩
  exact Draw.possible_bind.mpr ⟨some ([7, 8, 0, 0], []), .pure _, .pure _⟩

private theorem accept_one (p : Proposal ℚ ℕ) :
    0 ≤ acceptThreshold ((constantPair.softmax p.stepLogits).getD 0 0) 1 :=
  le_min (div_nonneg zero_le_one (le_max_of_le_left zero_le_one)) zero_le_one

private theorem verify_constantPair :
    (verify constantPair [⟨0, 1, 2⟩, ⟨0, 1, 3⟩] [7, 8] 2).Possible
      (some ⟨[7, 8, 0, 0], 4, 2, none, false⟩) := by
  rw [verify, Draw.next_bind]
  refine .draw 0 ?_
  rw [if_pos (accept_one ⟨0, 1, 2⟩)]
  refine Draw.possible_bind.mpr ⟨some ⟨[7, 8, 0, 0], 4, 1, none, false⟩, ?_, .pure _⟩
  refine .draw 0 ?_
  show Draw.Possible (if 0 ≤ acceptThreshold ((constantPair.softmax 3).getD 0 0) 1 then _ else _) _
  rw [if_pos (accept_one ⟨0, 1, 3⟩)]
  exact Draw.possible_bind.mpr ⟨some ⟨[7, 8, 0, 0], 4, 0, none, false⟩, .pure _, .pure _⟩

private theorem round_constantPair :
    (round constantPair 5 constantStart).Possible (.next constantNext) := by
  refine Draw.possible_bind.mpr ⟨_, propose_constantPair, ?_⟩
  refine Draw.possible_bind.mpr ⟨_, verify_constantPair, ?_⟩
  refine Draw.possible_bind.mpr ⟨0, ?_, .pure _⟩
  exact Draw.possible_bind.mpr ⟨(0, 1), sample_one, .pure _⟩

theorem generate_synced_constantPair : Synced constantPair 5 [7, 8] constantNext :=
  (generate_synced constantPair 5 [7, 8] constantStart start_constantPair).1 constantNext
    (.round .start (by decide) round_constantPair)

end Speculative

end Oxillama
