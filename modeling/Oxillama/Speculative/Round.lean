/-
The speculative decoding loop
(`oxillama-runtime/src/speculative.rs`, `SpeculativeEngine::generate`).

An engine is what the loop sees of one: the tokens in its KV cache, the logits its
model computes from them, its end-of-sequence tokens and its decoder.  `round` is
the body of the loop, a program that draws; `generateLoop` repeats it as often as it
is told it may.

`none` stands for an error that the loop hands on.  What a round ends with says what
was emitted so far, and the end-of-sequence token that ended it, if one did.
-/
import Oxillama.Speculative.Sampling

namespace Oxillama

namespace Speculative

variable {K L : Type}

/-- `InferenceEngine`: `forward` computes logits from the tokens in the KV cache. -/
structure Engine (L : Type) where
  forward : List ℕ → Option L
  isEos : ℕ → Bool
  decode : ℕ → Option String
  prefillChunkSize : ℕ

namespace Engine

/-- `InferenceEngine::forward_one`, on the tokens in the KV cache. -/
def forwardOne (engine : Engine L) (token : ℕ) (cache : List ℕ) : Option (List ℕ × L) := do
  let logits ← engine.forward (cache ++ [token])
  some (cache ++ [token], logits)

/-- The loop of `prefill_chunked` over chunks of `size` tokens, at least one. -/
def prefillChunks (engine : Engine L) (size : ℕ) (tokens cache : List ℕ) : Option (List ℕ) :=
  if _h : tokens = [] then some cache
  else do
    let chunk := tokens.take (max size 1)
    let _ ← engine.forward (cache ++ chunk)
    prefillChunks engine size (tokens.drop (max size 1)) (cache ++ chunk)
termination_by tokens.length
decreasing_by
  have hpos := List.length_pos_of_ne_nil _h
  rw [List.length_drop]
  omega

/-- `InferenceEngine::prefill`. -/
def prefill (engine : Engine L) (tokens cache : List ℕ) : Option (List ℕ) :=
  engine.prefillChunks
    (if engine.prefillChunkSize = 0 then tokens.length else engine.prefillChunkSize) tokens cache

end Engine

/-- `KvCache::truncate`, on the tokens in the cache. -/
def truncate (n : ℕ) (cache : List ℕ) : List ℕ := cache.take (min n cache.length)

/-- `SpeculativeEngine`, the parts that do not change, and `softmax`. -/
structure SpeculativeEngine (K L : Type) where
  draft : Engine L
  target : Engine L
  numSpeculative : ℕ
  softmax : L → List K

/-- The variables of `generate` at the top of a round; `emitted` are the tokens
whose text went to the callback. -/
structure LoopState (L : Type) where
  draftCache : List ℕ
  targetCache : List ℕ
  draftNextLogits : L
  targetNextLogits : L
  committedLen : ℕ
  generated : String
  tokensGenerated : ℕ
  emitted : List ℕ

/-- A draft token, with its probability and the logits it was sampled from. -/
structure Proposal (K L : Type) where
  token : ℕ
  prob : K
  stepLogits : L

/-- What the verification phase leaves. -/
structure Verdict (L : Type) where
  cache : List ℕ
  nextLogits : L
  accepted : ℕ
  bonusToken : Option ℕ
  eosReached : Bool

/-- How a round ends. -/
inductive RoundEnd (L : Type)
  | next (s : LoopState L)
  | finished (s : LoopState L) (eos : Option ℕ)
  | failed (s : LoopState L)

/-- The state a round ends in. -/
def RoundEnd.state : RoundEnd L → LoopState L
  | .next s => s
  | .finished s _ => s
  | .failed s => s

/-- `emit_token`. -/
def emitToken (engine : Engine L) (token : ℕ) (s : LoopState L) : Option (LoopState L) := do
  let text ← engine.decode token
  some { s with
    generated := s.generated ++ text
    tokensGenerated := s.tokensGenerated + 1
    emitted := s.emitted ++ [token] }

/-- Emitting tokens one after the other: the state reached, and whether all were emitted. -/
def emitTokens (engine : Engine L) : List ℕ → LoopState L → LoopState L × Bool
  | [], s => (s, true)
  | token :: tokens, s =>
    match emitToken engine token s with
    | none => (s, false)
    | some s => emitTokens engine tokens s

section Loop

variable [Field K] [LinearOrder K] (c : SpeculativeEngine K L)

/-- The draft proposal phase: at most `k` tokens. -/
def propose : ℕ → List ℕ → L → Draw K (Option (List ℕ × List (Proposal K L)))
  | 0, cache, _ => .pure (some (cache, []))
  | k + 1, cache, cur =>
    sampleWithProb (c.softmax cur) >>= fun (token, prob) =>
      if c.draft.isEos token then .pure (some (cache, []))
      else
        match c.draft.forwardOne token cache with
        | none => .pure none
        | some (cache, next) =>
          propose k cache next >>= fun result =>
            .pure (result.map fun r => (r.1, ⟨token, prob, cur⟩ :: r.2))

/-- The verification phase. -/
def verify : List (Proposal K L) → List ℕ → L → Draw K (Option (Verdict L))
  | [], cache, cur => .pure (some ⟨cache, cur, 0, none, false⟩)
  | p :: rest, cache, cur =>
    let targetProbs := c.softmax cur
    let pTarget := targetProbs.getD p.token 0
    Draw.next >>= fun u =>
      if u ≤ acceptThreshold pTarget p.prob then
        if c.target.isEos p.token then .pure (some ⟨cache, cur, 0, none, true⟩)
        else
          match c.target.forwardOne p.token cache with
          | none => .pure none
          | some (cache, next) =>
            verify rest cache next >>= fun result =>
              .pure (result.map fun v => { v with accepted := v.accepted + 1 })
      else
        sampleResidual targetProbs (c.softmax p.stepLogits) >>= fun bonus =>
          .pure (some ⟨cache, cur, 0, some bonus, false⟩)

/-- The bonus token: the residual sample, or a fresh one from the target. -/
def drawBonus (bonusToken : Option ℕ) (logits : L) : Draw K ℕ :=
  match bonusToken with
  | some residual => .pure residual
  | none => sampleWithProb (c.softmax logits) >>= fun sample => .pure sample.1

/-- Committing the bonus token and syncing the draft cache. -/
def commitBonus (bonus : ℕ) (s : LoopState L) : RoundEnd L :=
  if c.target.isEos bonus then .finished s (some bonus)
  else
    match c.target.forwardOne bonus s.targetCache with
    | none => .failed s
    | some (targetCache, targetNextLogits) =>
      match emitTokens c.target [bonus] { s with
          targetCache := targetCache, targetNextLogits := targetNextLogits } with
      | (s, false) => .failed s
      | (s, true) =>
        let s := { s with committedLen := s.committedLen + 1 }
        match c.draft.forwardOne bonus (truncate (s.committedLen - 1) s.draftCache) with
        | none => .failed s
        | some (draftCache, draftNextLogits) =>
          .next { s with draftCache := draftCache, draftNextLogits := draftNextLogits }

/-- A round from the end of the verification phase on. -/
def commit (maxTokens : ℕ) (proposals : List (Proposal K L)) (v : Verdict L) (s : LoopState L) :
    Draw K (RoundEnd L) :=
  let draftTokens := proposals.map Proposal.token
  match emitTokens c.target (draftTokens.take v.accepted) s with
  | (s, false) => .pure (.failed s)
  | (s, true) =>
    let s := { s with committedLen := s.committedLen + v.accepted }
    if v.eosReached then .pure (.finished s draftTokens[v.accepted]?)
    else if maxTokens ≤ s.tokensGenerated then .pure (.finished s none)
    else
      drawBonus c v.bonusToken s.targetNextLogits >>= fun bonus => .pure (commitBonus c bonus s)

/-- A round: the body of the loop of `generate`. -/
def round (maxTokens : ℕ) (s : LoopState L) : Draw K (RoundEnd L) :=
  let k := min c.numSpeculative (maxTokens - s.tokensGenerated)
  propose c k s.draftCache s.draftNextLogits >>= fun result =>
    match result with
    | none => .pure (.failed s)
    | some (draftCache, proposals) =>
      verify c proposals s.targetCache s.targetNextLogits >>= fun verdict =>
        match verdict with
        | none => .pure (.failed s)
        | some v =>
          commit c maxTokens proposals v { s with
            draftCache := draftCache
            targetCache := v.cache
            targetNextLogits := v.nextLogits }

/-- The clean prefill of `generate`: the state at the top of the first round. -/
def start (prompt : List ℕ) : Option (LoopState L) := do
  let last ← prompt.getLast?
  let draftCache ← c.draft.prefill prompt.dropLast []
  let targetCache ← c.target.prefill prompt.dropLast []
  let (draftCache, draftNextLogits) ← c.draft.forwardOne last draftCache
  let (targetCache, targetNextLogits) ← c.target.forwardOne last targetCache
  some {
    draftCache := draftCache
    targetCache := targetCache
    draftNextLogits := draftNextLogits
    targetNextLogits := targetNextLogits
    committedLen := prompt.length
    generated := ""
    tokensGenerated := 0
    emitted := [] }

/-- The loop of `generate`, for at most `fuel` rounds: `none` where they run out. -/
def generateLoop (maxTokens : ℕ) : ℕ → LoopState L → Draw K (Option (RoundEnd L))
  | 0, _ => .pure none
  | fuel + 1, s =>
    if s.tokensGenerated < maxTokens then
      round c maxTokens s >>= fun result =>
        match result with
        | .next s => generateLoop maxTokens fuel s
        | r => .pure (some r)
    else .pure (some (.finished s none))

end Loop

end Speculative

end Oxillama
