/-
Asynchronous speculative decoding
(`oxillama-runtime/src/speculative_async.rs`, `SpeculativeDecoder::generate`).

The draft task and the main loop each go on by one step at a time, and the steps interleave.
The task drafts a proposal under the lock of the draft engine, so that is one step, and waits
for room in the channel; the loop takes a proposal, has the target pass one token of it after
the other, and puts both caches back where it rejects one.

`forward_one` is a function of the tokens in the cache and the new one.  `emitted` is not in the
source: the tokens whose text went to the callback, each with the tokens the target had passed
for the logits that decided on it.
-/
import Oxillama.Lib.Channel
import Oxillama.Speculative.Round

namespace Oxillama

namespace Speculative

/-- `DraftProposal`. -/
structure DraftProposal (P : Type) where
  tokens : List ℕ
  probs : List P
  startPos : ℕ
  deriving DecidableEq, Repr

/-- `SpecStats`, without the time, and without the fallbacks: `rewind` of an `InferenceEngine`
never answers `NotSupported`. -/
structure SpecStats where
  accepted : ℕ
  rejected : ℕ
  bonusTokens : ℕ
  deriving DecidableEq, Repr

/-- `SpeculativeDecoder` and its `AsyncSpecConfig`; `L` are logits, `P` probabilities and `R` the
state of the target's sampler. -/
structure SpeculativeDecoder (L P R : Type) where
  draft : Engine L
  target : Engine L
  /-- The context length of the draft engine. -/
  maxCtxLen : ℕ
  specK : ℕ
  forceN1 : Bool
  maxTokens : ℕ
  /-- `Sampler::new(SamplerConfig::greedy()).sample` -/
  greedy : L → List ℕ → ℕ
  /-- `target_sampler.sample` -/
  sample : R → L → List ℕ → ℕ × R
  softmaxProb : L → ℕ → P
  acceptDraftToken : P → P → Bool
  /-- Whether a vector of logits has no entry. -/
  isEmpty : L → Bool

/-- Logits of the target, and the tokens it had passed for them. -/
structure Judged (L : Type) where
  logits : L
  context : List ℕ
  deriving DecidableEq, Repr

/-- A token that was emitted, and the tokens the target had passed for the logits that it was
accepted or sampled from. -/
structure Emission where
  token : ℕ
  context : List ℕ
  deriving DecidableEq, Repr

/-- Where the draft task is. -/
inductive DraftTask (P : Type)
  | top
  | drafting
  | sending (proposal : DraftProposal P)
  | stopped
  deriving DecidableEq, Repr

/-- How `generate` returns. -/
inductive Outcome
  | ok
  | cancelled
  | failed
  deriving DecidableEq, Repr

/-- Where the main loop is. -/
inductive MainLoop (L P : Type)
  | top
  | waiting
  /-- The loop over the proposal's tokens, at the `i`-th one, with `last_target_logits`. -/
  | verifying (proposal : DraftProposal P) (i : ℕ) (last : Option (Judged L))
  /-- Behind that loop, without a divergence. -/
  | accepted (last : Option (Judged L))
  /-- Behind that loop, with `diverged_at`. -/
  | diverged (rewindPos : ℕ) (last : Judged L)
  | rewindTarget (newLen : ℕ)
  | rewindDraft (rewindTo : ℕ)
  | returned (outcome : Outcome)
  deriving DecidableEq, Repr

/-- The decoder while `generate` runs. -/
structure DecoderState (L P R : Type) where
  draftCache : List ℕ
  targetCache : List ℕ
  channel : Channel (DraftProposal P)
  draftTask : DraftTask P
  mainLoop : MainLoop L P
  stopFlag : Bool
  cancelled : Bool
  outputText : String
  generated : ℕ
  recentTokens : List ℕ
  targetSampler : R
  stats : SpecStats
  emitted : List Emission
  deriving DecidableEq

/-- What can happen next. -/
inductive DecoderEvent
  /-- The next step of the draft task. -/
  | draft
  /-- The next step of the main loop. -/
  | main
  /-- The main loop has waited for a proposal long enough. -/
  | timeout
  /-- `cancel` is called from outside. -/
  | cancel
  deriving DecidableEq, Repr

namespace DecoderState

variable {L P R : Type}

/-- `stop_flag` is set and `generate` returns: the receiver is dropped. -/
def finish (outcome : Outcome) (s : DecoderState L P R) : DecoderState L P R :=
  { s with stopFlag := true, channel := s.channel.close, mainLoop := .returned outcome }

/-- A token is emitted: its text goes to the callback. -/
def emit (token : ℕ) (text : String) (context : List ℕ) (s : DecoderState L P R) :
    DecoderState L P R :=
  { s with
    outputText := s.outputText ++ text
    recentTokens := s.recentTokens ++ [token]
    generated := s.generated + 1
    emitted := s.emitted ++ [⟨token, context⟩] }

end DecoderState

namespace SpeculativeDecoder

variable {L P R : Type} (c : SpeculativeDecoder L P R)

/-! ### The draft task -/

/-- The number of tokens of a proposal. -/
def proposalLen : ℕ := if c.forceN1 then 1 else c.specK

/-- The loop over the tokens of a proposal: the cache afterwards, and the tokens with their
probabilities unless a pass fails.  `recent` starts empty, so it is the tokens so far. -/
def draftTokens : ℕ → List ℕ → List ℕ → List P → List ℕ × Option (List ℕ × List P)
  | 0, cache, tokens, probs => (cache, some (tokens, probs))
  | k + 1, cache, tokens, probs =>
    if c.maxCtxLen ≤ cache.length then (cache, some (tokens, probs))
    else
      match c.draft.forwardOne (tokens.getLast?.getD 0) cache with
      | none => (cache, none)
      | some (cache, logits) =>
        let tok := c.greedy logits tokens
        draftTokens k cache (tokens ++ [tok]) (probs ++ [c.softmaxProb logits tok])

/-- A step of the draft task. -/
def draftStep (s : DecoderState L P R) : DecoderState L P R :=
  match s.draftTask with
  | .top =>
    if s.cancelled ∨ s.stopFlag then { s with draftTask := .stopped }
    else { s with draftTask := .drafting }
  | .drafting =>
    match c.draftTokens c.proposalLen s.draftCache [] [] with
    | (cache, none) => { s with draftCache := cache, draftTask := .stopped }
    | (cache, some (tokens, probs)) =>
      { s with
        draftCache := cache
        draftTask := if tokens = [] then .stopped
          else .sending ⟨tokens, probs, s.draftCache.length⟩ }
  | .sending proposal =>
    match s.channel.trySend proposal with
    | .ok channel => { s with channel := channel, draftTask := .top }
    | .error .full => s
    | .error .closed => { s with draftTask := .stopped }
  | .stopped => s

/-! ### The main loop -/

/-- The end-of-sequence token or the last token allowed ends `generate`; otherwise it goes on
at `next`. -/
def afterEmit (token : ℕ) (next : MainLoop L P) (s : DecoderState L P R) : DecoderState L P R :=
  if c.target.isEos token ∨ c.maxTokens ≤ s.generated then s.finish .ok
  else { s with mainLoop := next }

/-- The target passes the `i`-th token of a proposal, and it is accepted or rejected. -/
def verifyToken (proposal : DraftProposal P) (i draftTok : ℕ) (draftProb : P)
    (s : DecoderState L P R) : DecoderState L P R :=
  match c.target.forwardOne draftTok s.targetCache with
  | none => s.finish .failed
  | some (cache, logits) =>
    let s := { s with targetCache := cache }
    if c.acceptDraftToken (c.softmaxProb logits draftTok) draftProb then
      match c.target.decode draftTok with
      | none => s.finish .failed
      | some text =>
        let s := s.emit draftTok text cache
        let s := { s with stats := { s.stats with accepted := s.stats.accepted + 1 } }
        c.afterEmit draftTok (.verifying proposal (i + 1) (some ⟨logits, cache⟩)) s
    else
      { s with
        stats := { s.stats with rejected := s.stats.rejected + 1 }
        mainLoop := .diverged (proposal.startPos + i) ⟨logits, cache⟩ }

/-- A token is sampled from the target's last logits and emitted, and the loop goes on at
`next`. -/
def emitSampled (last : Judged L) (stats : SpecStats) (next : MainLoop L P)
    (s : DecoderState L P R) : DecoderState L P R :=
  let (token, sampler) := c.sample s.targetSampler last.logits s.recentTokens
  let s := { s with targetSampler := sampler }
  match c.target.decode token with
  | none => s.finish .failed
  | some text => c.afterEmit token next { s.emit token text last.context with stats := stats }

/-- A step of the main loop. -/
def mainStep (s : DecoderState L P R) : DecoderState L P R :=
  match s.mainLoop with
  | .top =>
    if s.cancelled then s.finish (if s.generated = 0 then .cancelled else .ok)
    else if c.maxTokens ≤ s.generated then s.finish .ok
    else { s with mainLoop := .waiting }
  | .waiting =>
    match s.channel.recv with
    | some (proposal, channel) =>
      { s with channel := channel, mainLoop := .verifying proposal 0 none }
    | none =>
      match s.draftTask with
      | .stopped => s.finish .ok
      | _ => s
  | .verifying proposal i last =>
    match (proposal.tokens.zip proposal.probs)[i]? with
    | none => { s with mainLoop := .accepted last }
    | some (draftTok, draftProb) =>
      if c.maxTokens ≤ s.generated + i then s.finish .ok
      else c.verifyToken proposal i draftTok draftProb s
  | .accepted none => { s with mainLoop := .top }
  | .accepted (some last) =>
    if c.isEmpty last.logits then { s with mainLoop := .top }
    else c.emitSampled last { s.stats with bonusTokens := s.stats.bonusTokens + 1 } .top s
  | .diverged rewindPos last => c.emitSampled last s.stats (.rewindTarget (rewindPos + 1)) s
  | .rewindTarget newLen =>
    { s with
      targetCache := if s.targetCache.length < newLen then s.targetCache
        else truncate newLen s.targetCache
      mainLoop := .rewindDraft newLen }
  | .rewindDraft rewindTo =>
    { s with
      draftCache := if s.draftCache.length < rewindTo then s.draftCache
        else truncate rewindTo s.draftCache
      mainLoop := .top }
  | .returned _ => s

/-! ### Runs -/

/-- One step of `generate`. -/
def step (s : DecoderState L P R) : DecoderEvent → Option (DecoderState L P R × Unit)
  | .draft => some (c.draftStep s, ())
  | .main => some (c.mainStep s, ())
  | .timeout =>
    match s.mainLoop with
    | .waiting => some (s.finish .ok, ())
    | _ => some (s, ())
  | .cancel => some ({ s with cancelled := true }, ())

/-- The two prefills of `generate`, on engines with `draftCache` and `targetCache`; `sampler` is
the target's.  `none` where `generate` returns before its loop. -/
def start (draftCache targetCache prompt : List ℕ) (sampler : R) :
    Option (DecoderState L P R) := do
  guard (prompt ≠ [])
  let targetCache ← c.target.prefill prompt targetCache
  let draftCache ← c.draft.prefill prompt draftCache
  some {
    draftCache := draftCache
    targetCache := targetCache
    channel := .new 2
    draftTask := .top
    mainLoop := .top
    stopFlag := false
    cancelled := false
    outputText := ""
    generated := 0
    recentTokens := prompt
    targetSampler := sampler
    stats := ⟨0, 0, 0⟩
    emitted := [] }

end SpeculativeDecoder

end Speculative

end Oxillama
