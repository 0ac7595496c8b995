/-
The decode loop (`oxillama-runtime/src/engine/generation.rs`).

Every iteration samples a token from the logits of the last forward pass, decodes its bytes, feeds
the text through the stop buffer to the callback, and passes the token on.  Behind the loop what
the two buffers still hold is released.

The sampler is a parameter, with a state of its own, and so are the tokenizer and the times at
which the flag of a cancellation is found raised; the forward pass is a `TokenPass` on the
key-value cache.  A function answers `none` where it panics or runs out of `fuel`, the bound
on the iterations.  The metrics are left out.

* `Emitted`, `Within`, `Plain` — what holds after every iteration;
* `runDecodeLoop_returns` — the loop ends;
* `runDecodeLoop_contract` — **what an outcome says**: its text is what the callback got, it has
  at most `max_tokens` tokens, nothing is stored behind the context, and without stop
  sequences the text is the decoding of all bytes.
-/
import Mathlib
import Oxillama.Kv.Writes
import Oxillama.Runtime.PrefixPriming
import Oxillama.Sampling.Sampler
import Oxillama.Server.ChatStream
import Oxillama.Stream.StopBuffer
import Oxillama.Stream.Utf8Decoder

namespace Oxillama

namespace Generation

open Kv (ArchError Half KvCache Token TokenPass)
open Sampling (SamplerConfig)
open Server (FinishReason)
open Oxillama.Stream (StopFeed StopSequenceBuffer Utf8StreamDecoder)

/-! ### Requests and outcomes -/

/-- `RuntimeError`, the part of it that decoding raises. -/
inductive RuntimeError
  | samplingError (message : String)
  | arch (e : ArchError)
  deriving DecidableEq, Repr

/-- `GenerationConfig`, the parts that the loop reads.  A cancel flag answers whether it is found
raised when so many tokens have been generated. -/
structure GenerationConfig where
  maxTokens : ℕ
  sampler : SamplerConfig
  stop : List Text
  renderSpecial : Bool
  cancelFlag : Option (ℕ → Bool)

/-- Whether the flag is found raised. -/
def GenerationConfig.cancelled (config : GenerationConfig) (generated : ℕ) : Bool :=
  match config.cancelFlag with
  | some load => load generated
  | none => false

/-- `GenerationOutcome`. -/
structure GenerationOutcome where
  text : Text
  finishReason : FinishReason
  generatedTokens : List Token
  promptTokens : ℕ
  stopSequence : Option Text
  deriving DecidableEq, Repr

/-- `TokenizerBridge`, as far as the loop uses it. -/
structure TokenizerBridge where
  eogTokenIds : List Token
  decodeBytes : List Token → Bool → List UInt8

/-- `TokenizerBridge::is_eog`. -/
def TokenizerBridge.isEog (tokenizer : TokenizerBridge) (token : Token) : Bool :=
  tokenizer.eogTokenIds.contains token

/-- `DecodeContext`, without the cache; `σ` are the states of samplers. -/
structure DecodeContext (σ : Type) where
  half : Half
  pass : TokenPass
  maxContextLength : ℕ
  tokenizer : TokenizerBridge
  newSampler : SamplerConfig → σ
  trySample : σ → List Kv.F32 → List Token → Except RuntimeError (Token × σ)

/-- The variables of the loop, and the calls of the callback. -/
structure DecodeState (σ : Type) where
  sampler : σ
  detokenizer : Utf8StreamDecoder
  stopBuffer : StopSequenceBuffer
  generatedTokens : List Token
  recentTokens : List Token
  text : Text
  pieces : List Text
  stopSequence : Option Text
  logits : List Kv.F32
  kv : KvCache

/-- How an iteration ends. -/
inductive Iteration (σ : Type) where
  | next (s : DecodeState σ)
  | done (reason : FinishReason) (s : DecodeState σ)
  | fail (e : RuntimeError) (s : DecodeState σ)

/-- The variables behind an iteration. -/
def Iteration.state {σ : Type} : Iteration σ → DecodeState σ
  | .next s => s
  | .done _ s => s
  | .fail _ s => s

/-- Text that is not empty goes to the callback and to the outcome. -/
def DecodeState.emit {σ : Type} (s : DecodeState σ) (piece : Text) : DecodeState σ :=
  if piece = [] then s else { s with pieces := s.pieces ++ [piece], text := s.text ++ piece }

section Loop

variable {σ : Type} (ctx : DecodeContext σ) (config : GenerationConfig)

/-- An iteration of the loop, within a context of `maxCtx` positions. -/
def iteration (maxCtx : ℕ) (s : DecodeState σ) : Option (Iteration σ) :=
  if config.cancelled s.generatedTokens.length then some (.done .cancelled s)
  else if config.maxTokens ≤ s.generatedTokens.length then some (.done .maxTokens s)
  else if maxCtx ≤ s.kv.seqLen then some (.done .contextFull s)
  else if s.logits = [] then some (.done .contextFull s)
  else
    match ctx.trySample s.sampler s.logits s.recentTokens with
    | .error e => some (.fail e s)
    | .ok (nextToken, sampler) =>
      let s := { s with sampler }
      if ctx.tokenizer.isEog nextToken then some (.done .eos s)
      else do
        let bytes := ctx.tokenizer.decodeBytes [nextToken] (!config.renderSpecial)
        let (detokenizer, decoded) ← s.detokenizer.push bytes
        let (stopBuffer, fed) ← s.stopBuffer.push decoded
        let s := { s with detokenizer, stopBuffer }.emit fed.emit
        match fed.matched with
        | some matched =>
          return .done .stopped { s with
            stopSequence := some matched
            generatedTokens := s.generatedTokens ++ [nextToken] }
        | none =>
          let s := { s with
            recentTokens := s.recentTokens ++ [nextToken]
            generatedTokens := s.generatedTokens ++ [nextToken] }
          match ← s.kv.forward ctx.half ctx.pass [nextToken] with
          | (kv, .error e) => return .fail (.arch e) { s with kv }
          | (kv, .ok logits) => return .next { s with kv, logits }

/-- The loop. -/
def decodeLoop (maxCtx : ℕ) :
    ℕ → DecodeState σ → Option (DecodeState σ × Except RuntimeError FinishReason)
  | 0, _ => none
  | fuel + 1, s => do
    match ← iteration ctx config maxCtx s with
    | .next s => decodeLoop maxCtx fuel s
    | .done reason s => return (s, .ok reason)
    | .fail e s => return (s, .error e)

/-- The end of what is still in the decoder goes through the stop buffer. -/
def releaseTail (s : DecodeState σ) : Option (DecodeState σ) :=
  let (detokenizer, tail) := s.detokenizer.finish
  let s := { s with detokenizer }
  if tail = [] then some s
  else do
    let (stopBuffer, fed) ← s.stopBuffer.push tail
    return { { s with stopBuffer }.emit fed.emit with stopSequence := fed.matched }

/-- What the buffers still hold is released, unless a stop sequence has ended the loop. -/
def release (reason : FinishReason) (s : DecodeState σ) : Option (DecodeState σ) :=
  if reason = .stopped then some s
  else do
    let s ← releaseTail s
    if s.stopSequence.isNone then
      let (stopBuffer, held) := s.stopBuffer.flush
      return { s with stopBuffer }.emit held
    else return s

/-- What a run leaves: the cache, the calls of the callback, and the result. -/
structure Ran where
  kv : KvCache
  recentTokens : List Token
  pieces : List Text
  result : Except RuntimeError GenerationOutcome

/-- The configuration of the sampler: the tokens that end generation are those of the model, if
the request names none. -/
def samplerConfig : SamplerConfig :=
  if config.sampler.eogTokenIds.isEmpty then
    { config.sampler with eogTokenIds := ctx.tokenizer.eogTokenIds }
  else config.sampler

/-- The variables before the loop. -/
def initialState (initialLogits : List Kv.F32) (recentTokens : List Token) (kv : KvCache) :
    DecodeState σ where
  sampler := ctx.newSampler (samplerConfig ctx config)
  detokenizer := .new
  stopBuffer := .new config.stop
  generatedTokens := []
  recentTokens := recentTokens
  text := []
  pieces := []
  stopSequence := none
  logits := initialLogits
  kv := kv

/-- `run_decode_loop`, with an iteration for every token and one more. -/
def runDecodeLoop (initialLogits : List Kv.F32) (recentTokens : List Token) (kv : KvCache) :
    Option Ran := do
  let promptTokens := recentTokens.length
  let maxCtx := min ctx.maxContextLength kv.maxSeqLen
  let s := initialState ctx config initialLogits recentTokens kv
  match ← decodeLoop ctx config maxCtx (config.maxTokens + 1) s with
  | (s, .error e) => return ⟨s.kv, s.recentTokens, s.pieces, .error e⟩
  | (s, .ok reason) => do
    let s ← release reason s
    let finishReason :=
      if s.stopSequence.isSome && reason != .cancelled then .stopped else reason
    return ⟨s.kv, s.recentTokens, s.pieces,
      .ok ⟨s.text, finishReason, s.generatedTokens, promptTokens, s.stopSequence⟩⟩

end Loop

/-! ### What an iteration does -/

section Steps

variable {σ : Type} {ctx : DecodeContext σ} {config : GenerationConfig} {maxCtx fuel : ℕ}
  {s s' : DecodeState σ} {it : Iteration σ} {token : Token} {sampler : σ} {reason : FinishReason}
  {detokenizer : Utf8StreamDecoder} {decoded piece : Text} {stopBuffer : StopSequenceBuffer}
  {fed : StopFeed} {result : Except RuntimeError FinishReason}

@[simp] theorem emit_generatedTokens : (s.emit piece).generatedTokens = s.generatedTokens := by
  rw [DecodeState.emit]
  split <;> rfl

@[simp] theorem emit_kv : (s.emit piece).kv = s.kv := by
  rw [DecodeState.emit]
  split <;> rfl

@[simp] theorem emit_detokenizer : (s.emit piece).detokenizer = s.detokenizer := by
  rw [DecodeState.emit]
  split <;> rfl

@[simp] theorem emit_stopBuffer : (s.emit piece).stopBuffer = s.stopBuffer := by
  rw [DecodeState.emit]
  split <;> rfl

@[simp] theorem emit_stopSequence : (s.emit piece).stopSequence = s.stopSequence := by
  rw [DecodeState.emit]
  split <;> rfl

@[simp] theorem emit_text : (s.emit piece).text = s.text ++ piece := by
  rw [DecodeState.emit]
  split
  next hnil => rw [hnil, List.append_nil]
  next => rfl

@[simp] theorem emit_pieces : (s.emit piece).pieces.flatten = s.pieces.flatten ++ piece := by
  rw [DecodeState.emit]
  split
  next hnil => rw [hnil, List.append_nil]
  next => rw [List.flatten_append, List.flatten_singleton]

/-- A token is sampled, and its text goes through both buffers. -/
structure Feeds (ctx : DecodeContext σ) (config : GenerationConfig) (maxCtx : ℕ)
    (s : DecodeState σ) (token : Token) (sampler : σ) (detokenizer : Utf8StreamDecoder)
    (stopBuffer : StopSequenceBuffer) (fed : StopFeed) : Prop where
  room : s.generatedTokens.length < config.maxTokens
  position : s.kv.seqLen < maxCtx
  sampled : ctx.trySample s.sampler s.logits s.recentTokens = .ok (token, sampler)
  goes : ctx.tokenizer.isEog token = false
  decoded : ∃ decoded,
    s.detokenizer.push (ctx.tokenizer.decodeBytes [token] (!config.renderSpecial)) =
      some (detokenizer, decoded) ∧
    s.stopBuffer.push decoded = some (stopBuffer, fed)

/-- The variables when the text of a token has gone through both buffers. -/
def DecodeState.feed (s : DecodeState σ) (sampler : σ) (detokenizer : Utf8StreamDecoder)
    (stopBuffer : StopSequenceBuffer) (piece : Text) : DecodeState σ :=
  { s with sampler, detokenizer, stopBuffer }.emit piece

/-- What an iteration can come to. -/
inductive Steps (ctx : DecodeContext σ) (config : GenerationConfig) (maxCtx : ℕ)
    (s : DecodeState σ) : Iteration σ → Prop
  | cancelled (hraised : config.cancelled s.generatedTokens.length = true) :
      Steps ctx config maxCtx s (.done .cancelled s)
  | maxTokens (hfull : config.maxTokens ≤ s.generatedTokens.length) :
      Steps ctx config maxCtx s (.done .maxTokens s)
  | contextFull (hfull : maxCtx ≤ s.kv.seqLen ∨ s.logits = []) :
      Steps ctx config maxCtx s (.done .contextFull s)
  | refused {e : RuntimeError}
      (hsample : ctx.trySample s.sampler s.logits s.recentTokens = .error e) :
      Steps ctx config maxCtx s (.fail e s)
  | eos {token : Token} {sampler : σ}
      (hsample : ctx.trySample s.sampler s.logits s.recentTokens = .ok (token, sampler))
      (heog : ctx.tokenizer.isEog token = true) :
      Steps ctx config maxCtx s (.done .eos { s with sampler })
  | stopped {token : Token} {sampler : σ} {detokenizer : Utf8StreamDecoder}
      {stopBuffer : StopSequenceBuffer} {fed : StopFeed} {matched : Text}
      (hfeeds : Feeds ctx config maxCtx s token sampler detokenizer stopBuffer fed)
      (hmatched : fed.matched = some matched) :
      Steps ctx config maxCtx s (.done .stopped
        { s.feed sampler detokenizer stopBuffer fed.emit with
          stopSequence := some matched
          generatedTokens := s.generatedTokens ++ [token] })
  | failed {token : Token} {sampler : σ} {detokenizer : Utf8StreamDecoder}
      {stopBuffer : StopSequenceBuffer} {fed : StopFeed} {kv : KvCache} {e : ArchError}
      (hfeeds : Feeds ctx config maxCtx s token sampler detokenizer stopBuffer fed)
      (hmatched : fed.matched = none)
      (hforward : s.kv.forward ctx.half ctx.pass [token] = some (kv, .error e)) :
      Steps ctx config maxCtx s (.fail (.arch e)
        { s.feed sampler detokenizer stopBuffer fed.emit with
          recentTokens := s.recentTokens ++ [token]
          generatedTokens := s.generatedTokens ++ [token]
          kv := kv })
  | passed {token : Token} {sampler : σ} {detokenizer : Utf8StreamDecoder}
      {stopBuffer : StopSequenceBuffer} {fed : StopFeed} {kv : KvCache} {logits : List Kv.F32}
      (hfeeds : Feeds ctx config maxCtx s token sampler detokenizer stopBuffer fed)
      (hmatched : fed.matched = none)
      (hforward : s.kv.forward ctx.half ctx.pass [token] = some (kv, .ok logits)) :
      Steps ctx config maxCtx s (.next
        { s.feed sampler detokenizer stopBuffer fed.emit with
          recentTokens := s.recentTokens ++ [token]
          generatedTokens := s.generatedTokens ++ [token]
          kv := kv
          logits := logits })

theorem feed_recentTokens : (s.feed sampler detokenizer stopBuffer piece).recentTokens =
    s.recentTokens := by
  rw [DecodeState.feed, DecodeState.emit]
  split <;> rfl

theorem feed_generatedTokens : (s.feed sampler detokenizer stopBuffer piece).generatedTokens =
    s.generatedTokens := emit_generatedTokens

theorem feed_kv : (s.feed sampler detokenizer stopBuffer piece).kv = s.kv := emit_kv

/-- **One iteration.** -/
theorem steps_of_iteration (h : iteration ctx config maxCtx s = some it) :
    Steps ctx config maxCtx s it := by
  rw [iteration] at h
  split at h
  next hcancelled =>
    obtain rfl := Option.some.inj h
    exact .cancelled hcancelled
  split at h
  next hfull =>
    obtain rfl := Option.some.inj h
    exact .maxTokens hfull
  next hroom =>
  split at h
  next hfull =>
    obtain rfl := Option.some.inj h
    exact .contextFull (.inl hfull)
  next hposition =>
  split at h
  next hempty =>
    obtain rfl := Option.some.inj h
    exact .contextFull (.inr hempty)
  split at h
  next e hsample =>
    obtain rfl := Option.some.inj h
    exact .refused hsample
  next token sampler hsample =>
  dsimp only at h
  split at h
  next heog =>
    obtain rfl := Option.some.inj h
    exact .eos hsample heog
  next hgoes =>
  obtain ⟨⟨detokenizer, decoded⟩, hdecoded, h⟩ := Option.bind_eq_some_iff.1 h
  obtain ⟨⟨stopBuffer, fed⟩, hfed, h⟩ := Option.bind_eq_some_iff.1 h
  have hfeeds : Feeds ctx config maxCtx s token sampler detokenizer stopBuffer fed :=
    ⟨not_le.1 hroom, not_le.1 hposition, hsample, by simpa using hgoes, decoded, hdecoded, hfed⟩
  -- The other variables are those from before.
  change (match fed.matched with
    | some matched => some (Iteration.done .stopped
        { s.feed sampler detokenizer stopBuffer fed.emit with
          stopSequence := some matched
          generatedTokens := (s.feed sampler detokenizer stopBuffer fed.emit).generatedTokens ++
            [token] })
    | none => ((s.feed sampler detokenizer stopBuffer fed.emit).kv.forward ctx.half ctx.pass
        [token]).bind fun r => match r with
          | (kv, .error e) => some (Iteration.fail (.arch e)
              { s.feed sampler detokenizer stopBuffer fed.emit with
                recentTokens := (s.feed sampler detokenizer stopBuffer fed.emit).recentTokens ++
                  [token]
                generatedTokens :=
                  (s.feed sampler detokenizer stopBuffer fed.emit).generatedTokens ++ [token]
                kv := kv })
          | (kv, .ok logits) => some (Iteration.next
              { s.feed sampler detokenizer stopBuffer fed.emit with
                recentTokens := (s.feed sampler detokenizer stopBuffer fed.emit).recentTokens ++
                  [token]
                generatedTokens :=
                  (s.feed sampler detokenizer stopBuffer fed.emit).generatedTokens ++ [token]
                kv := kv
                logits := logits })) = some it at h
  rw [feed_generatedTokens, feed_recentTokens, feed_kv] at h
  split at h
  next matched hmatched =>
    obtain rfl := Option.some.inj h
    exact .stopped hfeeds hmatched
  next hmatched =>
    obtain ⟨⟨kv, answer⟩, hforward, h⟩ := Option.bind_eq_some_iff.1 h
    rcases answer with e | logits
    · obtain rfl := Option.some.inj h
      exact .failed hfeeds hmatched hforward
    · obtain rfl := Option.some.inj h
      exact .passed hfeeds hmatched hforward

/-- Iterations that go on lead from `s` to other variables. -/
inductive Reaches (ctx : DecodeContext σ) (config : GenerationConfig) (maxCtx : ℕ)
    (s : DecodeState σ) : DecodeState σ → Prop
  | refl : Reaches ctx config maxCtx s s
  | next {s₁ s₂ : DecodeState σ} (h : Reaches ctx config maxCtx s s₁)
      (hnext : iteration ctx config maxCtx s₁ = some (.next s₂)) : Reaches ctx config maxCtx s s₂

theorem Reaches.head {s₁ : DecodeState σ} (hnext : iteration ctx config maxCtx s = some (.next s₁))
    (h : Reaches ctx config maxCtx s₁ s') : Reaches ctx config maxCtx s s' := by
  induction h with
  | refl => exact .next .refl hnext
  | next _ hnext' ih => exact .next ih hnext'

theorem Reaches.cases_head (h : Reaches ctx config maxCtx s s') :
    s' = s ∨ ∃ s₁, iteration ctx config maxCtx s = some (.next s₁) ∧
      Reaches ctx config maxCtx s₁ s' := by
  induction h with
  | refl => exact .inl rfl
  | next _ hnext ih =>
    rcases ih with rfl | ⟨s₁, hfirst, hreaches⟩
    · exact .inr ⟨_, hnext, .refl⟩
    · exact .inr ⟨s₁, hfirst, .next hreaches hnext⟩

/-- **The loop ends** with an iteration that is the last, from variables it has reached. -/
theorem loop_reaches (hloop : decodeLoop ctx config maxCtx fuel s = some (s', result)) :
    ∃ s₀ it, Reaches ctx config maxCtx s s₀ ∧ iteration ctx config maxCtx s₀ = some it ∧
      it.state = s' ∧ ∀ reason, result = .ok reason → it = .done reason s' := by
  induction fuel generalizing s with
  | zero => cases hloop
  | succ fuel ih =>
    rw [decodeLoop] at hloop
    obtain ⟨it, hiteration, hloop⟩ := Option.bind_eq_some_iff.1 hloop
    rcases it with s₁ | ⟨reason, s₁⟩ | ⟨e, s₁⟩
    · obtain ⟨s₀, it, hreaches, hlast⟩ := ih hloop
      exact ⟨s₀, it, hreaches.head hiteration, hlast⟩
    · obtain ⟨rfl, rfl⟩ := Prod.mk.inj (Option.some.inj hloop)
      refine ⟨s, _, .refl, hiteration, rfl, fun reason' hreason => ?_⟩
      rw [Except.ok.inj hreason]
    · obtain ⟨rfl, rfl⟩ := Prod.mk.inj (Option.some.inj hloop)
      exact ⟨s, _, .refl, hiteration, rfl, nofun⟩

/-- **What every iteration keeps, the loop keeps**; and it ends with one that is the last. -/
theorem loop_keeps {P : DecodeState σ → Prop}
    (hstep : ∀ {s s'}, P s → Steps ctx config maxCtx s (.next s') → P s')
    (hloop : decodeLoop ctx config maxCtx fuel s = some (s', result)) (hs : P s) :
    ∃ s₀ it, P s₀ ∧ Steps ctx config maxCtx s₀ it ∧ it.state = s' ∧
      (∀ reason, result = .ok reason → it = .done reason s') := by
  obtain ⟨s₀, it, hreaches, hiteration, hlast⟩ := loop_reaches hloop
  refine ⟨s₀, it, ?_, steps_of_iteration hiteration, hlast⟩
  clear hiteration hlast
  induction hreaches with
  | refl => exact hs
  | next _ hnext ih => exact hstep ih (steps_of_iteration hnext)

/-! ### What holds after every iteration -/

/-- The bytes of some tokens, as the request has them rendered. -/
def rendered (ctx : DecodeContext σ) (config : GenerationConfig) (tokens : List Token) :
    List UInt8 :=
  tokens.flatMap fun token => ctx.tokenizer.decodeBytes [token] (!config.renderSpecial)

/-- The text is what the callback got, there are not too many tokens, and no position behind the
context has been written. -/
structure Within (config : GenerationConfig) (maxCtx : ℕ) (kv : KvCache) (s : DecodeState σ) :
    Prop where
  emitted : s.pieces.flatten = s.text
  length : s.generatedTokens.length ≤ config.maxTokens
  kept : kv.UntouchedFrom maxCtx s.kv

theorem Within.feed {kv : KvCache} (h : Within config maxCtx kv s) :
    (s.feed sampler detokenizer stopBuffer piece).pieces.flatten =
      (s.feed sampler detokenizer stopBuffer piece).text := by
  rw [DecodeState.feed, emit_pieces, emit_text, h.emitted]

/-- An iteration writes no position behind the context. -/
theorem Steps.untouched (hsteps : Steps ctx config maxCtx s it) :
    s.kv.UntouchedFrom maxCtx it.state.kv := by
  cases hsteps with
  | cancelled => exact KvCache.untouchedFrom_refl _ _
  | maxTokens => exact KvCache.untouchedFrom_refl _ _
  | contextFull => exact KvCache.untouchedFrom_refl _ _
  | refused => exact KvCache.untouchedFrom_refl _ _
  | eos => exact KvCache.untouchedFrom_refl _ _
  | stopped hfeeds =>
    show s.kv.UntouchedFrom maxCtx (s.feed _ _ _ _).kv
    rw [feed_kv]
    exact KvCache.untouchedFrom_refl _ _
  | failed hfeeds _ hforward => exact KvCache.untouched_forward hfeeds.position hforward
  | passed hfeeds _ hforward => exact KvCache.untouched_forward hfeeds.position hforward

/-- **An iteration keeps it.** -/
theorem Within.step {kv : KvCache} (h : Within config maxCtx kv s)
    (hsteps : Steps ctx config maxCtx s it) : Within config maxCtx kv it.state := by
  have hkept := h.kept.trans hsteps.untouched
  have hlonger {token : Token} (hroom : s.generatedTokens.length < config.maxTokens) :
      (s.generatedTokens ++ [token]).length ≤ config.maxTokens := by
    rw [List.length_append, List.length_singleton]
    exact hroom
  cases hsteps with
  | cancelled => exact h
  | maxTokens => exact h
  | contextFull => exact h
  | refused => exact h
  | eos => exact ⟨h.emitted, h.length, hkept⟩
  | stopped hfeeds => exact ⟨h.feed, hlonger hfeeds.room, hkept⟩
  | failed hfeeds => exact ⟨h.feed, hlonger hfeeds.room, hkept⟩
  | passed hfeeds => exact ⟨h.feed, hlonger hfeeds.room, hkept⟩

/-- Without stop sequences: the text and the pending bytes are all bytes of the tokens. -/
structure Plain (ctx : DecodeContext σ) (config : GenerationConfig) (s : DecodeState σ) : Prop where
  stops : s.stopBuffer.stops = []
  held : s.stopBuffer.held = []
  unmatched : s.stopSequence = none
  settled : s.detokenizer.Settled
  scanned : utf8Scanner.scan (rendered ctx config s.generatedTokens) =
    (s.text, s.detokenizer.pending)

/-- Without stop sequences a push passes its text on. -/
theorem push_of_no_stops {b : StopSequenceBuffer} (hstops : b.stops = []) (text : Text) :
    b.push text = some (b, ⟨text, none⟩) := by
  rw [StopSequenceBuffer.push, hstops]
  rfl

/-- A token whose text has gone through both buffers. -/
theorem Plain.feed (h : Plain ctx config s)
    (hfeeds : Feeds ctx config maxCtx s token sampler detokenizer stopBuffer fed) :
    fed.matched = none ∧ Plain ctx config
      { s.feed sampler detokenizer stopBuffer fed.emit with
        generatedTokens := s.generatedTokens ++ [token] } := by
  obtain ⟨decoded, hdecoded, hfed⟩ := hfeeds.decoded
  rw [push_of_no_stops h.stops] at hfed
  obtain ⟨rfl, rfl⟩ := Prod.mk.inj (Option.some.inj hfed)
  have hsettled := Utf8StreamDecoder.settled_push hdecoded
  rw [Utf8StreamDecoder.push_spec] at hdecoded
  obtain ⟨rfl, rfl⟩ := Prod.mk.inj (Option.some.inj hdecoded)
  refine ⟨rfl, ?_, ?_, ?_, ?_, ?_⟩
  · show (s.feed _ _ _ _).stopBuffer.stops = []
    rw [DecodeState.feed, emit_stopBuffer]
    exact h.stops
  · show (s.feed _ _ _ _).stopBuffer.held = []
    rw [DecodeState.feed, emit_stopBuffer]
    exact h.held
  · show (s.feed _ _ _ _).stopSequence = none
    rw [DecodeState.feed, emit_stopSequence]
    exact h.unmatched
  · show (s.feed _ _ _ _).detokenizer.Settled
    rw [DecodeState.feed, emit_detokenizer]
    exact hsettled
  · show _ = ((s.feed _ _ _ _).text, (s.feed _ _ _ _).detokenizer.pending)
    rw [DecodeState.feed, emit_text, emit_detokenizer]
    have hscanned := h.scanned
    rw [rendered] at hscanned
    show utf8Scanner.scan ((s.generatedTokens ++ [token]).flatMap _) = _
    rw [List.flatMap_append, List.flatMap_singleton, utf8Scanner.scan_append, hscanned]

/-- **An iteration keeps it**, and no stop sequence ends the loop. -/
theorem Plain.step (h : Plain ctx config s) (hsteps : Steps ctx config maxCtx s it) :
    Plain ctx config it.state ∧ ∀ s', it ≠ .done .stopped s' := by
  cases hsteps with
  | cancelled => exact ⟨h, nofun⟩
  | maxTokens => exact ⟨h, nofun⟩
  | contextFull => exact ⟨h, nofun⟩
  | refused => exact ⟨h, nofun⟩
  | eos => exact ⟨⟨h.stops, h.held, h.unmatched, h.settled, h.scanned⟩, nofun⟩
  | stopped hfeeds hmatched =>
    rw [(h.feed hfeeds).1] at hmatched
    cases hmatched
  | failed hfeeds =>
    obtain ⟨-, hplain⟩ := h.feed hfeeds
    exact ⟨⟨hplain.stops, hplain.held, hplain.unmatched, hplain.settled, hplain.scanned⟩, nofun⟩
  | passed hfeeds =>
    obtain ⟨-, hplain⟩ := h.feed hfeeds
    exact ⟨⟨hplain.stops, hplain.held, hplain.unmatched, hplain.settled, hplain.scanned⟩, nofun⟩

/-! ### Behind the loop -/

/-- What is released goes to the callback and to the text. -/
theorem release_keeps (hrelease : release reason s = some s') (h : s.pieces.flatten = s.text) :
    s'.pieces.flatten = s'.text ∧ s'.generatedTokens = s.generatedTokens ∧ s'.kv = s.kv := by
  have htail {s' : DecodeState σ} (hrelease : releaseTail s = some s') :
      s'.pieces.flatten = s'.text ∧ s'.generatedTokens = s.generatedTokens ∧ s'.kv = s.kv := by
    rw [releaseTail] at hrelease
    dsimp only at hrelease
    split at hrelease
    · obtain rfl := Option.some.inj hrelease
      exact ⟨h, rfl, rfl⟩
    · obtain ⟨⟨stopBuffer, fed⟩, -, hpair⟩ := Option.bind_eq_some_iff.1 hrelease
      obtain rfl := Option.some.inj hpair
      refine ⟨?_, emit_generatedTokens, emit_kv⟩
      show (DecodeState.emit _ _).pieces.flatten = (DecodeState.emit _ _).text
      rw [emit_pieces, emit_text, h]
  rw [release] at hrelease
  split at hrelease
  · obtain rfl := Option.some.inj hrelease
    exact ⟨h, rfl, rfl⟩
  · obtain ⟨s₁, htail₁, hflush⟩ := Option.bind_eq_some_iff.1 hrelease
    obtain ⟨hemitted, htokens, hkv⟩ := htail htail₁
    split at hflush
    · obtain rfl := Option.some.inj hflush
      refine ⟨?_, emit_generatedTokens.trans htokens, emit_kv.trans hkv⟩
      rw [emit_pieces, emit_text, hemitted]
    · obtain rfl := Option.some.inj hflush
      exact ⟨hemitted, htokens, hkv⟩

/-- Without stop sequences it is the end of what is in the decoder. -/
theorem Plain.release (h : Plain ctx config s) (hreason : reason ≠ .stopped)
    (hrelease : release reason s = some s') :
    s'.text = fromUtf8Lossy (rendered ctx config s.generatedTokens) := by
  have hfinish : fromUtf8Lossy (rendered ctx config s.generatedTokens) =
      s.text ++ s.detokenizer.finish.2 := by
    rw [fromUtf8Lossy_eq, h.scanned, Utf8StreamDecoder.finish_spec h.settled]
  have htail : ∃ s₁, releaseTail s = some s₁ ∧ s₁.text = s.text ++ s.detokenizer.finish.2 ∧
      s₁.stopBuffer = s.stopBuffer := by
    rw [releaseTail]
    dsimp only
    split
    next hnil => exact ⟨_, rfl, by rw [hnil, List.append_nil], rfl⟩
    next =>
      rw [push_of_no_stops h.stops]
      exact ⟨_, rfl, emit_text, emit_stopBuffer⟩
  obtain ⟨s₁, htail, htext, hbuffer⟩ := htail
  rw [Generation.release, if_neg hreason, htail] at hrelease
  have hcases : (if s₁.stopSequence.isNone = true then
      some ({ s₁ with stopBuffer := s₁.stopBuffer.flush.1 }.emit s₁.stopBuffer.flush.2)
    else some s₁) = some s' := hrelease
  rw [hfinish, ← htext]
  split at hcases
  · obtain rfl := Option.some.inj hcases
    rw [emit_text, StopSequenceBuffer.flush, hbuffer, h.held, List.append_nil]
  · obtain rfl := Option.some.inj hcases
    rfl

/-! ### The loop ends -/

/-- Neither the cache nor the stop buffer makes an iteration panic. -/
structure Alive (config : GenerationConfig) (s : DecodeState σ) : Prop where
  kv : s.kv.Settled
  buffered : ∃ since, StopSequenceBuffer.Buffered config.stop since s.stopBuffer

theorem exists_push {stops : List Text} {b : StopSequenceBuffer}
    (h : ∃ since, StopSequenceBuffer.Buffered stops since b) (text : Text) :
    ∃ b' feed, b.push text = some (b', feed) ∧
      ∃ since, StopSequenceBuffer.Buffered stops since b' := by
  obtain ⟨since, hbuffered⟩ := h
  obtain ⟨emitted, hsince⟩ := hbuffered.withheld.suffix
  obtain ⟨b', feed, hpush, hcases⟩ := StopSequenceBuffer.push_spec hbuffered hsince.symm text
  refine ⟨b', feed, hpush, ?_⟩
  rcases hcases with ⟨-, hnext, -⟩ | ⟨hnext, -⟩
  · exact ⟨_, hnext⟩
  · exact ⟨_, hnext⟩

theorem exists_iteration (h : Alive config s) : ∃ it, iteration ctx config maxCtx s = some it := by
  rw [iteration]
  split
  · exact ⟨_, rfl⟩
  split
  · exact ⟨_, rfl⟩
  split
  · exact ⟨_, rfl⟩
  split
  · exact ⟨_, rfl⟩
  split
  · exact ⟨_, rfl⟩
  next token sampler _ =>
  dsimp only
  split
  · exact ⟨_, rfl⟩
  rw [Utf8StreamDecoder.push_spec]
  obtain ⟨stopBuffer, fed, hpush, -⟩ := exists_push h.buffered (utf8Scanner.scan
    (s.detokenizer.pending ++ ctx.tokenizer.decodeBytes [token] !config.renderSpecial)).1
  simp only [Option.bind_eq_bind, Option.bind_some, hpush]
  split
  · exact ⟨_, rfl⟩
  · obtain ⟨kv, answer, hforward, -⟩ := KvCache.forwardFrom_spec h.kv ctx.half ctx.pass [] [token]
    rw [emit_kv]
    show ∃ it, (s.kv.forward ctx.half ctx.pass [token]).bind _ = some it
    rw [KvCache.forward, hforward]
    rcases answer with e | logits
    · exact ⟨_, rfl⟩
    · exact ⟨_, rfl⟩

/-- An iteration keeps it, and goes on with a token more. -/
theorem Alive.step (h : Alive config s) (hsteps : Steps ctx config maxCtx s it) :
    (∃ since, StopSequenceBuffer.Buffered config.stop since it.state.stopBuffer) ∧
      ∀ s', it = .next s' → Alive config s' ∧
        s'.generatedTokens.length = s.generatedTokens.length + 1 ∧
        s'.generatedTokens.length ≤ config.maxTokens := by
  have hfeed {token : Token} {sampler : σ} {detokenizer : Utf8StreamDecoder}
      {stopBuffer : StopSequenceBuffer} {fed : StopFeed}
      (hfeeds : Feeds ctx config maxCtx s token sampler detokenizer stopBuffer fed) :
      ∃ since, StopSequenceBuffer.Buffered config.stop since
        (s.feed sampler detokenizer stopBuffer fed.emit).stopBuffer := by
    obtain ⟨decoded, -, hfed⟩ := hfeeds.decoded
    obtain ⟨b', feed, hpush, hbuffered⟩ := exists_push h.buffered decoded
    obtain ⟨rfl, rfl⟩ := Prod.mk.inj (Option.some.inj (hpush.symm.trans hfed))
    rw [DecodeState.feed, emit_stopBuffer]
    exact hbuffered
  cases hsteps with
  | cancelled => exact ⟨h.buffered, nofun⟩
  | maxTokens => exact ⟨h.buffered, nofun⟩
  | contextFull => exact ⟨h.buffered, nofun⟩
  | refused => exact ⟨h.buffered, nofun⟩
  | eos => exact ⟨h.buffered, nofun⟩
  | stopped hfeeds => exact ⟨hfeed hfeeds, nofun⟩
  | failed hfeeds => exact ⟨hfeed hfeeds, nofun⟩
  | @passed token sampler detokenizer stopBuffer fed kv logits hfeeds _ hforward =>
    refine ⟨hfeed hfeeds, ?_⟩
    rintro s' hs'
    obtain rfl := Iteration.next.inj hs'
    obtain ⟨kv', answer, hforward', hpassed⟩ :=
      KvCache.forwardFrom_spec h.kv ctx.half ctx.pass [] [token]
    obtain ⟨rfl, rfl⟩ := Prod.mk.inj (Option.some.inj (hforward'.symm.trans hforward))
    have hlength : (s.generatedTokens ++ [token]).length = s.generatedTokens.length + 1 :=
      List.length_append
    exact ⟨⟨hpassed.settled _ rfl, hfeed hfeeds⟩, hlength, hlength ▸ hfeeds.room⟩

/-- **The loop ends** within an iteration for every token and one more. -/
theorem exists_loop (h : Alive config s) (hlength : s.generatedTokens.length ≤ config.maxTokens)
    (hfuel : config.maxTokens < s.generatedTokens.length + fuel) :
    ∃ s' result, decodeLoop ctx config maxCtx fuel s = some (s', result) := by
  induction fuel generalizing s with
  | zero => omega
  | succ fuel ih =>
    obtain ⟨it, hiteration⟩ : ∃ it, iteration ctx config maxCtx s = some it :=
      exists_iteration h
    rw [decodeLoop, hiteration]
    have hstep := h.step (steps_of_iteration hiteration)
    rcases it with s₁ | ⟨reason, s₁⟩ | ⟨e, s₁⟩
    · obtain ⟨halive, hlonger, hle⟩ := hstep.2 s₁ rfl
      exact ih halive hle (by omega)
    · exact ⟨s₁, .ok reason, rfl⟩
    · exact ⟨s₁, .error e, rfl⟩

theorem exists_release (h : ∃ since, StopSequenceBuffer.Buffered config.stop since s.stopBuffer)
    (reason : FinishReason) : ∃ s', release reason s = some s' := by
  rw [release]
  split
  · exact ⟨s, rfl⟩
  · obtain ⟨stopBuffer, fed, hpush, -⟩ := exists_push h s.detokenizer.finish.2
    have htail : ∃ s₁, releaseTail s = some s₁ := by
      rw [releaseTail]
      dsimp only
      split
      · exact ⟨_, rfl⟩
      · rw [hpush]
        exact ⟨_, rfl⟩
    obtain ⟨s₁, htail⟩ := htail
    rw [htail]
    show ∃ s', (if s₁.stopSequence.isNone = true then _ else _) = some s'
    split
    · exact ⟨_, rfl⟩
    · exact ⟨_, rfl⟩

end Steps

/-! ### The contract -/

section Contract

variable {σ : Type} {ctx : DecodeContext σ} {config : GenerationConfig}
  {initialLogits : List Kv.F32} {recentTokens : List Token} {kv : KvCache} {ran : Ran}

theorem within_initialState (maxCtx : ℕ) : Within config maxCtx kv
    (initialState ctx config initialLogits recentTokens kv) where
  emitted := rfl
  length := Nat.zero_le _
  kept := KvCache.untouchedFrom_refl maxCtx kv

theorem within_of_loop {maxCtx fuel : ℕ} {s : DecodeState σ}
    {result : Except RuntimeError FinishReason}
    (hloop : decodeLoop ctx config maxCtx fuel
      (initialState ctx config initialLogits recentTokens kv) = some (s, result)) :
    Within config maxCtx kv s := by
  obtain ⟨s₀, it, hbefore, hsteps, rfl, -⟩ :=
    loop_keeps (fun hs hsteps => hs.step hsteps) hloop (within_initialState maxCtx)
  exact hbefore.step hsteps

theorem plain_initialState (hstop : ∀ stop ∈ config.stop, stop = []) :
    Plain ctx config (initialState ctx config initialLogits recentTokens kv) where
  stops := by
    refine List.filter_eq_nil_iff.2 fun stop hmem => ?_
    simpa using hstop stop hmem
  held := rfl
  unmatched := rfl
  settled := Utf8StreamDecoder.settled_new
  scanned := scan_of_incomplete rfl

/-- **A run ends**, with an outcome or an error. -/
theorem runDecodeLoop_returns (ctx : DecodeContext σ) (config : GenerationConfig)
    (initialLogits : List Kv.F32) (recentTokens : List Token) (hkv : kv.Settled) :
    ∃ ran, runDecodeLoop ctx config initialLogits recentTokens kv = some ran := by
  have halive : Alive config (initialState ctx config initialLogits recentTokens kv) :=
    ⟨hkv, [], StopSequenceBuffer.buffered_new config.stop⟩
  obtain ⟨s, result, hloop⟩ : ∃ s result,
      decodeLoop ctx config (min ctx.maxContextLength kv.maxSeqLen) (config.maxTokens + 1)
        (initialState ctx config initialLogits recentTokens kv) = some (s, result) :=
    exists_loop halive (Nat.zero_le _)
      (show config.maxTokens < 0 + (config.maxTokens + 1) by omega)
  rw [runDecodeLoop]
  dsimp only
  rw [hloop]
  rcases result with e | reason
  · exact ⟨_, rfl⟩
  · obtain ⟨s₀, it, hbefore, hsteps, rfl, -⟩ :=
      loop_keeps (fun hs hsteps => ((hs.step hsteps).2 _ rfl).1) hloop halive
    obtain ⟨s', hrelease⟩ := exists_release (hbefore.step hsteps).1 reason
    simp only [Option.bind_eq_bind, Option.bind_some, hrelease]
    exact ⟨_, rfl⟩

/-- What a run leaves of the cache, and its outcome. -/
theorem contract_of_run (hrun : runDecodeLoop ctx config initialLogits recentTokens kv = some ran) :
    kv.UntouchedFrom (min ctx.maxContextLength kv.maxSeqLen) ran.kv ∧
      ∀ outcome, ran.result = .ok outcome → ran.pieces.flatten = outcome.text ∧
        outcome.generatedTokens.length ≤ config.maxTokens ∧
        ((∀ stop ∈ config.stop, stop = []) →
          outcome.text = fromUtf8Lossy (rendered ctx config outcome.generatedTokens)) := by
  rw [runDecodeLoop] at hrun
  dsimp only at hrun
  obtain ⟨⟨s, result⟩, hloop, hrun⟩ := Option.bind_eq_some_iff.1 hrun
  have hwithin := within_of_loop hloop
  rcases result with e | reason
  · obtain rfl := Option.some.inj hrun
    exact ⟨hwithin.kept, nofun⟩
  · obtain ⟨s', hrelease, hrun⟩ := Option.bind_eq_some_iff.1 hrun
    obtain rfl := Option.some.inj hrun
    obtain ⟨hemitted, htokens, hkv⟩ := release_keeps hrelease hwithin.emitted
    refine ⟨hkv ▸ hwithin.kept, ?_⟩
    rintro outcome houtcome
    obtain rfl := Except.ok.inj houtcome
    refine ⟨hemitted, htokens ▸ hwithin.length, fun hstop => ?_⟩
    -- The last iteration was not ended by a stop sequence.
    obtain ⟨s₀, it, hbefore, hsteps, hstate, hreason⟩ :=
      loop_keeps (fun hs hsteps => (hs.step hsteps).1) hloop (plain_initialState hstop)
    obtain ⟨hplain, hnot⟩ := hbefore.step hsteps
    rw [hstate] at hplain
    have hne : reason ≠ .stopped := by
      rintro rfl
      exact hnot s (hreason _ rfl)
    show s'.text = fromUtf8Lossy (rendered ctx config s'.generatedTokens)
    rw [htokens]
    exact hplain.release hne hrelease

/-- **The contract of the decode loop.**  On a settled cache a run ends; no iteration writes a
position behind the context, and nor does the run; the pieces that the callback got make up the
text of an outcome, which has at most `max_tokens` tokens; and without stop sequences the text is
the lossy decoding of the bytes of these tokens. -/
theorem runDecodeLoop_contract (ctx : DecodeContext σ) (config : GenerationConfig)
    (initialLogits : List Kv.F32) (recentTokens : List Token) (kv : KvCache) :
    (kv.Settled → ∃ ran, runDecodeLoop ctx config initialLogits recentTokens kv = some ran) ∧
    (∀ s it, iteration ctx config (min ctx.maxContextLength kv.maxSeqLen) s = some it →
      s.kv.UntouchedFrom (min ctx.maxContextLength kv.maxSeqLen) it.state.kv) ∧
    ∀ ran, runDecodeLoop ctx config initialLogits recentTokens kv = some ran →
      kv.UntouchedFrom (min ctx.maxContextLength kv.maxSeqLen) ran.kv ∧
      ∀ outcome, ran.result = .ok outcome → ran.pieces.flatten = outcome.text ∧
        outcome.generatedTokens.length ≤ config.maxTokens ∧
        ((∀ stop ∈ config.stop, stop = []) →
          outcome.text = fromUtf8Lossy (rendered ctx config outcome.generatedTokens)) :=
  ⟨fun hkv => runDecodeLoop_returns ctx config initialLogits recentTokens hkv,
    fun _ _ h => (steps_of_iteration h).untouched, fun _ hrun => contract_of_run hrun⟩

end Contract

/-! ### A run -/

/-- A context whose sampler draws given tokens, and whose tokens are bytes. -/
def byteContext (draws : List Token) : DecodeContext (List Token) where
  half := Half.onZero
  pass := fun _ _ => .ok (fun _ => ([0], [0]), [0])
  maxContextLength := 4
  tokenizer := { eogTokenIds := [0], decodeBytes := fun tokens _ => tokens.map (·.toUInt8) }
  newSampler := fun _ => draws
  trySample := fun draws _ _ => match draws with
    | [] => .error (.samplingError "no draws left")
    | token :: draws => .ok (token, draws)

/-- A request without stop sequences. -/
def plainConfig : GenerationConfig where
  maxTokens := 3
  sampler := SamplerConfig.default
  stop := []
  renderSpecial := false
  cancelFlag := none

/-- A character in two tokens goes to the callback whole. -/
theorem runDecodeLoop_byteContext : ∃ ran outcome,
    runDecodeLoop (byteContext [0xC3, 0xA9, 0]) plainConfig [0] [] (KvCache.new 1 4 1) = some ran ∧
      ran.result = .ok outcome ∧ outcome.generatedTokens = [0xC3, 0xA9] ∧
      ran.pieces.flatten = outcome.text ∧ outcome.text = fromUtf8Lossy [0xC3, 0xA9] := by
  have hsettled : (KvCache.new 1 4 1).Settled :=
    ⟨KvCache.shape_withDtype 1 4 1 .f32, rfl, by decide, by decide⟩
  obtain ⟨hreturns, -, hcontract⟩ := runDecodeLoop_contract (byteContext [0xC3, 0xA9, 0])
    plainConfig [0] [] (KvCache.new 1 4 1)
  obtain ⟨ran, hrun⟩ := hreturns hsettled
  have hresult : (runDecodeLoop (byteContext [0xC3, 0xA9, 0]) plainConfig [0] []
      (KvCache.new 1 4 1)).map Ran.result =
        some (.ok ⟨['é'], .eos, [0xC3, 0xA9], 0, none⟩) := by decide_cbv
  rw [hrun] at hresult
  have hok := Option.some.inj hresult
  obtain ⟨hpieces, -, hplain⟩ := (hcontract ran hrun).2 _ hok
  exact ⟨ran, _, hrun, hok, rfl, hpieces, hplain (List.forall_mem_nil _)⟩

end Generation

end Oxillama
