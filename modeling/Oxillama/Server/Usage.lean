/-
The usage that the worker reports (`run_generate` in `oxillama-server/src/worker.rs`, and the entry
points of `oxillama-runtime/src/engine/mod.rs` that it calls).

The worker counts the calls of the callback and reports their number as the completion tokens.
The callback gets text, and not every token brings some: its bytes may not complete a character,
or it may be a control token that is not rendered.  What is left of a character at the end is one
more piece.

* `silent` — the tokens that complete no character;
* `Counted` — pieces and silent tokens make up the tokens, after every iteration;
* `completionTokens_eq_iff` — **when the report is exact**.
-/
import Oxillama.Runtime.DecodeLoop

namespace Oxillama

namespace Server

open Generation
open Kv (Token KvCache)
open Sampling (SamplerConfig)
open Oxillama.Stream (Utf8StreamDecoder StopSequenceBuffer StopFeed)

/-! ### Reporting -/

/-- `UsageStats`. -/
structure UsageStats where
  promptTokens : ℕ
  completionTokens : ℕ
  totalTokens : ℕ
  deriving DecidableEq, Repr

/-- What a call of `run_generate` can fail with. -/
inductive GenerateError
  | tokenizer (message : String)
  | prefill (e : Kv.EngineError)
  | decode (e : RuntimeError)
  deriving DecidableEq

/-- How a request comes to the decode loop: `try_prefix_cache_hit` has primed the engine, or the
prompt is encoded and passed on the cache of an engine that has been reset. -/
inductive Prompt
  | primed (promptTokens : List Token) (initialLogits : List Kv.F32) (kv : KvCache)
  | encoded (promptTokens : Except String (List Token)) (kv : KvCache)

/-- What a generation leaves: the calls of the callback, and the result. -/
structure Generated where
  pieces : List Text
  result : Except GenerateError GenerationOutcome
  deriving DecidableEq

/-- The configuration that `run_generate` makes: no stop sequences, no control tokens in the text
and no flag. -/
def genConfig (maxTokens : ℕ) (sampler : SamplerConfig) : GenerationConfig where
  maxTokens := maxTokens
  sampler := sampler
  stop := []
  renderSpecial := false
  cancelFlag := none

section Generate

variable {σ : Type} (ctx : DecodeContext σ)

/-- `generate_with_logits_detailed`. -/
def generateWithLogitsDetailed (promptTokens : List Token) (initialLogits : List Kv.F32)
    (config : GenerationConfig) (kv : KvCache) : Option Generated :=
  (runDecodeLoop ctx config initialLogits promptTokens kv).map fun ran =>
    ⟨ran.pieces, ran.result.mapError .decode⟩

/-- `generate_detailed_with_tokens`. -/
def generateDetailedWithTokens (chunkSize : ℕ) (promptTokens : List Token)
    (config : GenerationConfig) (kv : KvCache) : Option Generated :=
  if promptTokens = [] then some ⟨[], .ok ⟨[], .eos, [], 0, none⟩⟩
  else do
    match ← Kv.prefillChunked ctx.half ctx.pass chunkSize promptTokens kv with
    | (_, .error e) => return ⟨[], .error (.prefill e)⟩
    | (kv, .ok logits) => generateWithLogitsDetailed ctx promptTokens logits config kv

/-- The generation of `run_generate`, on a hit and on a miss. -/
def generate (chunkSize : ℕ) (config : GenerationConfig) : Prompt → Option Generated
  | .primed promptTokens initialLogits kv =>
    generateWithLogitsDetailed ctx promptTokens initialLogits config kv
  | .encoded (.error message) _ => some ⟨[], .error (.tokenizer message)⟩
  | .encoded (.ok promptTokens) kv => generateDetailedWithTokens ctx chunkSize promptTokens config kv

/-- `run_generate`: the outcome, of which the worker keeps the text and the reason, and the usage.
Every call of the callback counts as a token. -/
def runGenerate (chunkSize maxTokens : ℕ) (sampler : SamplerConfig) (prompt : Prompt) :
    Option (Except GenerateError (GenerationOutcome × UsageStats)) :=
  (generate ctx chunkSize (genConfig maxTokens sampler) prompt).map fun generated => do
    let completionTokens := generated.pieces.length
    let outcome ← generated.result
    return (outcome, ⟨outcome.promptTokens, completionTokens,
      outcome.promptTokens + completionTokens⟩)

/-! ### Tokens without text -/

variable (config : GenerationConfig)

/-- The text that is complete when these tokens have come, and the bytes of a character that is
not. -/
def decoded (tokens : List Token) : Text × List UInt8 :=
  utf8Scanner.scan (rendered ctx config tokens)

/-- The tokens behind which no character more is complete. -/
def silent (tokens : List Token) : ℕ :=
  (List.range tokens.length).countP fun i =>
    (decoded ctx config (tokens.take (i + 1))).1 = (decoded ctx config (tokens.take i)).1

end Generate

section Count

variable {σ : Type} {ctx : DecodeContext σ} {config : GenerationConfig} {maxCtx : ℕ}
  {s s' : DecodeState σ} {it : Iteration σ} {token : Token} {tokens : List Token} {sampler : σ}
  {reason : FinishReason} {detokenizer : Utf8StreamDecoder} {stopBuffer : StopSequenceBuffer}
  {fed : StopFeed} {piece : Text}

theorem decoded_nil : decoded ctx config [] = ([], []) := scan_of_incomplete rfl

theorem decoded_append (tokens : List Token) (token : Token) :
    (decoded ctx config (tokens ++ [token])).1 = (decoded ctx config tokens).1 ++
      (utf8Scanner.scan ((decoded ctx config tokens).2 ++
        ctx.tokenizer.decodeBytes [token] (!config.renderSpecial))).1 := by
  rw [decoded, decoded, rendered, rendered, List.flatMap_append, List.flatMap_singleton,
    utf8Scanner.scan_append]

/-- One token more is silent if it completes no character. -/
theorem silent_append (tokens : List Token) (token : Token) :
    silent ctx config (tokens ++ [token]) = silent ctx config tokens +
      if (utf8Scanner.scan ((decoded ctx config tokens).2 ++
        ctx.tokenizer.decodeBytes [token] (!config.renderSpecial))).1 = [] then 1 else 0 := by
  rw [silent, silent, List.length_append, List.length_singleton, List.range_succ,
    List.countP_append, List.countP_singleton]
  congr 1
  · refine List.countP_congr fun i hi => ?_
    have hlt := List.mem_range.mp hi
    rw [List.take_append_of_le_length hlt, List.take_append_of_le_length hlt.le]
  · rw [List.take_of_length_le (by simp), List.take_append_of_le_length le_rfl, List.take_length,
      decoded_append]
    simp

theorem length_emit_pieces : (s.emit piece).pieces.length =
    s.pieces.length + if piece = [] then 0 else 1 := by
  rw [DecodeState.emit]
  split
  · rfl
  · rw [List.length_append, List.length_singleton]

/-- Without stop sequences: every token that is not silent has brought one piece. -/
structure Counted (ctx : DecodeContext σ) (config : GenerationConfig) (s : DecodeState σ) :
    Prop where
  plain : Plain ctx config s
  count : s.pieces.length + silent ctx config s.generatedTokens = s.generatedTokens.length

theorem Counted.feed (h : Counted ctx config s)
    (hfeeds : Feeds ctx config maxCtx s token sampler detokenizer stopBuffer fed) :
    (s.feed sampler detokenizer stopBuffer fed.emit).pieces.length +
      silent ctx config (s.generatedTokens ++ [token]) = (s.generatedTokens ++ [token]).length := by
  obtain ⟨decodedText, hdecoded, hfed⟩ := hfeeds.decoded
  rw [push_of_no_stops h.plain.stops] at hfed
  obtain ⟨rfl, rfl⟩ := Prod.mk.inj (Option.some.inj hfed)
  rw [Utf8StreamDecoder.push_spec] at hdecoded
  obtain ⟨rfl, rfl⟩ := Prod.mk.inj (Option.some.inj hdecoded)
  have hpending : (decoded ctx config s.generatedTokens).2 = s.detokenizer.pending := by
    rw [decoded, h.plain.scanned]
  have hcount := h.count
  rw [silent_append, hpending, DecodeState.feed, length_emit_pieces, List.length_append,
    List.length_singleton]
  dsimp only
  split
  · omega
  · omega

/-- **An iteration keeps the count.** -/
theorem Counted.step (h : Counted ctx config s) (hsteps : Steps ctx config maxCtx s it) :
    Counted ctx config it.state := by
  refine ⟨(h.plain.step hsteps).1, ?_⟩
  cases hsteps with
  | cancelled => exact h.count
  | maxTokens => exact h.count
  | contextFull => exact h.count
  | refused => exact h.count
  | eos => exact h.count
  | stopped hfeeds => exact h.feed hfeeds
  | failed hfeeds => exact h.feed hfeeds
  | passed hfeeds => exact h.feed hfeeds

/-- The release adds a piece exactly if the last character is not complete. -/
theorem Counted.release (h : Counted ctx config s) (hreason : reason ≠ .stopped)
    (hrelease : release reason s = some s') :
    s'.pieces.length + silent ctx config s.generatedTokens = s.generatedTokens.length +
      if (decoded ctx config s.generatedTokens).2 = [] then 0 else 1 := by
  have hpending : (decoded ctx config s.generatedTokens).2 = s.detokenizer.pending := by
    rw [decoded, h.plain.scanned]
  have hfinish := Utf8StreamDecoder.finish_spec h.plain.settled
  have hcount := h.count
  have htail : ∃ s₁, releaseTail s = some s₁ ∧ s₁.stopBuffer = s.stopBuffer ∧
      s₁.pieces.length = s.pieces.length + if s.detokenizer.pending = [] then 0 else 1 := by
    rw [releaseTail]
    dsimp only
    rw [hfinish]
    by_cases hnil : s.detokenizer.pending = []
    · rw [if_pos hnil, if_pos rfl, if_pos hnil]
      exact ⟨_, rfl, rfl, rfl⟩
    · rw [if_neg hnil, if_neg (List.cons_ne_nil _ _), if_neg hnil, push_of_no_stops h.plain.stops]
      exact ⟨_, rfl, emit_stopBuffer, length_emit_pieces⟩
  obtain ⟨s₁, htail, hbuffer, hpieces⟩ := htail
  rw [Generation.release, if_neg hreason, htail] at hrelease
  have hcases : (if s₁.stopSequence.isNone = true then
      some ({ s₁ with stopBuffer := s₁.stopBuffer.flush.1 }.emit s₁.stopBuffer.flush.2)
    else some s₁) = some s' := hrelease
  have hlength : s'.pieces.length = s₁.pieces.length := by
    split at hcases
    · obtain rfl := Option.some.inj hcases
      rw [length_emit_pieces, StopSequenceBuffer.flush, hbuffer, h.plain.held]
      rfl
    · obtain rfl := Option.some.inj hcases
      rfl
  rw [hlength, hpieces, hpending]
  omega

end Count

/-! ### The report -/

section Report

variable {σ : Type} {ctx : DecodeContext σ} {config : GenerationConfig} {chunkSize maxTokens : ℕ}
  {sampler : SamplerConfig} {prompt : Prompt} {initialLogits : List Kv.F32}
  {recentTokens : List Token} {kv : KvCache} {ran : Ran} {generated : Generated}
  {outcome : GenerationOutcome} {usage : UsageStats}

/-- The pieces of a run without stop sequences, counted. -/
theorem length_pieces_of_run (hstop : ∀ stop ∈ config.stop, stop = [])
    (hrun : runDecodeLoop ctx config initialLogits recentTokens kv = some ran)
    (hok : ran.result = .ok outcome) :
    ran.pieces.length + silent ctx config outcome.generatedTokens =
      outcome.generatedTokens.length +
        if (decoded ctx config outcome.generatedTokens).2 = [] then 0 else 1 := by
  have hinitial : Counted ctx config
      (initialState ctx config initialLogits recentTokens kv) :=
    ⟨plain_initialState hstop, rfl⟩
  rw [runDecodeLoop] at hrun
  dsimp only at hrun
  obtain ⟨⟨s, result⟩, hloop, hrun⟩ := Option.bind_eq_some_iff.1 hrun
  obtain ⟨s₀, it, hbefore, hsteps, hstate, hreason⟩ :=
    loop_keeps (fun hs hsteps => hs.step hsteps) hloop hinitial
  have hcounted := hbefore.step hsteps
  rw [hstate] at hcounted
  rcases result with e | reason
  · obtain rfl := Option.some.inj hrun
    cases hok
  · obtain ⟨s', hrelease, hrun⟩ := Option.bind_eq_some_iff.1 hrun
    obtain rfl := Option.some.inj hrun
    obtain rfl := Except.ok.inj hok
    have htokens := (release_keeps hrelease (within_of_loop hloop).emitted).2.1
    -- the last iteration was not ended by a stop sequence
    have hne : reason ≠ .stopped := by
      rintro rfl
      exact (hbefore.plain.step hsteps).2 s (hreason _ rfl)
    show s'.pieces.length + silent ctx config s'.generatedTokens = _
    rw [htokens]
    exact hcounted.release hne hrelease

/-- **What the callback gets** of a generation: a piece for every token that is not silent, and
one for a character that is not complete at the end. -/
theorem length_pieces_of_generate (hstop : ∀ stop ∈ config.stop, stop = [])
    (h : generate ctx chunkSize config prompt = some generated)
    (hok : generated.result = .ok outcome) :
    generated.pieces.length + silent ctx config outcome.generatedTokens =
      outcome.generatedTokens.length +
        if (decoded ctx config outcome.generatedTokens).2 = [] then 0 else 1 := by
  have hloop {promptTokens : List Token} {initialLogits : List Kv.F32} {kv : KvCache}
      (h : generateWithLogitsDetailed ctx promptTokens initialLogits config kv = some generated) :
      generated.pieces.length + silent ctx config outcome.generatedTokens =
        outcome.generatedTokens.length +
          if (decoded ctx config outcome.generatedTokens).2 = [] then 0 else 1 := by
    obtain ⟨ran, hrun, rfl⟩ := Option.map_eq_some_iff.mp h
    refine length_pieces_of_run hstop hrun ?_
    revert hok
    cases ran.result with
    | error e => exact nofun
    | ok outcome' =>
      intro hok
      rw [Except.ok.inj hok]
  cases prompt with
  | primed promptTokens initialLogits kv => exact hloop h
  | encoded promptTokens kv =>
    cases promptTokens with
    | error message =>
      obtain rfl := Option.some.inj h
      cases hok
    | ok promptTokens =>
      rw [generate, generateDetailedWithTokens] at h
      split at h
      · obtain rfl := Option.some.inj h
        obtain rfl := Except.ok.inj hok
        show 0 + silent ctx config [] = 0 + _
        rw [decoded_nil]
        rfl
      · obtain ⟨⟨kv, answer⟩, -, h⟩ := Option.bind_eq_some_iff.1 h
        rcases answer with e | logits
        · obtain rfl := Option.some.inj h
          cases hok
        · exact hloop h

/-- **When the usage is exact**: no token is silent and the last character is complete, or one
token is silent and the last character is not complete. -/
theorem completionTokens_eq_iff
    (h : runGenerate ctx chunkSize maxTokens sampler prompt = some (.ok (outcome, usage))) :
    usage.completionTokens = outcome.generatedTokens.length ↔
      silent ctx (genConfig maxTokens sampler) outcome.generatedTokens =
        if (decoded ctx (genConfig maxTokens sampler) outcome.generatedTokens).2 = [] then 0
        else 1 := by
  obtain ⟨generated, hgenerated, hresult⟩ := Option.map_eq_some_iff.mp h
  cases hok : generated.result with
  | error e =>
    rw [hok] at hresult
    cases hresult
  | ok outcome' =>
    rw [hok] at hresult
    obtain ⟨rfl, rfl⟩ := Prod.mk.inj (Except.ok.inj hresult)
    have hcount := length_pieces_of_generate (List.forall_mem_nil _) hgenerated hok
    show generated.pieces.length = outcome'.generatedTokens.length ↔ _
    omega

/-- Two tokens that are a character each. -/
theorem completionTokens_ascii : ∃ outcome usage,
    runGenerate (byteContext [0x61, 0x62, 0]) 8 3 SamplerConfig.default
        (.primed [1] [0] (KvCache.new 1 4 1)) = some (.ok (outcome, usage)) ∧
      usage.completionTokens = outcome.generatedTokens.length := by
  have hrun : runGenerate (byteContext [0x61, 0x62, 0]) 8 3 SamplerConfig.default
      (.primed [1] [0] (KvCache.new 1 4 1)) =
        some (.ok (⟨['a', 'b'], .eos, [0x61, 0x62], 1, none⟩, ⟨1, 2, 3⟩)) := by decide_cbv
  exact ⟨_, _, hrun, (completionTokens_eq_iff hrun).mpr (by decide_cbv)⟩

/-- A character in two tokens is one piece: the worker reports one token, and two are generated. -/
theorem completionTokens_split_char : ∃ outcome usage,
    runGenerate (byteContext [0xC3, 0xA9, 0]) 8 3 SamplerConfig.default
        (.primed [1] [0] (KvCache.new 1 4 1)) = some (.ok (outcome, usage)) ∧
      usage.completionTokens ≠ outcome.generatedTokens.length :=
  ⟨⟨['é'], .eos, [0xC3, 0xA9], 1, none⟩, ⟨1, 1, 2⟩, by decide_cbv⟩

end Report

end Server

end Oxillama
