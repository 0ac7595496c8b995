/-
Sampling under a grammar
(`oxillama-runtime/src/sampling/mod.rs`, `oxillama-runtime/src/sampling/grammar/machine.rs`).

A sampler masks the logits of tokens that its grammar does not allow and moves the grammar on by
the bytes of the token it has drawn.  Both need the table of the bytes of all tokens: without it
`Sampler.mask` leaves the logits alone, and `Sampler.advance` the grammar.

`Sampler` has the parts that take part in this; how a token is drawn from the masked logits is
not here.  Floats are bit patterns.
-/
import Mathlib
import Oxillama.Grammar.Decoding
import Oxillama.Kv.Access

namespace Oxillama

namespace Sampling

/-! ### Floats -/

/-- `f32::NEG_INFINITY`. -/
def negInfinity : Kv.F32 := 0xFF800000

/-- `f32::is_finite`. -/
def isFinite (x : Kv.F32) : Bool := x &&& 0x7F800000 != 0x7F800000

/-- The place of a number in the order of the numbers. -/
def rank (x : Kv.F32) : ℤ := if x.toNat < 2 ^ 31 then x.toNat else 2 ^ 31 - x.toNat

/-- The table of the bytes of all tokens. -/
abbrev TokenVocab := List (UInt32 × List UInt8)

/-! ### The configuration -/

/-- `SamplerConfig`. -/
structure SamplerConfig where
  temperature : Kv.F32
  topK : ℕ
  topP : Kv.F32
  minP : Kv.F32
  repetitionPenalty : Kv.F32
  repetitionPenaltyWindow : ℕ
  seed : Option UInt64
  mirostat : UInt8
  mirostatTau : Kv.F32
  mirostatEta : Kv.F32
  grammar : Option Grammar
  tokenVocab : Option TokenVocab
  eogTokenIds : List UInt32
  logitBias : AList fun _ : UInt32 => Kv.F32
  bannedTokens : List UInt32
  dryMultiplier : Kv.F32
  dryBase : Kv.F32
  dryAllowedLength : ℕ
  xtcThreshold : Kv.F32
  xtcProbability : Kv.F32
  typicalP : Kv.F32
  topA : Kv.F32
  etaCutoff : Kv.F32
  epsilonCutoff : Kv.F32
  frequencyPenalty : Kv.F32
  presencePenalty : Kv.F32

/-- `SamplerConfig::default`. -/
def SamplerConfig.default : SamplerConfig where
  temperature := 0x3F333333 -- 0.7
  topK := 40
  topP := 0x3F666666 -- 0.9
  minP := 0
  repetitionPenalty := 0x3F8CCCCD -- 1.1
  repetitionPenaltyWindow := 64
  seed := none
  mirostat := 0
  mirostatTau := 0x40A00000 -- 5.0
  mirostatEta := 0x3DCCCCCD -- 0.1
  grammar := none
  tokenVocab := none
  eogTokenIds := []
  logitBias := ∅
  bannedTokens := []
  dryMultiplier := 0
  dryBase := 0x3FE00000 -- 1.75
  dryAllowedLength := 2
  xtcThreshold := 0
  xtcProbability := 0x3F000000 -- 0.5
  typicalP := 0x3F800000 -- 1.0
  topA := 0
  etaCutoff := 0
  epsilonCutoff := 0
  frequencyPenalty := 0
  presencePenalty := 0

/-! ### The mask -/

/-- The logits, and the best of them before they were masked. -/
structure MaskScan where
  logits : List Kv.F32
  best : Option (ℕ × Kv.F32)
  deriving DecidableEq, Repr

/-- The body of the loop of `apply_grammar_mask`. -/
def maskToken (state : GrammarState) (complete : Bool) (eogTokenIds : List UInt32)
    (scan : MaskScan) (entry : UInt32 × List UInt8) : MaskScan :=
  let (tokenId, tokenBytes) := entry
  let id := tokenId.toNat
  match scan.logits[id]? with
  | none => scan
  | some logit =>
    let better := match scan.best with
      | none => true
      | some (_, bestVal) => decide (rank bestVal < rank logit)
    let allowed :=
      if complete && eogTokenIds.contains tokenId then true
      else match state.allowsTokenChecked tokenBytes with
        | .ok allowed => allowed
        | .error _ => false
    { logits := if allowed then scan.logits else scan.logits.set id negInfinity
      best := if isFinite logit && better then some (id, logit) else scan.best }

/-- `apply_grammar_mask`. -/
def applyGrammarMask (logits : List Kv.F32) (state : GrammarState) (tokenVocab : TokenVocab)
    (eogTokenIds : List UInt32) : List Kv.F32 :=
  let scan := tokenVocab.foldl (maskToken state state.isComplete eogTokenIds) ⟨logits, none⟩
  match scan.best with
  | none => scan.logits
  | some (id, bestVal) =>
    if scan.logits.all fun v => !isFinite v then scan.logits.set id bestVal else scan.logits

/-! ### The sampler -/

/-- `Sampler`, as far as its grammar goes. -/
structure Sampler where
  config : SamplerConfig
  grammarState : Option GrammarState

namespace Sampler

/-- `Sampler::new`. -/
def new (config : SamplerConfig) : Sampler where
  config := config
  grammarState := config.grammar.map Grammar.initialState

/-- What `sample_standard` and `sample_mirostat` do to the logits for the grammar. -/
def mask (s : Sampler) (logits : List Kv.F32) : List Kv.F32 :=
  match s.grammarState, s.config.tokenVocab with
  | some state, some vocab => applyGrammarMask logits state vocab s.config.eogTokenIds
  | _, _ => logits

/-- What `try_sample` does to the grammar behind the token it has drawn; the table has each id
once. -/
def advance (s : Sampler) (token : UInt32) : Sampler :=
  match s.grammarState, s.config.tokenVocab with
  | some state, some vocab =>
    match vocab.find? fun entry => entry.1 == token with
    | some (_, tokenBytes) => { s with grammarState := some (state.commit tokenBytes).2 }
    | none => s
  | _, _ => s

/-- Sampling is constrained by a grammar, from `state` on. -/
structure ConstrainedBy (s : Sampler) (state : GrammarState) : Prop where
  state : s.grammarState = some state
  vocab : s.config.tokenVocab.isSome

/-- Without the bytes of the tokens a sampler is that of its logits alone. -/
theorem unconstrained_of_no_vocab {s : Sampler} (h : s.config.tokenVocab = none) :
    (∀ logits, s.mask logits = logits) ∧ (∀ token, s.advance token = s) ∧
      ∀ state, ¬ s.ConstrainedBy state := by
  refine ⟨fun logits => ?_, fun token => ?_, fun state hs => ?_⟩
  · rw [mask, h]
    cases s.grammarState <;> rfl
  · rw [advance, h]
    cases s.grammarState <;> rfl
  · have hvocab := hs.vocab
    rw [h] at hvocab
    exact absurd hvocab Bool.false_ne_true

end Sampler

end Sampling

end Oxillama
