/-
Generation under a grammar: the decode loop (`oxillama-runtime/src/engine/generation.rs`) with
the sampler (`sampling/mod.rs`), the state machine of the grammar
(`sampling/grammar/machine.rs`) and the vocabulary of a GGUF file (`gguf_vocab/mod.rs`).

The bytes of a token that is drawn matter three times: the mask asks whether the grammar could
read them, the state of the grammar is advanced by them, and an error of that is dropped, and
the text gets what the tokenizer renders of them, which is nothing for a control token.

How a token is drawn from the logits, with the mask somewhere in between, is a parameter.

* `advance_consumed` — what a drawn token does to the state of the grammar;
* `drawMeets_of_masked` — a token that the mask has left is fine, but for four exceptions;
* `sentence_of_meets` — **where each token that is drawn is rendered just if the grammar reads
  it, and generation ends only in a complete state, the text is a sentence.**
-/
import Oxillama.Runtime.DecodeLoop
import Oxillama.Sampling.Mask
import Oxillama.Vocab.GgufVocab

namespace Oxillama

namespace Generation

open Grammar (Generates)
open Kv (Half KvCache Token TokenPass)
open Sampling (Sampler SamplerConfig TokenVocab applyGrammarMask isFinite)
open Vocab (GgufVocab)

/-! ### An engine with the vocabulary of its model -/

/-- `GgufVocab::vocab_bytes`. -/
def vocabBytes (vocab : GgufVocab) : TokenVocab :=
  (List.range vocab.tokens.length).map fun i => (UInt32.ofNat i, (vocab.tokenBytes i).getD [])

/-- What a sampler has and does besides its grammar, with states `ρ`: from the mask, the logits
and the tokens so far a token is drawn. -/
structure Drawing (ρ : Type) where
  start : SamplerConfig → ρ
  draw : SamplerConfig → ρ → (List Kv.F32 → List Kv.F32) → List Kv.F32 → List Token →
    Except RuntimeError (Token × ρ)

/-- `Sampler::try_sample`. -/
def trySample {ρ : Type} (drawing : Drawing ρ) (s : Sampler × ρ) (logits : List Kv.F32)
    (recentTokens : List Token) : Except RuntimeError (Token × (Sampler × ρ)) :=
  if logits = [] then .error (.samplingError "empty logits vector")
  else
    match drawing.draw s.1.config s.2 s.1.mask logits recentTokens with
    | .error e => .error e
    | .ok (token, r) => .ok (token, s.1.advance token, r)

/-- An engine whose tokenizer is that of its GGUF file. -/
structure GgufEngine (ρ : Type) where
  half : Half
  pass : TokenPass
  maxContextLength : ℕ
  vocab : GgufVocab
  eogTokenIds : List Token
  drawing : Drawing ρ

/-- Its context of the decode loop. -/
def GgufEngine.context {ρ : Type} (engine : GgufEngine ρ) : DecodeContext (Sampler × ρ) where
  half := engine.half
  pass := engine.pass
  maxContextLength := engine.maxContextLength
  tokenizer :=
    { eogTokenIds := engine.eogTokenIds
      decodeBytes := fun tokens skipSpecial =>
        engine.vocab.detokenizeBytes (tokens.map UInt32.toNat) skipSpecial }
  newSampler := fun config => (.new config, engine.drawing.start config)
  trySample := trySample engine.drawing

/-! ### What a drawn token does to the grammar -/

/-- The bytes of a token that the state consumes: all of them, or none where it cannot. -/
def consumed (vocab : GgufVocab) (state : GrammarState) (token : Token) : List UInt8 :=
  match vocab.tokenBytes token.toNat with
  | none => []
  | some bytes =>
    match (state.commit bytes).1 with
    | .ok () => bytes
    | .error _ => []

section Tokens

variable {vocab : GgufVocab} {state : GrammarState} {token : Token} {s : Sampler}

theorem tokenBytes_eq_none_iff {i : ℕ} :
    vocab.tokenBytes i = none ↔ vocab.tokens.length ≤ i := by
  have htypes := vocab.length_types
  rw [GgufVocab.tokenBytes]
  rcases htext : vocab.tokens[i]? with - | text
  · exact ⟨fun _ => List.getElem?_eq_none_iff.1 htext, fun _ => rfl⟩
  · obtain ⟨hlt, -⟩ := List.getElem?_eq_some_iff.1 htext
    obtain ⟨type, htype⟩ : ∃ type, vocab.types[i]? = some type :=
      ⟨_, List.getElem?_eq_getElem (by omega)⟩
    rw [htype]
    refine ⟨fun h => ?_, fun hle => ?_⟩
    · cases h
    · omega

theorem ofNat_eq_iff {i : ℕ} (hi : i < 2 ^ 32) : UInt32.ofNat i = token ↔ i = token.toNat := by
  rw [← UInt32.toNat_inj, UInt32.toNat_ofNat_of_lt' hi]

/-- Where the table has the bytes of a token. -/
theorem find_vocabBytes (vocab : GgufVocab) (token : Token) :
    (vocabBytes vocab).find? (fun entry => entry.1 == token) =
      (vocab.tokenBytes token.toNat).map fun bytes => (token, bytes) := by
  rw [vocabBytes, List.find?_map]
  rcases hbytes : vocab.tokenBytes token.toNat with - | bytes
  · have hle := tokenBytes_eq_none_iff.1 hbytes
    have hnone : (List.range vocab.tokens.length).find?
        ((fun entry : UInt32 × List UInt8 => entry.1 == token) ∘
          fun i => (UInt32.ofNat i, (vocab.tokenBytes i).getD [])) = none := by
      rw [List.find?_range_eq_none]
      intro i hi
      have hlt := token.toNat_lt
      simp only [Function.comp_apply, Bool.not_eq_true', beq_eq_false_iff_ne, ne_eq]
      rw [ofNat_eq_iff (by omega)]
      omega
    rw [hnone]
    rfl
  · have hlt : token.toNat < vocab.tokens.length := by
      by_contra hle
      rw [tokenBytes_eq_none_iff.2 (not_lt.1 hle)] at hbytes
      cases hbytes
    have hsome : (List.range vocab.tokens.length).find?
        ((fun entry : UInt32 × List UInt8 => entry.1 == token) ∘
          fun i => (UInt32.ofNat i, (vocab.tokenBytes i).getD [])) = some token.toNat := by
      rw [List.find?_range_eq_some]
      refine ⟨by simp, by simpa using hlt, fun i hi => ?_⟩
      have hlt := token.toNat_lt
      simp only [Function.comp_apply, Bool.not_eq_true', beq_eq_false_iff_ne, ne_eq]
      rw [ofNat_eq_iff (by omega)]
      omega
    rw [hsome, Option.map_some, hbytes]
    simp

theorem mem_vocabBytes {bytes : List UInt8} (h : vocab.tokenBytes token.toNat = some bytes) :
    (token, bytes) ∈ vocabBytes vocab := by
  have hfind := find_vocabBytes vocab token
  rw [h] at hfind
  exact List.mem_of_find?_eq_some hfind

/-- **A drawn token** advances the state by what it consumes of the token. -/
theorem advance_consumed (hstate : s.grammarState = some state)
    (hvocab : s.config.tokenVocab = some (vocabBytes vocab)) (token : Token) :
    (s.advance token).config = s.config ∧ ∃ state', (s.advance token).grammarState = some state' ∧
      state.advance (consumed vocab state token) = .ok state' := by
  rw [Sampler.advance, hstate, hvocab]
  dsimp only
  rw [find_vocabBytes, consumed]
  rcases hbytes : vocab.tokenBytes token.toNat with - | bytes
  · exact ⟨rfl, state, hstate, rfl⟩
  · refine ⟨rfl, (state.commit bytes).2, rfl, ?_⟩
    dsimp only
    rcases hadvance : state.advance bytes with e | state'
    · -- the error is dropped, and the state is what it was
      rw [GrammarState.commit_of_advance_eq_error hadvance]
      rfl
    · rw [GrammarState.commit_of_advance_eq_ok hadvance]
      exact hadvance

end Tokens

/-! ### The condition on a draw -/

section Loop

variable {ρ : Type} (engine : GgufEngine ρ) (config : GenerationConfig)

/-- **What a drawn token should be.**  One that ends the generation is drawn in a complete state;
of any other, just what the state consumes is rendered. -/
def GgufEngine.DrawMeets (state : GrammarState) (token : Token) : Prop :=
  if engine.eogTokenIds.contains token then state.isComplete = true
  else engine.vocab.detokenizeBytes [token.toNat] (!config.renderSpecial) =
    consumed engine.vocab state token

/-- **The condition on a step**: the token that is drawn from these variables, if there is one,
is as it should be. -/
def GgufEngine.StepMeets (s : DecodeState (Sampler × ρ)) : Prop :=
  ∀ state token sampler, s.sampler.1.grammarState = some state →
    trySample engine.drawing s.sampler s.logits s.recentTokens = .ok (token, sampler) →
      engine.DrawMeets config state token

instance (state : GrammarState) (token : Token) :
    Decidable (engine.DrawMeets config state token) :=
  inferInstanceAs (Decidable (if engine.eogTokenIds.contains token then state.isComplete = true
    else engine.vocab.detokenizeBytes [token.toNat] (!config.renderSpecial) =
      consumed engine.vocab state token))

instance (s : DecodeState (Sampler × ρ)) : Decidable (engine.StepMeets config s) :=
  match hstate : s.sampler.1.grammarState,
      hsample : trySample engine.drawing s.sampler s.logits s.recentTokens with
  | none, _ => isTrue fun state token sampler h => by rw [hstate] at h; cases h
  | some _, .error _ => isTrue fun state token sampler _ h => by rw [hsample] at h; cases h
  | some state, .ok (token, sampler) =>
    decidable_of_iff (engine.DrawMeets config state token)
      ⟨fun h state' token' sampler' hstate' hsample' => by
        rw [hstate] at hstate'
        rw [hsample] at hsample'
        cases hstate'
        cases hsample'
        exact h, fun h => h state token sampler hstate hsample⟩

/-- What the tokens so far are rendered to is what the grammar has read. -/
structure Follows (g : Grammar) (s : DecodeState (Sampler × ρ)) : Prop where
  vocab : s.sampler.1.config.tokenVocab = some (vocabBytes engine.vocab)
  reached : ∃ state read, s.sampler.1.grammarState = some state ∧
    g.initialState.advanceAll read = .ok state ∧
    read.flatten = rendered engine.context config s.generatedTokens

variable {engine config} {g : Grammar} {maxCtx : ℕ} {s s' : DecodeState (Sampler × ρ)}
  {state : GrammarState} {token : Token}

/-- **A token that the mask has left** is as it should be, unless it was left for want of a better
one, ends the generation though the grammar could read its text, or is not rendered. -/
theorem drawMeets_of_masked {eogTokenIds : List Token} {before : List Kv.F32} {x : Kv.F32}
    (heogs : ∀ t ∈ eogTokenIds, engine.eogTokenIds.contains t = true)
    (hx : (applyGrammarMask before state (vocabBytes engine.vocab) eogTokenIds)[token.toNat]? =
      some x)
    (hfinite : isFinite x = true)
    (hbest : ¬ Sampling.Restored state (vocabBytes engine.vocab) eogTokenIds before
      (applyGrammarMask before state (vocabBytes engine.vocab) eogTokenIds) token.toNat)
    (hends : engine.eogTokenIds.contains token = true → ∃ bytes,
      engine.vocab.tokenBytes token.toNat = some bytes ∧
        state.allowsTokenChecked bytes ≠ .ok true)
    (hrenders : config.renderSpecial = true ∨ engine.vocab.isSpecial token.toNat = false) :
    engine.DrawMeets config state token := by
  have hrendered : engine.vocab.detokenizeBytes [token.toNat] (!config.renderSpecial) =
      (engine.vocab.tokenBytes token.toNat).getD [] := by
    rw [GgufVocab.detokenizeBytes, List.flatMap_singleton, if_neg]
    rcases hrenders with hrenders | hrenders
    · simp [hrenders]
    · simp [hrenders]
  rw [GgufEngine.DrawMeets, hrendered, consumed]
  rcases hbytes : engine.vocab.tokenBytes token.toNat with - | bytes
  · split
    · rename_i heog
      obtain ⟨bytes, hsome, -⟩ := hends heog
      rw [hbytes] at hsome
      cases hsome
    · rfl
  · have hmem := mem_vocabBytes hbytes
    have hexact := Sampling.exactOn_listed before state (vocabBytes engine.vocab) eogTokenIds
    rcases hexact.finite _ x ⟨_, hmem, rfl⟩ hx hfinite with hallows | hcomplete | hrestored
    · have hallowed : state.allowsTokenChecked bytes = .ok true := hallows.bytes _ hmem rfl
      split
      · rename_i heog
        obtain ⟨bytes', hsome, hnot⟩ := hends heog
        obtain rfl := Option.some.inj (hbytes.symm.trans hsome)
        exact absurd hallowed hnot
      · obtain ⟨r, hadvance, -⟩ := GrammarState.advance_leftmost hallowed
        dsimp only
        rw [GrammarState.commit_of_advance_eq_ok hadvance]
        rfl
    · obtain ⟨hcomplete, t, ht, htoken⟩ := hcomplete
      obtain rfl := UInt32.toNat_inj.1 htoken
      rw [if_pos (heogs t ht)]
      exact hcomplete
    · exact absurd hrestored hbest

theorem follows_initialState (hgrammar : config.sampler.grammar = some g)
    (hvocab : config.sampler.tokenVocab = some (vocabBytes engine.vocab))
    (initialLogits : List Kv.F32) (recentTokens : List Token) (kv : KvCache) :
    Follows engine config g
      (initialState engine.context config initialLogits recentTokens kv) := by
  have hconfig : (samplerConfig engine.context config).grammar = some g ∧
      (samplerConfig engine.context config).tokenVocab = some (vocabBytes engine.vocab) := by
    rw [samplerConfig]
    split
    · exact ⟨hgrammar, hvocab⟩
    · exact ⟨hgrammar, hvocab⟩
  refine ⟨hconfig.2, g.initialState, [], ?_, rfl, rfl⟩
  show (samplerConfig engine.context config).grammar.map Grammar.initialState = _
  rw [hconfig.1]
  rfl

/-- A token that is drawn moves the grammar on. -/
theorem sampler_of_trySample {drawing : Drawing ρ} {logits : List Kv.F32}
    {recentTokens : List Token} {p p' : Sampler × ρ} {token : Token}
    (h : trySample drawing p logits recentTokens = .ok (token, p')) :
    p'.1 = p.1.advance token := by
  rw [trySample] at h
  split at h
  · cases h
  · split at h
    · cases h
    · cases h
      rfl

theorem feed_sampler {p : Sampler × ρ} {detokenizer : Oxillama.Stream.Utf8StreamDecoder}
    {stopBuffer : Oxillama.Stream.StopSequenceBuffer} {piece : Text} :
    (s.feed p detokenizer stopBuffer piece).sampler = p := by
  rw [DecodeState.feed, DecodeState.emit]
  split <;> rfl

theorem rendered_append_singleton (tokens : List Token) (token : Token) :
    rendered engine.context config (tokens ++ [token]) =
      rendered engine.context config tokens ++
        engine.vocab.detokenizeBytes [token.toNat] (!config.renderSpecial) := by
  rw [rendered, List.flatMap_append, List.flatMap_singleton]
  rfl

/-- **An iteration that meets the condition keeps it**: what it renders the grammar has read. -/
theorem Follows.step (h : Follows engine config g s) (hmeets : engine.StepMeets config s)
    (hsteps : Steps engine.context config maxCtx s (.next s')) : Follows engine config g s' := by
  obtain ⟨state, read, hstate, hread, hrendered⟩ := h.reached
  cases hsteps with
  | @passed token sampler detokenizer stopBuffer fed kv logits hfeeds _ _ =>
    have hdraw := hmeets state token sampler hstate hfeeds.sampled
    have hgoes : ¬ engine.eogTokenIds.contains token = true := ne_true_of_eq_false hfeeds.goes
    rw [GgufEngine.DrawMeets, if_neg hgoes] at hdraw
    obtain ⟨hconfig, state', hstate', hadvance⟩ := advance_consumed hstate h.vocab token
    have hsampler := sampler_of_trySample hfeeds.sampled
    refine ⟨?_, state', read ++ [consumed engine.vocab state token], ?_, ?_, ?_⟩
    · show (s.feed sampler detokenizer stopBuffer fed.emit).sampler.1.config.tokenVocab = _
      rw [feed_sampler, hsampler, hconfig]
      exact h.vocab
    · show (s.feed sampler detokenizer stopBuffer fed.emit).sampler.1.grammarState = _
      rw [feed_sampler, hsampler]
      exact hstate'
    · rw [GrammarState.advanceAll] at hread ⊢
      rw [List.foldlM_append, hread]
      show (state.advance _ >>= pure) = _
      rw [hadvance]
      rfl
    · show _ = rendered engine.context config (s.generatedTokens ++ [token])
      rw [rendered_append_singleton, hdraw, List.flatten_append, hrendered,
        List.flatten_singleton]

/-- **Generation under a grammar.**  Where every step of a run meets the condition, and the run
ends with a token that ends the generation, its text is the decoding of a sentence of the
grammar. -/
theorem sentence_of_meets (hgrammar : config.sampler.grammar = some g)
    (hvocab : config.sampler.tokenVocab = some (vocabBytes engine.vocab)) (hstop : config.stop = [])
    {initialLogits : List Kv.F32} {recentTokens : List Token} {kv : KvCache} {ran : Ran}
    {outcome : GenerationOutcome}
    (hrun : runDecodeLoop engine.context config initialLogits recentTokens kv = some ran)
    (houtcome : ran.result = .ok outcome) (heos : outcome.finishReason = .eos)
    (hmeets : ∀ s, Reaches engine.context config (min engine.maxContextLength kv.maxSeqLen)
      (initialState engine.context config initialLogits recentTokens kv) s →
        engine.StepMeets config s) :
    ∃ w, Generates g (.ruleRef g.root) w ∧ outcome.text = fromUtf8Lossy w := by
  obtain ⟨-, -, htext⟩ := (contract_of_run hrun).2 outcome houtcome
  refine ⟨_, ?_, htext (hstop ▸ List.forall_mem_nil _)⟩
  rw [runDecodeLoop] at hrun
  dsimp only at hrun
  obtain ⟨⟨s, result⟩, hloop, hrun⟩ := Option.bind_eq_some_iff.1 hrun
  rcases result with e | reason
  · obtain rfl := Option.some.inj hrun
    cases houtcome
  · obtain ⟨s', hrelease, hrun⟩ := Option.bind_eq_some_iff.1 hrun
    obtain rfl := Option.some.inj hrun
    obtain rfl := Except.ok.inj houtcome
    have hreason : reason = .eos := by
      dsimp only at heos
      split at heos
      · cases heos
      · exact heos
    subst hreason
    -- the last iteration has drawn a token that ends the generation
    obtain ⟨s₀, it, hreaches, hiteration, hstate, hlast⟩ := loop_reaches hloop
    have hfollows : Follows engine config g s₀ := by
      clear hiteration hstate
      induction hreaches with
      | refl => exact follows_initialState hgrammar hvocab initialLogits recentTokens kv
      | next hreaches hnext ih =>
        exact ih.step (hmeets _ hreaches) (steps_of_iteration hnext)
    obtain ⟨state, read, hgrammarState, hread, hrendered⟩ := hfollows.reached
    rw [hlast _ rfl] at hiteration
    cases steps_of_iteration hiteration with
    | @eos token sampler hsample heog =>
      have hends : engine.eogTokenIds.contains token = true := heog
      have hdraw := hmeets _ hreaches state token sampler hgrammarState hsample
      rw [GgufEngine.DrawMeets, if_pos hends] at hdraw
      have hgenerates := GrammarState.generates_of_advanceAll g read state hread hdraw
      obtain ⟨-, htokens, -⟩ := release_keeps hrelease (within_of_loop hloop).emitted
      show Generates g (.ruleRef g.root) (rendered engine.context config s'.generatedTokens)
      rw [htokens]
      rw [hrendered] at hgenerates
      exact hgenerates

end Loop

/-! ### Two runs -/

/-- The best logit that is a number and not minus infinity (`argmax` in `sampling/rng.rs`). -/
def greatest (values : List Kv.F32) : Option Token :=
  (values.zipIdx.foldl (fun (best : Option (ℕ × Kv.F32)) (v, i) =>
    if v &&& 0x7FFFFFFF > 0x7F800000 || v == Sampling.negInfinity then best
    else match best with
      | none => some (i, v)
      | some (_, bestVal) => if Sampling.rank bestVal < Sampling.rank v then some (i, v) else best)
    none).map fun (i, _) => UInt32.ofNat i

/-- A sampler at temperature 0 that no penalty changes the logits of. -/
def greedy : Drawing Unit where
  start _ := ()
  draw _ _ mask logits _ :=
    match greatest (mask logits) with
    | none => .error (.samplingError ("no finite logits remain after masking (grammar / bans / " ++
        "logit_bias eliminated every candidate)"))
    | some token => .ok (token, ())

/-- A vocabulary of a letter and the end of the text. -/
def letterOrEnd : GgufVocab where
  vocabType := .spm
  tokens := [['a'], ['<', '/', 's', '>']]
  scores := [0, 0]
  types := [.normal, .control]
  bpeRanks _ := none
  preTokenizer := none
  bosId := none
  eosId := some 1
  unkId := none
  addBos := false
  addEos := false
  addSpacePrefix := false
  ignoreMerges := false
  length_types := rfl

/-- An engine over it whose model always prefers the end of the text. -/
def greedyEngine : GgufEngine Unit where
  half := Half.onZero
  pass := fun _ _ => .ok (fun _ => ([0], [0]), [0, 0x3F800000])
  maxContextLength := 4
  vocab := letterOrEnd
  eogTokenIds := [1]
  drawing := greedy

/-- A request at temperature 0 under a grammar. -/
def underGrammar (g : Grammar) : GenerationConfig where
  maxTokens := 3
  sampler :=
    { SamplerConfig.default with
      temperature := 0
      repetitionPenalty := 0x3F800000
      grammar := some g
      tokenVocab := some (vocabBytes letterOrEnd) }
  stop := []
  renderSpecial := false
  cancelFlag := none

/-- What the next iteration starts from, if there is one. -/
def Iteration.next? {σ : Type} : Iteration σ → Option (DecodeState σ)
  | .next s => some s
  | .done _ _ | .fail _ _ => none

/-- A letter first, and then the end. -/
theorem sentence_commonHead : ∃ ran outcome,
    runDecodeLoop greedyEngine.context (underGrammar GrammarState.commonHead) [0x3F800000, 0] []
        (KvCache.new 1 4 1) = some ran ∧
      ran.result = .ok outcome ∧ outcome.finishReason = .eos ∧
      ∃ w, Generates GrammarState.commonHead (.ruleRef "root") w ∧
        outcome.text = fromUtf8Lossy w := by
  have hresult : (runDecodeLoop greedyEngine.context (underGrammar GrammarState.commonHead)
      [0x3F800000, 0] [] (KvCache.new 1 4 1)).map Ran.result =
        some (.ok ⟨['a'], .eos, [0], 0, none⟩) := by decide_cbv
  obtain ⟨ran, hrun, hok⟩ := Option.map_eq_some_iff.1 hresult
  refine ⟨ran, _, hrun, hok, rfl, sentence_of_meets rfl rfl rfl hrun hok rfl fun s hs => ?_⟩
  rcases hs.cases_head with rfl | ⟨s₁, hnext, hs⟩
  · decide_cbv
  · -- the letter is read, and the second iteration is the last
    have hsecond : ((iteration greedyEngine.context (underGrammar GrammarState.commonHead) 4
        (initialState greedyEngine.context (underGrammar GrammarState.commonHead)
          [0x3F800000, 0] [] (KvCache.new 1 4 1))).bind Iteration.next?).all (fun s =>
        decide (greedyEngine.StepMeets (underGrammar GrammarState.commonHead) s) &&
          ((iteration greedyEngine.context (underGrammar GrammarState.commonHead) 4 s).bind
            Iteration.next?).isNone) = true := by
      decide_cbv
    have hmax : min greedyEngine.maxContextLength (KvCache.new 1 4 1).maxSeqLen = 4 := rfl
    rw [hmax] at hnext hs
    rw [hnext, Option.bind_some, Iteration.next?, Option.all_some,
      Bool.and_eq_true_iff] at hsecond
    rcases hs.cases_head with rfl | ⟨s₂, hlast, -⟩
    · exact of_decide_eq_true hsecond.1
    · rw [hlast] at hsecond
      exact absurd hsecond.2 Bool.false_ne_true

/-- The grammar `root ::= [^"]+`. -/
def noQuotes : Grammar where
  rules := (∅ : AList fun _ : String => Grammar.GrammarNode).insert "root"
    (.repeat (.charClass [⟨0x22, 0x22⟩] true) 1 none)
  root := "root"
  source := "root ::= [^\"]+"

theorem parse_noQuotes : Grammar.parse "root ::= [^\"]+" = .ok noQuotes := by rfl

theorem ne_nil_of_noQuotes {w : List UInt8} (h : Generates noQuotes (.ruleRef "root") w) :
    w ≠ [] := by
  cases h with
  | ruleRef hl h =>
    obtain rfl := Option.some.inj hl
    cases h with
    | @«repeat» _ _ _ ws hmin _ hws =>
      obtain ⟨first, rest, rfl⟩ := List.exists_cons_of_length_pos hmin
      cases hws first List.mem_cons_self with
      | charClass => exact List.cons_ne_nil _ _

/-- **The end of the text is drawn for its spelling**: `</s>` is four characters that are no
quotes, the mask leaves it, and generation ends with no text at all. -/
theorem not_sentence_noQuotes : ∃ ran outcome,
    runDecodeLoop greedyEngine.context (underGrammar noQuotes) [0, 0x3F800000] []
        (KvCache.new 1 4 1) = some ran ∧
      ran.result = .ok outcome ∧ outcome.finishReason = .eos ∧
      ¬ ∃ w, Generates noQuotes (.ruleRef "root") w ∧ outcome.text = fromUtf8Lossy w := by
  have hresult : (runDecodeLoop greedyEngine.context (underGrammar noQuotes) [0, 0x3F800000] []
      (KvCache.new 1 4 1)).map Ran.result = some (.ok ⟨[], .eos, [], 0, none⟩) := by
    decide_cbv
  obtain ⟨ran, hrun, hok⟩ := Option.map_eq_some_iff.1 hresult
  refine ⟨ran, _, hrun, hok, rfl, ?_⟩
  rintro ⟨w, hw, htext⟩
  exact fromUtf8Lossy_ne_nil (ne_nil_of_noQuotes hw) htext.symm

end Generation

end Oxillama
