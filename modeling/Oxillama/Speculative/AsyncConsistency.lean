/-
What the target has passed when it decides on a token.

`forward_one` of a draft token comes before the decision on it, so the logits that it is accepted
from, or that its replacement is sampled from, belong to a sequence that ends with the draft
token itself.  The first token that is emitted is therefore already judged by the wrong logits.

* `DecoderState.Consistent` — at the start of each proposal the target's cache is the prompt and
  the emitted tokens, and each of these was decided on after exactly those before it;
* `SpeculativeDecoder.mainStep_of_fresh` — until a token is emitted, the target has passed
  nothing else than the prompt when a proposal starts; the first token is judged by more;
* `SpeculativeDecoder.consistent_iff_guarded` — **a run is consistent exactly if nothing is
  emitted in it**, and no proposal starts on a target that was not empty before;
* `SpeculativeDecoder.bonus_not_passed` — a run in which a proposal starts behind a bonus token
  that the target has not passed.
-/
import Oxillama.Lib.Run
import Oxillama.Speculative.AsyncDecoder
import Oxillama.Speculative.Rollback

namespace Oxillama

namespace Speculative

namespace DecoderState

variable {L P R : Type}

/-- The target's cache at the start of a proposal. -/
def CacheMatches (prompt : List ℕ) (s : DecoderState L P R) : Prop :=
  ∀ proposal last, s.mainLoop = .verifying proposal 0 last →
    s.targetCache = prompt ++ s.emitted.map Emission.token

/-- Each emitted token was decided on after the prompt and the tokens emitted before it. -/
def JudgedInOrder (prompt : List ℕ) (s : DecoderState L P R) : Prop :=
  ∀ before emission after, s.emitted = before ++ emission :: after →
    emission.context = prompt ++ before.map Emission.token

/-- **Consistency.** -/
structure Consistent (prompt : List ℕ) (s : DecoderState L P R) : Prop where
  cache : s.CacheMatches prompt
  judged : s.JudgedInOrder prompt

/-- Whether the main loop is about to start a proposal. -/
def startsProposal (s : DecoderState L P R) : Bool :=
  match s.mainLoop with
  | .waiting => !s.channel.queue.isEmpty
  | _ => false

/-- What the target has passed before the first token is emitted, where it had `cached` before. -/
def Fresh (cached prompt : List ℕ) (s : DecoderState L P R) : Prop :=
  match s.mainLoop with
  | .top | .waiting => s.targetCache = cached ++ prompt
  | .verifying _ i last => i = 0 ∧ last = none ∧ s.targetCache = cached ++ prompt
  | .accepted last => last = none ∧ s.targetCache = cached ++ prompt
  | .diverged _ last => prompt.length < last.context.length
  | .rewindTarget _ | .rewindDraft _ => False
  | .returned _ => True

/-- What holds in every state: nothing has been emitted, or the first token was decided on after
more than the prompt. -/
structure Account (cached prompt : List ℕ) (s : DecoderState L P R) : Prop where
  fresh : s.emitted = [] → s.Fresh cached prompt
  first : ∀ emission after, s.emitted = emission :: after →
    prompt.length < emission.context.length

variable {cached prompt : List ℕ} {s s' : DecoderState L P R}

/-- A consistent state has emitted nothing. -/
theorem Account.emitted_eq_nil (h : s.Account cached prompt) (hs : s.Consistent prompt) :
    s.emitted = [] := by
  rcases hemitted : s.emitted with - | ⟨emission, after⟩
  · rfl
  · have hcontext := hs.judged [] emission after hemitted
    have hlong := h.first emission after hemitted
    rw [hcontext, List.map_nil, List.append_nil] at hlong
    exact absurd hlong (Nat.lt_irrefl _)

theorem judgedInOrder_of_nil (h : s.emitted = []) : s.JudgedInOrder prompt := by
  intro before emission after heq
  rw [h] at heq
  exact absurd heq.symm (by simp)

/-- While nothing is emitted, only the start of a proposal can go wrong. -/
theorem consistent_iff_of_nil (h : s.emitted = []) (hfresh : s.Fresh cached prompt) :
    s.Consistent prompt ↔
      ∀ proposal last, s.mainLoop = .verifying proposal 0 last → cached = [] := by
  have hcache : ∀ proposal last, s.mainLoop = .verifying proposal 0 last →
      (s.targetCache = prompt ++ s.emitted.map Emission.token ↔ cached = []) := by
    intro proposal last hmain
    rw [Fresh, hmain] at hfresh
    rw [hfresh.2.2, h, List.map_nil, List.append_nil]
    exact List.append_left_eq_self
  constructor
  · intro hs proposal last hmain
    exact (hcache proposal last hmain).mp (hs.cache proposal last hmain)
  · intro hall
    exact ⟨fun proposal last hmain => (hcache proposal last hmain).mpr (hall proposal last hmain),
      judgedInOrder_of_nil h⟩

end DecoderState

namespace SpeculativeDecoder

variable {L P R : Type} (c : SpeculativeDecoder L P R)

/-- Whether the next step of the main loop emits a token that the target decided on. -/
def emitsNext (s : DecoderState L P R) : Bool :=
  match s.mainLoop with
  | .verifying proposal i _ =>
    match (proposal.tokens.zip proposal.probs)[i]? with
    | none => false
    | some (draftTok, draftProb) =>
      s.generated + i < c.maxTokens &&
        match c.target.forwardOne draftTok s.targetCache with
        | none => false
        | some (_, logits) =>
          c.acceptDraftToken (c.softmaxProb logits draftTok) draftProb &&
            (c.target.decode draftTok).isSome
  | .diverged _ last =>
    (c.target.decode (c.sample s.targetSampler last.logits s.recentTokens).1).isSome
  | _ => false

/-- **The condition on a step**: it does not start a proposal on a target that had tokens in its
cache before, and it does not emit the token that is verified or sampled in its place. -/
def Guard (cached : List ℕ) (s : DecoderState L P R) (event : DecoderEvent) : Prop :=
  event = .main → (s.startsProposal = true → cached = []) ∧ c.emitsNext s = false

instance (cached : List ℕ) (s : DecoderState L P R) (event : DecoderEvent) :
    Decidable (c.Guard cached s event) :=
  inferInstanceAs (Decidable (_ → _))

/-! ### Steps of the draft task -/

/-- The draft task leaves the main loop, the target and what was emitted alone. -/
theorem draftStep_frame (s : DecoderState L P R) :
    (c.draftStep s).mainLoop = s.mainLoop ∧ (c.draftStep s).targetCache = s.targetCache ∧
      (c.draftStep s).emitted = s.emitted := by
  unfold draftStep
  split
  · split
    · exact ⟨rfl, rfl, rfl⟩
    · exact ⟨rfl, rfl, rfl⟩
  · split
    · exact ⟨rfl, rfl, rfl⟩
    · exact ⟨rfl, rfl, rfl⟩
  · split
    · exact ⟨rfl, rfl, rfl⟩
    · exact ⟨rfl, rfl, rfl⟩
    · exact ⟨rfl, rfl, rfl⟩
  · exact ⟨rfl, rfl, rfl⟩

end SpeculativeDecoder

namespace DecoderState

variable {L P R : Type} {cached prompt : List ℕ} {s s' : DecoderState L P R}

/-- What only concerns the main loop, the target and what was emitted. -/
theorem Account.congr (h : s.Account cached prompt) (hmain : s'.mainLoop = s.mainLoop)
    (hcache : s'.targetCache = s.targetCache) (hemitted : s'.emitted = s.emitted) :
    s'.Account cached prompt := by
  constructor
  · intro hnil
    rw [hemitted] at hnil
    have hfresh := h.fresh hnil
    unfold Fresh at hfresh ⊢
    rw [hmain, hcache]
    exact hfresh
  · intro emission after heq
    rw [hemitted] at heq
    exact h.first emission after heq

theorem Consistent.congr (h : s.Consistent prompt) (hmain : s'.mainLoop = s.mainLoop)
    (hcache : s'.targetCache = s.targetCache) (hemitted : s'.emitted = s.emitted) :
    s'.Consistent prompt := by
  constructor
  · intro proposal last hstart
    rw [hmain] at hstart
    rw [hcache, hemitted]
    exact h.cache proposal last hstart
  · intro before emission after heq
    rw [hemitted] at heq
    exact h.judged before emission after heq

/-- A state in which the loop has returned. -/
theorem account_finish (h : s.Account cached prompt) (outcome : Outcome) :
    (s.finish outcome).Account cached prompt := ⟨fun _ => trivial, h.first⟩

theorem consistent_finish (h : s.JudgedInOrder prompt) (outcome : Outcome) :
    (s.finish outcome).Consistent prompt := by
  constructor
  · intro proposal last hstart
    cases hstart
  · exact h

end DecoderState

namespace SpeculativeDecoder

variable {L P R : Type} (c : SpeculativeDecoder L P R)

/-! ### Steps of the main loop -/

section MainLoop

variable {c} {cached prompt : List ℕ} {s s' : DecoderState L P R}

theorem afterEmit_emitted (token : ℕ) (next : MainLoop L P) (s : DecoderState L P R) :
    (c.afterEmit token next s).emitted = s.emitted := by
  unfold afterEmit
  split
  · rfl
  · rfl

/-- What sampling emits, if the token can be decoded. -/
theorem emitSampled_emitted (last : Judged L) (stats : SpecStats) (next : MainLoop L P)
    (s : DecoderState L P R) :
    (c.emitSampled last stats next s).emitted = s.emitted ++
      ((c.target.decode (c.sample s.targetSampler last.logits s.recentTokens).1).map fun _ =>
        (⟨(c.sample s.targetSampler last.logits s.recentTokens).1, last.context⟩ :
          Emission)).toList := by
  unfold emitSampled
  dsimp only
  cases c.target.decode (c.sample s.targetSampler last.logits s.recentTokens).1 with
  | none => exact (List.append_nil _).symm
  | some text => exact afterEmit_emitted _ _ _

/-- A step of the main loop takes back nothing that was emitted. -/
theorem emitted_mainStep (s : DecoderState L P R) :
    ∃ more, (c.mainStep s).emitted = s.emitted ++ more := by
  have hsame : ∃ more, s.emitted = s.emitted ++ more := ⟨[], (List.append_nil _).symm⟩
  unfold mainStep
  split
  · split
    · exact hsame
    · split
      · exact hsame
      · exact hsame
  · split
    · exact hsame
    · split
      · exact hsame
      · exact hsame
  · split
    · exact hsame
    · split
      · exact hsame
      · unfold verifyToken
        split
        · exact hsame
        · split
          · split
            · exact hsame
            · exact ⟨_, afterEmit_emitted _ _ _⟩
          · exact hsame
  · exact hsame
  · split
    · exact hsame
    · exact ⟨_, emitSampled_emitted _ _ _ _⟩
  · exact ⟨_, emitSampled_emitted _ _ _ _⟩
  · exact hsame
  · exact hsame
  · exact hsame

/-- Either the next step of the main loop emits nothing, and starts a proposal if it is about to,
or it emits a token that was judged by more than the prompt. -/
def Advances (cached prompt : List ℕ) (starts emits : Bool) (s : DecoderState L P R) : Prop :=
  (emits = false ∧ s.emitted = [] ∧ s.Fresh cached prompt ∧
    ((∃ proposal last, s.mainLoop = .verifying proposal 0 last) ↔ starts = true)) ∨
  (emits = true ∧ ∃ emission, s.emitted = [emission] ∧ prompt.length < emission.context.length)

/-- Returning emits nothing and starts nothing. -/
theorem advances_finish (hnil : s.emitted = []) (outcome : Outcome) :
    Advances cached prompt false false (s.finish outcome) := by
  refine .inl ⟨rfl, hnil, trivial, ?_⟩
  constructor
  · rintro ⟨proposal, last, hmain⟩
    cases hmain
  · intro hstarts
    cases hstarts

/-- Verifying the first token of a proposal. -/
theorem advances_verifyToken (hnil : s.emitted = []) (hcache : s.targetCache = cached ++ prompt)
    (proposal : DraftProposal P) (draftTok : ℕ) (draftProb : P) :
    Advances cached prompt false
      (match c.target.forwardOne draftTok s.targetCache with
        | none => false
        | some (_, logits) =>
          c.acceptDraftToken (c.softmaxProb logits draftTok) draftProb &&
            (c.target.decode draftTok).isSome)
      (c.verifyToken proposal 0 draftTok draftProb s) := by
  unfold verifyToken
  cases hforward : c.target.forwardOne draftTok s.targetCache with
  | none => exact advances_finish hnil _
  | some passed =>
    obtain ⟨cache, logits⟩ := passed
    have hlong : prompt.length < cache.length := by
      rw [(Engine.forwardOne_eq_some hforward).1, hcache, List.length_append, List.length_append]
      exact Nat.lt_succ_of_le (Nat.le_add_left _ _)
    dsimp only
    by_cases haccept : c.acceptDraftToken (c.softmaxProb logits draftTok) draftProb = true
    · rw [if_pos haccept, haccept, Bool.true_and]
      cases c.target.decode draftTok with
      | none => exact @advances_finish L P R cached prompt _ hnil _
      | some text =>
        refine .inr ⟨rfl, ⟨draftTok, cache⟩, ?_, hlong⟩
        refine (afterEmit_emitted _ _ _).trans ?_
        show s.emitted ++ [_] = _
        rw [hnil]
        rfl
    · rw [if_neg haccept, Bool.eq_false_iff.mpr haccept, Bool.false_and]
      refine .inl ⟨rfl, hnil, hlong, ?_⟩
      constructor
      · rintro ⟨p, last, hmain⟩
        cases hmain
      · intro hstarts
        cases hstarts

/-- Sampling in place of the first token, which was rejected. -/
theorem advances_emitSampled (hnil : s.emitted = []) {last : Judged L}
    (hlong : prompt.length < last.context.length) (stats : SpecStats) (next : MainLoop L P) :
    Advances cached prompt false
      (c.target.decode (c.sample s.targetSampler last.logits s.recentTokens).1).isSome
      (c.emitSampled last stats next s) := by
  have hemitted := emitSampled_emitted (c := c) last stats next s
  rw [hnil, List.nil_append] at hemitted
  cases hdecode : c.target.decode (c.sample s.targetSampler last.logits s.recentTokens).1 with
  | none =>
    have hfinish : c.emitSampled last stats next s =
        { s with targetSampler :=
          (c.sample s.targetSampler last.logits s.recentTokens).2 }.finish .failed := by
      unfold emitSampled
      dsimp only
      rw [hdecode]
    rw [hfinish]
    exact @advances_finish L P R cached prompt _ hnil _
  | some text =>
    rw [hdecode] at hemitted
    exact .inr ⟨rfl, _, hemitted, hlong⟩

/-- **Until a token is emitted the target passes the prompt only**, and the first token is judged
by more. -/
theorem mainStep_of_fresh (hnil : s.emitted = []) (hfresh : s.Fresh cached prompt) :
    Advances cached prompt s.startsProposal (c.emitsNext s) (c.mainStep s) := by
  have hstay : ∀ {main : MainLoop L P}, (∀ proposal last, main ≠ .verifying proposal 0 last) →
      ((∃ proposal last, main = .verifying proposal 0 last) ↔ false = true) := by
    intro main hne
    constructor
    · rintro ⟨proposal, last, hmain⟩
      exact absurd hmain (hne proposal last)
    · intro hstarts
      cases hstarts
  unfold DecoderState.Fresh at hfresh
  unfold mainStep emitsNext DecoderState.startsProposal
  cases hmain : s.mainLoop with
  | top =>
    rw [hmain] at hfresh
    dsimp only at hfresh ⊢
    split
    · exact advances_finish hnil _
    · split
      · exact advances_finish hnil _
      · exact .inl ⟨rfl, hnil, hfresh, hstay nofun⟩
  | waiting =>
    rw [hmain] at hfresh
    dsimp only at hfresh ⊢
    unfold Channel.recv
    rcases hqueue : s.channel.queue with - | ⟨proposal, queue⟩
    · dsimp only [List.isEmpty_nil, Bool.not_true]
      split
      · exact advances_finish hnil _
      · refine .inl ⟨rfl, hnil, ?_, ?_⟩
        · unfold DecoderState.Fresh
          rw [hmain]
          exact hfresh
        · rw [hmain]
          exact hstay nofun
    · exact .inl ⟨rfl, hnil, ⟨rfl, rfl, hfresh⟩, ⟨fun _ => rfl, fun _ => ⟨_, _, rfl⟩⟩⟩
  | verifying proposal i last =>
    rw [hmain] at hfresh
    obtain ⟨rfl, rfl, hcache⟩ := hfresh
    dsimp only
    cases (proposal.tokens.zip proposal.probs)[0]? with
    | none => exact .inl ⟨rfl, hnil, ⟨rfl, hcache⟩, hstay nofun⟩
    | some drafted =>
      obtain ⟨draftTok, draftProb⟩ := drafted
      dsimp only
      by_cases hlimit : c.maxTokens ≤ s.generated + 0
      · rw [if_pos hlimit, decide_eq_false (Nat.not_lt.mpr hlimit), Bool.false_and]
        exact advances_finish hnil _
      · rw [if_neg hlimit, decide_eq_true (Nat.lt_of_not_le hlimit), Bool.true_and]
        exact advances_verifyToken hnil hcache proposal draftTok draftProb
  | accepted last =>
    rw [hmain] at hfresh
    obtain ⟨rfl, hcache⟩ := hfresh
    exact .inl ⟨rfl, hnil, hcache, hstay nofun⟩
  | diverged rewindPos last =>
    rw [hmain] at hfresh
    exact advances_emitSampled hnil hfresh _ _
  | rewindTarget newLen =>
    rw [hmain] at hfresh
    exact absurd hfresh id
  | rewindDraft rewindTo =>
    rw [hmain] at hfresh
    exact absurd hfresh id
  | returned outcome =>
    refine .inl ⟨rfl, hnil, ?_, ?_⟩
    · unfold DecoderState.Fresh
      rw [hmain]
      trivial
    · rw [hmain]
      exact hstay nofun

/-! ### Runs -/

/-- **Every step keeps the account.** -/
theorem account_step {event : DecoderEvent} {out : Unit} (h : s.Account cached prompt)
    (hstep : c.step s event = some (s', out)) : s'.Account cached prompt := by
  cases event with
  | draft =>
    cases hstep
    obtain ⟨hmain, hcache, hemitted⟩ := c.draftStep_frame s
    exact h.congr hmain hcache hemitted
  | main =>
    cases hstep
    rcases hemitted : s.emitted with - | ⟨first, rest⟩
    · rcases mainStep_of_fresh hemitted (h.fresh hemitted) with
        ⟨-, hnil, hfresh, -⟩ | ⟨-, emission, hone, hlong⟩
      · refine ⟨fun _ => hfresh, fun emission after heq => ?_⟩
        rw [hnil] at heq
        cases heq
      · refine ⟨fun hnil => ?_, fun emission' after heq => ?_⟩
        · rw [hone] at hnil
          cases hnil
        · rw [hone] at heq
          cases heq
          exact hlong
    · -- the first token stays the first
      obtain ⟨more, hmore⟩ := emitted_mainStep (c := c) s
      rw [hemitted] at hmore
      refine ⟨fun hnil => ?_, fun emission after heq => ?_⟩
      · rw [hmore] at hnil
        cases hnil
      · rw [hmore] at heq
        cases heq
        exact h.first _ _ hemitted
  | timeout =>
    simp only [step] at hstep
    split at hstep
    · cases hstep
      exact DecoderState.account_finish h _
    · cases hstep
      exact h
  | cancel =>
    cases hstep
    exact h.congr rfl rfl rfl

/-- **A step leads from a consistent state to a consistent one exactly if it meets the guard.** -/
theorem consistent_step {event : DecoderEvent} {out : Unit} (h : s.Account cached prompt)
    (hs : s.Consistent prompt) (hstep : c.step s event = some (s', out)) :
    s'.Consistent prompt ↔ c.Guard cached s event := by
  have hnil := h.emitted_eq_nil hs
  have hother : event ≠ .main → s'.Consistent prompt →
      (s'.Consistent prompt ↔ c.Guard cached s event) :=
    fun hne hs' => ⟨fun _ hmain => absurd hmain hne, fun _ => hs'⟩
  cases event with
  | draft =>
    cases hstep
    obtain ⟨hmain, hcache, hemitted⟩ := c.draftStep_frame s
    exact hother nofun (hs.congr hmain hcache hemitted)
  | main =>
    cases hstep
    have haccount : (c.mainStep s).Account cached prompt :=
      account_step h (show c.step s .main = some (c.mainStep s, ()) from rfl)
    rcases mainStep_of_fresh hnil (h.fresh hnil) with
      ⟨hemits, hnil', hfresh, hstarts⟩ | ⟨hemits, emission, hone, hlong⟩
    · rw [DecoderState.consistent_iff_of_nil hnil' hfresh]
      constructor
      · intro hcached _
        refine ⟨fun hs => ?_, hemits⟩
        obtain ⟨proposal, last, hmain⟩ := hstarts.mpr hs
        exact hcached proposal last hmain
      · intro hguard proposal last hmain
        exact (hguard rfl).1 (hstarts.mp ⟨proposal, last, hmain⟩)
    · constructor
      · intro hs'
        have hempty := haccount.emitted_eq_nil hs'
        rw [hone] at hempty
        cases hempty
      · intro hguard
        have hnot := (hguard rfl).2
        rw [hemits] at hnot
        cases hnot
  | timeout =>
    refine hother nofun ?_
    simp only [step] at hstep
    split at hstep
    · cases hstep
      exact DecoderState.consistent_finish hs.judged _
    · cases hstep
      exact hs
  | cancel =>
    cases hstep
    exact hother nofun (hs.congr rfl rfl rfl)

/-- What `generate` starts its loop with. -/
theorem start_eq_some {draftCache : List ℕ} {sampler : R} {s₀ : DecoderState L P R}
    (h : c.start draftCache cached prompt sampler = some s₀) :
    s₀.mainLoop = .top ∧ s₀.targetCache = cached ++ prompt ∧ s₀.emitted = [] := by
  obtain ⟨-, -, h⟩ := Option.bind_eq_some_iff.mp h
  obtain ⟨targetCache, htarget, h⟩ := Option.bind_eq_some_iff.mp h
  obtain ⟨draftCache', -, h⟩ := Option.bind_eq_some_iff.mp h
  cases h
  exact ⟨rfl, Engine.prefillChunks_eq_some htarget, rfl⟩

/-- **Every state of a run is consistent exactly if no step emits a token that the target
decided on, and no proposal starts on a target that was not empty before.** -/
theorem consistent_iff_guarded {draftCache : List ℕ} {sampler : R} {s₀ : DecoderState L P R}
    (hstart : c.start draftCache cached prompt sampler = some s₀) (events : List DecoderEvent) :
    Always c.step (·.Consistent prompt) s₀ events ↔
      StepsMeet c.step (c.Guard cached) s₀ events := by
  obtain ⟨hmain, hcache, hnil⟩ := start_eq_some hstart
  have hfresh : s₀.Fresh cached prompt := by
    unfold DecoderState.Fresh
    rw [hmain]
    exact hcache
  have haccount : s₀.Account cached prompt := by
    refine ⟨fun _ => hfresh, fun emission after heq => ?_⟩
    rw [hnil] at heq
    cases heq
  have hconsistent : s₀.Consistent prompt := by
    rw [DecoderState.consistent_iff_of_nil hnil hfresh]
    intro proposal last hverifying
    rw [hmain] at hverifying
    cases hverifying
  have hlive : ∀ (s : DecoderState L P R) (event : DecoderEvent), c.step s event ≠ none := by
    intro s event
    cases event with
    | draft | main | cancel => nofun
    | timeout =>
      simp only [step]
      split
      · nofun
      · nofun
  exact always_iff_stepsMeet (fun h hs => account_step h hs)
    (fun _ _ hpanic => absurd hpanic (hlive _ _)) (fun h hs hstep => consistent_step h hs hstep)
    haccount hconsistent events

end MainLoop

/-! ### Two runs -/

/-- Constant engines, the target's for `room` tokens: the draft engine proposes `1` and the
target accepts it, and samples `2` itself. -/
def constantDecoder (room : ℕ) : SpeculativeDecoder ℕ ℕ Unit where
  draft := constantEngine
  target := { constantEngine with
    forward := fun cache => if cache.length ≤ room then some cache.length else none }
  maxCtxLen := 8
  specK := 1
  forceN1 := false
  maxTokens := 4
  greedy _ _ := 1
  sample sampler _ _ := (2, sampler)
  softmaxProb _ _ := 1
  acceptDraftToken targetProb draftProb := draftProb ≤ targetProb
  isEmpty _ := false

/-- Behind the two prefills of the prompt `[7]`. -/
def constantLoop : DecoderState ℕ ℕ Unit where
  draftCache := [7]
  targetCache := [7]
  channel := .new 2
  draftTask := .top
  mainLoop := .top
  stopFlag := false
  cancelled := false
  outputText := ""
  generated := 0
  recentTokens := [7]
  targetSampler := ()
  stats := ⟨0, 0, 0⟩
  emitted := []

private theorem start_constantDecoder {room : ℕ} (hroom : 1 ≤ room) :
    (constantDecoder room).start [] [] [7] () = some constantLoop := by
  have htarget : (constantDecoder room).target.prefill [7] [] = some [7] :=
    Engine.prefillChunks_one (List.cons_ne_nil _ _) le_rfl (if_pos hroom)
  have hdraft : (constantDecoder room).draft.prefill [7] [] = some [7] :=
    Engine.prefillChunks_one (List.cons_ne_nil _ _) le_rfl rfl
  show ((constantDecoder room).target.prefill [7] []).bind _ = _
  rw [htarget]
  show ((constantDecoder room).draft.prefill [7] []).bind _ = _
  rw [hdraft]
  rfl

theorem consistent_iff_guarded_constantDecoder :
    Always (constantDecoder 1).step (·.Consistent [7]) constantLoop
      [.main, .draft, .draft, .draft, .main, .main] :=
  (consistent_iff_guarded (start_constantDecoder le_rfl) _).mpr (stepsMeet_of_meets rfl)

/-- A proposal of one token is accepted; the bonus token that follows it is not passed to the
target before the next proposal. -/
theorem bonus_not_passed :
    ¬ ∀ (c : SpeculativeDecoder ℕ ℕ Unit) (prompt : List ℕ) (s₀ : DecoderState ℕ ℕ Unit)
      (events : List DecoderEvent), c.start [] [] prompt () = some s₀ →
        Always c.step (·.Consistent prompt) s₀ events := by
  intro h
  have halways := h (constantDecoder 4) [7] constantLoop
    [.main, .draft, .draft, .draft, .main, .main, .main, .main, .main, .draft, .draft, .draft,
      .main] (start_constantDecoder (by decide))
  have hrun := run_of_runInputs (show runInputs (constantDecoder 4).step constantLoop
    [.main, .draft, .draft, .draft, .main, .main, .main, .main, .main, .draft, .draft, .draft,
      .main] = some _ from rfl)
  have hcache := (halways.of_run hrun).cache _ _ rfl
  exact absurd hcache (by decide)

end SpeculativeDecoder

end Speculative

end Oxillama
