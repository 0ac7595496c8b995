/-
Beam search (`oxillama-runtime/src/beam_search.rs`).

A search keeps the best `beam_width` hypotheses.  In every round each active one is extended by
its best tokens, and the best of all extensions are kept; those that end with the end token are
parked.  At the end the parked and the active ones are sorted by their length-normalised score.

Numbers are those of an ordered field: nothing is rounded, there is no NaN, and the scores have
`-inf` (`⊥`) below them.  The functions `exp`, `ln` and `powf` are parameters, and so is the
order in which `sort_unstable_by` leaves equal elements.

* `Grows` — how a hypothesis comes about, token by token;
* `Reached` — the rounds that the loop makes;
* `Reached.wellGrown` — what holds of all beams after every round;
* `beam_wellFormed` — **every hypothesis is well formed**, and a search of width one is greedy
  decoding.
-/
import Mathlib.Algebra.Order.Field.Basic
import Mathlib.Algebra.Order.Field.Rat
import Mathlib.Data.List.Indexes
import Mathlib.Data.List.Sort
import Mathlib.Order.WithBot
import Oxillama.Kv.Access

namespace Oxillama

namespace Beam

open Kv (Token)

/-! ### Configuration and hypotheses -/

/-- `BeamSearchConfig`; `P` are the length penalties. -/
structure BeamSearchConfig (P : Type) where
  beamWidth : ℕ
  maxNewTokens : ℕ
  lengthPenalty : P
  earlyStopping : Bool
  deriving DecidableEq, Repr

/-- `BeamHypothesis`. -/
structure BeamHypothesis (F : Type) where
  tokens : List Token
  logprobSum : F
  finished : Bool
  deriving DecidableEq, Repr

/-- `RuntimeError`: what the search reports itself, and what a forward pass does. -/
inductive RuntimeError (ε : Type) where
  | modelLoadError (message : String)
  | forward (e : ε)
  deriving DecidableEq, Repr

/-- The functions on numbers that the search uses. -/
structure BeamMath (F P : Type) where
  logSoftmax : List F → List F
  powf : F → P → F

/-- `sort_unstable_by`, the greatest key first. -/
structure Descending (κ : Type) [LE κ] where
  sort : {α : Type} → (α → κ) → List α → List α
  perm : ∀ {α : Type} (key : α → κ) (xs : List α), (sort key xs).Perm xs
  sorted : ∀ {α : Type} (key : α → κ) (xs : List α),
    (sort key xs).Pairwise fun a b => key b ≤ key a

section Search

variable {F P ε : Type} [Field F] [LinearOrder F]

/-- `log_softmax`. -/
def logSoftmax (exp ln : F → F) : List F → List F
  | [] => []
  | x :: xs =>
    let maxVal := xs.foldl max x
    let expSum := ((x :: xs).map fun v => exp (v - maxVal)).sum
    let logSum := ln expSum
    (x :: xs).map fun v => (v - maxVal) - logSum

/-- `BeamHypothesis::score`. -/
def BeamHypothesis.score (math : BeamMath F P) (lengthPenalty : P) (promptLen : ℕ)
    (h : BeamHypothesis F) : WithBot F :=
  let nGen := h.tokens.length - promptLen
  if nGen = 0 then ((0 : F) : WithBot F)
  else
    let denom := math.powf nGen lengthPenalty
    if 0 < denom then ((h.logprobSum / denom : F) : WithBot F) else ⊥

/-! ### The search -/

/-- The beams between two rounds. -/
structure Beams (F : Type) where
  active : List (BeamHypothesis F)
  finished : List (BeamHypothesis F)
  deriving DecidableEq, Repr

/-- What a search is run with.  A forward pass depends on the tokens only: the engine is reset
before each. -/
structure Search (F P ε : Type) [Field F] [LinearOrder F] where
  math : BeamMath F P
  byLogprob : Descending F
  byScore : Descending (WithBot F)
  forward : List Token → Except (RuntimeError ε) (List F)
  promptTokens : List Token
  config : BeamSearchConfig P
  eosTokenId : Token

namespace Search

variable (s : Search F P ε)

/-- The score of a hypothesis in this search. -/
def score (h : BeamHypothesis F) : WithBot F :=
  h.score s.math s.config.lengthPenalty s.promptTokens.length

/-- A hypothesis with a token more. -/
def extend (beam : BeamHypothesis F) (token : Token) (lp : F) : BeamHypothesis F where
  tokens := beam.tokens ++ [token]
  logprobSum := beam.logprobSum + lp
  finished := token == s.eosTokenId

/-- The candidates of one beam: its best tokens. -/
def expand (beam : BeamHypothesis F) : Except (RuntimeError ε) (List (BeamHypothesis F)) := do
  let logits ← s.forward beam.tokens
  let logProbs := s.math.logSoftmax logits
  let pairs := logProbs.mapIdx fun i lp => (UInt32.ofNat i, lp)
  let best := (s.byLogprob.sort Prod.snd pairs).take s.config.beamWidth
  return best.map fun pair => s.extend beam pair.1 pair.2

/-- A round: all active beams are expanded, the candidates pruned and the finished ones parked. -/
def round (beams : Beams F) : Except (RuntimeError ε) (Beams F) := do
  let expanded ← beams.active.mapM s.expand
  let candidates := (s.byScore.sort s.score expanded.flatten).take s.config.beamWidth
  return {
    active := candidates.filter fun h => !h.finished
    finished := beams.finished ++ candidates.filter fun h => h.finished }

/-- The best score of some hypotheses. -/
def bestScore (hs : List (BeamHypothesis F)) : WithBot F := (hs.map s.score).foldl max ⊥

/-- The early stopping test. -/
def stops (beams : Beams F) : Bool :=
  s.config.earlyStopping && !beams.finished.isEmpty &&
    decide (s.bestScore beams.active ≤ s.bestScore beams.finished)

/-- The decode loop. -/
def decodeLoop : ℕ → Beams F → Except (RuntimeError ε) (Beams F)
  | 0, beams => .ok beams
  | steps + 1, beams =>
    if beams.active.isEmpty then .ok beams
    else do
      let beams ← s.round beams
      if s.stops beams then return beams else decodeLoop steps beams

/-- The beams a search starts with. -/
def start : Beams F where
  active := [{ tokens := s.promptTokens, logprobSum := 0, finished := false }]
  finished := []

/-- `beam_generate`. -/
def beamGenerate : Except (RuntimeError ε) (List (BeamHypothesis F)) :=
  if s.config.beamWidth = 0 then .error (.modelLoadError "beam_width must be >= 1")
  else if s.promptTokens.isEmpty then
    .error (.modelLoadError "beam search: prompt_tokens must not be empty")
  else do
    let beams ← s.decodeLoop s.config.maxNewTokens s.start
    return (s.byScore.sort s.score (beams.finished ++ beams.active)).take s.config.beamWidth

/-! ### Growth of hypotheses -/

/-- A hypothesis is extended, token by token, by what the model answers for it; one that is
finished is not. -/
inductive Grows : BeamHypothesis F → BeamHypothesis F → Prop
  | refl (h : BeamHypothesis F) : Grows h h
  | snoc {h h' : BeamHypothesis F} {logits : List F} {i : ℕ} {lp : F} : Grows h h' →
      h'.finished = false → s.forward h'.tokens = .ok logits →
      (s.math.logSoftmax logits)[i]? = some lp →
      Grows h (s.extend h' (UInt32.ofNat i) lp)

variable {s} {h h' : BeamHypothesis F} {beams beams' : Beams F} {k n : ℕ}

/-- The candidates of a beam extend it. -/
theorem grows_of_mem_expand {start : BeamHypothesis F} (hgrows : s.Grows start h)
    (hactive : h.finished = false) {candidates : List (BeamHypothesis F)}
    (hexpand : s.expand h = .ok candidates) (hmem : h' ∈ candidates) :
    s.Grows start h' ∧ h'.tokens.length = h.tokens.length + 1 := by
  rw [expand] at hexpand
  rcases hforward : s.forward h.tokens with e | logits
  · rw [hforward] at hexpand
    cases hexpand
  · rw [hforward] at hexpand
    obtain rfl := Except.ok.inj hexpand
    obtain ⟨⟨token, lp⟩, hpair, rfl⟩ := List.mem_map.1 hmem
    have hsorted := (s.byLogprob.perm Prod.snd _).mem_iff.1 (List.mem_of_mem_take hpair)
    obtain ⟨i, hi, heq⟩ := List.mem_mapIdx.1 hsorted
    obtain ⟨rfl, rfl⟩ := Prod.mk.inj heq
    refine ⟨hgrows.snoc hactive hforward (List.getElem?_eq_getElem hi), ?_⟩
    rw [extend, List.length_append]
    rfl

/-- The elements of what a loop over a list collects. -/
theorem mem_of_mapM_ok {α β : Type} {f : α → Except (RuntimeError ε) (List β)} {xs : List α}
    {parts : List (List β)} {y : β} (hparts : xs.mapM f = .ok parts) (hy : y ∈ parts.flatten) :
    ∃ x ∈ xs, ∃ ys, f x = .ok ys ∧ y ∈ ys := by
  induction xs generalizing parts with
  | nil =>
    obtain rfl := Except.ok.inj hparts
    cases hy
  | cons x xs ih =>
    rw [List.mapM_cons] at hparts
    rcases hx : f x with e | ys
    · rw [hx] at hparts
      cases hparts
    · rcases hxs : xs.mapM f with e | later
      · rw [hx, hxs] at hparts
        cases hparts
      · rw [hx, hxs] at hparts
        obtain rfl := Except.ok.inj hparts
        rcases List.mem_append.1 (List.flatten_cons ▸ hy) with hy | hy
        · exact ⟨x, List.mem_cons_self, ys, hx, hy⟩
        · obtain ⟨x', hx', hfound⟩ := ih hxs hy
          exact ⟨x', List.mem_cons_of_mem _ hx', hfound⟩

/-! ### The rounds -/

/-- The beams after `k` rounds. -/
inductive Reached (s : Search F P ε) : ℕ → Beams F → Prop
  | start : Reached s 0 s.start
  | round {k : ℕ} {beams beams' : Beams F} : Reached s k beams → k < s.config.maxNewTokens →
      beams.active ≠ [] → s.stops beams = false → s.round beams = .ok beams' →
      Reached s (k + 1) beams'

/-- What holds of all beams after `k` rounds: they have grown from the prompt, the active ones by
`k` tokens, and the finished ones by at most as many. -/
structure WellGrown (s : Search F P ε) (k : ℕ) (beams : Beams F) : Prop where
  active : ∀ h ∈ beams.active, s.Grows ⟨s.promptTokens, 0, false⟩ h ∧ h.finished = false ∧
    h.tokens.length = s.promptTokens.length + k
  finished : ∀ h ∈ beams.finished, s.Grows ⟨s.promptTokens, 0, false⟩ h ∧ h.finished = true ∧
    h.tokens.length ≤ s.promptTokens.length + k

theorem wellGrown_start (s : Search F P ε) : WellGrown s 0 s.start where
  active h hmem := by
    obtain rfl := List.mem_singleton.1 hmem
    exact ⟨.refl _, rfl, rfl⟩
  finished h hmem := by cases hmem

/-- **A round keeps it.** -/
theorem WellGrown.round (hgrown : WellGrown s k beams) (hround : s.round beams = .ok beams') :
    WellGrown s (k + 1) beams' := by
  rw [Search.round] at hround
  rcases hexpanded : beams.active.mapM s.expand with e | expanded
  · rw [hexpanded] at hround
    cases hround
  · rw [hexpanded] at hround
    obtain rfl := Except.ok.inj hround
    have hcandidate {h : BeamHypothesis F}
        (hmem : h ∈ (s.byScore.sort s.score expanded.flatten).take s.config.beamWidth) :
        s.Grows ⟨s.promptTokens, 0, false⟩ h ∧
          h.tokens.length = s.promptTokens.length + (k + 1) := by
      have hflat := (s.byScore.perm s.score _).mem_iff.1 (List.mem_of_mem_take hmem)
      obtain ⟨beam, hbeam, candidates, hexpand, hcand⟩ := mem_of_mapM_ok hexpanded hflat
      obtain ⟨hgrows, hactive, hlength⟩ := hgrown.active beam hbeam
      obtain ⟨hgrows', hlength'⟩ := grows_of_mem_expand hgrows hactive hexpand hcand
      exact ⟨hgrows', by omega⟩
    refine ⟨fun h hmem => ?_, fun h hmem => ?_⟩
    · obtain ⟨hmem, hactive⟩ := List.mem_filter.1 hmem
      obtain ⟨hgrows, hlength⟩ := hcandidate hmem
      exact ⟨hgrows, by simpa using hactive, hlength⟩
    · rcases List.mem_append.1 hmem with hmem | hmem
      · obtain ⟨hgrows, hfinished, hlength⟩ := hgrown.finished h hmem
        exact ⟨hgrows, hfinished, by omega⟩
      · obtain ⟨hmem, hfinished⟩ := List.mem_filter.1 hmem
        obtain ⟨hgrows, hlength⟩ := hcandidate hmem
        exact ⟨hgrows, hfinished, by omega⟩

theorem Reached.wellGrown (hreached : Reached s k beams) : WellGrown s k beams := by
  induction hreached with
  | start => exact wellGrown_start s
  | round _ _ _ _ hround ih => exact ih.round hround

theorem Reached.le (hreached : Reached s k beams) : k ≤ s.config.maxNewTokens := by
  rcases hreached with - | ⟨-, hlt, -, -, -⟩
  · exact Nat.zero_le _
  · exact hlt

/-- Nothing stops a search at its start. -/
theorem stops_start (s : Search F P ε) : s.stops s.start = false := by
  rw [stops, start]
  simp

/-- **The loop** goes through these beams, and ends at some of them. -/
theorem reached_of_decodeLoop (hreached : Reached s k beams) (hstops : s.stops beams = false)
    (hsteps : k + n = s.config.maxNewTokens) (hloop : s.decodeLoop n beams = .ok beams') :
    ∃ k', Reached s k' beams' := by
  induction n generalizing k beams with
  | zero =>
    obtain rfl := Except.ok.inj hloop
    exact ⟨k, hreached⟩
  | succ n ih =>
    rw [decodeLoop] at hloop
    split at hloop
    · obtain rfl := Except.ok.inj hloop
      exact ⟨k, hreached⟩
    next hactive =>
      rcases hround : s.round beams with e | next
      · rw [hround] at hloop
        cases hloop
      · have hnext := hreached.round (by omega) (by simpa using hactive) hstops hround
        rw [hround] at hloop
        have hcases : (if s.stops next = true then Except.ok next
            else s.decodeLoop n next) = .ok beams' := hloop
        split at hcases
        · obtain rfl := Except.ok.inj hcases
          exact ⟨k + 1, hnext⟩
        next hgoes => exact ih hnext (by simpa using hgoes) (by omega) hcases

/-! ### Hypotheses -/

/-- The model has answered for every token behind the prompt, with these log-probabilities. -/
structure Answered (s : Search F P ε) (gen : List Token) (lps : List F) : Prop where
  length : lps.length = gen.length
  token : ∀ n < gen.length, ∃ logits i lp,
    s.forward (s.promptTokens ++ gen.take n) = .ok logits ∧
      gen[n]? = some (UInt32.ofNat i) ∧ (s.math.logSoftmax logits)[i]? = some lp ∧
      lps[n]? = some lp

/-- **A hypothesis is well formed**: behind the prompt it has at most `max_new_tokens` tokens;
each was answered for by the model with its log-probability, and the sum is that of these, in
order; no token but the last is the end token, and that is one exactly when the hypothesis is
finished. -/
structure WellFormed (s : Search F P ε) (h : BeamHypothesis F) (gen : List Token) (lps : List F) :
    Prop where
  tokens : h.tokens = s.promptTokens ++ gen
  length : gen.length ≤ s.config.maxNewTokens
  answered : Answered s gen lps
  sum : h.logprobSum = lps.foldl (· + ·) 0
  ends : s.eosTokenId ∉ gen.dropLast
  finished : h.finished = true ↔ gen.getLast? = some s.eosTokenId

/-- What has grown from the prompt is well formed, but for its length. -/
theorem exists_of_grows (hgrows : s.Grows ⟨s.promptTokens, 0, false⟩ h) :
    ∃ gen lps, h.tokens = s.promptTokens ++ gen ∧ Answered s gen lps ∧
      h.logprobSum = lps.foldl (· + ·) 0 ∧ s.eosTokenId ∉ gen.dropLast ∧
      (h.finished = true ↔ gen.getLast? = some s.eosTokenId) := by
  induction hgrows with
  | refl =>
    exact ⟨[], [], (List.append_nil _).symm, ⟨rfl, by simp⟩, rfl, by simp, by simp⟩
  | @snoc h' logits i lp _ hactive hforward hlp ih =>
    obtain ⟨gen, lps, htokens, ⟨hlengths, hanswered⟩, hsum, hends, hfinished⟩ := ih
    refine ⟨gen ++ [UInt32.ofNat i], lps ++ [lp], ?_, ⟨?_, fun n hn => ?_⟩, ?_, ?_, ?_⟩
    · rw [extend, htokens, List.append_assoc]
    · simp only [List.length_append, List.length_singleton, hlengths]
    · by_cases hlast : n = gen.length
      · -- The new token.
        subst hlast
        refine ⟨logits, i, lp, ?_, ?_, hlp, ?_⟩
        · rw [List.take_left, ← htokens]
          exact hforward
        · rw [List.getElem?_concat_length]
        · rw [← hlengths, List.getElem?_concat_length]
      · rw [List.length_append, List.length_singleton] at hn
        obtain ⟨logits', i', lp', hforward', htoken, hlp', hat⟩ := hanswered n (by omega)
        refine ⟨logits', i', lp', ?_, ?_, hlp', ?_⟩
        · rw [List.take_append_of_le_length (by omega)]
          exact hforward'
        · rw [List.getElem?_append_left (by omega)]
          exact htoken
        · rw [List.getElem?_append_left (by omega)]
          exact hat
    · rw [extend, List.foldl_append, ← hsum]
      rfl
    · rw [List.dropLast_concat]
      -- The token before was not the end token, since the hypothesis was still active.
      intro hmem
      rcases List.eq_nil_or_concat' gen with rfl | ⟨front, last, rfl⟩
      · cases hmem
      · rcases List.mem_append.1 hmem with hmem | hmem
        · exact hends (by rwa [List.dropLast_concat])
        · obtain rfl := List.mem_singleton.1 hmem
          rw [hfinished.2 (by rw [List.getLast?_concat])] at hactive
          cases hactive
    · rw [extend, List.getLast?_concat]
      simp

/-- The hypotheses that a search returns. -/
theorem wellFormed_of_beamGenerate {hyps : List (BeamHypothesis F)}
    (hresult : s.beamGenerate = .ok hyps) :
    (∀ h ∈ hyps, ∃ gen lps, WellFormed s h gen lps) ∧ hyps.length ≤ s.config.beamWidth ∧
      hyps.Pairwise fun a b => s.score b ≤ s.score a := by
  rw [beamGenerate] at hresult
  split at hresult
  · cases hresult
  · split at hresult
    · cases hresult
    · rcases hloop : s.decodeLoop s.config.maxNewTokens s.start with e | beams
      · rw [hloop] at hresult
        cases hresult
      · rw [hloop] at hresult
        obtain rfl := Except.ok.inj hresult
        obtain ⟨k, hreached⟩ := reached_of_decodeLoop .start (stops_start s) (Nat.zero_add _) hloop
        have hgrown := hreached.wellGrown
        have hle := hreached.le
        refine ⟨fun h hmem => ?_, List.length_take_le _ _,
          (s.byScore.sorted s.score _).sublist (List.take_sublist _ _)⟩
        have hmem := (s.byScore.perm s.score _).mem_iff.1 (List.mem_of_mem_take hmem)
        obtain ⟨hgrows, hlength⟩ : s.Grows ⟨s.promptTokens, 0, false⟩ h ∧
            h.tokens.length ≤ s.promptTokens.length + k := by
          rcases List.mem_append.1 hmem with hmem | hmem
          · obtain ⟨hgrows, -, hlength⟩ := hgrown.finished h hmem
            exact ⟨hgrows, hlength⟩
          · obtain ⟨hgrows, -, hlength⟩ := hgrown.active h hmem
            exact ⟨hgrows, hlength.le⟩
        obtain ⟨gen, lps, htokens, hanswered, hsum, hends, hfinished⟩ := exists_of_grows hgrows
        rw [htokens, List.length_append] at hlength
        exact ⟨gen, lps, htokens, by omega, hanswered, hsum, hends, hfinished⟩

/-! ### Greedy decoding -/

/-- `argmax` (`sampling/rng.rs`): the first index of the greatest value. -/
def argmax (values : List F) : Option Token :=
  ((values.mapIdx fun i v => (i, v)).foldl (fun best entry =>
    match best with
    | none => some entry
    | some (j, bestVal) => if bestVal < entry.2 then some entry else some (j, bestVal)) none).map
      fun best => UInt32.ofNat best.1

/-- Greedy decoding: the token of the greatest logit, up to the end token or as many tokens as may
be generated.  Without logits there is no such token. -/
def greedyDecode (s : Search F P ε) :
    ℕ → List Token → Except (RuntimeError ε) (Option (List Token))
  | 0, tokens => .ok (some tokens)
  | steps + 1, tokens => do
    let logits ← s.forward tokens
    match argmax logits with
    | none => return none
    | some token =>
      if token == s.eosTokenId then return some (tokens ++ [token])
      else greedyDecode s steps (tokens ++ [token])

omit [Field F] in
/-- The running maximum of some entries. -/
theorem foldl_best_spec (entries : List (ℕ × F)) (first : ℕ × F) :
    ∃ e ∈ first :: entries, (∀ e' ∈ first :: entries, e'.2 ≤ e.2) ∧
      entries.foldl (fun best entry =>
        match best with
        | none => some entry
        | some (j, bestVal) => if bestVal < entry.2 then some entry else some (j, bestVal))
          (some first) = some e := by
  induction entries generalizing first with
  | nil => exact ⟨first, List.mem_cons_self, by simp, rfl⟩
  | cons entry entries ih =>
    by_cases hlt : first.2 < entry.2
    · obtain ⟨e, hmem, hmax, hfold⟩ := ih entry
      refine ⟨e, List.mem_cons_of_mem _ hmem, fun e' he' => ?_, ?_⟩
      · rcases List.mem_cons.1 he' with rfl | he'
        · exact hlt.le.trans (hmax entry List.mem_cons_self)
        · exact hmax e' he'
      · rw [List.foldl_cons]
        simp only [hlt, if_true]
        exact hfold
    · obtain ⟨e, hmem, hmax, hfold⟩ := ih first
      refine ⟨e, ?_, fun e' he' => ?_, ?_⟩
      · rcases List.mem_cons.1 hmem with rfl | hmem
        · exact List.mem_cons_self
        · exact List.mem_cons_of_mem _ (List.mem_cons_of_mem _ hmem)
      · rcases List.mem_cons.1 he' with rfl | he'
        · exact hmax e' List.mem_cons_self
        · rcases List.mem_cons.1 he' with rfl | he'
          · exact (not_lt.1 hlt).trans (hmax first List.mem_cons_self)
          · exact hmax e' (List.mem_cons_of_mem _ he')
      · rw [List.foldl_cons]
        simp only [hlt, if_false]
        exact hfold

omit [Field F] in
theorem argmax_spec {values : List F} (hne : values ≠ []) :
    ∃ i v, values[i]? = some v ∧ (∀ w ∈ values, w ≤ v) ∧ argmax values = some (UInt32.ofNat i) := by
  obtain ⟨x, xs, rfl⟩ := List.exists_cons_of_ne_nil hne
  obtain ⟨⟨i, v⟩, hmem, hmax, hfold⟩ :=
    foldl_best_spec (xs.mapIdx fun i v => (i + 1, v)) (0, x)
  have hentries : ((x :: xs).mapIdx fun i v => (i, v)) =
      (0, x) :: xs.mapIdx fun i v => (i + 1, v) := List.mapIdx_cons
  rw [← hentries] at hmem hmax
  obtain ⟨j, hj, heq⟩ := List.mem_mapIdx.1 hmem
  obtain ⟨rfl, rfl⟩ := Prod.mk.inj heq
  refine ⟨j, _, List.getElem?_eq_getElem hj, fun w hw => ?_, ?_⟩
  · obtain ⟨k, hk, rfl⟩ := List.getElem_of_mem hw
    exact hmax (k, (x :: xs)[k]) (List.mem_mapIdx.2 ⟨k, hk, rfl⟩)
  · rw [argmax, hentries, List.foldl_cons]
    exact congrArg (Option.map fun best => UInt32.ofNat best.1) hfold

section Width

variable [IsStrictOrderedRing F] {exp ln : F → F} {logits : List F}

omit [IsStrictOrderedRing F] in
/-- `log_softmax` takes the same number from all logits. -/
theorem exists_logSoftmax_eq (exp ln : F → F) (logits : List F) :
    ∃ c, logSoftmax exp ln logits = logits.map fun v => v - c := by
  rcases logits with - | ⟨x, xs⟩
  · exact ⟨0, rfl⟩
  · refine ⟨xs.foldl max x + ln ((x :: xs).map fun v => exp (v - xs.foldl max x)).sum, ?_⟩
    rw [logSoftmax]
    refine List.map_congr_left fun v _ => ?_
    exact sub_sub _ _ _

/-- **The best token** of distinct logits is the greedy one. -/
theorem take_sort_eq (exp ln : F → F) (byLogprob : Descending F) (hne : logits ≠ [])
    (hdistinct : logits.Nodup) :
    ∃ token lp, argmax logits = some token ∧
      (byLogprob.sort Prod.snd ((logSoftmax exp ln logits).mapIdx fun i lp =>
        (UInt32.ofNat i, lp))).take 1 = [(token, lp)] := by
  obtain ⟨c, hsoftmax⟩ := exists_logSoftmax_eq exp ln logits
  obtain ⟨i, v, hi, hmax, hargmax⟩ := argmax_spec hne
  obtain ⟨hlt, hv⟩ := List.getElem?_eq_some_iff.1 hi
  rw [hsoftmax]
  set pairs := (logits.map fun v => v - c).mapIdx fun i lp => (UInt32.ofNat i, lp) with hpairs
  have hperm := byLogprob.perm Prod.snd pairs
  have hsorted := byLogprob.sorted Prod.snd pairs
  rcases hsort : byLogprob.sort Prod.snd pairs with - | ⟨best, rest⟩
  · have hlength := hperm.length_eq
    rw [hsort, hpairs, List.length_mapIdx, List.length_map, List.length_nil] at hlength
    omega
  · rw [hsort] at hperm hsorted
    -- The first pair is that of some logit, and no pair has a greater log-probability.
    obtain ⟨j, hj, rfl⟩ := List.mem_mapIdx.1 (hperm.mem_iff.1 List.mem_cons_self)
    rw [List.length_map] at hj
    have hown : (UInt32.ofNat i, logits[i] - c) ∈ pairs :=
      List.mem_mapIdx.2 ⟨i, by rwa [List.length_map], by rw [List.getElem_map]⟩
    have hge : logits[i] - c ≤ logits[j] - c := by
      rcases List.mem_cons.1 (hperm.mem_iff.2 hown) with heq | hmem
      · exact (Prod.mk.inj heq).2.le.trans_eq (by rw [List.getElem_map])
      · have hle := (List.pairwise_cons.1 hsorted).1 _ hmem
        rwa [List.getElem_map] at hle
    have hle := hmax _ (List.getElem_mem hj)
    have hsame : logits[i] = logits[j] := by
      refine le_antisymm (sub_le_sub_iff_right c |>.1 hge) ?_
      rw [hv]
      exact hle
    obtain rfl : i = j := (List.Nodup.getElem_inj_iff hdistinct).1 hsame
    exact ⟨_, _, hargmax, rfl⟩

omit [IsStrictOrderedRing F] in
/-- One hypothesis, sorted. -/
theorem sort_singleton (byScore : Descending (WithBot F)) (h : BeamHypothesis F) :
    byScore.sort s.score [h] = [h] := List.perm_singleton.1 (byScore.perm _ _)

omit [IsStrictOrderedRing F] in
theorem sort_nil (byScore : Descending (WithBot F)) : byScore.sort s.score [] = [] :=
  List.perm_nil.1 (byScore.perm _ _)

/-- **A round of width one** extends the hypothesis by the greedy token. -/
theorem round_one (hmath : s.math.logSoftmax = logSoftmax exp ln) (hwidth : s.config.beamWidth = 1)
    (hforward : s.forward h.tokens = .ok logits) (hdistinct : logits.Nodup) :
    argmax logits = none ∧ s.round ⟨[h], []⟩ = .ok ⟨[], []⟩ ∨
      ∃ token lp, argmax logits = some token ∧ s.round ⟨[h], []⟩ =
        .ok (if token == s.eosTokenId then ⟨[], [s.extend h token lp]⟩
          else ⟨[s.extend h token lp], []⟩) := by
  by_cases hne : logits = []
  · subst hne
    refine .inl ⟨rfl, ?_⟩
    have hnone : s.byLogprob.sort Prod.snd ([] : List (Token × F)) = [] :=
      List.perm_nil.1 (s.byLogprob.perm _ _)
    have hexpand : s.expand h = .ok [] := by
      rw [expand, hforward]
      show Except.ok (((s.byLogprob.sort Prod.snd ((s.math.logSoftmax []).mapIdx _)).take _).map _)
        = _
      rw [hmath]
      show Except.ok (((s.byLogprob.sort Prod.snd ([] : List (Token × F))).take _).map _) = _
      rw [hnone, List.take_nil]
      rfl
    rw [round]
    simp only [List.mapM_cons, List.mapM_nil, hexpand]
    show Except.ok (Beams.mk (((s.byScore.sort s.score []).take _).filter _)
      ([] ++ ((s.byScore.sort s.score []).take _).filter _)) = _
    rw [sort_nil, List.take_nil]
    rfl
  · obtain ⟨token, lp, hargmax, htake⟩ := take_sort_eq exp ln s.byLogprob hne hdistinct
    refine .inr ⟨token, lp, hargmax, ?_⟩
    have hexpand : s.expand h = .ok [s.extend h token lp] := by
      rw [expand, hforward]
      show Except.ok (((s.byLogprob.sort Prod.snd ((s.math.logSoftmax logits).mapIdx _)).take _).map
        _) = _
      rw [hmath, hwidth, htake]
      rfl
    rw [round]
    simp only [List.mapM_cons, List.mapM_nil, hexpand]
    show Except.ok (Beams.mk (((s.byScore.sort s.score [s.extend h token lp]).take _).filter _)
      ([] ++ ((s.byScore.sort s.score [s.extend h token lp]).take _).filter _)) = _
    rw [sort_singleton, hwidth, List.nil_append]
    rcases hend : token == s.eosTokenId with - | -
    · have hactive : (s.extend h token lp).finished = false := hend
      simp [hactive]
    · have hfinished : (s.extend h token lp).finished = true := hend
      simp [hfinished]

omit [IsStrictOrderedRing F] in
/-- Without active beams the loop is over. -/
theorem decodeLoop_of_nil (n : ℕ) (finished : List (BeamHypothesis F)) :
    s.decodeLoop n ⟨[], finished⟩ = .ok ⟨[], finished⟩ := by
  rcases n with - | n
  · rfl
  · rfl

/-- **The loop of width one** decodes greedily. -/
theorem decodeLoop_one (hmath : s.math.logSoftmax = logSoftmax exp ln)
    (hwidth : s.config.beamWidth = 1)
    (hdistinct : ∀ tokens logits, s.forward tokens = .ok logits → logits.Nodup) (n : ℕ)
    (h : BeamHypothesis F) :
    ((s.decodeLoop n ⟨[h], []⟩).map fun beams =>
        (beams.finished ++ beams.active).map BeamHypothesis.tokens) =
      (greedyDecode s n h.tokens).map Option.toList := by
  induction n generalizing h with
  | zero => rfl
  | succ n ih =>
    rw [decodeLoop, greedyDecode]
    rcases hforward : s.forward h.tokens with e | logits
    · have hround : s.round ⟨[h], []⟩ = .error e := by
        rw [round]
        simp only [List.mapM_cons, expand, hforward]
        rfl
      rw [hround]
      rfl
    · rcases round_one hmath hwidth hforward (hdistinct _ _ hforward) with
        ⟨hargmax, hround⟩ | ⟨token, lp, hargmax, hround⟩
      · rw [hround]
        show Except.map _ (if s.stops ⟨[], []⟩ = true then Except.ok ⟨[], []⟩
          else s.decodeLoop n ⟨[], []⟩) = Except.map _ (match argmax logits with
            | none => .ok none
            | some token => _)
        rw [decodeLoop_of_nil, ite_self, hargmax]
        rfl
      · rw [hround]
        rcases hend : token == s.eosTokenId with - | -
        · -- The search goes on with the extended hypothesis.
          show Except.map _ (if s.stops ⟨[s.extend h token lp], []⟩ = true then
              Except.ok ⟨[s.extend h token lp], []⟩
            else s.decodeLoop n ⟨[s.extend h token lp], []⟩) =
              Except.map _ (match argmax logits with
                | none => .ok none
                | some token => if token == s.eosTokenId then .ok (some (h.tokens ++ [token]))
                  else greedyDecode s n (h.tokens ++ [token]))
          have hgoes : s.stops ⟨[s.extend h token lp], []⟩ = false := by
            simp [stops]
          rw [hgoes, if_neg Bool.false_ne_true, ih, hargmax]
          simp only [hend]
          rfl
        · show Except.map _ (if s.stops ⟨[], [s.extend h token lp]⟩ = true then
              Except.ok ⟨[], [s.extend h token lp]⟩
            else s.decodeLoop n ⟨[], [s.extend h token lp]⟩) =
              Except.map _ (match argmax logits with
                | none => .ok none
                | some token => if token == s.eosTokenId then .ok (some (h.tokens ++ [token]))
                  else greedyDecode s n (h.tokens ++ [token]))
          rw [decodeLoop_of_nil, ite_self, hargmax]
          simp only [hend, if_true]
          rfl

/-- **A search of width one** is greedy decoding. -/
theorem beamGenerate_one (hmath : s.math.logSoftmax = logSoftmax exp ln)
    (hwidth : s.config.beamWidth = 1) (hprompt : s.promptTokens ≠ [])
    (hdistinct : ∀ tokens logits, s.forward tokens = .ok logits → logits.Nodup) :
    (s.beamGenerate.map fun hyps => hyps.map BeamHypothesis.tokens) =
      (greedyDecode s s.config.maxNewTokens s.promptTokens).map Option.toList := by
  have hgreedy := decodeLoop_one hmath hwidth hdistinct s.config.maxNewTokens
    ⟨s.promptTokens, 0, false⟩
  rw [beamGenerate, if_neg (by omega), if_neg (by simpa using hprompt), ← hgreedy]
  show _ = Except.map _ (s.decodeLoop s.config.maxNewTokens s.start)
  rcases hloop : s.decodeLoop s.config.maxNewTokens s.start with e | beams
  · rfl
  · -- There is at most one hypothesis to sort.
    have hresult : (beams.finished ++ beams.active).length ≤ 1 := by
      have hlist : (greedyDecode s s.config.maxNewTokens s.promptTokens).map Option.toList =
          .ok ((beams.finished ++ beams.active).map BeamHypothesis.tokens) := by
        rw [← hgreedy]
        show Except.map _ (s.decodeLoop s.config.maxNewTokens s.start) = _
        rw [hloop]
        rfl
      rcases hdecode : greedyDecode s s.config.maxNewTokens s.promptTokens with e | found
      · rw [hdecode] at hlist
        cases hlist
      · rw [hdecode] at hlist
        have hlength := congrArg List.length (Except.ok.inj hlist)
        rw [List.length_map] at hlength
        rw [← hlength]
        rcases found with - | tokens
        · exact Nat.zero_le 1
        · exact Nat.le_refl 1
    show Except.ok (((s.byScore.sort s.score (beams.finished ++ beams.active)).take
      s.config.beamWidth).map BeamHypothesis.tokens) = Except.ok _
    have hsame : (s.byScore.sort s.score (beams.finished ++ beams.active)).take s.config.beamWidth =
        beams.finished ++ beams.active := by
      rcases hall : beams.finished ++ beams.active with - | ⟨h, - | ⟨h', rest⟩⟩
      · rw [sort_nil, List.take_nil]
      · rw [sort_singleton, hwidth]
        rfl
      · rw [hall, List.length_cons, List.length_cons] at hresult
        omega
    rw [hsame]

end Width

end Search

end Search

/-! ### A small search -/

/-- Sorting by insertion, which leaves equal elements in their order. -/
def byInsertion (κ : Type) [LinearOrder κ] : Descending κ where
  sort key xs := xs.insertionSort fun a b => key b ≤ key a
  perm key xs := List.perm_insertionSort _ xs
  sorted {_} key xs := by
    have htotal : Std.Total fun a b => key b ≤ key a := ⟨fun a b => le_total (key b) (key a)⟩
    have htrans : IsTrans _ fun a b => key b ≤ key a := ⟨fun a b c hab hbc => hbc.trans hab⟩
    exact List.pairwise_insertionSort _ xs

/-- One beam over a vocabulary of two tokens, of which the second is the better one and ends the
sequence. -/
def oneBeam : Search ℚ ℕ Empty where
  math := ⟨logSoftmax (fun _ => 1) fun _ => 0, fun x p => x ^ p⟩
  byLogprob := byInsertion ℚ
  byScore := byInsertion (WithBot ℚ)
  forward _ := .ok [0, 1]
  promptTokens := [7]
  config := { beamWidth := 1, maxNewTokens := 3, lengthPenalty := 1, earlyStopping := true }
  eosTokenId := 1

end Beam

end Oxillama
