/-
Which decoding sequences a batch serves, and when none is passed over.

Phase 3 walks over the active list from its front, which nothing ever rotates:

* `decodeIds_schedule` — a batch decodes the first `room` of the eligible active
  sequences, where `room` is what phases 1 and 2 leave of both limits;
* `neverPassedOver` — **in a run that leaves room for all of them or for none, no
  sequence is passed over** while another is decoded twice;
* `not_neverPassedOver` — with room for one of two, the second always is.
-/
import Oxillama.Scheduler.Limits

namespace Oxillama

namespace Scheduler

/-! ### Decode entries -/

/-- The ids with a decode entry, in batch order. -/
def ScheduledBatch.decodeIds (b : ScheduledBatch) : List SeqId :=
  (b.entries.filter fun e => !e.2.2).map Prod.fst

/-- `id` is decoding, and neither stopped nor at its limit. -/
def isDecoding (s : Scheduler) (id : SeqId) : Bool :=
  match s.getSequence id with
  | some seq => seq.state = .decoding ∧ seq.stopped = false ∧ seq.atLimit = false
  | none => false

/-- The eligible sequences, in the order of the active list. -/
def decoders (s : Scheduler) : List SeqId := s.activeIds.filter s.isDecoding

/-- The decode entries that the limits leave room for. -/
def room (s : Scheduler) : ℕ :=
  min (s.config.maxBatchSequences - (s.promotable.length + s.prefillLoad.2))
    (s.config.maxBatchTokens - s.prefillLoad.1)

section Phase3

variable {s : Scheduler}

theorem decodeIds_push {b : ScheduledBatch} (h : b.Parallel) (id : SeqId) (toks : List UInt32)
    (p : Bool) : (b.push id toks p).decodeIds = b.decodeIds ++ if p then [] else [id] := by
  rw [ScheduledBatch.decodeIds, ScheduledBatch.entries_push h, List.filter_append,
    List.map_append]
  cases p <;> rfl

theorem isDecoding_congr {s' : Scheduler} {id : SeqId}
    (hget : s'.getSequence id = s.getSequence id) : s'.isDecoding id = s.isDecoding id := by
  rw [isDecoding, isDecoding, hget]

/-- A sequence in the middle of its prefill is not decoding. -/
theorem isDecoding_of_isPrefilling {id : SeqId} (h : s.isPrefilling id = true) :
    s.isDecoding id = false := by
  rw [isPrefilling] at h
  rw [isDecoding]
  cases hget : s.getSequence id with
  | none => rfl
  | some seq =>
    rw [hget] at h
    have hstate : seq.state = .prefilling := of_decide_eq_true h
    simp [hstate]

/-- Phase 3 decodes the first eligible sequences that are not in the batch yet. -/
theorem decodeIds_scheduleDecode {active : List SeqId} {b : ScheduledBatch} (hb : b.Parallel)
    (hnodup : active.Nodup) :
    (s.scheduleDecode active b).decodeIds = b.decodeIds ++
      (active.filter fun id => s.isDecoding id ∧ id ∉ b.seqIds).take
        (min (s.config.maxBatchSequences - b.seqIds.length)
          (s.config.maxBatchTokens - b.totalTokens)) := by
  induction active generalizing b with
  | nil => simp [scheduleDecode]
  | cons id active ih =>
    rw [List.nodup_cons] at hnodup
    rw [scheduleDecode]
    split
    · rename_i hfull
      rw [Nat.sub_eq_zero_of_le hfull, Nat.zero_min, List.take_zero, List.append_nil]
    split
    · rename_i hfull
      rw [Nat.sub_eq_zero_of_le hfull, Nat.min_zero, List.take_zero, List.append_nil]
    rename_i hseqs htokens
    -- an id that phase 3 passes over is not among the eligible ones
    have hskip : ¬ (s.isDecoding id = true ∧ id ∉ b.seqIds) →
        (s.scheduleDecode active b).decodeIds = b.decodeIds ++
          ((id :: active).filter fun id => s.isDecoding id ∧ id ∉ b.seqIds).take
            (min (s.config.maxBatchSequences - b.seqIds.length)
              (s.config.maxBatchTokens - b.totalTokens)) := by
      intro hno
      rw [ih hb hnodup.2, List.filter_cons_of_neg (by simpa using hno)]
    cases hget : s.getSequence id with
    | none => exact hskip fun hc => by simp [isDecoding, hget] at hc
    | some seq =>
      dsimp only
      split
      · rename_i hdec
        obtain ⟨hstate, hstopped, hlimit, hnew⟩ := hdec
        have hcount : min (s.config.maxBatchSequences - b.seqIds.length)
              (s.config.maxBatchTokens - b.totalTokens) =
            min (s.config.maxBatchSequences - (b.push id [seq.lastToken] false).seqIds.length)
              (s.config.maxBatchTokens - (b.push id [seq.lastToken] false).totalTokens) + 1 := by
          rw [ScheduledBatch.seqIds_push, ScheduledBatch.totalTokens_push, List.length_append,
            List.length_singleton, List.length_singleton]
          omega
        have hrest : (active.filter fun x =>
              s.isDecoding x ∧ x ∉ (b.push id [seq.lastToken] false).seqIds) =
            active.filter fun x => s.isDecoding x ∧ x ∉ b.seqIds := by
          refine List.filter_congr fun x hx => ?_
          have hne : x ≠ id := fun heq => hnodup.1 (heq ▸ hx)
          simp [hne]
        rw [ih (hb.push _ _ _) hnodup.2, hrest, decodeIds_push hb, hcount,
          List.filter_cons_of_pos (by simp [isDecoding, hget, hstate, hstopped, hlimit, hnew]),
          List.take_succ_cons, List.append_assoc]
        rfl
      · rename_i hno
        exact hskip fun hc => hno (by simpa [isDecoding, hget, and_assoc] using hc)

end Phase3

/-! ### The whole call -/

section Prefills

variable {P : ScheduledBatch → Prop}

/-- What every prefill entry preserves, phase 1 preserves. -/
theorem promoteWaiting_prefills (hP : ∀ b id toks, P b → P (b.push id toks true))
    {queue : List SeqId} {s s' : Scheduler} {b b' : ScheduledBatch}
    (h : promoteWaiting queue s b = some (s', b')) (hb : P b) : P b' := by
  induction queue generalizing s b with
  | nil =>
    simp only [promoteWaiting, Option.some_inj, Prod.mk.injEq] at h
    exact h.2 ▸ hb
  | cons id queue ih =>
    rw [promoteWaiting] at h
    split at h
    · dsimp only at h
      split at h
      · exact ih h hb
      · simp only [Option.bind_eq_bind, Option.bind_eq_some_iff, Prod.exists] at h
        obtain ⟨-, -, toks, seq', -, h⟩ := h
        exact ih h (hP b id toks hb)
    · simp only [Option.some_inj, Prod.mk.injEq] at h
      exact h.2 ▸ hb

/-- What every prefill entry preserves, phase 2 preserves. -/
theorem continuePrefill_prefills (hP : ∀ b id toks, P b → P (b.push id toks true))
    {active : List SeqId} {s s' : Scheduler} {b b' : ScheduledBatch} (hpos : s.PosBounded)
    (h : continuePrefill active s b = some (s', b')) (hb : P b) : P b' := by
  induction active generalizing s b with
  | nil =>
    simp only [continuePrefill, Option.some_inj, Prod.mk.injEq] at h
    exact h.2 ▸ hb
  | cons id active ih =>
    by_cases hfull : s.config.maxBatchTokens ≤ b.totalTokens
    · rw [continuePrefill, if_pos hfull] at h
      simp only [Option.some_inj, Prod.mk.injEq] at h
      exact h.2 ▸ hb
    · rcases continuePrefill_cons hpos hfull with ⟨-, -, seq, chunk, -, -, hfit, heq⟩ | ⟨-, heq⟩
      · rw [heq] at h
        exact ih (hpos.setSequence hfit) h (hP b id _ hb)
      · rw [heq] at h
        exact ih hpos h hb

end Prefills

/-- **Whom a batch decodes**: the first eligible active sequences, as many as there is
room for. -/
theorem decodeIds_schedule {cfg : SchedulerConfig} {s s' : Scheduler} {b : ScheduledBatch}
    (hb : Bookkeeping cfg s) (h : s.schedule = some (s', b)) :
    b.decodeIds = s.decoders.take s.room := by
  simp only [schedule, Option.bind_eq_bind, Option.bind_eq_some_iff, Prod.exists,
    Option.some_inj, Prod.mk.injEq] at h
  obtain ⟨s₁, b₁, h1, s₂, b₂, h2, -, rfl⟩ := h
  obtain ⟨htotal, hlen, hcfg, hactive, hnodup, hpromoted, hrest⟩ := prefillPhases_spec hb h1 h2
  have hbook₁ : Bookkeeping cfg s₁ :=
    moves_induction (P := fun s _ => Bookkeeping cfg s) bookkeeping_move
      (promoteWaiting_moves rfl h1) hb
  -- phases 1 and 2 decode nothing
  have hP : ∀ (b : ScheduledBatch) id toks, b.Parallel ∧ b.decodeIds = [] →
      (b.push id toks true).Parallel ∧ (b.push id toks true).decodeIds = [] := by
    rintro b id toks ⟨hparallel, hnone⟩
    exact ⟨hparallel.push _ _ _, by rw [decodeIds_push hparallel, hnone]; rfl⟩
  obtain ⟨hparallel, hnone⟩ := continuePrefill_prefills hP hbook₁.posBounded h2
    (promoteWaiting_prefills hP h1 ⟨⟨rfl, rfl⟩, rfl⟩)
  have hold : s.activeIds.filter (fun id => s₂.isDecoding id ∧ id ∉ b₂.seqIds) = s.decoders := by
    refine List.filter_congr fun id hid => ?_
    obtain ⟨hin, hout⟩ := hrest id hid
    by_cases hmem : id ∈ b₂.seqIds
    · rw [isDecoding_of_isPrefilling (hin hmem)]
      simp [hmem]
    · rw [isDecoding_congr (hout hmem)]
      simp [hmem]
  have hnew : s.promotable.filter (fun id => s₂.isDecoding id ∧ id ∉ b₂.seqIds) = [] :=
    List.filter_eq_nil_iff.mpr fun id hid => by simp [hpromoted id hid]
  rw [decodeIds_scheduleDecode hparallel hnodup, hnone, List.nil_append, hactive,
    List.filter_append, hold, hnew, List.append_nil, hcfg, htotal, hlen, room, hb.config_eq]

/-! ### Nobody is passed over -/

/-- `id` is active, decoding and below its limit. -/
def Eligible (s : Scheduler) (id : SeqId) : Prop :=
  id ∈ s.activeIds ∧ ∃ seq, s.getSequence id = some seq ∧ seq.state = .decoding ∧
    seq.atLimit = false

/-- A call of `schedule` finds room for all eligible sequences, or for none. -/
def Roomy (s : Scheduler) : Op → Prop
  | .schedule => s.room = 0 ∨ s.decoders.length ≤ s.room
  | _ => True

/-- The calls of `tr` lead from `s` to `s'`; before each `id` is eligible, and no batch
of them decodes it. -/
inductive PassedOver (id : SeqId) : Scheduler → List (Op × Answer) → Scheduler → Prop
  | nil (s : Scheduler) : PassedOver id s [] s
  | cons {s s' s'' : Scheduler} {op : Op} {a : Answer} {tr : List (Op × Answer)}
      (heligible : s.Eligible id) (hs : step s op = some (s', a))
      (hnot : ∀ b, a = .batch b → id ∉ b.decodeIds) (hrest : PassedOver id s' tr s'') :
      PassedOver id s ((op, a) :: tr) s''

/-- From a batch that decodes one sequence to a later one that does again, no other
sequence is passed over. -/
def NeverPassedOver (cfg : SchedulerConfig) (tr : List (Op × Answer)) : Prop :=
  ∀ before between after b₁ b₂ s s' id id',
    tr = before ++ (.schedule, .batch b₁) :: between ++ (.schedule, .batch b₂) :: after →
    RunFrom cfg before s → id ∈ b₁.decodeIds → id ∈ b₂.decodeIds →
    ¬ PassedOver id' s ((.schedule, .batch b₁) :: between ++ [(.schedule, .batch b₂)]) s'

/-- No active sequence is stopped. -/
def ActiveRunning (s : Scheduler) : Prop :=
  ∀ id ∈ s.activeIds, ∀ seq, s.getSequence id = some seq → seq.stopped = false

theorem activeRunning_removeSequence {s : Scheduler} (h : ActiveRunning s) (id : SeqId) :
    ActiveRunning (s.removeSequence id) := by
  intro x hx seq hget
  have hx : x ∈ s.activeIds := (List.mem_filter.mp hx).1
  exact h x hx seq (getSequence_removeSequence_eq_some.mp hget).2

theorem activeRunning_step {s s' : Scheduler} {op : Op} {a : Answer} (h : ActiveRunning s)
    (hs : step s op = some (s', a)) : ActiveRunning s' := by
  cases op with
  | schedule =>
    obtain ⟨b, hsched, -⟩ := step_schedule_eq_some.mp hs
    obtain ⟨s₁, -, rfl⟩ := schedule_moves hsched
    -- the clean-up keeps no terminal sequence
    intro id hid seq hget
    have hkept := (List.mem_filter.mp hid).2
    rw [getSequence_cleanUp] at hget
    rw [hget] at hkept
    exact (Sequence.terminal_eq_false.mp (by simpa using hkept)).2.1
  | addRequest p m =>
    simp only [step, Option.some_inj, Prod.mk.injEq] at hs
    obtain ⟨rfl, -⟩ := hs
    intro id hid seq hget
    rcases getSequence_addRequest_eq_some hget with ⟨-, rfl⟩ | hold
    · rfl
    · exact h id hid seq hold
  | appendToken id t =>
    simp only [step, Option.some_inj, Prod.mk.injEq] at hs
    obtain ⟨rfl, -⟩ := hs
    intro x hx seq hget
    rw [appendToken, activeIds_modifySequence] at hx
    rcases getSequence_modifySequence_eq_some _ _ hget with hold | ⟨seq₀, hold, rfl⟩
    · exact h x hx seq hold
    · exact h x hx seq₀ hold
  | finishSequence id =>
    simp only [step, Option.some_inj, Prod.mk.injEq] at hs
    obtain ⟨rfl, -⟩ := hs
    intro x hx seq hget
    obtain ⟨hx, hne⟩ := List.mem_filter.mp hx
    rw [activeIds_modifySequence] at hx
    have hne : x ≠ id := by simpa using hne
    refine h x hx seq ?_
    have hframe := getSequence_modifySequence s id
      (fun seq => { seq with state := .finished, stopped := true }) x
    rw [if_neg hne] at hframe
    exact hframe ▸ hget
  | removeSequence id =>
    simp only [step, Option.some_inj, Prod.mk.injEq] at hs
    exact hs.1 ▸ activeRunning_removeSequence h id
  | drainFinished =>
    simp only [step, Option.some_inj, Prod.mk.injEq] at hs
    exact hs.1 ▸ drainIds_invariant (P := ActiveRunning)
      (fun _ id hs => activeRunning_removeSequence hs id) h

theorem activeRunning_runFrom {cfg : SchedulerConfig} {tr : List (Op × Answer)} {s : Scheduler}
    (h : RunFrom cfg tr s) : ActiveRunning s :=
  h.invariant activeRunning_step fun _ hid => absurd hid List.not_mem_nil

theorem Eligible.mem_decoders {s : Scheduler} {id : SeqId} (hrunning : ActiveRunning s)
    (h : s.Eligible id) : id ∈ s.decoders := by
  obtain ⟨hactive, seq, hget, hstate, hlimit⟩ := h
  have hstopped := hrunning id hactive seq hget
  refine List.mem_filter.mpr ⟨hactive, ?_⟩
  simp [isDecoding, hget, hstate, hstopped, hlimit]

/-- **One batch.**  With room for all or for none, a batch that decodes a sequence
decodes every eligible one. -/
theorem Roomy.mem_decodeIds {cfg : SchedulerConfig} {s s' : Scheduler} {b : ScheduledBatch}
    {id id' : SeqId} (hb : Bookkeeping cfg s) (hrunning : ActiveRunning s)
    (hroomy : Roomy s .schedule) (h : s.schedule = some (s', b)) (hid : id ∈ b.decodeIds)
    (heligible : s.Eligible id') : id' ∈ b.decodeIds := by
  have hmem := heligible.mem_decoders hrunning
  rw [decodeIds_schedule hb h] at hid ⊢
  rcases hroomy with hzero | hall
  · rw [hzero, List.take_zero] at hid
    cases hid
  · rwa [List.take_of_length_le hall]

/-- **Nobody is passed over** in a run whose every batch has room for all eligible
sequences or for none. -/
theorem neverPassedOver {cfg : SchedulerConfig} {tr : List (Op × Answer)} {s : Scheduler}
    (hr : RunFrom cfg tr s) (hroomy : StepsMeet step Roomy (new cfg) (tr.map Prod.fst)) :
    NeverPassedOver cfg tr := by
  rintro before between after b₁ b₂ m m' id id' rfl hbefore hid - hpassed
  rw [List.append_assoc, List.map_append] at hroomy
  have hmeet := (hroomy.of_run hbefore).1
  obtain _ | ⟨heligible, hs, hnot, -⟩ := hpassed
  obtain ⟨b, hsched, hanswer⟩ := step_schedule_eq_some.mp hs
  obtain rfl := Answer.batch.inj hanswer
  exact hnot b₁ rfl (hmeet.mem_decodeIds (bookkeeping_runFrom hbefore)
    (activeRunning_runFrom hbefore) hsched hid heligible)

/-- Two requests that decode side by side. -/
theorem neverPassedOver_two_requests : ∃ tr s, RunFrom ⟨2, 4, 2, 4⟩ tr s ∧
    tr.map Prod.fst = [.addRequest [7] 10, .addRequest [8] 10, .schedule, .schedule] ∧
    NeverPassedOver ⟨2, 4, 2, 4⟩ tr := by
  have hr : RunFrom ⟨2, 4, 2, 4⟩ _ _ :=
    .cons (i := .addRequest [7] 10) rfl (.cons (i := .addRequest [8] 10) rfl
      (.cons (i := .schedule) rfl (.cons (i := .schedule) rfl (.nil _))))
  refine ⟨_, _, hr, rfl, neverPassedOver hr ?_⟩
  exact .cons rfl trivial (.cons rfl trivial (.cons rfl (.inr (by decide))
    (.cons rfl (.inr (by decide)) trivial)))

/-- With one decode entry a batch, the first of two sequences is decoded every time. -/
theorem not_neverPassedOver_second : ¬ ∀ (cfg : SchedulerConfig) (tr : List (Op × Answer))
    (s : Scheduler), RunFrom cfg tr s → NeverPassedOver cfg tr := by
  intro hall
  let first : ScheduledBatch := ⟨[1], [[7]], [false]⟩
  have hbefore : RunFrom ⟨2, 4, 1, 4⟩ _ _ :=
    .cons (i := .addRequest [7] 10) rfl (.cons (i := .addRequest [8] 10) rfl
      (.cons (i := .schedule) rfl (.cons (i := .schedule) rfl (.nil _))))
  have hnever := hall _ _ _
    (hbefore.append (.cons (i := .schedule) rfl (.cons (i := .schedule) rfl (.nil _))))
  have hnot : ∀ b, Answer.batch first = .batch b → 2 ∉ b.decodeIds := by
    intro b hb
    obtain rfl := Answer.batch.inj hb
    decide
  exact hnever _ [] [] first first _ _ 1 2 rfl hbefore (by decide) (by decide)
    (.cons ⟨by decide, _, rfl, rfl, rfl⟩ rfl hnot
      (.cons ⟨by decide, _, rfl, rfl, rfl⟩ rfl hnot (.nil _)))

end Scheduler

end Oxillama
