/-
Chunked prefill tiles the prompt.

Along a run, the prefill entries of a sequence carry consecutive pieces of its
prompt: concatenated in batch order they are `prompt_tokens[0..prompt_pos]`,
and a decode entry appears only once they are the whole prompt
(`prefill_tiles`).

`Filling` is what holds while `schedule` fills one batch, after the batches
`hist`; `filling_move` checks it for each move.  `Tiling` is what holds between
calls; it speaks about the trace, since the batches already answered and the
prompts already requested are not part of the scheduler's state.
-/
import Oxillama.Scheduler.Bookkeeping

namespace Oxillama

namespace Scheduler

/-! ### Entries of a batch -/

namespace ScheduledBatch

/-- The three vectors of a batch are parallel. -/
def Parallel (b : ScheduledBatch) : Prop :=
  b.tokens.length = b.seqIds.length ∧ b.isPrefill.length = b.seqIds.length

/-- The entries of a batch: id, tokens and whether it is a prefill. -/
def entries (b : ScheduledBatch) : List (SeqId × List UInt32 × Bool) :=
  b.seqIds.zip (b.tokens.zip b.isPrefill)

/-- The prefill tokens a batch carries for `id`. -/
def prefilled (id : SeqId) (b : ScheduledBatch) : List UInt32 :=
  (b.entries.filter fun e => e.1 = id ∧ e.2.2 = true).flatMap fun e => e.2.1

theorem Parallel.push {b : ScheduledBatch} (h : b.Parallel) (id : SeqId) (toks : List UInt32)
    (p : Bool) : (b.push id toks p).Parallel := by
  simpa [Parallel, ScheduledBatch.push] using h

theorem entries_push {b : ScheduledBatch} (h : b.Parallel) (id : SeqId) (toks : List UInt32)
    (p : Bool) : (b.push id toks p).entries = b.entries ++ [(id, toks, p)] := by
  have hlen : b.seqIds.length = (b.tokens.zip b.isPrefill).length := by
    rw [List.length_zip, h.1, h.2, Nat.min_self]
  simp only [entries, push]
  rw [List.zip_append (by rw [h.1, h.2]), List.zip_append hlen]
  rfl

theorem prefilled_push {b : ScheduledBatch} (h : b.Parallel) (id id' : SeqId)
    (toks : List UInt32) (p : Bool) :
    (b.push id' toks p).prefilled id =
      b.prefilled id ++ if id' = id ∧ p = true then toks else [] := by
  rw [prefilled, entries_push h, List.filter_append, List.flatMap_append]
  congr 1
  by_cases hc : id' = id ∧ p = true
  · simp [hc.1, hc.2]
  · have hskip : ([(id', toks, p)].filter fun e => e.1 = id ∧ e.2.2 = true) = [] :=
      List.filter_eq_nil_iff.mpr (by simpa using hc)
    rw [if_neg hc, hskip, List.flatMap_nil]

theorem fst_mem_of_mem_entries {b : ScheduledBatch} {e : SeqId × List UInt32 × Bool}
    (h : e ∈ b.entries) : e.1 ∈ b.seqIds :=
  (List.of_mem_zip h).1

theorem prefilled_eq_nil {b : ScheduledBatch} {id : SeqId} (h : id ∉ b.seqIds) :
    b.prefilled id = [] := by
  rw [prefilled, List.filter_eq_nil_iff.mpr, List.flatMap_nil]
  intro e he
  have hne : e.1 ≠ id := fun heq => h (heq ▸ fst_mem_of_mem_entries he)
  simp [hne]

end ScheduledBatch

/-! ### What a trace says -/

/-- The batches `schedule` returned, in order. -/
def batchesOf (tr : List (Op × Answer)) : List ScheduledBatch :=
  tr.filterMap fun e => match e.2 with
    | .batch b => some b
    | _ => none

/-- The prefill tokens the batches `bs` carry for `id`, in order. -/
def prefilledIn (id : SeqId) (bs : List ScheduledBatch) : List UInt32 :=
  bs.flatMap (ScheduledBatch.prefilled id)

/-- `add_request` was called with prompt `p` and answered `id`. -/
def Requested (tr : List (Op × Answer)) (id : SeqId) (p : List UInt32) : Prop :=
  ∃ m, (Op.addRequest p m, Answer.id id) ∈ tr

@[simp] theorem batchesOf_append (tr tr' : List (Op × Answer)) :
    batchesOf (tr ++ tr') = batchesOf tr ++ batchesOf tr' := by
  simp [batchesOf]

@[simp] theorem prefilledIn_append (id : SeqId) (bs bs' : List ScheduledBatch) :
    prefilledIn id (bs ++ bs') = prefilledIn id bs ++ prefilledIn id bs' := by
  simp [prefilledIn]

@[simp] theorem prefilledIn_singleton (id : SeqId) (b : ScheduledBatch) :
    prefilledIn id [b] = b.prefilled id := by
  simp [prefilledIn]

theorem Requested.append {tr tr' : List (Op × Answer)} {id : SeqId} {p : List UInt32}
    (h : Requested tr id p) : Requested (tr ++ tr') id p :=
  let ⟨m, hm⟩ := h
  ⟨m, List.mem_append_left _ hm⟩

/-! ### Filling one batch -/

/-- What holds while `schedule`, called in `s₀` after the batches `hist`, fills
the batch `b`. -/
structure Filling (hist : List ScheduledBatch) (s₀ s : Scheduler) (b : ScheduledBatch) :
    Prop where
  parallel : b.Parallel
  nodup : b.seqIds.Nodup
  /-- Only active sequences get an entry. -/
  entered_active : ∀ id ∈ b.seqIds, id ∈ s.activeIds
  nextId_eq : s.nextId = s₀.nextId
  /-- Prompts are never edited. -/
  prompt_frame : ∀ id, (s.getSequence id).map (·.promptTokens) =
    (s₀.getSequence id).map (·.promptTokens)
  tiles : ∀ id seq, s.getSequence id = some seq →
    prefilledIn id hist ++ b.prefilled id = seq.promptTokens.take seq.promptPos
  decoded : ∀ id toks, (id, toks, false) ∈ b.entries → ∃ seq, s.getSequence id = some seq ∧
    prefilledIn id hist = seq.promptTokens

theorem Sequence.take_advanced (seq : Sequence) (chunk : ℕ) :
    (seq.advanced chunk).promptTokens.take (seq.advanced chunk).promptPos =
      seq.promptTokens.take seq.promptPos ++ seq.chunkTokens chunk :=
  List.take_add

/-- The write both prefill phases make: the next chunk of `id` enters the batch. -/
theorem Filling.chunk {hist : List ScheduledBatch} {s₀ s : Scheduler} {b : ScheduledBatch}
    {id : SeqId} {seq : Sequence} (h : Filling hist s₀ s b) (hnew : id ∉ b.seqIds)
    (hactive : id ∈ s.activeIds) (hget : s.getSequence id = some seq) (chunk : ℕ) :
    Filling hist s₀ (s.setSequence id (seq.advanced chunk))
      (b.push id (seq.chunkTokens chunk) true) where
  parallel := h.parallel.push _ _ _
  nodup := by
    rw [ScheduledBatch.seqIds_push]
    exact h.nodup.append (by simp) (by simpa using hnew)
  entered_active := by
    intro x hx
    rcases List.mem_append.mp hx with hx | hx
    · exact h.entered_active x hx
    · exact List.mem_singleton.mp hx ▸ hactive
  nextId_eq := h.nextId_eq
  prompt_frame := by
    intro x
    rw [← h.prompt_frame x]
    by_cases hx : x = id
    · subst hx
      rw [getSequence_setSequence_self, hget]
      rfl
    · rw [getSequence_setSequence_ne _ _ _ hx]
  tiles := by
    intro x q hq
    rw [ScheduledBatch.prefilled_push h.parallel]
    by_cases hx : x = id
    · -- the chunk starts where the prefix already scheduled ends
      subst hx
      rw [getSequence_setSequence_self, Option.some_inj] at hq
      rw [← hq, Sequence.take_advanced, ← h.tiles x seq hget]
      simp
    · rw [getSequence_setSequence_ne _ _ _ hx] at hq
      rw [if_neg (fun hc => hx hc.1.symm), List.append_nil]
      exact h.tiles x q hq
  decoded := by
    intro x toks hx
    rw [ScheduledBatch.entries_push h.parallel] at hx
    rcases List.mem_append.mp hx with hx | hx
    · obtain ⟨q, hq, hfull⟩ := h.decoded x toks hx
      have hne : x ≠ id := fun heq => hnew (heq ▸ ScheduledBatch.fst_mem_of_mem_entries hx)
      exact ⟨q, by rw [getSequence_setSequence_ne _ _ _ hne]; exact hq, hfull⟩
    · simp at hx

/-- **One move.** -/
theorem filling_move {cfg : SchedulerConfig} {hist : List ScheduledBatch}
    {s₀ s s' : Scheduler} {b b' : ScheduledBatch} (hb : Bookkeeping cfg s)
    (h : Filling hist s₀ s b) (hm : Move (s, b) (s', b')) : Filling hist s₀ s' b' := by
  cases hm with
  | skip hq hget =>
    exact { h with }
  | @promote _ _ id queue seq chunk hq hget hactive hbatch hchunk =>
    -- entries are active and the promoted id is waiting: it has no entry yet
    have hnew : id ∉ b.seqIds := fun hid =>
      hb.disjoint id (by rw [hq]; exact List.mem_cons_self) (h.entered_active id hid)
    have hmoved : Filling hist s₀
        { s with waitingQueue := queue, activeIds := s.activeIds ++ [id] } b :=
      { h with entered_active := fun x hx => List.mem_append_left _ (h.entered_active x hx) }
    exact hmoved.chunk hnew (by simp) hget chunk
  | prefill hactive hnew hget hstate hchunk =>
    exact h.chunk hnew hactive hget _
  | @decode _ _ id seq hactive hnew hget hstate hstopped hlimit =>
    -- nothing was scheduled for `id` in this batch, and its prompt is used up
    have hfull : prefilledIn id hist = seq.promptTokens := by
      have htiles := h.tiles id seq hget
      rwa [ScheduledBatch.prefilled_eq_nil hnew, List.append_nil,
        hb.decoding_full id seq hget hstate, List.take_length] at htiles
    exact {
      parallel := h.parallel.push _ _ _
      nodup := by
        rw [ScheduledBatch.seqIds_push]
        exact h.nodup.append (by simp) (by simpa using hnew)
      entered_active := by
        intro x hx
        rcases List.mem_append.mp hx with hx | hx
        · exact h.entered_active x hx
        · exact List.mem_singleton.mp hx ▸ hactive
      nextId_eq := h.nextId_eq
      prompt_frame := h.prompt_frame
      tiles := by
        intro x q hq
        rw [ScheduledBatch.prefilled_push h.parallel, if_neg (by simp), List.append_nil]
        exact h.tiles x q hq
      decoded := by
        intro x toks hx
        rw [ScheduledBatch.entries_push h.parallel] at hx
        rcases List.mem_append.mp hx with hx | hx
        · exact h.decoded x toks hx
        · simp only [List.mem_singleton, Prod.mk.injEq] at hx
          exact ⟨seq, hx.1 ▸ hget, hx.1 ▸ hfull⟩ }

/-! ### Between calls -/

/-- What holds of a state and the trace that led to it. -/
structure Tiling (tr : List (Op × Answer)) (s : Scheduler) : Prop where
  known : ∀ id seq, s.getSequence id = some seq → Requested tr id seq.promptTokens
  unique : ∀ id p p', Requested tr id p → Requested tr id p' → p = p'
  fresh : ∀ id p, Requested tr id p → id < s.nextId
  tiles : ∀ id seq, s.getSequence id = some seq →
    prefilledIn id (batchesOf tr) = seq.promptTokens.take seq.promptPos
  initial : ∀ id p, Requested tr id p → prefilledIn id (batchesOf tr) <+: p
  unrequested : ∀ id, s.nextId ≤ id → prefilledIn id (batchesOf tr) = []
  wellFormed : ∀ b ∈ batchesOf tr, b.Parallel ∧ b.seqIds.Nodup
  decoded : ∀ pre b post, batchesOf tr = pre ++ b :: post → ∀ id toks,
    (id, toks, false) ∈ b.entries → ∃ p, Requested tr id p ∧ prefilledIn id pre = p

theorem tiling_new (cfg : SchedulerConfig) : Tiling [] (new cfg) where
  known := by simp [new, getSequence]
  unique := by rintro id p p' ⟨m, hm⟩; simp at hm
  fresh := by rintro id p ⟨m, hm⟩; simp at hm
  tiles := by simp [new, getSequence]
  initial := by rintro id p ⟨m, hm⟩; simp at hm
  unrequested := by intro id _; rfl
  wellFormed := by simp [batchesOf]
  decoded := by simp [batchesOf]

theorem requested_snoc {tr : List (Op × Answer)} {op : Op} {a : Answer} {id : SeqId}
    {p : List UInt32} (h : ∀ p m, op ≠ .addRequest p m) :
    Requested (tr ++ [(op, a)]) id p ↔ Requested tr id p := by
  constructor
  · rintro ⟨m, hm⟩
    rcases List.mem_append.mp hm with hm | hm
    · exact ⟨m, hm⟩
    · simp only [List.mem_singleton, Prod.mk.injEq] at hm
      exact absurd hm.1.symm (h p m)
  · exact fun h => h.append

/-- A call that requests nothing, schedules nothing and only forgets sequences
or edits them outside their prompt. -/
theorem Tiling.frame {tr : List (Op × Answer)} {s s' : Scheduler} {op : Op} {a : Answer}
    (h : Tiling tr s) (hop : ∀ p m, op ≠ .addRequest p m) (ha : ∀ b, a ≠ .batch b)
    (hnext : s'.nextId = s.nextId)
    (hget : ∀ id seq', s'.getSequence id = some seq' → ∃ seq, s.getSequence id = some seq ∧
      seq'.promptTokens = seq.promptTokens ∧ seq'.promptPos = seq.promptPos) :
    Tiling (tr ++ [(op, a)]) s' := by
  have hbatches : batchesOf (tr ++ [(op, a)]) = batchesOf tr := by
    cases a with
    | batch b => exact absurd rfl (ha b)
    | _ => simp [batchesOf]
  exact {
    known := by
      intro id seq' hid
      obtain ⟨seq, hseq, hp, -⟩ := hget id seq' hid
      rw [requested_snoc hop, hp]
      exact h.known id seq hseq
    unique := by
      simp only [requested_snoc hop]
      exact h.unique
    fresh := by
      simp only [requested_snoc hop, hnext]
      exact h.fresh
    tiles := by
      intro id seq' hid
      obtain ⟨seq, hseq, hp, hpos⟩ := hget id seq' hid
      rw [hbatches, hp, hpos]
      exact h.tiles id seq hseq
    initial := by
      simp only [requested_snoc hop, hbatches]
      exact h.initial
    unrequested := by
      rw [hnext, hbatches]
      exact h.unrequested
    wellFormed := by
      rw [hbatches]
      exact h.wellFormed
    decoded := by
      simp only [requested_snoc hop, hbatches]
      exact h.decoded }

theorem tiling_schedule {cfg : SchedulerConfig} {tr : List (Op × Answer)} {s s' : Scheduler}
    {b : ScheduledBatch} (hb : Bookkeeping cfg s) (h : Tiling tr s)
    (hs : s.schedule = some (s', b)) : Tiling (tr ++ [(.schedule, .batch b)]) s' := by
  have hinit : Filling (batchesOf tr) s s .empty := {
    parallel := ⟨rfl, rfl⟩
    nodup := List.nodup_nil
    entered_active := by simp
    nextId_eq := rfl
    prompt_frame := fun _ => rfl
    tiles := by
      intro id seq hid
      rw [ScheduledBatch.prefilled_eq_nil (by simp), List.append_nil]
      exact h.tiles id seq hid
    decoded := by simp [ScheduledBatch.entries, ScheduledBatch.empty] }
  obtain ⟨s₁, ⟨hb₁, hf⟩, rfl⟩ := schedule_induction
    (P := fun s₁ b => Bookkeeping cfg s₁ ∧ Filling (batchesOf tr) s s₁ b)
    (fun hP hm => ⟨bookkeeping_move hP.1 hm, filling_move hP.1 hP.2 hm⟩) hs ⟨hb, hinit⟩
  have hop : ∀ p m, Op.schedule ≠ .addRequest p m := by simp
  have hbatches : batchesOf (tr ++ [(.schedule, .batch b)]) = batchesOf tr ++ [b] := by
    rw [batchesOf_append]
    rfl
  have hprompt : ∀ id seq, s₁.getSequence id = some seq → Requested tr id seq.promptTokens := by
    intro id seq hid
    have hframe := hf.prompt_frame id
    rw [hid] at hframe
    obtain ⟨seq₀, hseq₀, hp⟩ := Option.map_eq_some_iff.mp hframe.symm
    rw [← show seq₀.promptTokens = seq.promptTokens from hp]
    exact h.known id seq₀ hseq₀
  have hunknown : ∀ id, s₁.getSequence id = none → b.prefilled id = [] := by
    intro id hid
    refine ScheduledBatch.prefilled_eq_nil fun hmem => ?_
    have hsome := hb₁.active_known id (hf.entered_active id hmem)
    rw [hid] at hsome
    exact absurd hsome (by simp)
  exact {
    known := by
      intro id seq hid
      rw [requested_snoc hop]
      exact hprompt id seq hid
    unique := by
      simp only [requested_snoc hop]
      exact h.unique
    fresh := by
      intro id p hp
      rw [requested_snoc hop] at hp
      show id < s₁.nextId
      rw [hf.nextId_eq]
      exact h.fresh id p hp
    tiles := by
      intro id seq hid
      rw [hbatches, prefilledIn_append, prefilledIn_singleton]
      exact hf.tiles id seq hid
    initial := by
      intro id p hp
      rw [requested_snoc hop] at hp
      rw [hbatches, prefilledIn_append, prefilledIn_singleton]
      -- a sequence that has left the scheduler gets nothing more
      cases hid : s₁.getSequence id with
      | none =>
        rw [hunknown id hid, List.append_nil]
        exact h.initial id p hp
      | some seq =>
        rw [hf.tiles id seq hid, h.unique id p _ hp (hprompt id seq hid)]
        exact List.take_prefix _ _
    unrequested := by
      intro id hid
      rw [hbatches, prefilledIn_append, prefilledIn_singleton]
      have hid' : s.nextId ≤ id := hf.nextId_eq ▸ hid
      rw [h.unrequested id hid', List.nil_append]
      cases hget : s₁.getSequence id with
      | none => exact hunknown id hget
      | some seq =>
        have hlt := hb₁.fresh id (by rw [hget]; rfl)
        rw [hf.nextId_eq] at hlt
        exact absurd hlt (Nat.not_lt.mpr hid')
    wellFormed := by
      intro b' hb'
      rw [hbatches] at hb'
      rcases List.mem_append.mp hb' with hb' | hb'
      · exact h.wellFormed b' hb'
      · exact List.mem_singleton.mp hb' ▸ ⟨hf.parallel, hf.nodup⟩
    decoded := by
      intro pre b' post hsplit id toks hentry
      rw [hbatches] at hsplit
      simp only [requested_snoc hop]
      rcases List.eq_nil_or_concat post with rfl | ⟨post', b'', rfl⟩
      · -- the last batch is the one just filled
        obtain ⟨rfl, hlast⟩ := List.append_inj' hsplit rfl
        obtain rfl := (List.cons.inj hlast).1
        obtain ⟨seq, hseq, hfull⟩ := hf.decoded id toks hentry
        exact ⟨seq.promptTokens, hprompt id seq hseq, hfull⟩
      · have hsplit' : batchesOf tr ++ [b] = (pre ++ b' :: post') ++ [b''] := by
          rw [hsplit]
          simp
        exact h.decoded pre b' post' (List.append_inj' hsplit' rfl).1 id toks hentry }

theorem tiling_addRequest {tr : List (Op × Answer)} {s : Scheduler} (h : Tiling tr s)
    (p : List UInt32) (m : ℕ) :
    Tiling (tr ++ [(.addRequest p m, .id s.nextId)]) (s.addRequest p m).1 := by
  have hbatches : batchesOf (tr ++ [(.addRequest p m, .id s.nextId)]) = batchesOf tr := by
    simp [batchesOf]
  have hreq : ∀ id q, Requested (tr ++ [(.addRequest p m, .id s.nextId)]) id q ↔
      Requested tr id q ∨ (id = s.nextId ∧ q = p) := by
    intro id q
    constructor
    · rintro ⟨m', hm'⟩
      rcases List.mem_append.mp hm' with hm' | hm'
      · exact .inl ⟨m', hm'⟩
      · simp only [List.mem_singleton, Prod.mk.injEq, Op.addRequest.injEq, Answer.id.injEq] at hm'
        exact .inr ⟨hm'.2, hm'.1.1⟩
    · rintro (hq | ⟨rfl, rfl⟩)
      · exact hq.append
      · exact ⟨m, by simp⟩
  -- ids are never given out twice
  have hunreq : ∀ q, ¬ Requested tr s.nextId q := fun q hq =>
    absurd (h.fresh _ q hq) (Nat.lt_irrefl _)
  exact {
    known := by
      intro id q hq
      rw [hreq]
      rcases getSequence_addRequest_eq_some hq with ⟨rfl, rfl⟩ | hold
      · exact .inr ⟨rfl, rfl⟩
      · exact .inl (h.known id q hold)
    unique := by
      intro id q q' hq hq'
      rw [hreq] at hq hq'
      rcases hq with hq | ⟨rfl, rfl⟩
      · rcases hq' with hq' | ⟨rfl, -⟩
        · exact h.unique id q q' hq hq'
        · exact absurd hq (hunreq q)
      · rcases hq' with hq' | ⟨-, rfl⟩
        · exact absurd hq' (hunreq q')
        · rfl
    fresh := by
      intro id q hq
      show id < s.nextId + 1
      rcases (hreq id q).mp hq with hq | ⟨rfl, -⟩
      · exact Nat.lt_succ_of_lt (h.fresh id q hq)
      · exact Nat.lt_succ_self _
    tiles := by
      intro id q hq
      rw [hbatches]
      rcases getSequence_addRequest_eq_some hq with ⟨rfl, rfl⟩ | hold
      · exact h.unrequested _ (Nat.le_refl _)
      · exact h.tiles id q hold
    initial := by
      intro id q hq
      rw [hbatches]
      rcases (hreq id q).mp hq with hq | ⟨rfl, -⟩
      · exact h.initial id q hq
      · rw [h.unrequested _ (Nat.le_refl _)]
        exact List.nil_prefix
    unrequested := by
      intro id hid
      rw [hbatches]
      exact h.unrequested id (Nat.le_of_succ_le hid)
    wellFormed := by
      rw [hbatches]
      exact h.wellFormed
    decoded := by
      intro pre b post hsplit id toks hentry
      rw [hbatches] at hsplit
      obtain ⟨q, hq, hfull⟩ := h.decoded pre b post hsplit id toks hentry
      exact ⟨q, hq.append, hfull⟩ }

theorem getSequence_drainIds {ids : List SeqId} {s : Scheduler} {finished : List Sequence}
    {id : SeqId} {seq : Sequence}
    (h : (drainIds ids s finished).1.getSequence id = some seq) :
    s.getSequence id = some seq := by
  induction ids generalizing s finished with
  | nil => exact h
  | cons x ids ih => exact (getSequence_removeSequence_eq_some.mp (ih h)).2

/-- The calls that edit one sequence outside its prompt. -/
theorem Tiling.edit {tr : List (Op × Answer)} {s s' : Scheduler} {op : Op} {a : Answer}
    (h : Tiling tr s) (id : SeqId) (f : Sequence → Sequence)
    (hop : ∀ p m, op ≠ .addRequest p m) (ha : ∀ b, a ≠ .batch b)
    (hf : ∀ seq, (f seq).promptTokens = seq.promptTokens ∧ (f seq).promptPos = seq.promptPos)
    (hnext : s'.nextId = s.nextId)
    (hget : ∀ x, s'.getSequence x = (s.modifySequence id f).getSequence x) :
    Tiling (tr ++ [(op, a)]) s' := by
  refine h.frame hop ha hnext fun x seq' hx => ?_
  rw [hget] at hx
  rcases getSequence_modifySequence_eq_some _ _ hx with hold | ⟨seq, hseq, rfl⟩
  · exact ⟨seq', hold, rfl, rfl⟩
  · exact ⟨seq, hseq, hf seq⟩

/-- **One call.** -/
theorem tiling_step {cfg : SchedulerConfig} {tr : List (Op × Answer)} {s s' : Scheduler}
    {op : Op} {a : Answer} (hb : Bookkeeping cfg s) (h : Tiling tr s)
    (hs : step s op = some (s', a)) : Tiling (tr ++ [(op, a)]) s' := by
  cases op with
  | schedule =>
    obtain ⟨b, hsched, rfl⟩ := step_schedule_eq_some.mp hs
    exact tiling_schedule hb h hsched
  | addRequest p m =>
    simp only [step, Option.some_inj, Prod.mk.injEq] at hs
    obtain ⟨rfl, rfl⟩ := hs
    exact tiling_addRequest h p m
  | appendToken id t =>
    simp only [step, Option.some_inj, Prod.mk.injEq] at hs
    obtain ⟨rfl, rfl⟩ := hs
    exact h.edit id (fun seq => { seq with outputTokens := seq.outputTokens ++ [t] })
      (by simp) (by simp) (fun _ => ⟨rfl, rfl⟩) (nextId_modifySequence _ _ _) fun _ => rfl
  | finishSequence id =>
    simp only [step, Option.some_inj, Prod.mk.injEq] at hs
    obtain ⟨rfl, rfl⟩ := hs
    exact h.edit id (fun seq => { seq with state := .finished, stopped := true })
      (by simp) (by simp) (fun _ => ⟨rfl, rfl⟩) (nextId_modifySequence _ _ _) fun _ => rfl
  | removeSequence id =>
    simp only [step, Option.some_inj, Prod.mk.injEq] at hs
    obtain ⟨rfl, rfl⟩ := hs
    exact h.frame (by simp) (by simp) rfl fun x seq' hx =>
      ⟨seq', (getSequence_removeSequence_eq_some.mp hx).2, rfl, rfl⟩
  | drainFinished =>
    simp only [step, Option.some_inj, Prod.mk.injEq] at hs
    obtain ⟨rfl, rfl⟩ := hs
    refine h.frame (by simp) (by simp) ?_ fun x seq' hx =>
      ⟨seq', getSequence_drainIds hx, rfl, rfl⟩
    exact drainIds_invariant (P := fun s₁ => s₁.nextId = s.nextId) (fun _ _ hs₁ => hs₁) rfl

theorem tiling_runFrom {cfg : SchedulerConfig} {tr : List (Op × Answer)} {s : Scheduler}
    (h : RunFrom cfg tr s) : Tiling tr s := by
  have hinit : Bookkeeping cfg (new cfg) ∧ Tiling [] (new cfg) :=
    ⟨bookkeeping_new cfg, tiling_new cfg⟩
  have hinv := h.traceInvariant (P := fun tr s => Bookkeeping cfg s ∧ Tiling tr s)
    (fun hP hs => ⟨bookkeeping_step hP.1 hs, tiling_step hP.1 hP.2 hs⟩) hinit
  exact hinv.2

/-- **Chunked prefill tiles the prompt.**  In every run, the prefill entries of
a sequence, in batch order, are `prompt_tokens[0..prompt_pos]` (for a request
that has left the scheduler: a prefix of its prompt); no batch lists an id
twice; and a decode entry for a sequence comes only after its prefill entries
are its whole prompt. -/
theorem prefill_tiles {cfg : SchedulerConfig} {tr : List (Op × Answer)} {s : Scheduler}
    (h : RunFrom cfg tr s) :
    (∀ id seq, s.getSequence id = some seq →
      prefilledIn id (batchesOf tr) = seq.promptTokens.take seq.promptPos) ∧
    (∀ id p, Requested tr id p → prefilledIn id (batchesOf tr) <+: p) ∧
    (∀ b ∈ batchesOf tr, b.Parallel ∧ b.seqIds.Nodup) ∧
    (∀ pre b post, batchesOf tr = pre ++ b :: post → ∀ id toks,
      (id, toks, false) ∈ b.entries →
        (∃ p, Requested tr id p) ∧ ∀ p, Requested tr id p → prefilledIn id pre = p) := by
  have ht := tiling_runFrom h
  refine ⟨ht.tiles, ht.initial, ht.wellFormed, ?_⟩
  intro pre b post hsplit id toks hentry
  obtain ⟨p, hp, hfull⟩ := ht.decoded pre b post hsplit id toks hentry
  exact ⟨⟨p, hp⟩, fun q hq => hfull.trans (ht.unique id p q hp hq)⟩

/-- A prompt of three tokens prefilled in chunks of two, then decoded. -/
theorem prefill_tiles_three_tokens :
    ∃ tr s, RunFrom ⟨1, 8, 8, 2⟩ tr s ∧
      (batchesOf tr).map ScheduledBatch.tokens = [[[7, 8]], [[9]], [[9]]] ∧
      prefilledIn 1 (batchesOf tr) = [7, 8, 9] := by
  have hr : RunFrom ⟨1, 8, 8, 2⟩ _ _ :=
    .cons (i := .addRequest [7, 8, 9] 10) rfl (.cons (i := .schedule) rfl
      (.cons (i := .schedule) rfl (.cons (i := .schedule) rfl (.nil _))))
  exact ⟨_, _, hr, rfl, (prefill_tiles hr).1 1 _ rfl⟩

end Scheduler

end Oxillama
