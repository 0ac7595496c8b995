/-
When `finish_sequence` is final.

A finished sequence should never be scheduled again.  `finish_sequence` takes
the id off the active list but leaves the waiting queue alone, and phase 1 of
`schedule` overwrites the state of whatever it pops; so the call is final
exactly for a sequence that is not waiting any more
(`staysFinished_finishSequence_iff`).

`Retired` is the invariant of the good case.  For the other direction a waiting
id is brought to the head of the queue by removing every other request
(`run_removeAll`), and the next `schedule` promotes it (`mem_schedule_of_head`).
-/
import Oxillama.Scheduler.Prefill

namespace Oxillama

open Relation

namespace Scheduler

/-- A call that takes `id`, once finished, out of the scheduler. -/
def Releases (id : SeqId) (op : Op) : Prop := op = .drainFinished ∨ op = .removeSequence id

/-- From `s` on, `id` is never scheduled, its state is `Finished` whenever it
is in the map, and it stays there until it is drained or removed. -/
def StaysFinished (s : Scheduler) (id : SeqId) : Prop :=
  ∀ tr s', Run step s tr s' →
    (∀ b ∈ batchesOf tr, id ∉ b.seqIds) ∧
    (∀ seq, s'.getSequence id = some seq → seq.state = .finished) ∧
    ((∀ e ∈ tr, ¬ Releases id e.1) → (s'.getSequence id).isSome)

/-! ### A retired sequence stays retired -/

/-- `id` is finished and phase 1 cannot reach it. -/
structure Retired (cfg : SchedulerConfig) (id : SeqId) (s : Scheduler) : Prop where
  book : Bookkeeping cfg s
  inactive : id ∉ s.activeIds
  finished : ∀ seq, s.getSequence id = some seq → seq.state = .finished
  known : id < s.nextId
  unreachable : id ∉ s.waitingQueue ∨ cfg.maxSequences = 0 ∨ cfg.maxBatchSequences = 0

theorem retired_move {cfg : SchedulerConfig} {id : SeqId} {s s' : Scheduler}
    {b b' : ScheduledBatch} (h : Retired cfg id s) (hb : id ∉ b.seqIds)
    (hm : Move (s, b) (s', b')) :
    Retired cfg id s' ∧ id ∉ b'.seqIds ∧ s'.getSequence id = s.getSequence id := by
  have hbook := bookkeeping_move h.book hm
  -- no move writes to `id`, so its entry in the map is the old one
  cases hm with
  | @skip _ _ id' queue hq hget =>
    have hunreach : id ∉ queue ∨ cfg.maxSequences = 0 ∨ cfg.maxBatchSequences = 0 :=
      h.unreachable.imp_left fun hw hmem => hw (by rw [hq]; exact List.mem_cons_of_mem _ hmem)
    exact ⟨⟨hbook, h.inactive, h.finished, h.known, hunreach⟩, hb, rfl⟩
  | @promote _ _ id' queue seq chunk hq hget hactive hbatch hchunk =>
    rw [h.book.config_eq] at hactive hbatch
    -- there was room for this promotion, so `id` is not waiting
    have hw : id ∉ s.waitingQueue := by
      rcases h.unreachable with hw | hz | hz
      · exact hw
      · omega
      · omega
    rw [hq, List.mem_cons, not_or] at hw
    have hframe : (({ s with waitingQueue := queue, activeIds := s.activeIds ++ [id'] } :
        Scheduler).setSequence id' (seq.advanced chunk)).getSequence id = s.getSequence id :=
      getSequence_setSequence_ne _ _ _ hw.1
    have hin : id ∉ s.activeIds ++ [id'] := by simpa using ⟨h.inactive, hw.1⟩
    refine ⟨⟨hbook, hin, fun q hq' => h.finished q (hframe ▸ hq'), h.known, .inl hw.2⟩, ?_, hframe⟩
    simpa using ⟨hb, hw.1⟩
  | @prefill _ _ id' seq chunk hactive hnew hget hstate hchunk =>
    have hne : id ≠ id' := fun heq => h.inactive (heq ▸ hactive)
    have hframe : (s.setSequence id' (seq.advanced chunk)).getSequence id = s.getSequence id :=
      getSequence_setSequence_ne _ _ _ hne
    refine ⟨⟨hbook, h.inactive, fun q hq' => h.finished q (hframe ▸ hq'), h.known,
      h.unreachable⟩, ?_, hframe⟩
    simpa using ⟨hb, hne⟩
  | @decode _ _ id' seq hactive hnew hget hstate hstopped hlimit =>
    have hne : id ≠ id' := fun heq => h.inactive (heq ▸ hactive)
    refine ⟨h, ?_, rfl⟩
    simpa using ⟨hb, hne⟩

theorem retired_schedule {cfg : SchedulerConfig} {id : SeqId} {s s' : Scheduler}
    {b : ScheduledBatch} (h : Retired cfg id s) (hs : s.schedule = some (s', b)) :
    Retired cfg id s' ∧ id ∉ b.seqIds ∧ s'.getSequence id = s.getSequence id := by
  obtain ⟨s₁, ⟨h₁, hb, hget⟩, rfl⟩ := schedule_induction
    (P := fun s₁ b => Retired cfg id s₁ ∧ id ∉ b.seqIds ∧ s₁.getSequence id = s.getSequence id)
    (fun hP hm => by
      obtain ⟨hr, hnew, hframe⟩ := retired_move hP.1 hP.2.1 hm
      exact ⟨hr, hnew, hframe.trans hP.2.2⟩)
    hs ⟨h, by simp, rfl⟩
  exact ⟨⟨bookkeeping_cleanUp h₁.book, fun hid => h₁.inactive (List.mem_filter.mp hid).1,
    h₁.finished, h₁.known, h₁.unreachable⟩, hb, hget⟩

theorem retired_removeSequence {cfg : SchedulerConfig} {id : SeqId} {s : Scheduler}
    (h : Retired cfg id s) (x : SeqId) : Retired cfg id (s.removeSequence x) where
  book := bookkeeping_removeSequence h.book x
  inactive := fun hid => h.inactive (List.mem_filter.mp hid).1
  finished := fun seq hseq => h.finished seq (getSequence_removeSequence_eq_some.mp hseq).2
  known := h.known
  unreachable := h.unreachable.imp_left fun hw hid => hw (List.mem_filter.mp hid).1

/-- Every call keeps a retired sequence retired and out of the batch; only
draining or removing takes it out of the map. -/
theorem retired_step {cfg : SchedulerConfig} {id : SeqId} {s s' : Scheduler} {op : Op}
    {a : Answer} (h : Retired cfg id s) (hs : step s op = some (s', a)) :
    Retired cfg id s' ∧ (∀ b, a = .batch b → id ∉ b.seqIds) ∧
      (¬ Releases id op → (s.getSequence id).isSome → (s'.getSequence id).isSome) := by
  have hbook := bookkeeping_step h.book hs
  cases op with
  | schedule =>
    obtain ⟨b, hsched, rfl⟩ := step_schedule_eq_some.mp hs
    obtain ⟨hr, hb, hget⟩ := retired_schedule h hsched
    refine ⟨hr, ?_, fun _ hsome => hget ▸ hsome⟩
    rintro b' ⟨⟩
    exact hb
  | addRequest p m =>
    simp only [step, Option.some_inj, Prod.mk.injEq] at hs
    obtain ⟨rfl, rfl⟩ := hs
    have hne : id ≠ s.nextId := Nat.ne_of_lt h.known
    have hget : (s.addRequest p m).1.getSequence id = s.getSequence id :=
      AList.lookup_insert_ne hne
    refine ⟨⟨hbook, h.inactive, fun q hq => h.finished q (hget ▸ hq),
      Nat.lt_succ_of_lt h.known, ?_⟩, by simp, fun _ hsome => hget ▸ hsome⟩
    refine h.unreachable.imp_left fun hw hid => ?_
    rcases List.mem_append.mp hid with hid | hid
    · exact hw hid
    · exact hne (List.mem_singleton.mp hid)
  | appendToken x t =>
    simp only [step, Option.some_inj, Prod.mk.injEq] at hs
    obtain ⟨rfl, rfl⟩ := hs
    have hwq : (s.appendToken x t).waitingQueue = s.waitingQueue :=
      waitingQueue_modifySequence _ _ _
    have hact : (s.appendToken x t).activeIds = s.activeIds := activeIds_modifySequence _ _ _
    have hnext : (s.appendToken x t).nextId = s.nextId := nextId_modifySequence _ _ _
    refine ⟨⟨hbook, hact ▸ h.inactive, ?_, hnext ▸ h.known, hwq ▸ h.unreachable⟩, by simp, ?_⟩
    · intro q hq
      rcases getSequence_modifySequence_eq_some _ _ hq with hold | ⟨seq, hseq, rfl⟩
      · exact h.finished q hold
      · exact h.finished seq hseq
    · intro _ hsome
      rw [appendToken, isSome_modifySequence]
      exact hsome
  | finishSequence x =>
    simp only [step, Option.some_inj, Prod.mk.injEq] at hs
    obtain ⟨rfl, rfl⟩ := hs
    have hwq : (s.finishSequence x).waitingQueue = s.waitingQueue :=
      waitingQueue_modifySequence _ _ _
    have hnext : (s.finishSequence x).nextId = s.nextId := nextId_modifySequence _ _ _
    have hget : (s.finishSequence x).getSequence id = (s.modifySequence x fun seq =>
      { seq with state := .finished, stopped := true }).getSequence id := rfl
    refine ⟨⟨hbook, fun hid => h.inactive ?_, ?_, hnext ▸ h.known, hwq ▸ h.unreachable⟩,
      by simp, ?_⟩
    · rw [finishSequence, activeIds_modifySequence] at hid
      exact (List.mem_filter.mp hid).1
    · intro q hq
      rw [hget] at hq
      rcases getSequence_modifySequence_eq_some _ _ hq with hold | ⟨seq, -, rfl⟩
      · exact h.finished q hold
      · rfl
    · intro _ hsome
      rw [hget, isSome_modifySequence]
      exact hsome
  | removeSequence x =>
    simp only [step, Option.some_inj, Prod.mk.injEq] at hs
    obtain ⟨rfl, rfl⟩ := hs
    refine ⟨retired_removeSequence h x, by simp, fun hrel hsome => ?_⟩
    have hne : id ≠ x := fun heq => hrel (.inr (by rw [heq]))
    rw [getSequence_removeSequence_ne _ _ hne]
    exact hsome
  | drainFinished =>
    simp only [step, Option.some_inj, Prod.mk.injEq] at hs
    obtain ⟨rfl, rfl⟩ := hs
    exact ⟨drainIds_invariant (P := Retired cfg id)
      (fun _ x hx => retired_removeSequence hx x) h, by simp, fun hrel => absurd (.inl rfl) hrel⟩

theorem staysFinished_of_retired {cfg : SchedulerConfig} {id : SeqId} {s : Scheduler}
    (h : Retired cfg id s) (hid : (s.getSequence id).isSome) : StaysFinished s id := by
  intro tr s' hr
  have hinit : Retired cfg id s ∧ (∀ b ∈ batchesOf [], id ∉ b.seqIds) ∧
      ((∀ e ∈ ([] : List (Op × Answer)), ¬ Releases id e.1) → (s.getSequence id).isSome) :=
    ⟨h, by simp [batchesOf], fun _ => hid⟩
  have hinv := hr.traceInvariant (P := fun tr s => Retired cfg id s ∧
      (∀ b ∈ batchesOf tr, id ∉ b.seqIds) ∧
      ((∀ e ∈ tr, ¬ Releases id e.1) → (s.getSequence id).isSome)) (by
    rintro tr s op s' a ⟨hret, hbatches, hkept⟩ hs
    obtain ⟨hret', hbatch, hstay⟩ := retired_step hret hs
    refine ⟨hret', ?_, fun hrel => hstay (hrel (op, a) (by simp)) (hkept fun e he =>
      hrel e (List.mem_append_left _ he))⟩
    intro b hb
    rw [batchesOf_append, List.mem_append] at hb
    rcases hb with hb | hb
    · exact hbatches b hb
    · cases a with
      | batch b' => exact hbatch b (by simp [batchesOf] at hb; rw [hb])
      | _ => simp [batchesOf] at hb) hinit
  exact ⟨hinv.2.1, hinv.1.finished, hinv.2.2⟩

/-! ### A waiting sequence comes back -/

/-- Removing all of `ids`, one call each. -/
def removeAll (ids : List SeqId) (s : Scheduler) : Scheduler := ids.foldl removeSequence s

theorem run_removeAll (ids : List SeqId) (s : Scheduler) :
    Run step s (ids.map fun id => (.removeSequence id, .unit)) (s.removeAll ids) := by
  induction ids generalizing s with
  | nil => exact .nil s
  | cons id ids ih => exact .cons rfl (ih (s.removeSequence id))

theorem bookkeeping_removeAll {cfg : SchedulerConfig} {s : Scheduler} (h : Bookkeeping cfg s)
    (ids : List SeqId) : Bookkeeping cfg (s.removeAll ids) := by
  induction ids generalizing s with
  | nil => exact h
  | cons id ids ih => exact ih (bookkeeping_removeSequence h id)

theorem mem_waitingQueue_removeAll {ids : List SeqId} {s : Scheduler} {x : SeqId} :
    x ∈ (s.removeAll ids).waitingQueue ↔ x ∈ s.waitingQueue ∧ x ∉ ids := by
  induction ids generalizing s with
  | nil => simp [removeAll]
  | cons id ids ih =>
    refine ih.trans ?_
    simp [removeSequence, and_assoc]

theorem mem_activeIds_removeAll {ids : List SeqId} {s : Scheduler} {x : SeqId} :
    x ∈ (s.removeAll ids).activeIds ↔ x ∈ s.activeIds ∧ x ∉ ids := by
  induction ids generalizing s with
  | nil => simp [removeAll]
  | cons id ids ih =>
    refine ih.trans ?_
    simp [removeSequence, and_assoc]

theorem mem_seqIds_moves {x y : Scheduler × ScheduledBatch} (h : ReflTransGen Move x y)
    {id : SeqId} (hid : id ∈ x.2.seqIds) : id ∈ y.2.seqIds := by
  refine moves_induction (P := fun _ b => id ∈ b.seqIds) (fun hmem hm => ?_) h hid
  cases hm with
  | skip => exact hmem
  | _ => exact List.mem_append_left _ hmem

/-- `schedule` promotes the head of the waiting queue when there is room. -/
theorem mem_schedule_of_head {s s' : Scheduler} {b : ScheduledBatch} {id : SeqId}
    {queue : List SeqId} (hq : s.waitingQueue = id :: queue) (hid : (s.getSequence id).isSome)
    (hactive : s.activeIds.length < s.config.maxSequences)
    (hbatch : 0 < s.config.maxBatchSequences) (hs : s.schedule = some (s', b)) :
    id ∈ b.seqIds := by
  obtain ⟨seq, hseq⟩ := Option.isSome_iff_exists.mp hid
  simp only [schedule, Option.bind_eq_bind, Option.bind_eq_some_iff, Prod.exists,
    Option.some_inj, Prod.mk.injEq] at hs
  obtain ⟨s₁, b₁, h1, s₂, b₂, h2, -, rfl⟩ := hs
  have hroom : s.activeIds.length < s.config.maxSequences ∧
      ScheduledBatch.empty.seqIds.length < s.config.maxBatchSequences := ⟨hactive, hbatch⟩
  rw [hq, promoteWaiting, if_pos hroom] at h1
  simp only [getSequence_waitingQueue, hseq, Option.bind_eq_bind, Option.bind_eq_some_iff,
    Prod.exists] at h1
  obtain ⟨_, -, toks, seq', -, h1⟩ := h1
  -- the first round pushes `id`, and no later move takes an entry back
  have hpush : id ∈ (ScheduledBatch.empty.push id toks true).seqIds := by simp
  have hmem₁ : id ∈ b₁.seqIds := by
    refine mem_seqIds_moves (promoteWaiting_moves ?_ h1) hpush
    rfl
  obtain ⟨hm₂, ha₂⟩ := continuePrefill_moves (fun _ hid => hid) h2
  refine mem_seqIds_moves (scheduleDecode_moves fun x hx => ?_) (mem_seqIds_moves hm₂ hmem₁)
  exact ha₂ ▸ hx

/-- A known waiting id can be scheduled: remove everything else first. -/
theorem exists_run_scheduling {cfg : SchedulerConfig} {s : Scheduler} {id : SeqId}
    (h : Bookkeeping cfg s) (hw : id ∈ s.waitingQueue) (hseqs : 0 < cfg.maxSequences)
    (hbatch : 0 < cfg.maxBatchSequences) :
    ∃ tr s' b, Run step s tr s' ∧ b ∈ batchesOf tr ∧ id ∈ b.seqIds := by
  set others := (s.waitingQueue ++ s.activeIds).filter (· != id) with hothers
  set s₁ := s.removeAll others
  have hid : id ∉ others := by simp [hothers]
  have hb₁ : Bookkeeping cfg s₁ := bookkeeping_removeAll h others
  -- only `id` is left waiting and nothing is active
  have honly : ∀ x ∈ s₁.waitingQueue, x = id := by
    intro x hx
    obtain ⟨hx, hnot⟩ := mem_waitingQueue_removeAll.mp hx
    by_contra hne
    exact hnot (by simp [hothers, hx, hne])
  have hidle : s₁.activeIds = [] := by
    refine List.eq_nil_iff_forall_not_mem.mpr fun x hx => ?_
    obtain ⟨hx, hnot⟩ := mem_activeIds_removeAll.mp hx
    have hne : x ≠ id := fun heq => h.disjoint id hw (heq ▸ hx)
    exact hnot (by simp [hothers, hx, hne])
  have hmem : id ∈ s₁.waitingQueue := mem_waitingQueue_removeAll.mpr ⟨hw, hid⟩
  obtain ⟨queue, hq⟩ : ∃ queue, s₁.waitingQueue = id :: queue := by
    cases hcase : s₁.waitingQueue with
    | nil =>
      rw [hcase] at hmem
      exact absurd hmem (by simp)
    | cons x queue => exact ⟨queue, by rw [honly x (by rw [hcase]; exact List.mem_cons_self)]⟩
  obtain ⟨s₂, b, hsched⟩ := schedule_isSome hb₁.posBounded
  have hstep : step s₁ .schedule = some (s₂, .batch b) :=
    step_schedule_eq_some.mpr ⟨b, hsched, rfl⟩
  refine ⟨_, s₂, b, (run_removeAll others s).append (.single hstep), ?_, ?_⟩
  · simp [batchesOf]
  · refine mem_schedule_of_head hq (hb₁.waiting_known id hmem) ?_ ?_ hsched
    · rw [hidle, hb₁.config_eq]
      exact hseqs
    · rw [hb₁.config_eq]
      exact hbatch

/-! ### When finishing is final -/

/-- **When finishing is final.**  In every reachable state, finishing a present
sequence retires it for good if and only if it is not in the waiting queue any
more (or the configuration never promotes anything). -/
theorem staysFinished_finishSequence_iff {cfg : SchedulerConfig} {s : Scheduler} {id : SeqId}
    (h : Reachable cfg s) (hid : (s.getSequence id).isSome) :
    StaysFinished (s.finishSequence id) id ↔
      id ∉ s.waitingQueue ∨ cfg.maxSequences = 0 ∨ cfg.maxBatchSequences = 0 := by
  have hb := bookkeeping_reachable h
  have hb' := bookkeeping_finishSequence hb id
  have hwq : (s.finishSequence id).waitingQueue = s.waitingQueue :=
    waitingQueue_modifySequence _ _ _
  have hget : (s.finishSequence id).getSequence id =
      (s.getSequence id).map fun seq => { seq with state := .finished, stopped := true } := by
    refine (getSequence_modifySequence s id _ id).trans ?_
    rw [if_pos rfl]
  constructor
  · intro hstay
    by_contra hcon
    rw [not_or, not_or, not_not] at hcon
    obtain ⟨hw, hseqs, hbatch⟩ := hcon
    rw [← hwq] at hw
    obtain ⟨tr, s', b, hr, hbmem, hidmem⟩ := exists_run_scheduling hb' hw
      (Nat.pos_of_ne_zero hseqs) (Nat.pos_of_ne_zero hbatch)
    exact (hstay tr s' hr).1 b hbmem hidmem
  · intro hcond
    apply staysFinished_of_retired
    · exact {
        book := hb'
        inactive := by simp [finishSequence]
        finished := by
          intro seq hseq
          rw [hget] at hseq
          obtain ⟨q, -, rfl⟩ := Option.map_eq_some_iff.mp hseq
          rfl
        known := by
          rw [show (s.finishSequence id).nextId = s.nextId from nextId_modifySequence _ _ _]
          exact hb.fresh id hid
        unreachable := hwq ▸ hcond }
    · rw [hget, Option.isSome_map]
      exact hid

/-- A sequence finished after its promotion stays finished. -/
theorem staysFinished_finishSequence_promoted :
    ∃ s, Reachable ⟨1, 4, 1, 4⟩ s ∧ s.activeIds = [1] ∧ StaysFinished (s.finishSequence 1) 1 := by
  have hr : Reachable ⟨1, 4, 1, 4⟩ _ :=
    ⟨_, .cons (i := .addRequest [7] 5) rfl (.cons (i := .schedule) rfl (.nil _))⟩
  exact ⟨_, hr, rfl, (staysFinished_finishSequence_iff hr rfl).mpr (.inl (by decide))⟩

/-- A sequence finished while it is still waiting is scheduled by the next call. -/
theorem not_staysFinished_waiting :
    ¬ ∀ cfg s id, Reachable cfg s → (s.getSequence id).isSome →
      StaysFinished (s.finishSequence id) id := by
  intro hall
  have hr : Reachable ⟨1, 4, 1, 4⟩ _ := ⟨_, .cons (i := .addRequest [7] 5) rfl (.nil _)⟩
  have hstay := hall _ _ 1 hr rfl _ _ (.cons (i := .schedule) rfl (.nil _))
  exact hstay.1 ⟨[1], [[7]], [true]⟩ List.mem_cons_self (by decide)

end Scheduler

end Oxillama
