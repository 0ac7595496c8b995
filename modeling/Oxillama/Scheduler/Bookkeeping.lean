/-
Scheduler bookkeeping.

`Bookkeeping s` is the invariant that ties the waiting queue, the active list
and the map of sequences together.  `bookkeeping_move` checks it for each move
of `schedule`, `bookkeeping_step` for each call, and `bookkeeping_reachable`
carries it over every run from `Scheduler::new`; `exists_runFrom` says that there is
always a run.

What comes of it is `queues_wellFormed`: both queues are
duplicate-free and disjoint and name only known sequences, the active list
respects `max_sequences`, and every sequence that still has work to do is in
exactly one of them.
-/
import Oxillama.Lib.Run
import Oxillama.Scheduler.Moves

namespace Oxillama

namespace Scheduler

/-- `s` is the state after a run of calls with trace `tr` from a new scheduler. -/
def RunFrom (cfg : SchedulerConfig) (tr : List (Op × Answer)) (s : Scheduler) : Prop :=
  Run step (new cfg) tr s

/-- `s` is reachable from `Scheduler::new(cfg)`. -/
def Reachable (cfg : SchedulerConfig) (s : Scheduler) : Prop := ∃ tr, RunFrom cfg tr s

/-- The bookkeeping invariant. -/
structure Bookkeeping (cfg : SchedulerConfig) (s : Scheduler) : Prop where
  config_eq : s.config = cfg
  waiting_nodup : s.waitingQueue.Nodup
  active_nodup : s.activeIds.Nodup
  disjoint : ∀ id ∈ s.waitingQueue, id ∉ s.activeIds
  waiting_known : ∀ id ∈ s.waitingQueue, (s.getSequence id).isSome
  active_known : ∀ id ∈ s.activeIds, (s.getSequence id).isSome
  fresh : ∀ id, (s.getSequence id).isSome → id < s.nextId
  capacity : s.activeIds.length ≤ cfg.maxSequences
  /-- No request with work left is lost. -/
  queued : ∀ id seq, s.getSequence id = some seq → seq.terminal = false →
    id ∈ s.waitingQueue ∨ id ∈ s.activeIds
  posBounded : s.PosBounded
  /-- A sequence that is decoding has its whole prompt scheduled. -/
  decoding_full : ∀ id seq, s.getSequence id = some seq → seq.state = .decoding →
    seq.promptPos = seq.promptTokens.length
  /-- A sequence that is prefilling has prompt tokens left. -/
  prefilling_open : ∀ id seq, s.getSequence id = some seq → seq.state = .prefilling →
    seq.promptPos < seq.promptTokens.length

/-! ### Terminal sequences -/

theorem Sequence.terminal_eq_false {seq : Sequence} :
    seq.terminal = false ↔ seq.state ≠ .finished ∧ seq.stopped = false ∧ seq.atLimit = false := by
  simp [Sequence.terminal, and_assoc]

theorem Sequence.atLimit_eq_false {seq : Sequence} :
    seq.atLimit = false ↔ seq.totalTokens < seq.maxTokens := by
  simp [Sequence.atLimit]

theorem Sequence.promptPos_advanced {seq : Sequence} {chunk : ℕ}
    (h : seq.promptPos + chunk ≤ seq.promptTokens.length)
    (hstate : (seq.advanced chunk).state = .decoding) :
    (seq.advanced chunk).promptPos = (seq.advanced chunk).promptTokens.length := by
  simp only [Sequence.advanced] at hstate ⊢
  split at hstate
  · omega
  · simp at hstate

theorem Sequence.promptPos_advanced_lt {seq : Sequence} {chunk : ℕ}
    (hstate : (seq.advanced chunk).state = .prefilling) :
    (seq.advanced chunk).promptPos < (seq.advanced chunk).promptTokens.length := by
  simp only [Sequence.advanced] at hstate ⊢
  split at hstate
  · simp at hstate
  · omega

/-! ### Writing one sequence back -/

/-- Writing a sequence under a known id keeps the invariant, when the new value
is bounded and needs no more work than the queues account for. -/
theorem Bookkeeping.setSequence {cfg : SchedulerConfig} {s : Scheduler} {id : SeqId}
    {seq seq' : Sequence} (h : Bookkeeping cfg s) (hget : s.getSequence id = some seq)
    (hpos : seq'.promptPos ≤ seq'.promptTokens.length)
    (hdec : seq'.state = .decoding → seq'.promptPos = seq'.promptTokens.length)
    (hpre : seq'.state = .prefilling → seq'.promptPos < seq'.promptTokens.length)
    (hterm : seq'.terminal = false → id ∈ s.waitingQueue ∨ id ∈ s.activeIds) :
    Bookkeeping cfg (s.setSequence id seq') := by
  -- no id comes or goes, so the queues still name known sequences
  have hsome : ∀ id', ((s.setSequence id seq').getSequence id').isSome =
      (s.getSequence id').isSome := by
    intro id'
    by_cases hid : id' = id
    · subst hid
      rw [getSequence_setSequence_self, hget]
      rfl
    · rw [getSequence_setSequence_ne _ _ _ hid]
  have hcases : ∀ id' q, (s.setSequence id seq').getSequence id' = some q →
      (id' = id ∧ q = seq') ∨ (id' ≠ id ∧ s.getSequence id' = some q) := fun _ _ =>
    getSequence_setSequence_eq_some _ _ _
  exact {
    config_eq := h.config_eq
    waiting_nodup := h.waiting_nodup
    active_nodup := h.active_nodup
    disjoint := h.disjoint
    waiting_known := fun id' hid => by rw [hsome]; exact h.waiting_known id' hid
    active_known := fun id' hid => by rw [hsome]; exact h.active_known id' hid
    fresh := fun id' hid => by rw [hsome] at hid; exact h.fresh id' hid
    capacity := h.capacity
    queued := by
      intro id' q hq hq'
      obtain ⟨rfl, rfl⟩ | ⟨-, hold⟩ := hcases id' q hq
      · exact hterm hq'
      · exact h.queued id' q hold hq'
    posBounded := h.posBounded.setSequence hpos
    decoding_full := by
      intro id' q hq hq'
      obtain ⟨rfl, rfl⟩ | ⟨-, hold⟩ := hcases id' q hq
      · exact hdec hq'
      · exact h.decoding_full id' q hold hq'
    prefilling_open := by
      intro id' q hq hq'
      obtain ⟨rfl, rfl⟩ | ⟨-, hold⟩ := hcases id' q hq
      · exact hpre hq'
      · exact h.prefilling_open id' q hold hq' }

/-! ### Moves and the clean-up -/

/-- **One move.** -/
theorem bookkeeping_move {cfg : SchedulerConfig} {s s' : Scheduler} {b b' : ScheduledBatch}
    (h : Bookkeeping cfg s) (hm : Move (s, b) (s', b')) : Bookkeeping cfg s' := by
  cases hm with
  | skip hq hget =>
    -- impossible: every waiting id is known
    have := h.waiting_known _ (by rw [hq]; exact List.mem_cons_self)
    rw [hget] at this
    exact absurd this (by simp)
  | @promote _ _ id queue seq chunk hq hget hactive hbatch hchunk =>
    have hnodup := h.waiting_nodup
    have hdisj := h.disjoint
    have hknown := h.waiting_known
    have hqueued := h.queued
    rw [hq] at hnodup hdisj hknown
    simp only [hq] at hqueued
    rw [List.nodup_cons] at hnodup
    have hid : id ∉ s.activeIds := hdisj id List.mem_cons_self
    -- the id moves from the head of the waiting queue to the end of the active list
    have hmoved : Bookkeeping cfg
        { s with waitingQueue := queue, activeIds := s.activeIds ++ [id] } := {
      config_eq := h.config_eq
      waiting_nodup := hnodup.2
      active_nodup := h.active_nodup.append (by simp) (by simpa using hid)
      disjoint := by
        intro x hx
        simp only [List.mem_append, List.mem_singleton, not_or]
        exact ⟨hdisj x (List.mem_cons_of_mem _ hx), fun hxid => hnodup.1 (hxid ▸ hx)⟩
      waiting_known := fun x hx => hknown x (List.mem_cons_of_mem _ hx)
      active_known := by
        intro x hx
        rcases List.mem_append.mp hx with hx | hx
        · exact h.active_known x hx
        · rw [List.mem_singleton.mp hx]
          show (s.getSequence id).isSome
          rw [hget]
          rfl
      fresh := h.fresh
      capacity := by
        rw [List.length_append, List.length_singleton, ← h.config_eq]
        exact hactive
      queued := by
        intro x q hx hterm
        -- the promoted id changes sides, every other id stays on its own
        rcases hqueued x q hx hterm with hw | ha
        · rcases List.mem_cons.mp hw with rfl | hw
          · exact .inr (by simp)
          · exact .inl hw
        · exact .inr (List.mem_append_left _ ha)
      posBounded := h.posBounded
      decoding_full := h.decoding_full
      prefilling_open := h.prefilling_open }
    exact hmoved.setSequence hget hchunk (Sequence.promptPos_advanced hchunk)
      Sequence.promptPos_advanced_lt fun _ => .inr (by simp)
  | prefill hactive hnew hget hstate hchunk =>
    exact h.setSequence hget hchunk (Sequence.promptPos_advanced hchunk)
      Sequence.promptPos_advanced_lt fun _ => .inr hactive
  | decode => exact h

theorem bookkeeping_cleanUp {cfg : SchedulerConfig} {s : Scheduler} (h : Bookkeeping cfg s) :
    Bookkeeping cfg s.cleanUp := by
  have hsub : ∀ id ∈ s.cleanUp.activeIds, id ∈ s.activeIds := fun id hid =>
    (List.mem_filter.mp hid).1
  exact {
    config_eq := h.config_eq
    waiting_nodup := h.waiting_nodup
    active_nodup := h.active_nodup.filter _
    disjoint := fun id hid hact => h.disjoint id hid (hsub id hact)
    waiting_known := h.waiting_known
    active_known := fun id hid => h.active_known id (hsub id hid)
    fresh := h.fresh
    capacity := le_trans (List.length_filter_le _ _) h.capacity
    queued := by
      intro id seq hget hterm
      rcases h.queued id seq hget hterm with hw | ha
      · exact .inl hw
      · -- only terminal sequences are cleaned up
        refine .inr (List.mem_filter.mpr ⟨ha, ?_⟩)
        rw [getSequence_cleanUp] at hget
        simp [hget, hterm]
    posBounded := h.posBounded
    decoding_full := h.decoding_full
    prefilling_open := h.prefilling_open }

theorem bookkeeping_schedule {cfg : SchedulerConfig} {s s' : Scheduler} {b : ScheduledBatch}
    (h : Bookkeeping cfg s) (hs : s.schedule = some (s', b)) : Bookkeeping cfg s' := by
  obtain ⟨s₁, h₁, rfl⟩ := schedule_induction (P := fun s _ => Bookkeeping cfg s)
    (fun hinv hm => bookkeeping_move hinv hm) hs h
  exact bookkeeping_cleanUp h₁

/-! ### The other calls -/

theorem bookkeeping_new (cfg : SchedulerConfig) : Bookkeeping cfg (new cfg) where
  config_eq := rfl
  waiting_nodup := List.nodup_nil
  active_nodup := List.nodup_nil
  disjoint := by simp [new]
  waiting_known := by simp [new]
  active_known := by simp [new]
  fresh := by simp [new, getSequence]
  capacity := Nat.zero_le _
  queued := by simp [new, getSequence]
  posBounded := by intro id seq h; simp [new, getSequence] at h
  decoding_full := by simp [new, getSequence]
  prefilling_open := by simp [new, getSequence]

/-- What stands under an id after a request was added. -/
theorem getSequence_addRequest_eq_some {s : Scheduler} {p : List UInt32} {m : ℕ} {id : SeqId}
    {q : Sequence} (h : (s.addRequest p m).1.getSequence id = some q) :
    (id = s.nextId ∧ q = Sequence.new s.nextId p m) ∨ s.getSequence id = some q := by
  by_cases hid : id = s.nextId
  · subst hid
    have hself : (s.addRequest p m).1.getSequence s.nextId =
        some (Sequence.new s.nextId p m) := AList.lookup_insert _
    rw [hself, Option.some_inj] at h
    exact .inl ⟨rfl, h.symm⟩
  · exact .inr ((AList.lookup_insert_ne hid).symm.trans h)

theorem bookkeeping_addRequest {cfg : SchedulerConfig} {s : Scheduler} (h : Bookkeeping cfg s)
    (p : List UInt32) (m : ℕ) : Bookkeeping cfg (s.addRequest p m).1 := by
  have hget_self : (s.addRequest p m).1.getSequence s.nextId =
      some (Sequence.new s.nextId p m) := AList.lookup_insert _
  have hget_ne : ∀ id, id ≠ s.nextId →
      (s.addRequest p m).1.getSequence id = s.getSequence id := fun id hid =>
    AList.lookup_insert_ne hid
  -- a known id is below `nextId`, so the new one is on neither queue
  have hnone : ∀ id, (s.getSequence id).isSome → id ≠ s.nextId := fun id hid =>
    Nat.ne_of_lt (h.fresh id hid)
  have hmono : ∀ id, (s.getSequence id).isSome →
      ((s.addRequest p m).1.getSequence id).isSome := fun id hid => by
    rw [hget_ne id (hnone id hid)]
    exact hid
  have hwait : ∀ id ∈ s.waitingQueue, id ≠ s.nextId := fun id hid =>
    hnone id (h.waiting_known id hid)
  have hact : ∀ id ∈ s.activeIds, id ≠ s.nextId := fun id hid =>
    hnone id (h.active_known id hid)
  exact {
    config_eq := h.config_eq
    waiting_nodup := h.waiting_nodup.append (by simp)
      (by simpa using fun hid => hwait _ hid rfl)
    active_nodup := h.active_nodup
    disjoint := by
      intro id hid hidact
      rcases List.mem_append.mp hid with hid | hid
      · exact h.disjoint id hid hidact
      · exact hact id hidact (List.mem_singleton.mp hid)
    waiting_known := by
      intro id hid
      rcases List.mem_append.mp hid with hid | hid
      · exact hmono id (h.waiting_known id hid)
      · rw [List.mem_singleton.mp hid, hget_self]
        rfl
    active_known := fun id hid => hmono id (h.active_known id hid)
    fresh := by
      intro id hid
      show id < s.nextId + 1
      by_cases hne : id = s.nextId
      · exact hne ▸ Nat.lt_succ_self _
      · rw [hget_ne id hne] at hid
        exact Nat.lt_succ_of_lt (h.fresh id hid)
    capacity := h.capacity
    queued := by
      intro id q hq hterm
      rcases getSequence_addRequest_eq_some hq with ⟨rfl, -⟩ | hold
      · exact .inl (List.mem_append_right _ (by simp))
      · rcases h.queued id q hold hterm with hw | ha
        · exact .inl (List.mem_append_left _ hw)
        · exact .inr ha
    posBounded := by
      intro id q hq
      rcases getSequence_addRequest_eq_some hq with ⟨-, rfl⟩ | hold
      · exact Nat.zero_le _
      · exact h.posBounded id q hold
    decoding_full := by
      intro id q hq hdec
      rcases getSequence_addRequest_eq_some hq with ⟨-, rfl⟩ | hold
      · simp [Sequence.new] at hdec
      · exact h.decoding_full id q hold hdec
    prefilling_open := by
      intro id q hq hpre
      rcases getSequence_addRequest_eq_some hq with ⟨-, rfl⟩ | hold
      · simp [Sequence.new] at hpre
      · exact h.prefilling_open id q hold hpre }

/-- The map after `remove_sequence`: `id` is gone, the rest is untouched. -/
theorem getSequence_removeSequence_eq_some {s : Scheduler} {id id' : SeqId} {q : Sequence} :
    (s.removeSequence id).getSequence id' = some q ↔ id' ≠ id ∧ s.getSequence id' = some q := by
  by_cases hid : id' = id
  · subst hid
    simp
  · rw [getSequence_removeSequence_ne _ _ hid]
    simp [hid]

theorem bookkeeping_removeSequence {cfg : SchedulerConfig} {s : Scheduler}
    (h : Bookkeeping cfg s) (id : SeqId) : Bookkeeping cfg (s.removeSequence id) := by
  have hw : ∀ x ∈ (s.removeSequence id).waitingQueue, x ∈ s.waitingQueue ∧ x ≠ id := by
    intro x hx
    simpa [removeSequence] using hx
  have ha : ∀ x ∈ (s.removeSequence id).activeIds, x ∈ s.activeIds ∧ x ≠ id := by
    intro x hx
    simpa [removeSequence] using hx
  exact {
    config_eq := h.config_eq
    waiting_nodup := h.waiting_nodup.filter _
    active_nodup := h.active_nodup.filter _
    disjoint := fun x hx hx' => h.disjoint x (hw x hx).1 (ha x hx').1
    waiting_known := by
      intro x hx
      rw [getSequence_removeSequence_ne _ _ (hw x hx).2]
      exact h.waiting_known x (hw x hx).1
    active_known := by
      intro x hx
      rw [getSequence_removeSequence_ne _ _ (ha x hx).2]
      exact h.active_known x (ha x hx).1
    fresh := by
      intro x hx
      obtain ⟨q, hq⟩ := Option.isSome_iff_exists.mp hx
      have hold := (getSequence_removeSequence_eq_some.mp hq).2
      exact h.fresh x (by rw [hold]; rfl)
    capacity := le_trans (List.length_filter_le _ _) h.capacity
    queued := by
      intro x q hx hterm
      obtain ⟨hne, hold⟩ := getSequence_removeSequence_eq_some.mp hx
      rcases h.queued x q hold hterm with hq | hq
      · exact .inl (by simpa [removeSequence] using ⟨hq, hne⟩)
      · exact .inr (by simpa [removeSequence] using ⟨hq, hne⟩)
    posBounded := fun x q hx =>
      h.posBounded x q (getSequence_removeSequence_eq_some.mp hx).2
    decoding_full := fun x q hx =>
      h.decoding_full x q (getSequence_removeSequence_eq_some.mp hx).2
    prefilling_open := fun x q hx =>
      h.prefilling_open x q (getSequence_removeSequence_eq_some.mp hx).2 }

/-- Taking an id with no work left off the active list. -/
theorem Bookkeeping.deactivate {cfg : SchedulerConfig} {s : Scheduler} (h : Bookkeeping cfg s)
    {id : SeqId} (hdone : ∀ seq, s.getSequence id = some seq → seq.terminal = true) :
    Bookkeeping cfg { s with activeIds := s.activeIds.filter (· != id) } := by
  have ha : ∀ x ∈ s.activeIds.filter (· != id), x ∈ s.activeIds := fun x hx =>
    (List.mem_filter.mp hx).1
  exact {
    config_eq := h.config_eq
    waiting_nodup := h.waiting_nodup
    active_nodup := h.active_nodup.filter _
    disjoint := fun x hx hx' => h.disjoint x hx (ha x hx')
    waiting_known := h.waiting_known
    active_known := fun x hx => h.active_known x (ha x hx)
    fresh := h.fresh
    capacity := le_trans (List.length_filter_le _ _) h.capacity
    queued := by
      intro x q hx hterm
      rcases h.queued x q hx hterm with hq | hq
      · exact .inl hq
      · refine .inr ?_
        -- an id with work left is not the one taken off
        have hne : x ≠ id := by
          rintro rfl
          rw [hdone q hx] at hterm
          exact absurd hterm (by simp)
        simpa using ⟨hq, hne⟩
    posBounded := h.posBounded
    decoding_full := h.decoding_full
    prefilling_open := h.prefilling_open }

theorem bookkeeping_finishSequence {cfg : SchedulerConfig} {s : Scheduler}
    (h : Bookkeeping cfg s) (id : SeqId) : Bookkeeping cfg (s.finishSequence id) := by
  rw [finishSequence]
  cases hget : s.getSequence id with
  | none =>
    rw [modifySequence_eq_self _ _ hget]
    exact h.deactivate fun seq hseq => by simp [hget] at hseq
  | some seq =>
    rw [modifySequence_eq_set _ _ _ hget]
    have hset : Bookkeeping cfg
        (s.setSequence id { seq with state := .finished, stopped := true }) :=
      h.setSequence hget (h.posBounded id seq hget) (by simp) (by simp)
        (by simp [Sequence.terminal])
    refine hset.deactivate fun q hq => ?_
    rw [getSequence_setSequence_self, Option.some_inj] at hq
    subst hq
    simp [Sequence.terminal]

theorem Sequence.terminal_append {seq : Sequence} {token : UInt32}
    (h : ({ seq with outputTokens := seq.outputTokens ++ [token] } : Sequence).terminal = false) :
    seq.terminal = false := by
  rw [Sequence.terminal_eq_false] at h ⊢
  refine ⟨h.1, h.2.1, ?_⟩
  have hlim := Sequence.atLimit_eq_false.mp h.2.2
  rw [Sequence.atLimit_eq_false]
  simp only [Sequence.totalTokens, List.length_append, List.length_singleton] at hlim ⊢
  omega

theorem bookkeeping_appendToken {cfg : SchedulerConfig} {s : Scheduler} (h : Bookkeeping cfg s)
    (id : SeqId) (token : UInt32) : Bookkeeping cfg (s.appendToken id token) := by
  rw [appendToken]
  cases hget : s.getSequence id with
  | none =>
    rw [modifySequence_eq_self _ _ hget]
    exact h
  | some seq =>
    rw [modifySequence_eq_set _ _ _ hget]
    exact h.setSequence hget (h.posBounded id seq hget) (h.decoding_full id seq hget)
      (h.prefilling_open id seq hget) fun hterm =>
        h.queued id seq hget (Sequence.terminal_append hterm)

theorem drainIds_invariant {P : Scheduler → Prop}
    (hP : ∀ s id, P s → P (s.removeSequence id)) {ids : List SeqId} {s : Scheduler}
    {finished : List Sequence} (h : P s) : P (drainIds ids s finished).1 := by
  induction ids generalizing s finished with
  | nil => exact h
  | cons id ids ih => exact ih (hP s id h)

theorem bookkeeping_drainFinished {cfg : SchedulerConfig} {s : Scheduler}
    (h : Bookkeeping cfg s) : Bookkeeping cfg s.drainFinished.1 :=
  drainIds_invariant (P := Bookkeeping cfg) (fun _ id hs => bookkeeping_removeSequence hs id) h

/-! ### Every reachable state -/

/-- `schedule` is the one call that can panic. -/
theorem step_schedule_eq_some {s s' : Scheduler} {a : Answer} :
    step s .schedule = some (s', a) ↔ ∃ b, s.schedule = some (s', b) ∧ a = .batch b := by
  simp only [step, Option.map_eq_some_iff, Prod.exists, Prod.mk.injEq]
  constructor
  · rintro ⟨s₁, b, hs, rfl, rfl⟩
    exact ⟨b, hs, rfl⟩
  · rintro ⟨b, hs, rfl⟩
    exact ⟨s', b, hs, rfl, rfl⟩

/-- **One call.** -/
theorem bookkeeping_step {cfg : SchedulerConfig} {s s' : Scheduler} {op : Op} {a : Answer}
    (h : Bookkeeping cfg s) (hs : step s op = some (s', a)) : Bookkeeping cfg s' := by
  cases op with
  | schedule =>
    obtain ⟨b, hsched, -⟩ := step_schedule_eq_some.mp hs
    exact bookkeeping_schedule h hsched
  | addRequest p m =>
    simp only [step, Option.some_inj, Prod.mk.injEq] at hs
    exact hs.1 ▸ bookkeeping_addRequest h p m
  | appendToken id t =>
    simp only [step, Option.some_inj, Prod.mk.injEq] at hs
    exact hs.1 ▸ bookkeeping_appendToken h id t
  | finishSequence id =>
    simp only [step, Option.some_inj, Prod.mk.injEq] at hs
    exact hs.1 ▸ bookkeeping_finishSequence h id
  | removeSequence id =>
    simp only [step, Option.some_inj, Prod.mk.injEq] at hs
    exact hs.1 ▸ bookkeeping_removeSequence h id
  | drainFinished =>
    simp only [step, Option.some_inj, Prod.mk.injEq] at hs
    exact hs.1 ▸ bookkeeping_drainFinished h

theorem bookkeeping_runFrom {cfg : SchedulerConfig} {tr : List (Op × Answer)} {s : Scheduler}
    (h : RunFrom cfg tr s) : Bookkeeping cfg s :=
  h.invariant bookkeeping_step (bookkeeping_new cfg)

theorem bookkeeping_reachable {cfg : SchedulerConfig} {s : Scheduler} (h : Reachable cfg s) :
    Bookkeeping cfg s :=
  let ⟨_, hr⟩ := h
  bookkeeping_runFrom hr

/-- No call panics in a reachable state. -/
theorem step_isSome {cfg : SchedulerConfig} {s : Scheduler} (h : Bookkeeping cfg s) (op : Op) :
    ∃ s' a, step s op = some (s', a) := by
  cases op with
  | schedule =>
    obtain ⟨s', b, hs⟩ := schedule_isSome h.posBounded
    exact ⟨s', .batch b, step_schedule_eq_some.mpr ⟨b, hs, rfl⟩⟩
  | _ => exact ⟨_, _, rfl⟩

/-- **No run panics**: a new scheduler answers every list of calls to its end. -/
theorem exists_runFrom (cfg : SchedulerConfig) (ops : List Op) :
    ∃ tr s, RunFrom cfg tr s ∧ tr.map Prod.fst = ops :=
  Run.total bookkeeping_step (fun op hs => step_isSome hs op) ops (bookkeeping_new cfg)

/-- **Scheduler bookkeeping.**  In every reachable state the two queues are
duplicate-free, disjoint and hold only known ids, `max_sequences` bounds the
active list, and a sequence that is not terminal is in exactly one queue. -/
theorem queues_wellFormed {cfg : SchedulerConfig} {s : Scheduler} (h : Reachable cfg s) :
    (s.waitingQueue.Nodup ∧ s.activeIds.Nodup ∧ (∀ id ∈ s.waitingQueue, id ∉ s.activeIds) ∧
      (∀ id ∈ s.waitingQueue, (s.getSequence id).isSome) ∧
      (∀ id ∈ s.activeIds, (s.getSequence id).isSome)) ∧
    s.activeIds.length ≤ cfg.maxSequences ∧
    ∀ id seq, s.getSequence id = some seq → seq.terminal = false →
      Xor (id ∈ s.waitingQueue) (id ∈ s.activeIds) := by
  have hb := bookkeeping_reachable h
  refine ⟨⟨hb.waiting_nodup, hb.active_nodup, hb.disjoint, hb.waiting_known, hb.active_known⟩,
    hb.capacity, ?_⟩
  intro id seq hget hterm
  rcases hb.queued id seq hget hterm with hw | ha
  · exact .inl ⟨hw, hb.disjoint id hw⟩
  · exact .inr ⟨ha, fun hw => hb.disjoint id hw ha⟩

/-- Two requests on a scheduler with room for one: after a `schedule` the
second is still waiting, and in that queue only. -/
theorem queues_wellFormed_two_requests :
    ∃ s, Reachable ⟨1, 4, 4, 2⟩ s ∧ s.waitingQueue = [2] ∧ s.activeIds = [1] ∧
      Xor (2 ∈ s.waitingQueue) (2 ∈ s.activeIds) := by
  have hr : Reachable ⟨1, 4, 4, 2⟩ _ :=
    ⟨_, .cons (i := .addRequest [7, 8, 9] 10) rfl
      (.cons (i := .addRequest [5] 10) rfl (.cons (i := .schedule) rfl (.nil _)))⟩
  exact ⟨_, hr, rfl, rfl, (queues_wellFormed hr).2.2 2 _ rfl rfl⟩

end Scheduler

end Oxillama
