/-
When a batch respects its limits.

The three phases of `schedule` check different limits: phase 1 bounds the
number of entries but not the tokens, phase 2 the tokens but not the number of
entries, phase 3 both.  `withinLimits_schedule_iff` says exactly for which
states the batch nevertheless fits: the first chunks of the promoted requests
must fit the token budget, and the entries phase 2 adds must fit beside them.

Each phase has one lemma that computes what it adds (`promoteWaiting_spec`,
`continuePrefill_spec`, `withinLimits_scheduleDecode`), and `prefillPhases_spec`
says what the first two leave to the third; `served` is the greedy allocation of
a token budget to a list of demands, and `served_le_iff` is the arithmetic of it.
-/
import Oxillama.Scheduler.Finish

namespace Oxillama

namespace Scheduler

/-- The limits of a single batch. -/
def WithinLimits (cfg : SchedulerConfig) (b : ScheduledBatch) : Prop :=
  b.totalTokens ≤ cfg.maxBatchTokens ∧ b.seqIds.length ≤ cfg.maxBatchSequences

/-- The prompt tokens a sequence could take in one chunk. -/
def demand (s : Scheduler) (id : SeqId) : ℕ :=
  match s.getSequence id with
  | some seq => min (seq.promptTokens.length - seq.promptPos) s.config.maxPrefillTokens
  | none => 0

/-- The requests phase 1 has room for. -/
def promotable (s : Scheduler) : List SeqId :=
  s.waitingQueue.take
    (min (s.config.maxSequences - s.activeIds.length) s.config.maxBatchSequences)

/-- Whether `id` is in the middle of its prefill. -/
def isPrefilling (s : Scheduler) (id : SeqId) : Bool :=
  match s.getSequence id with
  | some seq => seq.state = .prefilling
  | none => false

/-- The active sequences in the middle of their prefill. -/
def prefilling (s : Scheduler) : List SeqId := s.activeIds.filter s.isPrefilling

/-- The first chunks of the promoted requests fit the token budget, and either
every unfinished prefill fits beside them or the budget runs out first. -/
def FitsLimits (s : Scheduler) : Prop :=
  (s.promotable.map s.demand).sum ≤ s.config.maxBatchTokens ∧
  (s.promotable.length + s.prefilling.length ≤ s.config.maxBatchSequences ∨
    s.config.maxBatchTokens ≤ (s.promotable.map s.demand).sum +
      ((s.prefilling.take (s.config.maxBatchSequences - s.promotable.length)).map s.demand).sum)

/-! ### Serving demands from a budget -/

/-- The total after demands are served in order, each cut to what is left of
the budget `limit`, and how many of them got something. -/
def served (limit : ℕ) : ℕ → List ℕ → ℕ × ℕ
  | total, [] => (total, 0)
  | total, d :: ds =>
    if limit ≤ total then (total, 0)
    else ((served limit (total + min d (limit - total)) ds).1,
      (served limit (total + min d (limit - total)) ds).2 + 1)

theorem served_le_iff {limit total k : ℕ} {ds : List ℕ} :
    (served limit total ds).2 ≤ k ↔ ds.length ≤ k ∨ limit ≤ total + (ds.take k).sum := by
  induction ds generalizing total k with
  | nil => simp [served]
  | cons d ds ih =>
    rw [served]
    split
    · rename_i hfull
      simp only [Nat.zero_le, true_iff]
      exact .inr (by omega)
    · rename_i hroom
      cases k with
      | zero => simp; omega
      | succ k =>
        simp only [Nat.add_le_add_iff_right, ih, List.length_cons, List.take_succ_cons,
          List.sum_cons]
        -- a demand cut down by the budget exhausts it
        refine or_congr Iff.rfl ?_
        omega

theorem served_total_le_iff {limit total : ℕ} {ds : List ℕ} :
    (served limit total ds).1 ≤ limit ↔ total ≤ limit := by
  induction ds generalizing total with
  | nil => simp [served]
  | cons d ds ih =>
    rw [served]
    split
    · rfl
    · rw [ih]
      omega

/-! ### Phase 1 -/

theorem demand_congr {s s' : Scheduler} {id : SeqId}
    (hget : s'.getSequence id = s.getSequence id) (hcfg : s'.config = s.config) :
    s'.demand id = s.demand id := by
  rw [demand, demand, hget, hcfg]

theorem isPrefilling_congr {s s' : Scheduler} {id : SeqId}
    (hget : s'.getSequence id = s.getSequence id) : s'.isPrefilling id = s.isPrefilling id := by
  rw [isPrefilling, isPrefilling, hget]

/-- Phase 1 promotes the requests there is room for, each with its demand. -/
theorem promoteWaiting_spec {queue : List SeqId} {s s' : Scheduler} {b b' : ScheduledBatch}
    (hnodup : queue.Nodup) (hknown : ∀ id ∈ queue, (s.getSequence id).isSome)
    (hpos : s.PosBounded) (h : promoteWaiting queue s b = some (s', b')) :
    let promoted := queue.take (min (s.config.maxSequences - s.activeIds.length)
      (s.config.maxBatchSequences - b.seqIds.length))
    b'.seqIds = b.seqIds ++ promoted ∧
    b'.totalTokens = b.totalTokens + (promoted.map s.demand).sum ∧
    s'.activeIds = s.activeIds ++ promoted ∧ s'.config = s.config ∧
    ∀ id ∉ promoted, s'.getSequence id = s.getSequence id := by
  induction queue generalizing s b with
  | nil =>
    simp only [promoteWaiting, Option.some_inj, Prod.mk.injEq] at h
    obtain ⟨rfl, rfl⟩ := h
    simp
  | cons id queue ih =>
    rw [promoteWaiting] at h
    split at h
    · rename_i hroom
      rw [List.nodup_cons] at hnodup
      obtain ⟨seq, hget⟩ := Option.isSome_iff_exists.mp (hknown id List.mem_cons_self)
      have hle := hpos id seq hget
      set chunk := min (seq.promptTokens.length - seq.promptPos) s.config.maxPrefillTokens
        with hchunkdef
      have hchunk : seq.promptPos + chunk ≤ seq.promptTokens.length := by omega
      have htake := Sequence.takePrompt_eq_some.mpr ⟨hchunk, rfl, rfl⟩
      simp only [getSequence_waitingQueue, hget, usizeSub_of_le hle, Option.bind_eq_bind,
        Option.bind_some] at h
      rw [htake] at h
      set s₁ : Scheduler := Scheduler.setSequence
        { s with waitingQueue := queue, activeIds := s.activeIds ++ [id] } id (seq.advanced chunk)
        with hs₁
      have hframe : ∀ x, x ≠ id → s₁.getSequence x = s.getSequence x := fun x hx =>
        getSequence_setSequence_ne _ _ _ hx
      have hdemand : ∀ x ∈ queue, s₁.demand x = s.demand x := by
        intro x hx
        exact demand_congr (hframe x fun heq => hnodup.1 (heq ▸ hx)) rfl
      have hknown₁ : ∀ x ∈ queue, (s₁.getSequence x).isSome := by
        intro x hx
        rw [hframe x fun heq => hnodup.1 (heq ▸ hx)]
        exact hknown x (List.mem_cons_of_mem _ hx)
      have hpos₁ : s₁.PosBounded := PosBounded.setSequence
        (s := { s with waitingQueue := queue, activeIds := s.activeIds ++ [id] }) hpos hchunk
      obtain ⟨hids, htotal, hactive, hcfg, hrest⟩ := ih hnodup.2 hknown₁ hpos₁ h
      -- the room shrinks by one on both sides
      have hcount : min (s.config.maxSequences - s.activeIds.length)
            (s.config.maxBatchSequences - b.seqIds.length) =
          min (s₁.config.maxSequences - s₁.activeIds.length)
            (s₁.config.maxBatchSequences - (b.push id (seq.chunkTokens chunk) true).seqIds.length)
            + 1 := by
        simp only [hs₁, config_setSequence, activeIds_setSequence, ScheduledBatch.seqIds_push,
          List.length_append, List.length_singleton]
        omega
      intro promoted
      set n := min (s₁.config.maxSequences - s₁.activeIds.length)
        (s₁.config.maxBatchSequences - (b.push id (seq.chunkTokens chunk) true).seqIds.length)
      have hpromoted : promoted = id :: queue.take n := by
        rw [show promoted = (id :: queue).take _ from rfl, hcount, List.take_succ_cons]
      have hdid : s.demand id = chunk := by
        simp only [demand, hget, hchunkdef]
      have hsum : ((queue.take n).map s₁.demand).sum = ((queue.take n).map s.demand).sum := by
        congr 1
        exact List.map_congr_left fun x hx => hdemand x (List.mem_of_mem_take hx)
      rw [hpromoted]
      refine ⟨?_, ?_, ?_, hcfg, ?_⟩
      · rw [hids, ScheduledBatch.seqIds_push, List.append_assoc]
        rfl
      · rw [htotal, hsum, ScheduledBatch.totalTokens_push, Sequence.length_chunkTokens hchunk,
          List.map_cons, List.sum_cons, hdid, Nat.add_assoc]
      · rw [hactive, hs₁, activeIds_setSequence, List.append_assoc]
        rfl
      · intro x hx
        rw [List.mem_cons, not_or] at hx
        rw [hrest x hx.2, hframe x hx.1]
    · rename_i hroom
      simp only [Option.some_inj, Prod.mk.injEq] at h
      obtain ⟨rfl, rfl⟩ := h
      have hzero : min (s.config.maxSequences - s.activeIds.length)
          (s.config.maxBatchSequences - b.seqIds.length) = 0 := by
        omega
      rw [hzero]
      simp

/-! ### Phase 2 -/

/-- One turn of phase 2 within the budget: it serves a sequence that is in the middle of
its prefill, has demand and is not in the batch yet, and passes over any other. -/
theorem continuePrefill_cons {id : SeqId} {active : List SeqId} {s : Scheduler}
    {b : ScheduledBatch} (hpos : s.PosBounded)
    (hroom : ¬ s.config.maxBatchTokens ≤ b.totalTokens) :
    ((id ∉ b.seqIds ∧ s.isPrefilling id = true) ∧ 0 < s.demand id ∧ ∃ seq chunk,
      s.getSequence id = some seq ∧
      chunk = min (s.demand id) (s.config.maxBatchTokens - b.totalTokens) ∧
      seq.promptPos + chunk ≤ seq.promptTokens.length ∧
      continuePrefill (id :: active) s b = continuePrefill active
        (s.setSequence id (seq.advanced chunk)) (b.push id (seq.chunkTokens chunk) true)) ∨
    (¬ ((id ∉ b.seqIds ∧ s.isPrefilling id = true) ∧ 0 < s.demand id) ∧
      continuePrefill (id :: active) s b = continuePrefill active s b) := by
  rw [continuePrefill, if_neg hroom]
  split
  · rename_i hin
    exact .inr ⟨fun hc => hc.1.1 hin, rfl⟩
  rename_i hnew
  cases hget : s.getSequence id with
  | none => exact .inr ⟨fun hc => by simp [isPrefilling, hget] at hc, rfl⟩
  | some seq =>
    have hle := hpos id seq hget
    have hdemand : s.demand id =
        min (seq.promptTokens.length - seq.promptPos) s.config.maxPrefillTokens := by
      rw [demand, hget]
    dsimp only
    split
    · rename_i hstate
      have hseq : seq = { seq with state := .prefilling } := by rw [← hstate]
      simp only [usizeSub_of_le hle, usizeSub_of_le (Nat.le_of_not_le hroom),
        Option.bind_eq_bind, Option.bind_some]
      rw [← hdemand]
      split
      · rename_i hchunk
        have hfit : seq.promptPos + min (s.demand id) (s.config.maxBatchTokens - b.totalTokens) ≤
            seq.promptTokens.length := by omega
        refine .inl ⟨⟨hnew, by simp [isPrefilling, hget, hstate]⟩, by omega, seq, _, rfl, rfl,
          hfit, ?_⟩
        have htake := Sequence.takePrompt_eq_some.mpr ⟨hfit, rfl, rfl⟩
        rw [← hseq] at htake
        rw [htake]
        rfl
      · rename_i hchunk
        exact .inr ⟨fun hc => hchunk (by omega), rfl⟩
    · rename_i hstate
      exact .inr ⟨fun hc => by simp [isPrefilling, hget, hstate] at hc, rfl⟩

/-- Phase 2 serves the unfinished prefills with demand that are not in the batch yet, and
changes no other sequence. -/
theorem continuePrefill_spec {active : List SeqId} {s s' : Scheduler} {b b' : ScheduledBatch}
    (hnodup : active.Nodup) (hpos : s.PosBounded)
    (h : continuePrefill active s b = some (s', b')) :
    let demands := ((active.filter fun id => id ∉ b.seqIds ∧ s.isPrefilling id = true).map
      s.demand).filter (0 < ·)
    b'.totalTokens = (served s.config.maxBatchTokens b.totalTokens demands).1 ∧
    b'.seqIds.length =
      b.seqIds.length + (served s.config.maxBatchTokens b.totalTokens demands).2 ∧
    s'.config = s.config ∧
    (∀ id, id ∈ b'.seqIds → id ∈ b.seqIds ∨ s.isPrefilling id = true) ∧
    ∀ id, (id ∈ b.seqIds → id ∈ b'.seqIds) ∧
      (id ∉ b'.seqIds → s'.getSequence id = s.getSequence id) := by
  induction active generalizing s b with
  | nil =>
    simp only [continuePrefill, Option.some_inj, Prod.mk.injEq] at h
    obtain ⟨rfl, rfl⟩ := h
    exact ⟨rfl, rfl, rfl, fun _ hx => .inl hx, fun _ => ⟨fun hx => hx, fun _ => rfl⟩⟩
  | cons id active ih =>
    rw [List.nodup_cons] at hnodup
    intro demands
    by_cases hfull : s.config.maxBatchTokens ≤ b.totalTokens
    · rw [continuePrefill, if_pos hfull] at h
      simp only [Option.some_inj, Prod.mk.injEq] at h
      obtain ⟨rfl, rfl⟩ := h
      have hserved : served s.config.maxBatchTokens b.totalTokens demands =
          (b.totalTokens, 0) := by
        cases demands with
        | nil => rfl
        | cons d ds => rw [served, if_pos hfull]
      rw [hserved]
      exact ⟨rfl, rfl, rfl, fun _ hx => .inl hx, fun _ => ⟨fun hx => hx, fun _ => rfl⟩⟩
    rcases continuePrefill_cons hpos hfull with
      ⟨⟨hnew, hstate⟩, hpositive, seq, chunk, hget, hchunk, hfit, heq⟩ | ⟨hskip, heq⟩
    · rw [heq] at h
      set s₁ := s.setSequence id (seq.advanced chunk)
      have hframe : ∀ x, x ≠ id → s₁.getSequence x = s.getSequence x := fun x hx =>
        getSequence_setSequence_ne _ _ _ hx
      have hin : id ∈ (b.push id (seq.chunkTokens chunk) true).seqIds := by
        rw [ScheduledBatch.seqIds_push]
        exact List.mem_append_right _ (List.mem_singleton_self id)
      obtain ⟨htotal, hlen, hcfg, hmem, hrest⟩ :=
        ih (s := s₁) hnodup.2 (hpos.setSequence hfit) h
      have htail : (active.filter fun x => x ∉ (b.push id (seq.chunkTokens chunk) true).seqIds ∧
            s₁.isPrefilling x = true).map s₁.demand =
          (active.filter fun x => x ∉ b.seqIds ∧ s.isPrefilling x = true).map s.demand := by
        have hne : ∀ x ∈ active, x ≠ id := fun x hx heq => hnodup.1 (heq ▸ hx)
        have hfilter : (active.filter fun x =>
              x ∉ (b.push id (seq.chunkTokens chunk) true).seqIds ∧ s₁.isPrefilling x = true) =
            active.filter fun x => x ∉ b.seqIds ∧ s.isPrefilling x = true := by
          refine List.filter_congr fun x hx => ?_
          rw [isPrefilling_congr (hframe x (hne x hx))]
          simp [hne x hx]
        rw [hfilter]
        exact List.map_congr_left fun x hx =>
          demand_congr (hframe x (hne x (List.mem_filter.mp hx).1)) rfl
      have hdem : demands = s.demand id ::
          ((active.filter fun x => x ∉ b.seqIds ∧ s.isPrefilling x = true).map s.demand).filter
            (0 < ·) := by
        rw [show demands = (((id :: active).filter _).map s.demand).filter _ from rfl,
          List.filter_cons_of_pos (by simp [hnew, hstate]), List.map_cons,
          List.filter_cons_of_pos (by simpa using hpositive)]
      rw [htail, ScheduledBatch.totalTokens_push, ScheduledBatch.seqIds_push,
        Sequence.length_chunkTokens hfit, List.length_append, List.length_singleton, hchunk]
        at hlen
      rw [htail, ScheduledBatch.totalTokens_push, Sequence.length_chunkTokens hfit, hchunk]
        at htotal
      rw [hdem, served, if_neg hfull]
      refine ⟨htotal, ?_, hcfg, fun x hx => ?_, fun x => ⟨fun hx => ?_, fun hx => ?_⟩⟩
      · rw [hlen, Nat.add_assoc, Nat.add_comm 1]
        rfl
      · rcases hmem x hx with hx | hx
        · rcases List.mem_append.mp hx with hx | hx
          · exact .inl hx
          · exact .inr (List.mem_singleton.mp hx ▸ hstate)
        · by_cases hne : x = id
          · exact .inr (hne ▸ hstate)
          · exact .inr (isPrefilling_congr (hframe x hne) ▸ hx)
      · exact (hrest x).1 (List.mem_append_left _ hx)
      · have hne : x ≠ id := fun heq => hx ((hrest x).1 (heq ▸ hin))
        rw [(hrest x).2 hx, hframe x hne]
    · rw [heq] at h
      have hdem : demands =
          ((active.filter fun x => x ∉ b.seqIds ∧ s.isPrefilling x = true).map s.demand).filter
            (0 < ·) := by
        rw [show demands = (((id :: active).filter _).map s.demand).filter _ from rfl]
        by_cases hopen : id ∉ b.seqIds ∧ s.isPrefilling id = true
        · rw [List.filter_cons_of_pos (by simpa using hopen), List.map_cons,
            List.filter_cons_of_neg (by simpa using fun hp => hskip ⟨hopen, hp⟩)]
        · rw [List.filter_cons_of_neg (by simpa using hopen)]
      rw [hdem]
      exact ih hnodup.2 hpos h

/-- The prompt tokens phases 1 and 2 schedule, and the entries phase 2 adds.  Phase 2
schedules nothing for a sequence without demand. -/
def prefillLoad (s : Scheduler) : ℕ × ℕ :=
  served s.config.maxBatchTokens (s.promotable.map s.demand).sum
    ((s.prefilling.map s.demand).filter (0 < ·))

/-- What phases 1 and 2 leave to phase 3. -/
theorem prefillPhases_spec {cfg : SchedulerConfig} {s s₁ s₂ : Scheduler}
    {b₁ b₂ : ScheduledBatch} (hb : Bookkeeping cfg s)
    (h1 : promoteWaiting s.waitingQueue s .empty = some (s₁, b₁))
    (h2 : continuePrefill s₁.activeIds s₁ b₁ = some (s₂, b₂)) :
    b₂.totalTokens = s.prefillLoad.1 ∧
    b₂.seqIds.length = s.promotable.length + s.prefillLoad.2 ∧
    s₂.config = cfg ∧ s₁.activeIds = s.activeIds ++ s.promotable ∧ s₁.activeIds.Nodup ∧
    (∀ id ∈ s.promotable, id ∈ b₂.seqIds) ∧
    ∀ id ∈ s.activeIds, (id ∈ b₂.seqIds → s.isPrefilling id = true) ∧
      (id ∉ b₂.seqIds → s₂.getSequence id = s.getSequence id) := by
  have hbook₁ : Bookkeeping cfg s₁ :=
    moves_induction (P := fun s _ => Bookkeeping cfg s) bookkeeping_move
      (promoteWaiting_moves rfl h1) hb
  have hspec₁ := promoteWaiting_spec hb.waiting_nodup hb.waiting_known hb.posBounded h1
  rw [ScheduledBatch.seqIds_empty, List.length_nil, Nat.sub_zero] at hspec₁
  obtain ⟨hids, htotal, hactive, hcfg₁, hframe⟩ := hspec₁
  rw [show s.waitingQueue.take _ = s.promotable from rfl] at hids htotal hactive hframe
  rw [List.nil_append] at hids
  rw [ScheduledBatch.totalTokens_empty, Nat.zero_add] at htotal
  obtain ⟨htotal₂, hlen₂, hcfg₂, hmem, hrest⟩ :=
    continuePrefill_spec hbook₁.active_nodup hbook₁.posBounded h2
  -- outside the promoted requests, phase 2 sees the state `schedule` started from
  have hdisj : ∀ id ∈ s.activeIds, id ∉ s.promotable := fun id hid hmem =>
    hb.disjoint id (List.mem_of_mem_take hmem) hid
  have hdemands : (s₁.activeIds.filter fun id => id ∉ b₁.seqIds ∧
        s₁.isPrefilling id = true).map s₁.demand = s.prefilling.map s.demand := by
    have hpromoted : s.promotable.filter (fun id => id ∉ b₁.seqIds ∧
        s₁.isPrefilling id = true) = [] :=
      List.filter_eq_nil_iff.mpr fun id hid => by simp [hids, hid]
    have hold : s.activeIds.filter (fun id => id ∉ b₁.seqIds ∧ s₁.isPrefilling id = true) =
        s.prefilling := by
      refine List.filter_congr fun id hid => ?_
      have hnot := hdisj id hid
      rw [isPrefilling_congr (hframe id hnot)]
      simp [hids, hnot]
    rw [hactive, List.filter_append, hpromoted, hold, List.append_nil]
    exact List.map_congr_left fun id hid =>
      demand_congr (hframe id (hdisj id (List.mem_filter.mp hid).1)) hcfg₁
  rw [hdemands, htotal, hcfg₁] at htotal₂ hlen₂
  rw [hids] at hlen₂
  refine ⟨htotal₂, hlen₂, by rw [hcfg₂, hcfg₁, hb.config_eq], hactive, hbook₁.active_nodup,
    fun id hid => (hrest id).1 (hids ▸ hid), fun id hid => ⟨fun hin => ?_, fun hout => ?_⟩⟩
  · rcases hmem id hin with hin | hopen
    · exact absurd (hids ▸ hin) (hdisj id hid)
    · exact isPrefilling_congr (hframe id (hdisj id hid)) ▸ hopen
  · rw [(hrest id).2 hout, hframe id (hdisj id hid)]

/-! ### Phase 3 -/

/-- Phase 3 never breaks a limit that still holds, nor mends a broken one. -/
theorem withinLimits_scheduleDecode {s : Scheduler} {active : List SeqId}
    {b : ScheduledBatch} :
    WithinLimits s.config (s.scheduleDecode active b) ↔ WithinLimits s.config b := by
  induction active generalizing b with
  | nil => rfl
  | cons id active ih =>
    rw [scheduleDecode]
    split
    · rfl
    split
    · rfl
    cases s.getSequence id with
    | none => exact ih
    | some seq =>
      simp only
      split
      · rw [ih]
        simp only [WithinLimits, ScheduledBatch.totalTokens_push, ScheduledBatch.seqIds_push,
          List.length_append, List.length_singleton]
        omega
      · exact ih

/-! ### The whole call -/

/-- **Batch limits.**  With every limit at least 1, `schedule` answers in every
reachable state (so no subtraction underflows), and its batch respects the
limits if and only if the state satisfies `FitsLimits`. -/
theorem withinLimits_schedule_iff {cfg : SchedulerConfig} {s : Scheduler}
    (hcfg : 1 ≤ cfg.maxSequences ∧ 1 ≤ cfg.maxBatchTokens ∧ 1 ≤ cfg.maxBatchSequences ∧
      1 ≤ cfg.maxPrefillTokens) (h : Reachable cfg s) :
    ∃ s' b, s.schedule = some (s', b) ∧ (WithinLimits cfg b ↔ s.FitsLimits) := by
  have hb := bookkeeping_reachable h
  obtain ⟨s', b, hs⟩ := schedule_isSome hb.posBounded
  refine ⟨s', b, hs, ?_⟩
  simp only [schedule, Option.bind_eq_bind, Option.bind_eq_some_iff, Prod.exists,
    Option.some_inj, Prod.mk.injEq] at hs
  obtain ⟨s₁, b₁, h1, s₂, b₂, h2, -, rfl⟩ := hs
  obtain ⟨htotal₂, hlen₂, hcfgs, -⟩ := prefillPhases_spec hb h1 h2
  -- every unfinished prefill has demand
  have hdemands : (s.prefilling.map s.demand).filter (0 < ·) = s.prefilling.map s.demand := by
    rw [List.filter_eq_self]
    intro d hd
    obtain ⟨id, hid, rfl⟩ := List.mem_map.mp hd
    have hopen := (List.mem_filter.mp hid).2
    rw [isPrefilling] at hopen
    rw [demand, hb.config_eq]
    cases hget : s.getSequence id with
    | none => simp [hget] at hopen
    | some seq =>
      rw [hget] at hopen
      have hlt := hb.prefilling_open id seq hget (by simpa using hopen)
      rw [decide_eq_true_iff]
      dsimp only
      omega
  rw [prefillLoad, hdemands, hb.config_eq] at htotal₂ hlen₂
  rw [← hcfgs, withinLimits_scheduleDecode, WithinLimits, hcfgs, htotal₂, hlen₂, FitsLimits,
    hb.config_eq, served_total_le_iff]
  refine and_congr Iff.rfl ?_
  have hroom : s.promotable.length ≤ cfg.maxBatchSequences := by
    rw [promotable, List.length_take, hb.config_eq]
    omega
  have hserved := @served_le_iff cfg.maxBatchTokens (s.promotable.map s.demand).sum
    (cfg.maxBatchSequences - s.promotable.length) (s.prefilling.map s.demand)
  rw [List.length_map, ← List.map_take] at hserved
  omega

/-- Two prompts that fit one batch together. -/
theorem withinLimits_schedule_two_prompts :
    ∃ s, Reachable ⟨2, 4, 2, 4⟩ s ∧ ∃ s' b, s.schedule = some (s', b) ∧
      WithinLimits ⟨2, 4, 2, 4⟩ b := by
  have hr : Reachable ⟨2, 4, 2, 4⟩ _ :=
    ⟨_, .cons (i := .addRequest [7, 8] 5) rfl (.cons (i := .addRequest [9] 5) rfl (.nil _))⟩
  obtain ⟨s', b, hs, hiff⟩ := withinLimits_schedule_iff (by decide) hr
  exact ⟨_, hr, s', b, hs, hiff.mpr ⟨by decide, .inl (by decide)⟩⟩

/-- Phase 1 alone overfills a batch: two waiting prompts of one token each,
with a budget of one token. -/
theorem not_withinLimits_two_waiting :
    ¬ ∀ cfg s s' b, 1 ≤ cfg.maxSequences ∧ 1 ≤ cfg.maxBatchTokens ∧
      1 ≤ cfg.maxBatchSequences ∧ 1 ≤ cfg.maxPrefillTokens → Reachable cfg s →
      s.schedule = some (s', b) → WithinLimits cfg b := by
  intro hall
  have hr : Reachable ⟨2, 1, 2, 1⟩ _ :=
    ⟨_, .cons (i := .addRequest [7] 5) rfl (.cons (i := .addRequest [8] 5) rfl (.nil _))⟩
  exact absurd (hall ⟨2, 1, 2, 1⟩ _ _ ⟨[1, 2], [[7], [8]], [true, true]⟩ (by decide) hr rfl).1
    (by decide)

end Scheduler

end Oxillama
