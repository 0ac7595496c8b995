/-
What `schedule` does, one batch entry at a time.

The three phases of `schedule` are loops over queues with their own guards.
`Move` lists once and for all what a single iteration can change, guards
included:

* `schedule_moves` — every call of `schedule` is a sequence of moves from the
  empty batch followed by the clean-up, so an invariant of the scheduler needs
  one check per move;
* `schedule_isSome` — `schedule` never panics as long as no sequence has
  scheduled more prompt tokens than it has.
-/
import Mathlib.Logic.Relation
import Oxillama.Scheduler.Model

namespace Oxillama

open Relation

namespace Scheduler

/-! ### Frame lemmas of the map of sequences -/

section Frame

variable (s : Scheduler) (id : SeqId) (seq : Sequence)

@[simp] theorem getSequence_setSequence_self :
    (s.setSequence id seq).getSequence id = some seq :=
  AList.lookup_insert _

theorem getSequence_setSequence_ne {id' : SeqId} (h : id' ≠ id) :
    (s.setSequence id seq).getSequence id' = s.getSequence id' :=
  AList.lookup_insert_ne h

/-- What stands under an id after one sequence was written back. -/
theorem getSequence_setSequence_eq_some {id' : SeqId} {seq' : Sequence}
    (h : (s.setSequence id seq).getSequence id' = some seq') :
    (id' = id ∧ seq' = seq) ∨ (id' ≠ id ∧ s.getSequence id' = some seq') := by
  by_cases hid : id' = id
  · subst hid
    rw [getSequence_setSequence_self, Option.some_inj] at h
    exact .inl ⟨rfl, h.symm⟩
  · rw [getSequence_setSequence_ne _ _ _ hid] at h
    exact .inr ⟨hid, h⟩

@[simp] theorem config_setSequence : (s.setSequence id seq).config = s.config := rfl

@[simp] theorem activeIds_setSequence : (s.setSequence id seq).activeIds = s.activeIds := rfl

@[simp] theorem getSequence_waitingQueue (q : List SeqId) :
    ({ s with waitingQueue := q } : Scheduler).getSequence id = s.getSequence id := rfl

@[simp] theorem getSequence_cleanUp : s.cleanUp.getSequence id = s.getSequence id := rfl

theorem modifySequence_eq_set {f : Sequence → Sequence} (h : s.getSequence id = some seq) :
    s.modifySequence id f = s.setSequence id (f seq) := by
  rw [modifySequence, h]

theorem modifySequence_eq_self {f : Sequence → Sequence} (h : s.getSequence id = none) :
    s.modifySequence id f = s := by
  rw [modifySequence, h]

theorem getSequence_modifySequence (f : Sequence → Sequence) (id' : SeqId) :
    (s.modifySequence id f).getSequence id' =
      if id' = id then (s.getSequence id).map f else s.getSequence id' := by
  by_cases hid : id' = id
  · subst hid
    cases hget : s.getSequence id' with
    | none => simp [modifySequence_eq_self _ _ hget, hget]
    | some seq => simp [modifySequence_eq_set _ _ _ hget]
  · rw [if_neg hid]
    cases hget : s.getSequence id with
    | none => rw [modifySequence_eq_self _ _ hget]
    | some seq => rw [modifySequence_eq_set _ _ _ hget, getSequence_setSequence_ne _ _ _ hid]

/-- Editing a sequence neither adds nor drops one. -/
theorem isSome_modifySequence (f : Sequence → Sequence) (id' : SeqId) :
    ((s.modifySequence id f).getSequence id').isSome = (s.getSequence id').isSome := by
  rw [getSequence_modifySequence]
  split
  · rename_i hid
    rw [Option.isSome_map, hid]
  · rfl

/-- What stands under an id after one sequence was edited. -/
theorem getSequence_modifySequence_eq_some {f : Sequence → Sequence} {id' : SeqId}
    {seq' : Sequence} (h : (s.modifySequence id f).getSequence id' = some seq') :
    s.getSequence id' = some seq' ∨ ∃ seq, s.getSequence id' = some seq ∧ seq' = f seq := by
  rw [getSequence_modifySequence] at h
  split at h
  · rename_i hid
    obtain ⟨seq, hseq, rfl⟩ := Option.map_eq_some_iff.mp h
    exact .inr ⟨seq, hid ▸ hseq, rfl⟩
  · exact .inl h

@[simp] theorem nextId_modifySequence (f : Sequence → Sequence) :
    (s.modifySequence id f).nextId = s.nextId := by
  unfold modifySequence
  split <;> rfl

@[simp] theorem waitingQueue_modifySequence (f : Sequence → Sequence) :
    (s.modifySequence id f).waitingQueue = s.waitingQueue := by
  unfold modifySequence
  split <;> rfl

@[simp] theorem activeIds_modifySequence (f : Sequence → Sequence) :
    (s.modifySequence id f).activeIds = s.activeIds := by
  unfold modifySequence
  split <;> rfl

@[simp] theorem getSequence_removeSequence_self :
    (s.removeSequence id).getSequence id = none :=
  AList.lookup_erase _ _

theorem getSequence_removeSequence_ne {id' : SeqId} (h : id' ≠ id) :
    (s.removeSequence id).getSequence id' = s.getSequence id' :=
  AList.lookup_erase_ne h

end Frame

/-! ### Scheduling a prompt chunk -/

namespace Sequence

/-- The next `chunk` prompt tokens. -/
def chunkTokens (seq : Sequence) (chunk : ℕ) : List UInt32 :=
  (seq.promptTokens.drop seq.promptPos).take chunk

/-- The sequence after its next `chunk` prompt tokens were scheduled. -/
def advanced (seq : Sequence) (chunk : ℕ) : Sequence :=
  { seq with
    promptPos := seq.promptPos + chunk
    state := if seq.promptTokens.length ≤ seq.promptPos + chunk then .decoding else .prefilling }

theorem takePrompt_eq_some {seq seq' : Sequence} {chunk : ℕ} {toks : List UInt32} :
    ({ seq with state := .prefilling } : Sequence).takePrompt chunk = some (toks, seq') ↔
      seq.promptPos + chunk ≤ seq.promptTokens.length ∧ toks = seq.chunkTokens chunk ∧
        seq' = seq.advanced chunk := by
  simp only [takePrompt, Option.bind_eq_bind, Option.bind_eq_some_iff, sliceRange_eq_some,
    Option.some_inj, Prod.mk.injEq, Nat.add_sub_cancel_left]
  constructor
  · rintro ⟨ys, ⟨-, hle, rfl⟩, rfl, rfl⟩
    exact ⟨hle, rfl, rfl⟩
  · rintro ⟨hle, rfl, rfl⟩
    exact ⟨_, ⟨by omega, hle, rfl⟩, rfl, rfl⟩

theorem length_chunkTokens {seq : Sequence} {chunk : ℕ}
    (h : seq.promptPos + chunk ≤ seq.promptTokens.length) :
    (seq.chunkTokens chunk).length = chunk := by
  simp only [chunkTokens, List.length_take, List.length_drop]
  omega

end Sequence

/-! ### Moves -/

/-- One iteration of one of the three loops of `schedule`, on the scheduler
and the batch under construction. -/
inductive Move : Scheduler × ScheduledBatch → Scheduler × ScheduledBatch → Prop
  /-- Phase 1 pops an id that is no longer in the map. -/
  | skip {s : Scheduler} {b : ScheduledBatch} {id : SeqId} {queue : List SeqId}
      (hq : s.waitingQueue = id :: queue) (hget : s.getSequence id = none) :
      Move (s, b) ({ s with waitingQueue := queue }, b)
  /-- Phase 1 promotes the head of the waiting queue. -/
  | promote {s : Scheduler} {b : ScheduledBatch} {id : SeqId} {queue : List SeqId}
      {seq : Sequence} {chunk : ℕ}
      (hq : s.waitingQueue = id :: queue) (hget : s.getSequence id = some seq)
      (hactive : s.activeIds.length < s.config.maxSequences)
      (hbatch : b.seqIds.length < s.config.maxBatchSequences)
      (hchunk : seq.promptPos + chunk ≤ seq.promptTokens.length) :
      Move (s, b)
        (({ s with waitingQueue := queue, activeIds := s.activeIds ++ [id] }).setSequence id
            (seq.advanced chunk),
          b.push id (seq.chunkTokens chunk) true)
  /-- Phase 2 continues the prefill of an active sequence. -/
  | prefill {s : Scheduler} {b : ScheduledBatch} {id : SeqId} {seq : Sequence} {chunk : ℕ}
      (hactive : id ∈ s.activeIds) (hnew : id ∉ b.seqIds) (hget : s.getSequence id = some seq)
      (hstate : seq.state = .prefilling)
      (hchunk : seq.promptPos + chunk ≤ seq.promptTokens.length) :
      Move (s, b) (s.setSequence id (seq.advanced chunk), b.push id (seq.chunkTokens chunk) true)
  /-- Phase 3 schedules one decode token. -/
  | decode {s : Scheduler} {b : ScheduledBatch} {id : SeqId} {seq : Sequence}
      (hactive : id ∈ s.activeIds) (hnew : id ∉ b.seqIds) (hget : s.getSequence id = some seq)
      (hstate : seq.state = .decoding) (hstopped : seq.stopped = false)
      (hlimit : seq.atLimit = false) :
      Move (s, b) (s, b.push id [seq.lastToken] false)

theorem promoteWaiting_moves {queue : List SeqId} {s s' : Scheduler} {b b' : ScheduledBatch}
    (hq : s.waitingQueue = queue) (h : promoteWaiting queue s b = some (s', b')) :
    ReflTransGen Move (s, b) (s', b') := by
  induction queue generalizing s b with
  | nil =>
    simp only [promoteWaiting, Option.some_inj, Prod.mk.injEq] at h
    obtain ⟨rfl, rfl⟩ := h
    exact .refl
  | cons id queue ih =>
    rw [promoteWaiting] at h
    split at h
    · rename_i hroom
      simp only [getSequence_waitingQueue] at h
      -- the head leaves the queue in any case, known or not
      cases hget : s.getSequence id with
      | none =>
        rw [hget] at h
        exact .head (.skip hq hget) (ih rfl h)
      | some seq =>
        rw [hget] at h
        simp only [Option.bind_eq_bind, Option.bind_eq_some_iff, usizeSub_eq_some,
          Prod.exists, Sequence.takePrompt_eq_some] at h
        obtain ⟨_, ⟨-, -⟩, toks, seq', ⟨hle, rfl, rfl⟩, h⟩ := h
        exact .head (.promote hq hget hroom.1 hroom.2 hle) (ih rfl h)
    · simp only [Option.some_inj, Prod.mk.injEq] at h
      obtain ⟨rfl, rfl⟩ := h
      exact .refl

theorem continuePrefill_moves {active : List SeqId} {s s' : Scheduler}
    {b b' : ScheduledBatch} (hactive : ∀ id ∈ active, id ∈ s.activeIds)
    (h : continuePrefill active s b = some (s', b')) :
    ReflTransGen Move (s, b) (s', b') ∧ s'.activeIds = s.activeIds := by
  induction active generalizing s b with
  | nil =>
    simp only [continuePrefill, Option.some_inj, Prod.mk.injEq] at h
    obtain ⟨rfl, rfl⟩ := h
    exact ⟨.refl, rfl⟩
  | cons id active ih =>
    have htail : ∀ id ∈ active, id ∈ s.activeIds := fun x hx => hactive x (by simp [hx])
    rw [continuePrefill] at h
    split at h
    · simp only [Option.some_inj, Prod.mk.injEq] at h
      obtain ⟨rfl, rfl⟩ := h
      exact ⟨.refl, rfl⟩
    split at h
    · exact ih htail h
    rename_i hnew
    cases hget : s.getSequence id with
    | none =>
      rw [hget] at h
      exact ih htail h
    | some seq =>
      rw [hget] at h
      simp only at h
      split at h
      · rename_i hstate
        simp only [Option.bind_eq_bind, Option.bind_eq_some_iff, usizeSub_eq_some] at h
        obtain ⟨_, ⟨-, -⟩, _, ⟨-, -⟩, h⟩ := h
        split at h
        · -- phase 2 leaves the state as it is, which is what phase 1 sets it to
          have hseq : seq = { seq with state := .prefilling } := by rw [← hstate]
          simp only [Option.bind_eq_some_iff, Prod.exists] at h
          obtain ⟨toks, seq', htake, h⟩ := h
          rw [hseq, Sequence.takePrompt_eq_some] at htake
          obtain ⟨hle, rfl, rfl⟩ := htake
          obtain ⟨hm, ha⟩ := ih (s := s.setSequence id _) htail h
          exact ⟨.head (.prefill (hactive id (by simp)) hnew hget hstate hle) hm, ha⟩
        · exact ih htail h
      · exact ih htail h

theorem scheduleDecode_moves {active : List SeqId} {s : Scheduler} {b : ScheduledBatch}
    (hactive : ∀ id ∈ active, id ∈ s.activeIds) :
    ReflTransGen Move (s, b) (s, s.scheduleDecode active b) := by
  induction active generalizing b with
  | nil => exact .refl
  | cons id active ih =>
    have htail : ∀ id ∈ active, id ∈ s.activeIds := fun x hx => hactive x (by simp [hx])
    rw [scheduleDecode]
    split
    · exact .refl
    split
    · exact .refl
    cases hget : s.getSequence id with
    | none => exact ih htail
    | some seq =>
      simp only
      split
      · rename_i hdec
        obtain ⟨hstate, hstopped, hlimit, hnew⟩ := hdec
        exact .head (.decode (hactive id (by simp)) hnew hget hstate hstopped hlimit) (ih htail)
      · exact ih htail

/-- **Every batch is built by moves.** -/
theorem schedule_moves {s s' : Scheduler} {b : ScheduledBatch}
    (h : s.schedule = some (s', b)) :
    ∃ s₁, ReflTransGen Move (s, .empty) (s₁, b) ∧ s' = s₁.cleanUp := by
  simp only [schedule, Option.bind_eq_bind, Option.bind_eq_some_iff, Prod.exists,
    Option.some_inj, Prod.mk.injEq] at h
  obtain ⟨s₁, b₁, h1, s₂, b₂, h2, rfl, rfl⟩ := h
  obtain ⟨hm, ha⟩ := continuePrefill_moves (fun _ hid => hid) h2
  -- the active list phase 3 walks over is the one phase 2 was given
  refine ⟨s₂, ?_, rfl⟩
  refine ((promoteWaiting_moves rfl h1).trans hm).trans (scheduleDecode_moves ?_)
  exact fun id hid => ha ▸ hid

/-- What every move preserves, every sequence of moves preserves. -/
theorem moves_induction {P : Scheduler → ScheduledBatch → Prop}
    (hmove : ∀ {s b s' b'}, P s b → Move (s, b) (s', b') → P s' b')
    {x y : Scheduler × ScheduledBatch} (h : ReflTransGen Move x y) (hP : P x.1 x.2) :
    P y.1 y.2 := by
  induction h with
  | refl => exact hP
  | tail _ hm ih => exact hmove ih hm

/-- What every move preserves holds at the end of `schedule`, before the
clean-up. -/
theorem schedule_induction {P : Scheduler → ScheduledBatch → Prop}
    (hmove : ∀ {s b s' b'}, P s b → Move (s, b) (s', b') → P s' b')
    {s s' : Scheduler} {b : ScheduledBatch} (h : s.schedule = some (s', b))
    (hinit : P s .empty) : ∃ s₁, P s₁ b ∧ s' = s₁.cleanUp := by
  obtain ⟨s₁, hm, hs'⟩ := schedule_moves h
  exact ⟨s₁, moves_induction hmove hm hinit, hs'⟩

/-! ### No panic -/

/-- No sequence has scheduled more prompt tokens than it has. -/
def PosBounded (s : Scheduler) : Prop :=
  ∀ id seq, s.getSequence id = some seq → seq.promptPos ≤ seq.promptTokens.length

theorem PosBounded.setSequence {s : Scheduler} {id : SeqId} {seq : Sequence}
    (h : s.PosBounded) (hseq : seq.promptPos ≤ seq.promptTokens.length) :
    (s.setSequence id seq).PosBounded := by
  intro id' seq' hget
  rcases getSequence_setSequence_eq_some _ _ _ hget with ⟨-, rfl⟩ | ⟨-, hold⟩
  · exact hseq
  · exact h id' seq' hold

theorem promoteWaiting_isSome (queue : List SeqId) {s : Scheduler} (b : ScheduledBatch)
    (hpos : s.PosBounded) : ∃ s' b', promoteWaiting queue s b = some (s', b') ∧ s'.PosBounded := by
  induction queue generalizing s b with
  | nil => exact ⟨s, b, rfl, hpos⟩
  | cons id queue ih =>
    rw [promoteWaiting]
    split
    · simp only [getSequence_waitingQueue]
      cases hget : s.getSequence id with
      | none => exact ih (s := { s with waitingQueue := queue }) _ hpos
      | some seq =>
        have hle := hpos id seq hget
        -- the chunk never reaches past the prompt: the slice is in bounds
        set chunk := min (seq.promptTokens.length - seq.promptPos) s.config.maxPrefillTokens
        have hchunk : seq.promptPos + chunk ≤ seq.promptTokens.length := by omega
        have htake := Sequence.takePrompt_eq_some.mpr ⟨hchunk, rfl, rfl⟩
        simp only [usizeSub_of_le hle, Option.bind_eq_bind, Option.bind_some]
        rw [htake]
        exact ih _ (PosBounded.setSequence
          (s := { s with waitingQueue := queue, activeIds := s.activeIds ++ [id] }) hpos hchunk)
    · exact ⟨s, b, rfl, hpos⟩

theorem continuePrefill_isSome (active : List SeqId) {s : Scheduler} (b : ScheduledBatch)
    (hpos : s.PosBounded) : ∃ s' b', continuePrefill active s b = some (s', b') := by
  induction active generalizing s b with
  | nil => exact ⟨s, b, rfl⟩
  | cons id active ih =>
    rw [continuePrefill]
    split
    · exact ⟨s, b, rfl⟩
    rename_i hbudget
    split
    · exact ih _ hpos
    cases hget : s.getSequence id with
    | none => exact ih _ hpos
    | some seq =>
      simp only
      split
      · rename_i hstate
        have hle := hpos id seq hget
        have hseq : seq = { seq with state := .prefilling } := by rw [← hstate]
        -- the subtraction is reached only below the limit: no underflow
        simp only [usizeSub_of_le hle, usizeSub_of_le (Nat.le_of_not_le hbudget),
          Option.bind_eq_bind, Option.bind_some]
        split
        · rw [hseq, Sequence.takePrompt_eq_some.mpr ⟨by simp only; omega, rfl, rfl⟩]
          exact ih _ (hpos.setSequence (by simp only [Sequence.advanced]; omega))
        · exact ih _ hpos
      · exact ih _ hpos

/-- **`schedule` never panics** while no prompt position is past its prompt. -/
theorem schedule_isSome {s : Scheduler} (hpos : s.PosBounded) :
    ∃ s' b, s.schedule = some (s', b) := by
  obtain ⟨s₁, b₁, h1, hpos₁⟩ :=
    promoteWaiting_isSome s.waitingQueue .empty hpos
  obtain ⟨s₂, b₂, h2⟩ := continuePrefill_isSome s₁.activeIds b₁ hpos₁
  refine ⟨s₂.cleanUp, s₂.scheduleDecode s₁.activeIds b₂, ?_⟩
  simp only [schedule, h1, h2, Option.bind_eq_bind, Option.bind_some]

end Scheduler

end Oxillama
