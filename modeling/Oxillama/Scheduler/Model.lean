/-
The continuous batching scheduler (`oxillama-runtime/src/scheduler.rs`).

`Scheduler` holds the sequences in flight, the waiting queue and the list of
active ids; `schedule` fills one batch in three phases (promote waiting
sequences, continue prefills, decode) and then drops the sequences that are
done from the active list.

Partial `usize` operations of the source (`a - b`, `xs[a..b]`) answer `none`
where the source panics, so `schedule` is an `Option`: `none` is a panic in the
middle of a call.  Sequence ids come from a counter that never wraps here, and
the wall-clock field of a sequence, which `schedule` does not read, is left out.
-/
import Mathlib.Algebra.GroupWithZero.Nat
import Mathlib.Data.List.AList
import Oxillama.Lib.Usize

namespace Oxillama

namespace Scheduler

/-- Identifier of a sequence (`SeqId`). -/
abbrev SeqId := ℕ

/-- `SeqState`. -/
inductive SeqState
  | waiting
  | prefilling
  | decoding
  | finished
  | preempted
  deriving DecidableEq, Repr

/-- `Sequence`: one request in flight. -/
structure Sequence where
  id : SeqId
  state : SeqState
  promptTokens : List UInt32
  outputTokens : List UInt32
  /-- Number of prompt tokens already scheduled. -/
  promptPos : ℕ
  /-- Limit on prompt and output tokens together. -/
  maxTokens : ℕ
  stopped : Bool
  deriving DecidableEq, Repr

namespace Sequence

/-- `Sequence::new`. -/
def new (id : SeqId) (promptTokens : List UInt32) (maxTokens : ℕ) : Sequence where
  id := id
  state := .waiting
  promptTokens := promptTokens
  outputTokens := []
  promptPos := 0
  maxTokens := maxTokens
  stopped := false

/-- `Sequence::total_tokens`. -/
def totalTokens (seq : Sequence) : ℕ := seq.promptTokens.length + seq.outputTokens.length

/-- `Sequence::at_limit`. -/
def atLimit (seq : Sequence) : Bool := seq.maxTokens ≤ seq.totalTokens

/-- The sequence needs no more work: `Finished`, stopped or at its limit. -/
def terminal (seq : Sequence) : Bool :=
  seq.state == .finished || seq.stopped || seq.atLimit

/-- The token a decode step feeds: the last output token, else the last prompt
token, else `0`. -/
def lastToken (seq : Sequence) : UInt32 :=
  seq.outputTokens.getLast?.getD (seq.promptTokens.getLast?.getD 0)

/-- The body both prefill phases share: slice `chunk` prompt tokens off at
`prompt_pos`, move `prompt_pos`, and turn to `Decoding` once the prompt is
used up. -/
def takePrompt (seq : Sequence) (chunk : ℕ) : Option (List UInt32 × Sequence) := do
  let toks ← sliceRange seq.promptTokens seq.promptPos (seq.promptPos + chunk)
  let pos := seq.promptPos + chunk
  some (toks, { seq with
    promptPos := pos
    state := if seq.promptTokens.length ≤ pos then .decoding else seq.state })

end Sequence

/-- `SchedulerConfig`. -/
structure SchedulerConfig where
  /-- Maximum number of concurrent sequences. -/
  maxSequences : ℕ
  /-- Maximum batch size for a single forward pass (number of tokens). -/
  maxBatchTokens : ℕ
  /-- Maximum number of sequences in a single decode batch. -/
  maxBatchSequences : ℕ
  /-- Maximum tokens to prefill in a single forward pass. -/
  maxPrefillTokens : ℕ
  deriving DecidableEq, Repr

/-- `ScheduledBatch`: three parallel vectors, one entry per scheduled sequence. -/
structure ScheduledBatch where
  seqIds : List SeqId
  tokens : List (List UInt32)
  isPrefill : List Bool
  deriving DecidableEq, Repr

namespace ScheduledBatch

def empty : ScheduledBatch := ⟨[], [], []⟩

/-- The three `push` calls that append one entry. -/
def push (b : ScheduledBatch) (id : SeqId) (toks : List UInt32) (prefill : Bool) :
    ScheduledBatch :=
  ⟨b.seqIds ++ [id], b.tokens ++ [toks], b.isPrefill ++ [prefill]⟩

/-- `ScheduledBatch::total_tokens`. -/
def totalTokens (b : ScheduledBatch) : ℕ := (b.tokens.map List.length).sum

@[simp] theorem seqIds_empty : empty.seqIds = [] := rfl

@[simp] theorem totalTokens_empty : empty.totalTokens = 0 := rfl

@[simp] theorem seqIds_push (b : ScheduledBatch) (id : SeqId) (toks : List UInt32) (p : Bool) :
    (b.push id toks p).seqIds = b.seqIds ++ [id] := rfl

@[simp] theorem totalTokens_push (b : ScheduledBatch) (id : SeqId) (toks : List UInt32)
    (p : Bool) : (b.push id toks p).totalTokens = b.totalTokens + toks.length := by
  simp [push, totalTokens]

end ScheduledBatch

/-- The map of sequences indexed by id (`HashMap<SeqId, Sequence>`). -/
abbrev Sequences := AList (fun _ : SeqId => Sequence)

end Scheduler

open Scheduler

/-- `Scheduler`. -/
structure Scheduler where
  config : SchedulerConfig
  sequences : Sequences
  nextId : SeqId
  /-- Waiting queue, in arrival order. -/
  waitingQueue : List SeqId
  /-- Active sequences (prefilling or decoding). -/
  activeIds : List SeqId

namespace Scheduler

/-- `Scheduler::new`. -/
def new (config : SchedulerConfig) : Scheduler where
  config := config
  sequences := ∅
  nextId := 1
  waitingQueue := []
  activeIds := []

/-- `Scheduler::get_sequence`. -/
def getSequence (s : Scheduler) (id : SeqId) : Option Sequence := s.sequences.lookup id

/-- Store `seq` back under `id`: the write through `sequences.get_mut(&id)`. -/
def setSequence (s : Scheduler) (id : SeqId) (seq : Sequence) : Scheduler :=
  { s with sequences := s.sequences.insert id seq }

/-- `if let Some(seq) = self.sequences.get_mut(&id) { .. }`. -/
def modifySequence (s : Scheduler) (id : SeqId) (f : Sequence → Sequence) : Scheduler :=
  match s.getSequence id with
  | some seq => s.setSequence id (f seq)
  | none => s

/-- `Scheduler::add_request`. -/
def addRequest (s : Scheduler) (promptTokens : List UInt32) (maxTokens : ℕ) :
    Scheduler × SeqId :=
  let id := s.nextId
  ({ s with
      nextId := s.nextId + 1
      sequences := s.sequences.insert id (Sequence.new id promptTokens maxTokens)
      waitingQueue := s.waitingQueue ++ [id] }, id)

/-- `Scheduler::remove_sequence`. -/
def removeSequence (s : Scheduler) (id : SeqId) : Scheduler :=
  { s with
    sequences := s.sequences.erase id
    waitingQueue := s.waitingQueue.filter (· != id)
    activeIds := s.activeIds.filter (· != id) }

/-- `Scheduler::finish_sequence`.  Only `active_ids` is edited; the waiting
queue keeps the id. -/
def finishSequence (s : Scheduler) (id : SeqId) : Scheduler :=
  let s := s.modifySequence id fun seq => { seq with state := .finished, stopped := true }
  { s with activeIds := s.activeIds.filter (· != id) }

/-- `Scheduler::append_token`. -/
def appendToken (s : Scheduler) (id : SeqId) (token : UInt32) : Scheduler :=
  s.modifySequence id fun seq => { seq with outputTokens := seq.outputTokens ++ [token] }

/-- Phase 1: pop waiting ids while there is room among the active sequences
and in the batch, and schedule the first prefill chunk of each.  The loop runs
over the queue `queue = s.waitingQueue`. -/
def promoteWaiting : List SeqId → Scheduler → ScheduledBatch →
    Option (Scheduler × ScheduledBatch)
  | [], s, batch => some (s, batch)
  | id :: queue, s, batch =>
    if s.activeIds.length < s.config.maxSequences ∧
        batch.seqIds.length < s.config.maxBatchSequences then
      let s := { s with waitingQueue := queue }
      match s.getSequence id with
      | none => promoteWaiting queue s batch
      | some seq => do
        let seq := { seq with state := .prefilling }
        let s := { s with activeIds := s.activeIds ++ [id] }
        let remaining ← usizeSub seq.promptTokens.length seq.promptPos
        let chunk := min remaining s.config.maxPrefillTokens
        let (toks, seq) ← seq.takePrompt chunk
        promoteWaiting queue (s.setSequence id seq) (batch.push id toks true)
    else some (s, batch)

/-- Phase 2: continue the prefill of active sequences not yet in the batch,
within the token budget.  `active` is the snapshot of `active_ids`. -/
def continuePrefill : List SeqId → Scheduler → ScheduledBatch →
    Option (Scheduler × ScheduledBatch)
  | [], s, batch => some (s, batch)
  | id :: active, s, batch =>
    if s.config.maxBatchTokens ≤ batch.totalTokens then some (s, batch)
    else if id ∈ batch.seqIds then continuePrefill active s batch
    else match s.getSequence id with
      | none => continuePrefill active s batch
      | some seq =>
        if seq.state = .prefilling then do
          let remaining ← usizeSub seq.promptTokens.length seq.promptPos
          let budget ← usizeSub s.config.maxBatchTokens batch.totalTokens
          let chunk := min (min remaining s.config.maxPrefillTokens) budget
          if 0 < chunk then
            let (toks, seq) ← seq.takePrompt chunk
            continuePrefill active (s.setSequence id seq) (batch.push id toks true)
          else continuePrefill active s batch
        else continuePrefill active s batch

/-- Phase 3: one decode token for each active decoding sequence that fits. -/
def scheduleDecode (s : Scheduler) : List SeqId → ScheduledBatch → ScheduledBatch
  | [], batch => batch
  | id :: active, batch =>
    if s.config.maxBatchSequences ≤ batch.seqIds.length then batch
    else if s.config.maxBatchTokens ≤ batch.totalTokens then batch
    else match s.getSequence id with
      | none => s.scheduleDecode active batch
      | some seq =>
        if seq.state = .decoding ∧ seq.stopped = false ∧ seq.atLimit = false ∧
            id ∉ batch.seqIds then
          s.scheduleDecode active (batch.push id [seq.lastToken] false)
        else s.scheduleDecode active batch

/-- The clean-up at the end of `schedule`: keep the active ids whose sequence
still has work to do. -/
def cleanUp (s : Scheduler) : Scheduler :=
  { s with activeIds := s.activeIds.filter fun id =>
      match s.getSequence id with
      | some seq => !seq.terminal
      | none => false }

/-- `Scheduler::schedule`. -/
def schedule (s : Scheduler) : Option (Scheduler × ScheduledBatch) := do
  let (s, batch) ← promoteWaiting s.waitingQueue s .empty
  let active := s.activeIds
  let (s, batch) ← continuePrefill active s batch
  let batch := s.scheduleDecode active batch
  some (s.cleanUp, batch)

/-- The loop of `drain_finished` over the ids it collected. -/
def drainIds : List SeqId → Scheduler → List Sequence → Scheduler × List Sequence
  | [], s, finished => (s, finished)
  | id :: ids, s, finished =>
    let finished := match s.getSequence id with
      | some seq => finished ++ [seq]
      | none => finished
    drainIds ids (s.removeSequence id) finished

/-- The ids `drain_finished` collects: those of terminal sequences. -/
def finishedIds (s : Scheduler) : List SeqId :=
  (s.sequences.entries.filter fun e => e.2.terminal).map Sigma.fst

/-- `Scheduler::drain_finished`. -/
def drainFinished (s : Scheduler) : Scheduler × List Sequence :=
  drainIds s.finishedIds s []

/-! ### The scheduler as a component -/

/-- A call on the scheduler. -/
inductive Op
  | addRequest (promptTokens : List UInt32) (maxTokens : ℕ)
  | schedule
  | appendToken (id : SeqId) (token : UInt32)
  | finishSequence (id : SeqId)
  | removeSequence (id : SeqId)
  | drainFinished

/-- What a call returns. -/
inductive Answer
  | unit
  | id (id : SeqId)
  | batch (b : ScheduledBatch)
  | drained (finished : List Sequence)

/-- One call. -/
def step (s : Scheduler) : Op → Option (Scheduler × Answer)
  | .addRequest p m => some ((s.addRequest p m).1, .id (s.addRequest p m).2)
  | .schedule => s.schedule.map fun r => (r.1, .batch r.2)
  | .appendToken id t => some (s.appendToken id t, .unit)
  | .finishSequence id => some (s.finishSequence id, .unit)
  | .removeSequence id => some (s.removeSequence id, .unit)
  | .drainFinished => some (s.drainFinished.1, .drained s.drainFinished.2)

end Scheduler

end Oxillama
