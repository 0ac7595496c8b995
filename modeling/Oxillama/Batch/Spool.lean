/-
Batch jobs (`oxillama-server/src/batch_spool/`).

A job is a directory of files: the input lines, `status.json`, and the records of
`output.jsonl` and `errors.jsonl`.  The worker goes through the input line by line; requests to
cancel the job come at any moment.  Each reading and each writing of a file is one step, and so
is the answer of the inference queue; the steps of the worker and of any number of cancel
requests interleave.

A step on a file may fail (`fault`).  Identifiers, times and what is only logged are left out.
-/
import Oxillama.Lib.Run
import Oxillama.Lib.Str
import Oxillama.Server.ChatStream

namespace Oxillama

namespace Batch

/-! ### The store -/

/-- `BatchJobStatus`. -/
inductive BatchJobStatus
  | pending
  | inProgress
  | completed
  | failed
  | cancelled
deriving DecidableEq

/-- Whether a job with this status is over. -/
def BatchJobStatus.isTerminal : BatchJobStatus → Bool
  | .completed | .failed | .cancelled => true
  | .pending | .inProgress => false

/-- `BatchJobMeta`, the contents of `status.json`. -/
structure BatchJobMeta where
  status : BatchJobStatus
  totalLines : ℕ
  completedLines : ℕ
  failedLines : ℕ
  cancelRequested : Bool
deriving DecidableEq

/-- `UsageStats`. -/
structure UsageStats where
  promptTokens : ℕ
  completionTokens : ℕ
  totalTokens : ℕ
deriving DecidableEq

/-- A line of `output.jsonl`. -/
inductive OutputRecord
  | response (customId : String) (content : String) (finishReason : String) (usage : UsageStats)
  | error (customId : String) (error : String)
  | cancelled (customId : String)
deriving DecidableEq

/-- The `custom_id` of a record. -/
def OutputRecord.customId : OutputRecord → String
  | .response customId .. | .error customId _ | .cancelled customId => customId

/-- A line of `errors.jsonl`. -/
structure ErrorRecord where
  customId : String
  error : String
deriving DecidableEq

/-- The `custom_id` of a line's records. -/
def lineId (i : ℕ) : String := "line-" ++ i.repr

/-- The directory of a job. -/
structure JobDir where
  input : Text
  status : BatchJobMeta
  output : List OutputRecord
  errors : List ErrorRecord
deriving DecidableEq

/-- `create_job`. -/
def createJob (inputJsonl : Text) (totalLines : ℕ) : JobDir where
  input := inputJsonl
  status := ⟨.pending, totalLines, 0, 0, false⟩
  output := []
  errors := []

/-- A line's end: the newline is gone, and so is the carriage return before it. -/
def chomp : Text → Text
  | '\r' :: line => line
  | line => line

/-- The loop of `BufRead::lines`; `line` is the reverse of what has been read of a line. -/
def linesLoop (line : Text) : Text → List Text
  | [] => if line = [] then [] else [line.reverse]
  | c :: text => if c = '\n' then (chomp line).reverse :: linesLoop [] text
    else linesLoop (c :: line) text

/-- `read_input_lines`: the lines that are not blank. -/
def readInputLines (input : Text) : List Text :=
  (linesLoop [] input).filter fun line => !(Text.trim line).isEmpty

/-- `append_output`. -/
def JobDir.appendOutput (job : JobDir) (record : OutputRecord) : JobDir :=
  { job with output := job.output ++ [record] }

/-- `append_error`. -/
def JobDir.appendError (job : JobDir) (record : ErrorRecord) : JobDir :=
  { job with errors := job.errors ++ [record] }

/-- `update_status`. -/
def JobDir.updateStatus (job : JobDir) (status : BatchJobMeta) : JobDir :=
  { job with status := status }

/-- Whether `in_progress_jobs` returns the job. -/
def JobDir.inProgress (job : JobDir) : Bool :=
  match job.status.status with
  | .inProgress | .pending => true
  | _ => false

/-- `MAX_BATCH_LINES`. -/
def maxBatchLines : ℕ := 50000

/-- `MAX_BATCH_BYTES`. -/
def maxBatchBytes : ℕ := 10 * 1024 * 1024

/-- `create_batch`, up to the job that it puts on the queue. -/
def createBatch (inputJsonl : Text) : Option JobDir :=
  if inputJsonl.len > maxBatchBytes then none
  else
    let lineCount := (readInputLines inputJsonl).length
    if lineCount > maxBatchLines then none
    else some (createJob inputJsonl (lineCount % 2 ^ 32))

/-! ### The worker -/

/-- What becomes of a line's request: the inference queue is closed, or the reply channel is, or
there is a reply. -/
inductive LineReply
  | queueClosed
  | replyClosed
  | answered (result : Except String (String × UsageStats × Server.FinishReason))

/-- What becomes of a line. -/
inductive LineOutcome
  | malformed (error : String)
  | unanswered
  | answered (result : Except String (String × UsageStats × Server.FinishReason))

/-- `parse_request_line`, given `serde_json::from_str`. -/
def parseRequestLine {Value : Type*} (fromStr : Text → Except String Value) (line : Text) :
    Except String Value :=
  (fromStr (Text.trim line)).mapError ("JSON parse error: " ++ ·)

/-- The outcome of a line, given what becomes of its request. -/
def lineOutcome {Value : Type*} (fromStr : Text → Except String Value) (reply : LineReply)
    (line : Text) : LineOutcome :=
  match parseRequestLine fromStr line with
  | .error e => .malformed e
  | .ok _ =>
    match reply with
    | .queueClosed | .replyClosed => .unanswered
    | .answered result => .answered result

/-- The record of an answered line. -/
def answerRecord (i : ℕ) : Except String (String × UsageStats × Server.FinishReason) → OutputRecord
  | .ok (text, usage, finishReason) => .response (lineId i) text finishReason.asOpenaiStr usage
  | .error e => .error (lineId i) e

/-- `+` on `u32`, where an overflow panics. -/
def addU32 (a b : ℕ) : Option ℕ := if a + b < 2 ^ 32 then some (a + b) else none

/-- The local variables of `process_job` in its loop, and the lines it has not come to. -/
structure Pass where
  total : ℕ
  lineIdx : ℕ
  completed : ℕ
  failed : ℕ
  rest : List Text
deriving DecidableEq

/-- The next step of the worker on the job. -/
inductive Stage
  | readInput
  /-- The update to `InProgress` reads the status. -/
  | startRead (lines : List Text)
  | startWrite (lines : List Text) (read : BatchJobMeta)
  /-- The check of the cancel flag, before a line. -/
  | check (line : Text) (pass : Pass)
  /-- The update to `Cancelled` reads the status. -/
  | cancelRead (pass : Pass) (remaining : ℕ)
  | cancelWrite (pass : Pass) (remaining : ℕ) (read : BatchJobMeta)
  /-- The records of the lines that are not processed, from line `i` on. -/
  | mark (i total : ℕ)
  | process (line : Text) (pass : Pass)
  | appendOutput (pass : Pass) (record : OutputRecord)
  /-- The update of the counters reads the status. -/
  | updateRead (pass : Pass)
  | updateWrite (pass : Pass) (read : BatchJobMeta)
  /-- The last update reads the status. -/
  | finalRead (pass : Pass)
  | finalWrite (pass : Pass) (read : BatchJobMeta)
  /-- The update to `Failed`, after an error, reads the status. -/
  | failRead
  | failWrite (read : BatchJobMeta)
deriving DecidableEq

/-- What comes after a line: the next one, or the end of the job. -/
def Pass.next (pass : Pass) : Stage :=
  match pass.rest with
  | [] => .finalRead pass
  | line :: rest => .check line { pass with rest := rest }

/-- The pass after a line that failed. -/
def Pass.fail (pass : Pass) : Option Pass :=
  (addU32 pass.failed 1).map fun failed =>
    { pass with lineIdx := pass.lineIdx + 1, failed := failed }

/-- The pass after a line that was completed. -/
def Pass.complete (pass : Pass) : Option Pass :=
  (addU32 pass.completed 1).map fun completed =>
    { pass with lineIdx := pass.lineIdx + 1, completed := completed }

/-- The loop over the lines that are not processed. -/
def markFrom (i total : ℕ) : Option Stage := if i < total then some (.mark i total) else none

/-- **One step of the worker** on its job, and the step after it, if there is one. -/
def Stage.run (stage : Stage) (job : JobDir) (fault : Bool) (outcome : ℕ → Text → LineOutcome) :
    JobDir × Option Stage :=
  match stage with
  | .readInput => (job, some (if fault then .failRead else .startRead (readInputLines job.input)))
  | .startRead lines => (job, some (if fault then .failRead else .startWrite lines job.status))
  | .startWrite lines read =>
    if fault then (job, some .failRead)
    else (job.updateStatus { read with status := .inProgress },
      some (Pass.next ⟨lines.length % 2 ^ 32, 0, 0, 0, lines⟩))
  | .check line pass =>
    -- a status that cannot be read counts as not cancelled
    if !fault && job.status.cancelRequested then
      if pass.completed + pass.failed ≤ pass.total then
        (job, some (.cancelRead pass (pass.total - pass.completed - pass.failed)))
      else (job, none)
    else (job, some (.process line pass))
  | .cancelRead pass remaining =>
    if fault then (job, markFrom (pass.lineIdx % 2 ^ 32) pass.total)
    else (job, some (.cancelWrite pass remaining job.status))
  | .cancelWrite pass remaining read =>
    match addU32 read.failedLines remaining with
    -- the panic of the blocking task goes the way of an error
    | none => (job, markFrom (pass.lineIdx % 2 ^ 32) pass.total)
    | some failedLines =>
      (if fault then job
        else job.updateStatus { read with status := .cancelled, failedLines := failedLines },
        markFrom (pass.lineIdx % 2 ^ 32) pass.total)
  | .mark i total =>
    (if fault then job else job.appendOutput (.cancelled (lineId i)), markFrom (i + 1) total)
  | .process line pass =>
    match outcome pass.lineIdx line with
    | .malformed e =>
      (if fault then job else job.appendError ⟨lineId pass.lineIdx, e⟩, pass.fail.map Pass.next)
    | .unanswered => (job, pass.fail.map Pass.next)
    | .answered result =>
      let after := match result with
        | .ok _ => pass.complete
        | .error _ => pass.fail
      (job, after.map fun pass' => .appendOutput pass' (answerRecord pass.lineIdx result))
  | .appendOutput pass record =>
    (if fault then job else job.appendOutput record, some (.updateRead pass))
  | .updateRead pass => (job, some (if fault then pass.next else .updateWrite pass job.status))
  | .updateWrite pass read =>
    (if fault then job else job.updateStatus
      { read with completedLines := pass.completed, failedLines := pass.failed }, some pass.next)
  | .finalRead pass => (job, some (if fault then .failRead else .finalWrite pass job.status))
  | .finalWrite pass read =>
    if fault then (job, some .failRead)
    else (job.updateStatus
      { read with
        status := if read.failedLines = 0 then .completed else .failed
        completedLines := pass.completed
        failedLines := pass.failed }, none)
  | .failRead => (job, if fault then none else some (.failWrite job.status))
  | .failWrite read =>
    (if fault then job else job.updateStatus { read with status := .failed }, none)

/-- The copy of the status that a step is about to write back, changed. -/
def Stage.copy : Stage → Option BatchJobMeta
  | .startWrite _ read | .cancelWrite _ _ read | .updateWrite _ read | .finalWrite _ read
  | .failWrite read => some read
  | _ => none

/-! ### Cancel requests -/

/-- The next step of a cancel request. -/
inductive CancelStage
  | readStatus
  | writeStatus (read : BatchJobMeta)
  | done
deriving DecidableEq

/-- One step of `cancel_batch`. -/
def CancelStage.run (stage : CancelStage) (job : JobDir) (fault : Bool) : JobDir × CancelStage :=
  match stage with
  | .readStatus => (job, if fault then .done else .writeStatus job.status)
  | .writeStatus read =>
    (if fault then job else job.updateStatus { read with cancelRequested := true }, .done)
  | .done => (job, .done)

/-- The copy of the status that a step is about to write back, changed. -/
def CancelStage.copy : CancelStage → Option BatchJobMeta
  | .writeStatus read => some read
  | _ => none

/-! ### The job as it is processed -/

/-- The files of a job, the worker on it and the requests to cancel it. -/
structure Spool where
  job : JobDir
  /-- The next step of the worker; `none` once it is done with the job. -/
  worker : Option Stage
  cancels : List CancelStage

/-- What can happen: a step of the worker, a cancel request, a step of one. -/
inductive Event
  | work (fault : Bool)
  | cancel
  | advance (i : ℕ) (fault : Bool)
deriving DecidableEq

namespace Spool

/-- The worker takes the job up. -/
def start (job : JobDir) : Spool := ⟨job, some .readInput, []⟩

/-- One step.  `outcome` says what becomes of the line with a number. -/
def step (outcome : ℕ → Text → LineOutcome) (s : Spool) : Event → Option (Spool × Unit)
  | .work fault =>
    match s.worker with
    | none => some (s, ())
    | some stage =>
      let (job, worker) := stage.run s.job fault outcome
      some ({ s with job := job, worker := worker }, ())
  | .cancel => some ({ s with cancels := s.cancels ++ [.readStatus] }, ())
  | .advance i fault =>
    match s.cancels[i]? with
    | none => some (s, ())
    | some stage =>
      let (job, stage') := stage.run s.job fault
      some ({ s with job := job, cancels := s.cancels.set i stage' }, ())

variable {outcome : ℕ → Text → LineOutcome} {s s' : Spool} {out : Unit}

theorem step_idle {fault : Bool} (hworker : s.worker = none)
    (hs : s.step outcome (.work fault) = some (s', out)) : s' = s := by
  rw [step, hworker] at hs
  exact (congrArg Prod.fst (Option.some.inj hs)).symm

theorem step_work {fault : Bool} {stage : Stage} (hworker : s.worker = some stage)
    (hs : s.step outcome (.work fault) = some (s', out)) :
    s' = { s with
      job := (stage.run s.job fault outcome).1
      worker := (stage.run s.job fault outcome).2 } := by
  rw [step, hworker] at hs
  exact (congrArg Prod.fst (Option.some.inj hs)).symm

theorem step_cancel (hs : s.step outcome .cancel = some (s', out)) :
    s' = { s with cancels := s.cancels ++ [.readStatus] } :=
  (congrArg Prod.fst (Option.some.inj hs)).symm

/-- A step of a cancel request: there is no such request, or it writes and goes on. -/
theorem step_advance {i : ℕ} {fault : Bool}
    (hs : s.step outcome (.advance i fault) = some (s', out)) :
    (s.cancels[i]? = none ∧ s' = s) ∨ ∃ stage, s.cancels[i]? = some stage ∧
      s' = { s with
        job := (stage.run s.job fault).1
        cancels := s.cancels.set i (stage.run s.job fault).2 } := by
  cases hi : s.cancels[i]? with
  | none =>
    rw [step, hi] at hs
    exact .inl ⟨rfl, (congrArg Prod.fst (Option.some.inj hs)).symm⟩
  | some stage =>
    rw [step, hi] at hs
    exact .inr ⟨stage, rfl, (congrArg Prod.fst (Option.some.inj hs)).symm⟩

end Spool

end Batch

end Oxillama
