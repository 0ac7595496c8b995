/-
Runs of the Assistants API (`oxillama-server/src/threads/`).

The worker takes the runs off its queue one at a time; requests to cancel a run come at any
moment.  All they share is the store: one `status.json` for each run and the messages of the
thread.  Each reading and each writing of a file is one step, and so is the reply of the
inference engine; the steps of the worker and of any number of cancel requests interleave.

A step of the store may fail: `fault` is the text of the error, as the worker reports it.
What is only broadcast to listeners is left out.
-/
import Mathlib.Data.List.AList
import Oxillama.Lib.Run

namespace Oxillama

namespace Assistants

/-- `RunStatus`. -/
inductive RunStatus
  | queued
  | inProgress
  | completed
  | cancelled
  | failed
  | expired
deriving DecidableEq

/-- `RunStatus::is_terminal`. -/
def RunStatus.isTerminal : RunStatus → Bool
  | .completed | .cancelled | .failed | .expired => true
  | .queued | .inProgress => false

/-- The `Debug` name of a status. -/
def RunStatus.name : RunStatus → String
  | .queued => "Queued"
  | .inProgress => "InProgress"
  | .completed => "Completed"
  | .cancelled => "Cancelled"
  | .failed => "Failed"
  | .expired => "Expired"

/-- `RunError`. -/
structure RunError where
  code : String
  message : String
deriving DecidableEq

/-- `Run`, as far as it changes. -/
structure RunRecord where
  status : RunStatus
  lastError : Option RunError
deriving DecidableEq

/-- An assistant message: the run it answers, and its text. -/
structure ThreadMessage where
  runId : String
  content : String
deriving DecidableEq

/-- The errors of the store. -/
inductive ServerError
  | runNotFound (runId : String)
  | runInTerminalState (message : String)
  | other (message : String)
deriving DecidableEq

/-- The `Display` of an error. -/
def ServerError.text : ServerError → String
  | .runNotFound runId => "run not found: " ++ runId
  | .runInTerminalState message => "run is in terminal state: " ++ message
  | .other message => message

/-- `ThreadStore`: the `status.json` of each run, and the assistant messages. -/
structure ThreadStore where
  runs : AList fun _ : String => RunRecord
  messages : List ThreadMessage

namespace ThreadStore

/-- `get_run`. -/
def getRun (store : ThreadStore) (runId : String) (fault : Option String) :
    Except ServerError RunRecord :=
  match fault with
  | some message => .error (.other message)
  | none =>
    match store.runs.lookup runId with
    | some run => .ok run
    | none => .error (.runNotFound runId)

/-- `write_json_atomic` of a `status.json`. -/
def writeRun (store : ThreadStore) (runId : String) (run : RunRecord) (fault : Option String) :
    ThreadStore × Except ServerError Unit :=
  match fault with
  | some message => (store, .error (.other message))
  | none => ({ store with runs := store.runs.insert runId run }, .ok ())

/-- `append_message`. -/
def appendMessage (store : ThreadStore) (message : ThreadMessage) (fault : Option String) :
    ThreadStore × Except ServerError Unit :=
  match fault with
  | some error => (store, .error (.other error))
  | none => ({ store with messages := store.messages ++ [message] }, .ok ())

/-- The status of a run, if it exists. -/
def status (store : ThreadStore) (runId : String) : Option RunStatus :=
  (store.runs.lookup runId).map RunRecord.status

/-- How many assistant messages there are for a run. -/
def answers (store : ThreadStore) (runId : String) : ℕ :=
  store.messages.countP fun message => message.runId = runId

end ThreadStore

/-- The check of `update_run_status` and of the cancel route. -/
def notTerminal (runId : String) (run : RunRecord) : Except ServerError RunRecord :=
  if run.status.isTerminal then
    .error (.runInTerminalState (runId ++ " is already in terminal state " ++ run.status.name))
  else .ok run

/-- The next step of the worker on its run. -/
inductive Stage
  /-- `update_run_status(InProgress)` reads the run. -/
  | start
  | startWrite (run : RunRecord)
  | listMessages
  | appendStep
  | generate
  | getRun (text : String)
  | appendMessage (text : String)
  | updateStep
  /-- `update_run_status(Completed)` reads the run. -/
  | finish
  | finishWrite (run : RunRecord)
  /-- `force_update_run_status(Failed)` reads the run. -/
  | fail (error : String)
  | failWrite (run : RunRecord) (error : String)
deriving DecidableEq

/-- The next step of a request to cancel a run. -/
inductive CancelStage
  | check (runId : String)
  /-- `force_update_run_status(Cancelled)` reads the run. -/
  | force (runId : String)
  | write (runId : String) (run : RunRecord)
  | reread (runId : String)
  | done (out : Except ServerError RunRecord)
deriving DecidableEq

/-- The store, the queue of the worker and the run it is processing, and the requests to
cancel. -/
structure Service where
  store : ThreadStore
  queue : List String
  worker : Option (String × Stage)
  cancels : List CancelStage

/-- A step: a new run, whether the queue is open or not; the worker takes a run; its next step,
with a fault and with the reply should it wait for one; a new cancel request; or the next step
of one. -/
inductive Event
  | create (runId : String) (queueOpen : Bool)
  | dequeue
  | work (fault : Option String) (reply : Except String String)
  | cancel (runId : String)
  | advance (i : ℕ) (fault : Option String)
deriving DecidableEq

/-- One step of `process_run`, or of the error path of the worker; `none` where the worker is
done with the run. -/
def Stage.run (store : ThreadStore) (runId : String) (fault : Option String)
    (reply : Except String String) : Stage → ThreadStore × Option Stage
  | .start =>
    match (store.getRun runId fault).bind (notTerminal runId) with
    | .error e => (store, some (.fail ("update InProgress: " ++ e.text)))
    | .ok run => (store, some (.startWrite run))
  | .startWrite run =>
    match store.writeRun runId { run with status := .inProgress, lastError := none } fault with
    | (store, .error e) => (store, some (.fail ("update InProgress: " ++ e.text)))
    | (store, .ok ()) => (store, some .listMessages)
  | .listMessages =>
    match fault with
    | some e => (store, some (.fail ("list_messages: " ++ e)))
    | none => (store, some .appendStep)
  | .appendStep =>
    match fault with
    | some e => (store, some (.fail ("append_step: " ++ e)))
    | none => (store, some .generate)
  | .generate =>
    match reply with
    | .error e => (store, some (.fail ("inference engine error: " ++ e)))
    | .ok text => (store, some (.getRun text))
  | .getRun text =>
    match store.getRun runId fault with
    | .error e => (store, some (.fail ("get_run: " ++ e.text)))
    | .ok _ => (store, some (.appendMessage text))
  | .appendMessage text =>
    match store.appendMessage ⟨runId, text⟩ fault with
    | (store, .error e) => (store, some (.fail ("append_message: " ++ e.text)))
    | (store, .ok ()) => (store, some .updateStep)
  | .updateStep =>
    match fault with
    | some e => (store, some (.fail ("update step details: " ++ e)))
    | none => (store, some .finish)
  | .finish =>
    match (store.getRun runId fault).bind (notTerminal runId) with
    | .error e => (store, some (.fail ("update Completed: " ++ e.text)))
    | .ok run => (store, some (.finishWrite run))
  | .finishWrite run =>
    match store.writeRun runId { run with status := .completed, lastError := none } fault with
    | (store, .error e) => (store, some (.fail ("update Completed: " ++ e.text)))
    | (store, .ok ()) => (store, none)
  | .fail error =>
    match store.getRun runId fault with
    | .error _ => (store, none)
    | .ok run => (store, some (.failWrite run error))
  | .failWrite run error =>
    ((store.writeRun runId
      { run with status := .failed, lastError := some ⟨"server_error", error⟩ } fault).1, none)

/-- One step of the cancel route. -/
def CancelStage.run (store : ThreadStore) (fault : Option String) :
    CancelStage → ThreadStore × CancelStage
  | .check runId =>
    match store.getRun runId fault with
    | .error e => (store, .done (.error e))
    | .ok run =>
      if run.status.isTerminal then
        (store, .done (.error (.runInTerminalState
          ("run '" ++ runId ++ "' is already in terminal state " ++ run.status.name))))
      else (store, .force runId)
  | .force runId =>
    match store.getRun runId fault with
    | .error e => (store, .done (.error e))
    | .ok run => (store, .write runId run)
  | .write runId run =>
    match store.writeRun runId { run with status := .cancelled, lastError := none } fault with
    | (store, .error e) => (store, .done (.error e))
    | (store, .ok ()) => (store, .reread runId)
  | .reread runId => (store, .done (store.getRun runId fault))
  | .done out => (store, .done out)

/-- `create_run_handler`: the run is written as queued and sent to the worker; where the worker
is gone it is marked as failed.  Nobody else knows its identifier before that. -/
def Service.createRun (s : Service) (runId : String) (queueOpen : Bool) : Service :=
  if queueOpen then
    { s with
      store.runs := s.store.runs.insert runId ⟨.queued, none⟩
      queue := s.queue ++ [runId] }
  else
    { s with
      store.runs := s.store.runs.insert runId
        ⟨.failed, some ⟨"worker_dead", "run worker is not running"⟩⟩ }

/-- One step of the service.  The identifier of a new run is a fresh UUID; an event that does
not apply changes nothing. -/
def Service.step (s : Service) : Event → Option (Service × Unit)
  | .create runId queueOpen =>
    if runId ∈ s.store.runs then none else some (s.createRun runId queueOpen, ())
  | .dequeue =>
    match s.worker, s.queue with
    | none, runId :: queue => some ({ s with queue, worker := some (runId, .start) }, ())
    | _, _ => some (s, ())
  | .work fault reply =>
    match s.worker with
    | none => some (s, ())
    | some (runId, stage) =>
      let (store, stage') := stage.run s.store runId fault reply
      some ({ s with store, worker := stage'.map fun stage' => (runId, stage') }, ())
  | .cancel runId => some ({ s with cancels := s.cancels ++ [.check runId] }, ())
  | .advance i fault =>
    match s.cancels[i]? with
    | none => some (s, ())
    | some stage =>
      let (store, stage') := stage.run s.store fault
      some ({ s with store, cancels := s.cancels.set i stage' }, ())

/-- A service without runs. -/
def Service.init : Service := ⟨⟨∅, []⟩, [], none, []⟩

end Assistants

end Oxillama
