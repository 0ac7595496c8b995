/-
The event stream of a chat completion (`oxillama-server/src/routes/chat.rs`).

The worker calls a callback with each piece of text, which tries to put an event into a
bounded channel; the client takes events from it; a task waits for the worker and sends
the last two events.  A step is one of these, and its answer is the event that the client
gets, if it gets one.
-/
import Oxillama.Lib.Channel
import Oxillama.Lib.Run

namespace Oxillama

namespace Server

/-! ### Events -/

/-- `ChatDelta`, without the calls of tools, which a stream never has. -/
structure ChatDelta where
  role : Option String
  content : Option String
  deriving DecidableEq, Repr

/-- `ChatChunkChoice`. -/
structure ChatChunkChoice where
  index : ℕ
  delta : ChatDelta
  finishReason : Option String
  deriving DecidableEq, Repr

/-- `ChatCompletionChunk`. -/
structure ChatCompletionChunk where
  id : String
  object : String
  created : ℕ
  model : String
  choices : List ChatChunkChoice
  deriving DecidableEq, Repr

/-- An event: a chunk, or `[DONE]`. -/
inductive Event
  | chunk (chunk : ChatCompletionChunk)
  | done
  deriving DecidableEq, Repr

/-- What all chunks of a request have in common. -/
structure Origin where
  requestId : String
  now : ℕ
  modelId : String

/-- An event with a single choice. -/
def Origin.event (origin : Origin) (delta : ChatDelta) (finishReason : Option String) : Event :=
  .chunk ⟨origin.requestId, "chat.completion.chunk", origin.now, origin.modelId,
    [⟨0, delta, finishReason⟩]⟩

/-- `initial_chunk`. -/
def Origin.initialChunk (origin : Origin) : Event := origin.event ⟨some "assistant", none⟩ none

/-- The chunk of the callback. -/
def Origin.contentChunk (origin : Origin) (tokenText : String) : Event :=
  origin.event ⟨none, some tokenText⟩ none

/-- `finish_chunk`. -/
def Origin.finishChunk (origin : Origin) (finishReason : String) : Event :=
  origin.event ⟨none, none⟩ (some finishReason)

/-- The choices of an event. -/
def Event.choices : Event → List ChatChunkChoice
  | .chunk ⟨_, _, _, _, choices⟩ => choices
  | .done => []

/-- The content deltas of some events. -/
def contents (events : List Event) : List String :=
  (events.flatMap Event.choices).filterMap (·.delta.content)

/-- The finish reasons of some events. -/
def finishReasons (events : List Event) : List String :=
  (events.flatMap Event.choices).filterMap (·.finishReason)

/-! ### The worker's answer -/

/-- `FinishReason`. -/
inductive FinishReason
  | eos
  | maxTokens
  | contextFull
  | stopped
  | cancelled
  deriving DecidableEq, Repr

/-- `FinishReason::as_openai_str`. -/
def FinishReason.asOpenaiStr : FinishReason → String
  | .eos | .stopped => "stop"
  | .maxTokens | .contextFull => "length"
  | .cancelled => "cancelled"

/-- What the receiver of the reply gets: the reply, or the news that nobody will send one. -/
inductive Reply
  | sent (reply : Except String FinishReason)
  | dropped
  deriving DecidableEq, Repr

/-- `finish_reason` of the last chunk. -/
def finishReason (reply : Reply) (cancelled : Bool) : String :=
  match reply with
  | .sent (.ok reason) => if cancelled then "cancelled" else reason.asOpenaiStr
  | _ => if cancelled then "cancelled" else "error"

/-! ### The stream -/

/-- Where the task is that sends the last events. -/
inductive FinishTask
  | awaitingReply
  | sendingFinish (finishReason : String)
  | sendingDone
  | finished
  deriving DecidableEq, Repr

/-- The state of a stream. -/
structure ChatStream where
  channel : Channel Event
  /-- The cancellation token. -/
  cancelled : Bool
  /-- The worker's reply; until it is there, the worker generates. -/
  reply : Option Reply
  task : FinishTask
  deriving DecidableEq, Repr

/-- What can happen. -/
inductive StreamStep
  /-- The worker calls the callback with the next piece. -/
  | callback (tokenText : String)
  /-- The worker is done with the request. -/
  | reply (reply : Reply)
  /-- The task receives the reply. -/
  | awaitReply
  /-- The task sends its next event. -/
  | send
  /-- The client takes an event. -/
  | take
  /-- The client disconnects. -/
  | disconnect
  deriving DecidableEq, Repr

namespace ChatStream

/-- The stream when the request is dispatched to the worker. -/
def start (origin : Origin) : ChatStream where
  channel := { (Channel.new 32 : Channel Event) with queue := [origin.initialChunk] }
  cancelled := false
  reply := none
  task := .awaitingReply

/-- The callback. -/
def callback (origin : Origin) (stream : ChatStream) (tokenText : String) : ChatStream :=
  match stream.channel.trySend (origin.contentChunk tokenText) with
  | .ok channel => { stream with channel }
  | .error _ => { stream with cancelled := true }

/-- `sse_tx.send(event).await`, whose result is ignored: it waits until there is room or the
receiver is gone. -/
def sendAwait (stream : ChatStream) (event : Event) (task : FinishTask) : Option ChatStream :=
  match stream.channel.trySend event with
  | .ok channel => some { stream with channel, task }
  | .error .closed => some { stream with task }
  | .error .full => none

/-- One step, when it can happen. -/
def step (origin : Origin) (stream : ChatStream) :
    StreamStep → Option (ChatStream × Option Event)
  | .callback tokenText =>
    if stream.reply.isNone then some (stream.callback origin tokenText, none) else none
  | .reply reply =>
    if stream.reply.isNone then some ({ stream with reply := some reply }, none) else none
  | .awaitReply =>
    match stream.task, stream.reply with
    | .awaitingReply, some reply =>
      some ({ stream with task := .sendingFinish (finishReason reply stream.cancelled) }, none)
    | _, _ => none
  | .send =>
    match stream.task with
    | .sendingFinish reason =>
      (stream.sendAwait (origin.finishChunk reason) .sendingDone).map (·, none)
    | .sendingDone => (stream.sendAwait .done .finished).map (·, none)
    | _ => none
  | .take => stream.channel.recv.map fun (event, channel) => ({ stream with channel }, some event)
  | .disconnect => some ({ stream with channel := stream.channel.close }, none)

end ChatStream

end Server

end Oxillama
