/-
The event stream of a run (`oxillama-server/src/threads/stream.rs`,
`threads/types.rs`).

The stream is polled: each poll takes an item from the broadcast channel and answers an
event, or it waits, or the stream is over.  `Yields stream es outcome` collects what the
polls answer until there is nothing more to come.

* `yields_forwarded` — what the code answers, for any items;
* `Protocol` — what the module promises: the events of the run up to a terminal one, and
  then one `done` event;
* `followsProtocol_iff` — **the promise is kept exactly if no terminal event of the run
  arrives**: after one the stream ends without a `done` event.
-/
import Mathlib.Data.Int.Notation
import Mathlib.Data.List.Basic

namespace Oxillama

namespace Server

/-! ### Events -/

/-- `RunStatus`. -/
inductive RunStatus
  | queued
  | inProgress
  | completed
  | cancelled
  | failed
  | expired
  deriving DecidableEq, Repr

/-- `RunError`. -/
structure RunError where
  code : String
  message : String
  deriving DecidableEq, Repr

/-- `Run`. -/
structure RunObject where
  id : String
  object : String
  createdAt : ℤ
  threadId : String
  status : RunStatus
  model : String
  lastError : Option RunError
  deriving DecidableEq, Repr

/-- `RunEvent`. -/
inductive RunEvent
  | created (run : RunObject)
  | inProgress (run : RunObject)
  | messageDelta (runId content : String)
  | completed (run : RunObject)
  | failed (run : RunObject)
  deriving DecidableEq, Repr

namespace RunEvent

/-- `RunEvent::sse_event_name`. -/
def sseEventName : RunEvent → String
  | created _ => "thread.run.created"
  | inProgress _ => "thread.run.in_progress"
  | messageDelta _ _ => "thread.message.delta"
  | completed _ => "thread.run.completed"
  | failed _ => "thread.run.failed"

/-- `RunEvent::is_terminal`. -/
def isTerminal : RunEvent → Bool
  | completed _ | failed _ => true
  | _ => false

/-- `RunEvent::run_id`. -/
def runId : RunEvent → String
  | created r | inProgress r | completed r | failed r => r.id
  | messageDelta runId _ => runId

end RunEvent

/-- An SSE `Event`: its name and its data. -/
structure SseEvent where
  event : String
  data : String
  deriving DecidableEq, Repr

namespace SseEvent

/-- The end of the stream, for the client. -/
def done : SseEvent := ⟨"done", "[DONE]"⟩

/-- What is sent instead of an item that is passed over. -/
def keepAlive : SseEvent := ⟨"keep-alive", ""⟩

end SseEvent

/-! ### The stream -/

/-- What the receiver takes from the broadcast channel: an event, or word that it has missed
some. -/
inductive Received
  | event (e : RunEvent)
  | lagged
  deriving DecidableEq, Repr

/-- `BroadcastStream`: the items that are still to come, and whether the channel is closed
behind them. -/
structure BroadcastStream where
  items : List Received
  closed : Bool
  deriving DecidableEq, Repr

/-- What a poll of the stream answers. -/
inductive Polled (σ : Type)
  | ended
  | pending
  | yields (event : SseEvent) (state : σ)

/-- The state of the `unfold`: the receiver, and the `done` flag. -/
structure RunStream where
  stream : BroadcastStream
  done : Bool

/-- How a stream is left: it is over, or it waits for the channel. -/
inductive Outcome
  | ended
  | pending
  deriving DecidableEq, Repr

namespace RunStream

variable (toString : RunEvent → Option String) (runId : String)

/-- The body of the `unfold` in `build_run_sse_stream`.  `toString` is `serde_json::to_string`. -/
def poll (st : RunStream) : Polled RunStream :=
  if st.done then .ended
  else match st.stream.items with
    | [] =>
      if st.stream.closed then .yields .done ⟨st.stream, true⟩
      -- nobody has sent, and nobody has hung up
      else .pending
    | .lagged :: rest => .yields .keepAlive ⟨⟨rest, st.stream.closed⟩, false⟩
    | .event e :: rest =>
      if e.runId ≠ runId then .yields .keepAlive ⟨⟨rest, st.stream.closed⟩, false⟩
      else match toString e with
        | none => .yields .keepAlive ⟨⟨rest, st.stream.closed⟩, false⟩
        | some data =>
          .yields ⟨e.sseEventName, data⟩ ⟨⟨rest, st.stream.closed⟩, e.isTerminal⟩

/-- `build_run_sse_stream`, subscribed to a channel. -/
def buildRunSseStream (stream : BroadcastStream) : RunStream := ⟨stream, false⟩

/-- Polling from `st` on answers `es`, and then the stream is left. -/
inductive Yields : RunStream → List SseEvent → Outcome → Prop
  | ended {st : RunStream} (h : st.poll toString runId = .ended) : Yields st [] .ended
  | pending {st : RunStream} (h : st.poll toString runId = .pending) : Yields st [] .pending
  | cons {st st' : RunStream} {e : SseEvent} {es : List SseEvent} {outcome : Outcome}
      (h : st.poll toString runId = .yields e st') (hrest : Yields st' es outcome) :
      Yields st (e :: es) outcome

section Yields

variable {toString runId} {st st' : RunStream} {es es' : List SseEvent} {outcome outcome' : Outcome}

/-- Polling answers one thing. -/
theorem Yields.unique (h : Yields toString runId st es outcome)
    (h' : Yields toString runId st es' outcome') : es = es' ∧ outcome = outcome' := by
  induction h generalizing es' with
  | ended h =>
    cases h' with
    | ended => exact ⟨rfl, rfl⟩
    | pending h' => cases h.symm.trans h'
    | cons h' => cases h.symm.trans h'
  | pending h =>
    cases h' with
    | ended h' => cases h.symm.trans h'
    | pending => exact ⟨rfl, rfl⟩
    | cons h' => cases h.symm.trans h'
  | cons h _ ih =>
    cases h' with
    | ended h' => cases h.symm.trans h'
    | pending h' => cases h.symm.trans h'
    | cons h' hrest =>
      cases h.symm.trans h'
      obtain ⟨rfl, rfl⟩ := ih hrest
      exact ⟨rfl, rfl⟩

end Yields

/-! ### What the code answers -/

variable {toString runId}

/-- The events of the run, among the items. -/
def ofRun (runId : String) : List Received → List RunEvent
  | [] => []
  | .event e :: items => if e.runId = runId then e :: ofRun runId items else ofRun runId items
  | .lagged :: items => ofRun runId items

/-- An event as the stream sends it. -/
def sse (toString : RunEvent → Option String) (e : RunEvent) : SseEvent :=
  ⟨e.sseEventName, (toString e).getD ""⟩

/-- The events up to the first terminal one, which is among them. -/
def upToTerminal : List RunEvent → List RunEvent
  | [] => []
  | e :: es => if e.isTerminal then [e] else e :: upToTerminal es

/-- The events without the keep-alives. -/
def withoutKeepAlives (es : List SseEvent) : List SseEvent :=
  es.filter fun e => e.event ≠ SseEvent.keepAlive.event

@[simp] theorem withoutKeepAlives_keepAlive (es : List SseEvent) :
    withoutKeepAlives (.keepAlive :: es) = withoutKeepAlives es := rfl

@[simp] theorem withoutKeepAlives_done (es : List SseEvent) :
    withoutKeepAlives (.done :: es) = .done :: withoutKeepAlives es := rfl

@[simp] theorem withoutKeepAlives_sse (e : RunEvent) (data : String) (es : List SseEvent) :
    withoutKeepAlives (⟨e.sseEventName, data⟩ :: es) =
      ⟨e.sseEventName, data⟩ :: withoutKeepAlives es := by
  cases e <;> rfl

/-- What follows the events of the run, and how the stream is left: after a terminal event
nothing. -/
def forwardedEnd (mine : List RunEvent) (closed : Bool) : List SseEvent × Outcome :=
  if mine.any RunEvent.isTerminal then ([], .ended)
  else if closed then ([.done], .ended)
  else ([], .pending)

theorem forwardedEnd_cons {e : RunEvent} (he : e.isTerminal = false) (mine : List RunEvent)
    (closed : Bool) : forwardedEnd (e :: mine) closed = forwardedEnd mine closed := by
  rw [forwardedEnd, forwardedEnd, List.any_cons, he, Bool.false_or]

/-- **The code forwards the events of the run** up to a terminal one, and says `done` only if
the channel is closed before. -/
theorem yields_forwarded (hjson : ∀ e, (toString e).isSome) (stream : BroadcastStream) :
    ∃ es, Yields toString runId (buildRunSseStream stream) es
        (forwardedEnd (ofRun runId stream.items) stream.closed).2 ∧
      withoutKeepAlives es = (upToTerminal (ofRun runId stream.items)).map (sse toString) ++
        (forwardedEnd (ofRun runId stream.items) stream.closed).1 := by
  obtain ⟨items, closed⟩ := stream
  have hended : ∀ stream, Yields toString runId ⟨stream, true⟩ [] .ended := fun _ => .ended rfl
  induction items with
  | nil =>
    cases closed with
    | false => exact ⟨[], .pending rfl, rfl⟩
    | true => exact ⟨[.done], .cons rfl (hended _), rfl⟩
  | cons item items ih =>
    obtain ⟨es, hes, heq⟩ := ih
    -- an item that is passed over
    have hskip : ofRun runId (item :: items) = ofRun runId items →
        (buildRunSseStream ⟨item :: items, closed⟩).poll toString runId =
          .yields .keepAlive (buildRunSseStream ⟨items, closed⟩) →
        ∃ es, Yields toString runId (buildRunSseStream ⟨item :: items, closed⟩) es
            (forwardedEnd (ofRun runId (item :: items)) closed).2 ∧
          withoutKeepAlives es =
            (upToTerminal (ofRun runId (item :: items))).map (sse toString) ++
              (forwardedEnd (ofRun runId (item :: items)) closed).1 := by
      intro hsame hpoll
      rw [hsame]
      exact ⟨.keepAlive :: es, .cons hpoll hes, heq⟩
    cases item with
    | lagged => exact hskip rfl rfl
    | event e =>
      by_cases hrun : e.runId = runId
      · have hmine : ofRun runId (.event e :: items) = e :: ofRun runId items :=
          if_pos hrun
        obtain ⟨data, hdata⟩ := Option.isSome_iff_exists.mp (hjson e)
        have hsse : sse toString e = ⟨e.sseEventName, data⟩ := by
          rw [sse, hdata]
          rfl
        have hpoll : (buildRunSseStream ⟨.event e :: items, closed⟩).poll toString runId =
            .yields ⟨e.sseEventName, data⟩ ⟨⟨items, closed⟩, e.isTerminal⟩ := by
          simp [poll, buildRunSseStream, hrun, hdata]
        rw [hmine, upToTerminal]
        cases hterminal : e.isTerminal with
        | true =>
          rw [hterminal] at hpoll
          have hend : forwardedEnd (e :: ofRun runId items) closed = ([], .ended) := by
            rw [forwardedEnd, List.any_cons, hterminal]
            rfl
          rw [hend]
          refine ⟨_, .cons hpoll (hended _), ?_⟩
          rw [withoutKeepAlives_sse, ← hsse]
          rfl
        | false =>
          rw [hterminal] at hpoll
          rw [forwardedEnd_cons hterminal]
          refine ⟨_, .cons hpoll hes, ?_⟩
          rw [withoutKeepAlives_sse, ← hsse, heq]
          rfl
      · have hnone : ofRun runId (.event e :: items) = ofRun runId items :=
          if_neg hrun
        refine hskip hnone ?_
        simp [poll, buildRunSseStream, hrun]

/-! ### The protocol -/

/-- What the module promises to follow the events of the run, and how the stream is left: one
`done` event and the end, once the run or the channel is over. -/
def promisedEnd (mine : List RunEvent) (closed : Bool) : List SseEvent × Outcome :=
  if mine.any RunEvent.isTerminal || closed then ([.done], .ended) else ([], .pending)

/-- The promise: but for keep-alives, polling answers the events of the run up to the first
terminal one, and what is to follow them. -/
def FollowsProtocol (toString : RunEvent → Option String) (runId : String)
    (stream : BroadcastStream) : Prop :=
  ∃ es outcome, Yields toString runId (buildRunSseStream stream) es outcome ∧
    (withoutKeepAlives es, outcome) =
      ((upToTerminal (ofRun runId stream.items)).map (sse toString) ++
          (promisedEnd (ofRun runId stream.items) stream.closed).1,
        (promisedEnd (ofRun runId stream.items) stream.closed).2)

/-- **The protocol is followed exactly if no terminal event of the run arrives.** -/
theorem followsProtocol_iff (hjson : ∀ e, (toString e).isSome) (stream : BroadcastStream) :
    FollowsProtocol toString runId stream ↔
      ∀ e ∈ ofRun runId stream.items, e.isTerminal = false := by
  obtain ⟨es, hes, heq⟩ := @yields_forwarded _ runId hjson stream
  have hany : (ofRun runId stream.items).any RunEvent.isTerminal = false ↔
      ∀ e ∈ ofRun runId stream.items, e.isTerminal = false := by
    rw [List.any_eq_false]
    simp only [Bool.not_eq_true]
  rw [← hany]
  constructor
  · rintro ⟨es', outcome, hes', hpromised⟩
    obtain ⟨rfl, rfl⟩ := hes'.unique hes
    obtain ⟨hevents, -⟩ := Prod.mk.inj hpromised
    rw [heq, List.append_cancel_left_eq] at hevents
    cases hterminal : (ofRun runId stream.items).any RunEvent.isTerminal with
    | false => rfl
    | true =>
      rw [forwardedEnd, promisedEnd, hterminal] at hevents
      cases hevents
  · intro hterminal
    have hend : forwardedEnd (ofRun runId stream.items) stream.closed =
        promisedEnd (ofRun runId stream.items) stream.closed := by
      rw [forwardedEnd, promisedEnd, hterminal]
      cases stream.closed <;> rfl
    exact ⟨es, _, hes, by rw [heq, hend]⟩

/-! ### Two streams -/

/-- The JSON of a piece of a message and of the end of a run, where no text has to be escaped. -/
def sampleJson : RunEvent → Option String
  | .messageDelta runId content =>
    some ("\x7b\"event_type\":\"message_delta\",\"data\":\x7b\"run_id\":\"" ++ runId ++
      "\",\"content\":\"" ++ content ++ "\"\x7d\x7d")
  | .created run | .inProgress run | .completed run | .failed run =>
    some ("\x7b\"event_type\":\"completed\",\"data\":\x7b\"id\":\"" ++ run.id ++
      "\",\"object\":\"thread.run\",\"created_at\":0,\"thread_id\":\"t\",\"status\":" ++
      "\"completed\",\"model\":\"\"\x7d\x7d")

/-- A run of which nothing but a piece of its message arrives before the channel is closed. -/
theorem followsProtocol_iff_delta :
    FollowsProtocol sampleJson "r" ⟨[.lagged, .event (.messageDelta "r" "hi"),
      .event (.messageDelta "q" "hi")], true⟩ :=
  (followsProtocol_iff (fun e => by cases e <;> rfl) _).mpr (by decide)

/-- **A run that is completed**: its stream ends without a `done` event. -/
theorem not_followsProtocol_completed :
    ¬ FollowsProtocol sampleJson "r"
      ⟨[.event (.messageDelta "r" "hi"),
        .event (.completed ⟨"r", "thread.run", 0, "t", .completed, "", none⟩)], true⟩ := by
  rintro ⟨es, outcome, hes, hpromised⟩
  obtain ⟨rfl, rfl⟩ := hes.unique (.cons rfl (.cons rfl (.ended rfl)))
  revert hpromised
  decide

end RunStream

end Server

end Oxillama
