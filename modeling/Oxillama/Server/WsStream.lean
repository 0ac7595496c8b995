/-
The WebSocket stream of a chat completion (`oxillama-server/src/ws.rs`, `handle_socket`).

The worker calls a callback with each piece of text, which tries to put it into a bounded
channel; the handler takes pieces from it and sends them as frames, until the callback is
dropped and the channel is empty, and only then looks at the worker's reply.

* `done_is_truthful` — **a `done` frame says what happened, in every interleaving**: it is the
  last frame, and its reason is `cancelled` just when a piece is missing or the worker says so
  itself; otherwise every piece was sent, in order.
-/
import Mathlib
import Oxillama.Lib.Run
import Oxillama.Server.ChatStream
import Oxillama.Server.Usage

namespace Oxillama

namespace Server

/-! ### The session -/

/-- `WsEvent`, with the two fields of `UsageSummary`. -/
inductive WsEvent
  | token (delta : String)
  | done (finishReason : String) (promptTokens completionTokens : ℕ)
  | error (message : String)
deriving DecidableEq

/-- What the receiver of the reply gets. -/
inductive WsReply
  | sent (reply : Except String (UsageStats × FinishReason))
  | dropped
deriving DecidableEq

/-- Where the handler is. -/
inductive WsHandler
  /-- The loop over `token_rx.recv()`. -/
  | draining
  /-- `reply_rx.await` -/
  | awaiting
  | finished
deriving DecidableEq

/-- A session whose request was handed to the worker. -/
structure WsSession where
  channel : Channel String
  cancelled : Bool
  /-- Whether the callback, which is the only sender, is still there. -/
  callbackAlive : Bool
  reply : Option WsReply
  handler : WsHandler
deriving DecidableEq

/-- What can happen. -/
inductive WsStep
  /-- The worker calls the callback with the next piece. -/
  | callback (tokenText : String)
  /-- The worker is done with the request. -/
  | reply (reply : WsReply)
  | dropCallback
  /-- The handler sends the next piece; the flag says whether the socket takes the frame. -/
  | forward (sent : Bool)
  /-- `recv` answers that there will be no more pieces. -/
  | drained
  /-- The handler has the reply and sends its last frame. -/
  | finish (sent : Bool)
deriving DecidableEq

namespace WsSession

/-- The session when the request is dispatched. -/
def start : WsSession where
  channel := .new 32
  cancelled := false
  callbackAlive := true
  reply := none
  handler := .draining

/-- The callback. -/
def callback (session : WsSession) (tokenText : String) : WsSession :=
  match session.channel.trySend tokenText with
  | .ok channel => { session with channel }
  | .error _ => { session with cancelled := true }

/-- The last frame. -/
def lastEvent (reply : WsReply) (cancelled : Bool) : WsEvent :=
  match reply with
  | .sent (.ok (usage, runtimeReason)) =>
    let reason := if cancelled then "cancelled" else runtimeReason.asOpenaiStr
    -- `as u32`
    .done reason (usage.promptTokens % 2 ^ 32) (usage.completionTokens % 2 ^ 32)
  | .sent (.error msg) => .error ("Generation failed: " ++ msg)
  | .dropped => .error "Inference worker dropped the reply channel"

/-- The handler returns, and drops the receiver. -/
def leave (session : WsSession) : WsSession :=
  { session with channel := session.channel.close, handler := .finished }

/-- One step, when it can happen, and the frame that is sent. -/
def step (session : WsSession) : WsStep → Option (WsSession × Option WsEvent)
  | .callback tokenText =>
    if session.callbackAlive ∧ session.reply.isNone then some (session.callback tokenText, none)
    else none
  | .reply reply =>
    if session.reply.isNone then some ({ session with reply := some reply }, none) else none
  | .dropCallback => some ({ session with callbackAlive := false }, none)
  | .forward sent =>
    if session.handler = .draining then
      session.channel.recv.map fun (token, channel) =>
        if sent then ({ session with channel }, some (.token token))
        else ({ session with channel, cancelled := true }.leave, none)
    else none
  | .drained =>
    if session.handler = .draining ∧ session.channel.queue = [] ∧ session.callbackAlive = false then
      some ({ session with handler := .awaiting }, none)
    else none
  | .finish sent =>
    if session.handler = .awaiting then
      session.reply.map fun reply =>
        (session.leave, if sent then some (lastEvent reply session.cancelled) else none)
    else none

end WsSession

/-! ### What is sent -/

/-- The frames of a run. -/
def wsFrames (tr : List (WsStep × Option WsEvent)) : List WsEvent := tr.filterMap Prod.snd

/-- The pieces that the worker produced. -/
def wsPieces (tr : List (WsStep × Option WsEvent)) : List String :=
  tr.filterMap fun e => match e.1 with
    | .callback tokenText => some tokenText
    | _ => none

/-- What the last frame may be, behind the frames of some pieces. -/
structure Truthful (pieces deltas : List String) (reason : FinishReason) (usage : UsageStats)
    (last : WsEvent) : Prop where
  frame : ∃ finishReason, last = .done finishReason (usage.promptTokens % 2 ^ 32)
    (usage.completionTokens % 2 ^ 32) ∧
    (finishReason = "cancelled" ↔ deltas ≠ pieces ∨ reason = .cancelled) ∧
    (finishReason ≠ "cancelled" → deltas = pieces ∧ finishReason = reason.asOpenaiStr)

/-- What holds after every step; `accepted` are the pieces that the channel took. -/
structure WsInvariant (tr : List (WsStep × Option WsEvent)) (session : WsSession)
    (accepted deltas : List String) (tail : List WsEvent) : Prop where
  frames : wsFrames tr = deltas.map .token ++ tail
  delivers : session.channel.Delivers accepted deltas
  sublist : accepted.Sublist (wsPieces tr)
  complete : session.cancelled = false → accepted = wsPieces tr
  /-- Before the end, a cancellation is a piece that was refused. -/
  running : session.handler ≠ .finished → tail = [] ∧ session.channel.closed = false ∧
    (session.cancelled = true → accepted.length < (wsPieces tr).length)
  drained : session.handler = .awaiting →
    session.channel.queue = [] ∧ session.callbackAlive = false
  ended : tail = [] ∨ session.callbackAlive = false ∧ ∃ reply cancelled,
    session.reply = some reply ∧ tail = [WsSession.lastEvent reply cancelled] ∧
      ∀ usage reason, reply = .sent (.ok (usage, reason)) →
        Truthful (wsPieces tr) deltas reason usage (WsSession.lastEvent reply cancelled)

section Frames

variable {tr : List (WsStep × Option WsEvent)} {session session' : WsSession}
  {accepted deltas : List String} {tail : List WsEvent} {i : WsStep} {out : Option WsEvent}

theorem wsFrames_append (tr tr' : List (WsStep × Option WsEvent)) :
    wsFrames (tr ++ tr') = wsFrames tr ++ wsFrames tr' := List.filterMap_append

theorem wsPieces_append (tr tr' : List (WsStep × Option WsEvent)) :
    wsPieces (tr ++ tr') = wsPieces tr ++ wsPieces tr' := List.filterMap_append

theorem wsInvariant_start : WsInvariant [] .start [] [] [] where
  frames := rfl
  delivers := .new 32
  sublist := .slnil
  complete _ := rfl
  running _ := ⟨rfl, rfl, by rintro ⟨⟩⟩
  drained h := by cases h
  ended := .inl rfl

/-- A step that touches neither the channel nor the handler. -/
theorem WsInvariant.quiet (h : WsInvariant tr session accepted deltas tail)
    (hout : out = none) (hi : wsPieces [(i, out)] = [])
    (hchannel : session'.channel = session.channel)
    (hcancelled : session'.cancelled = session.cancelled)
    (hhandler : session'.handler = session.handler)
    (halive : session.callbackAlive = false → session'.callbackAlive = false)
    (hreply : ∀ reply, session.reply = some reply → session'.reply = some reply) :
    WsInvariant (tr ++ [(i, out)]) session' accepted deltas tail := by
  have hpieces : wsPieces (tr ++ [(i, out)]) = wsPieces tr := by
    rw [wsPieces_append, hi, List.append_nil]
  subst hout
  refine ⟨?_, ?_, ?_, ?_, ?_, ?_, ?_⟩
  · rw [wsFrames_append, h.frames]
    exact List.append_nil _
  · rw [hchannel]
    exact h.delivers
  · rw [hpieces]
    exact h.sublist
  · rw [hpieces, hcancelled]
    exact h.complete
  · rw [hpieces, hhandler, hchannel, hcancelled]
    exact h.running
  · intro hawaiting
    rw [hchannel]
    obtain ⟨hqueue, hdead⟩ := h.drained (hhandler ▸ hawaiting)
    exact ⟨hqueue, halive hdead⟩
  · rw [hpieces]
    rcases h.ended with htail | ⟨hdead, reply, cancelled, hsome, hlast⟩
    · exact .inl htail
    · exact .inr ⟨halive hdead, reply, cancelled, hreply reply hsome, hlast⟩

/-- The worker's next piece, that the channel takes or refuses. -/
theorem WsInvariant.callback (h : WsInvariant tr session accepted deltas tail)
    (halive : session.callbackAlive = true) (tokenText : String) :
    ∃ accepted, WsInvariant (tr ++ [(.callback tokenText, none)]) (session.callback tokenText)
      accepted deltas tail := by
  have hframes : wsFrames (tr ++ [(.callback tokenText, none)]) = deltas.map .token ++ tail := by
    rw [wsFrames_append, h.frames]
    exact List.append_nil _
  have hpieces : wsPieces (tr ++ [(.callback tokenText, none)]) = wsPieces tr ++ [tokenText] := by
    rw [wsPieces_append]
    rfl
  -- nothing was sent behind the pieces, since the callback is still there
  have htail : tail = [] := by
    rcases h.ended with htail | ⟨hdead, -⟩
    · exact htail
    · rw [halive] at hdead
      cases hdead
  have hawaiting : session.handler ≠ .awaiting := by
    intro hawaiting
    have hdead := (h.drained hawaiting).2
    rw [halive] at hdead
    cases hdead
  rw [WsSession.callback]
  cases hsend : session.channel.trySend tokenText with
  | ok channel =>
    have hclosed : channel.closed = session.channel.closed := by
      rw [Channel.trySend] at hsend
      split at hsend
      · cases hsend
      · split at hsend
        · exact Except.ok.inj hsend ▸ rfl
        · cases hsend
    refine ⟨accepted ++ [tokenText], hframes, h.delivers.trySend hsend, ?_, ?_, ?_, ?_, .inl htail⟩
    · rw [hpieces]
      exact h.sublist.append (.refl _)
    · intro hcancelled
      rw [hpieces, h.complete hcancelled]
    · intro hrunning
      obtain ⟨-, hopen, hshort⟩ := h.running hrunning
      refine ⟨htail, hclosed.trans hopen, fun hcancelled => ?_⟩
      rw [hpieces, List.length_append, List.length_append]
      exact Nat.add_lt_add_right (hshort hcancelled) _
    · exact fun hawait => absurd hawait hawaiting
  | error e =>
    refine ⟨accepted, hframes, h.delivers, ?_, by rintro ⟨⟩, ?_, ?_, .inl htail⟩
    · rw [hpieces]
      exact h.sublist.trans (List.sublist_append_left _ _)
    · intro hrunning
      refine ⟨htail, (h.running hrunning).2.1, fun _ => ?_⟩
      rw [hpieces, List.length_append]
      exact Nat.lt_succ_of_le h.sublist.length_le
    · exact fun hawait => absurd hawait hawaiting

/-- The last frame, behind all that the channel took. -/
theorem truthful_lastEvent (h : WsInvariant tr session accepted deltas tail)
    (hawaiting : session.handler = .awaiting) {usage : UsageStats} {reason : FinishReason} :
    Truthful (wsPieces tr) deltas reason usage
      (WsSession.lastEvent (.sent (.ok (usage, reason))) session.cancelled) := by
  obtain ⟨-, hopen, hshort⟩ := h.running (by rw [hawaiting]; simp)
  have hall : deltas = accepted := by
    have hdelivered := h.delivers.all hopen
    rwa [(h.drained hawaiting).1, List.append_nil] at hdelivered
  refine ⟨_, rfl, ?_, ?_⟩
  · cases hcancelled : session.cancelled with
    | true =>
      refine iff_of_true rfl (.inl fun hsame => ?_)
      have hlt := hshort hcancelled
      rw [← hall, hsame] at hlt
      exact lt_irrefl _ hlt
    | false =>
      have hsame : deltas = wsPieces tr := hall.trans (h.complete hcancelled)
      rw [if_neg (by simp), or_iff_right (not_not.mpr hsame)]
      cases reason <;> simp [FinishReason.asOpenaiStr]
  · intro hreason
    cases hcancelled : session.cancelled with
    | true =>
      rw [hcancelled] at hreason
      exact absurd rfl hreason
    | false => exact ⟨hall.trans (h.complete hcancelled), rfl⟩

theorem WsInvariant.step (h : WsInvariant tr session accepted deltas tail)
    (hstep : session.step i = some (session', out)) :
    ∃ accepted deltas tail, WsInvariant (tr ++ [(i, out)]) session' accepted deltas tail := by
  cases i with
  | callback tokenText =>
    rw [WsSession.step] at hstep
    split at hstep
    · rename_i hguard
      obtain ⟨rfl, rfl⟩ := Prod.mk.inj (Option.some.inj hstep)
      obtain ⟨accepted, h⟩ := h.callback hguard.1 tokenText
      exact ⟨accepted, deltas, tail, h⟩
    · cases hstep
  | reply reply =>
    rw [WsSession.step] at hstep
    split at hstep
    · rename_i hnone
      obtain ⟨rfl, rfl⟩ := Prod.mk.inj (Option.some.inj hstep)
      refine ⟨accepted, deltas, tail, h.quiet rfl rfl rfl rfl rfl id fun reply' hsome => ?_⟩
      rw [hsome] at hnone
      cases hnone
    · cases hstep
  | dropCallback =>
    obtain ⟨rfl, rfl⟩ := Prod.mk.inj (Option.some.inj hstep)
    exact ⟨accepted, deltas, tail, h.quiet rfl rfl rfl rfl rfl (fun _ => rfl) fun _ => id⟩
  | forward sent =>
    rw [WsSession.step] at hstep
    split at hstep
    · rename_i hdraining
      obtain ⟨⟨token, channel⟩, hrecv, hstep⟩ := Option.map_eq_some_iff.mp hstep
      obtain ⟨rfl, hopen, hshort⟩ := h.running (by rw [hdraining]; simp)
      have hpieces : wsPieces (tr ++ [(.forward sent, out)]) = wsPieces tr := by
        rw [wsPieces_append]
        exact List.append_nil _
      cases sent with
      | true =>
        obtain ⟨rfl, rfl⟩ := Prod.mk.inj hstep
        obtain ⟨queue, -, rfl⟩ := Channel.recv_eq_some hrecv
        refine ⟨accepted, deltas ++ [token], [], ?_, h.delivers.recv hrecv, ?_, ?_, ?_, ?_,
          .inl rfl⟩
        · rw [wsFrames_append, h.frames, List.map_append, List.append_nil, List.append_nil]
          rfl
        · exact hpieces ▸ h.sublist
        · exact hpieces ▸ h.complete
        · exact fun _ => ⟨rfl, hopen, hpieces ▸ hshort⟩
        · intro hawaiting
          cases hdraining.symm.trans hawaiting
      | false =>
        obtain ⟨rfl, rfl⟩ := Prod.mk.inj hstep
        obtain ⟨queue, hqueue, rfl⟩ := Channel.recv_eq_some hrecv
        refine ⟨accepted, deltas, [], ?_, ?_, ?_, by rintro ⟨⟩, ?_, by rintro ⟨⟩, .inl rfl⟩
        · rw [wsFrames_append, h.frames]
          exact List.append_nil _
        · refine ⟨?_, by rintro ⟨⟩⟩
          rw [WsSession.leave, Channel.close, List.append_nil]
          exact h.delivers.prefix_received
        · exact hpieces ▸ h.sublist
        · exact fun hrunning => absurd rfl hrunning
    · cases hstep
  | drained =>
    rw [WsSession.step] at hstep
    split at hstep
    · rename_i hguard
      obtain ⟨hdraining, hqueue, hdead⟩ := hguard
      obtain ⟨rfl, rfl⟩ := Prod.mk.inj (Option.some.inj hstep)
      obtain ⟨htail, hopen, hshort⟩ := h.running (by rw [hdraining]; simp)
      have hpieces : wsPieces (tr ++ [(.drained, none)]) = wsPieces tr := by
        rw [wsPieces_append]
        exact List.append_nil _
      refine ⟨accepted, deltas, tail, ?_, h.delivers, ?_, ?_, ?_, fun _ => ⟨hqueue, hdead⟩,
        .inl htail⟩
      · rw [wsFrames_append, h.frames]
        exact List.append_nil _
      · exact hpieces ▸ h.sublist
      · exact hpieces ▸ h.complete
      · exact fun _ => ⟨htail, hopen, hpieces ▸ hshort⟩
    · cases hstep
  | finish sent =>
    rw [WsSession.step] at hstep
    split at hstep
    · rename_i hawaiting
      obtain ⟨reply, hreply, hstep⟩ := Option.map_eq_some_iff.mp hstep
      obtain ⟨rfl, rfl⟩ := Prod.mk.inj hstep
      obtain ⟨rfl, hopen, hshort⟩ := h.running (by rw [hawaiting]; simp)
      have hdead := (h.drained hawaiting).2
      have hpieces : ∀ out, wsPieces (tr ++ [(.finish sent, out)]) = wsPieces tr := by
        intro out
        rw [wsPieces_append]
        exact List.append_nil _
      cases sent with
      | true =>
        refine ⟨accepted, deltas, [WsSession.lastEvent reply session.cancelled], ?_,
          h.delivers.close, ?_, ?_, ?_, by rintro ⟨⟩, .inr ⟨hdead, reply, _, hreply, rfl, ?_⟩⟩
        · rw [wsFrames_append, h.frames, List.append_nil]
          rfl
        · exact hpieces _ ▸ h.sublist
        · exact hpieces _ ▸ h.complete
        · exact fun hrunning => absurd rfl hrunning
        · rintro usage reason rfl
          rw [hpieces]
          exact truthful_lastEvent h hawaiting
      | false =>
        refine ⟨accepted, deltas, [], ?_, h.delivers.close, ?_, ?_, ?_, by rintro ⟨⟩, .inl rfl⟩
        · rw [wsFrames_append, h.frames]
          exact List.append_nil _
        · exact hpieces _ ▸ h.sublist
        · exact hpieces _ ▸ h.complete
        · exact fun hrunning => absurd rfl hrunning
    · cases hstep

theorem WsInvariant.run (hrun : Run WsSession.step .start tr session) :
    ∃ accepted deltas tail, WsInvariant tr session accepted deltas tail :=
  hrun.traceInvariant
    (P := fun tr session => ∃ accepted deltas tail, WsInvariant tr session accepted deltas tail)
    (fun ⟨_, _, _, h⟩ hstep => h.step hstep) ⟨[], [], [], wsInvariant_start⟩

/-- **A `done` frame is the last one and says what happened**: its reason is `cancelled` just
when a piece of the worker's is missing in front of it or the worker's own reason is, and
otherwise the frames in front of it are all pieces, in order. -/
theorem done_is_truthful (hrun : Run WsSession.step .start tr session)
    {finishReason : String} {promptTokens completionTokens : ℕ}
    (hdone : .done finishReason promptTokens completionTokens ∈ wsFrames tr) :
    ∃ deltas usage reason, session.reply = some (.sent (.ok (usage, reason))) ∧
      wsFrames tr = deltas.map .token ++ [.done finishReason promptTokens completionTokens] ∧
      deltas.Sublist (wsPieces tr) ∧
      (finishReason = "cancelled" ↔ deltas ≠ wsPieces tr ∨ reason = .cancelled) ∧
      (finishReason ≠ "cancelled" → finishReason = reason.asOpenaiStr) := by
  obtain ⟨accepted, deltas, tail, h⟩ := WsInvariant.run hrun
  have hdeltas : deltas.Sublist (wsPieces tr) := h.delivers.prefix_received.sublist.trans h.sublist
  rw [h.frames] at hdone ⊢
  have htail : .done finishReason promptTokens completionTokens ∈ tail := by
    rcases List.mem_append.mp hdone with htoken | htail
    · obtain ⟨delta, -, heq⟩ := List.mem_map.mp htoken
      cases heq
    · exact htail
  rcases h.ended with rfl | ⟨-, reply, cancelled, hreply, rfl, hlast⟩
  · cases htail
  have hlastEvent := List.mem_singleton.mp htail
  cases reply with
  | dropped => cases hlastEvent
  | sent result =>
    cases result with
    | error msg => cases hlastEvent
    | ok answer =>
      obtain ⟨usage, reason⟩ := answer
      obtain ⟨found, hfound, hiff, hall⟩ := (hlast usage reason rfl).frame
      obtain ⟨rfl, -, -⟩ := WsEvent.done.inj (hlastEvent.trans hfound)
      exact ⟨deltas, usage, reason, hreply, by rw [hlastEvent], hdeltas, hiff,
        fun hreason => (hall hreason).2⟩

end Frames

/-- Two pieces, with the reply before the second is forwarded. -/
def twoPieces : List (WsStep × Option WsEvent) :=
  [(.callback "to", none), (.forward true, some (.token "to")), (.callback "day", none),
   (.reply (.sent (.ok (⟨3, 2, 5⟩, .maxTokens))), none), (.forward true, some (.token "day")),
   (.dropCallback, none), (.drained, none), (.finish true, some (.done "length" 3 2))]

theorem done_is_truthful_two : ∃ session, Run WsSession.step .start twoPieces session ∧
    ∃ deltas usage reason, session.reply = some (.sent (.ok (usage, reason))) ∧
      wsFrames twoPieces = deltas.map .token ++ [.done "length" 3 2] ∧
      deltas.Sublist (wsPieces twoPieces) ∧
      ("length" = "cancelled" ↔ deltas ≠ wsPieces twoPieces ∨ reason = .cancelled) ∧
      ("length" ≠ "cancelled" → "length" = reason.asOpenaiStr) := by
  have hrun : Run WsSession.step .start twoPieces _ :=
    .cons rfl (.cons rfl (.cons rfl (.cons rfl (.cons rfl (.cons rfl (.cons rfl (.single rfl)))))))
  exact ⟨_, hrun, done_is_truthful hrun (by decide)⟩

end Server

end Oxillama
