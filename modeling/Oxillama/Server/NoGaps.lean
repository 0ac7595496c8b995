/-
A streamed chat completion without gaps.

* `StreamInvariant` — what the channel has accepted: the first chunk, a chunk for each piece that
  was let in, and the events of the task;
* `StreamInvariant.step` — every step keeps it;
* `stream_complete` — in every run, a finish reason other than `cancelled` and `error` comes
  after all pieces;
* `stream_has_no_gaps` — **if no piece finds room once an earlier one found none, the client
  gets a prefix of the pieces.**
-/
import Oxillama.Server.ChatStream

namespace Oxillama

namespace Server

/-! ### What a run has produced and delivered -/

/-- The pieces that the worker has passed to the callback. -/
def pieces (tr : List (StreamStep × Option Event)) : List String :=
  tr.filterMap fun e => match e.1 with
    | .callback tokenText => some tokenText
    | _ => none

/-- The events that the client has received. -/
def received (tr : List (StreamStep × Option Event)) : List Event := tr.filterMap (·.2)

/-- A finish reason that says that the text is complete. -/
def Complete (finishReason : String) : Prop :=
  finishReason ≠ "cancelled" ∧ finishReason ≠ "error"

/-- **What the client sees has no gaps**, and is everything once a complete finish is seen. -/
def NoGaps (tr : List (StreamStep × Option Event)) : Prop :=
  contents (received tr) <+: pieces tr ∧
    ((∃ reason ∈ finishReasons (received tr), Complete reason) →
      contents (received tr) = pieces tr)

/-- The guard of a step: a piece that follows a refused one is refused as well. -/
def KeepsOrder (stream : ChatStream) : StreamStep → Prop
  | .callback _ => stream.cancelled = true → ¬ stream.channel.HasRoom
  | _ => True

theorem contents_append (xs ys : List Event) :
    contents (xs ++ ys) = contents xs ++ contents ys := by
  rw [contents, List.flatMap_append, List.filterMap_append]
  rfl

theorem finishReasons_append (xs ys : List Event) :
    finishReasons (xs ++ ys) = finishReasons xs ++ finishReasons ys := by
  rw [finishReasons, List.flatMap_append, List.filterMap_append]
  rfl

variable {origin : Origin}

/-- The chunks of some pieces, behind the first chunk. -/
def chunks (origin : Origin) (sent : List String) : List Event :=
  origin.initialChunk :: sent.map origin.contentChunk

theorem contents_chunks (origin : Origin) (sent : List String) :
    contents (chunks origin sent) = sent := by
  have hmap : contents (sent.map origin.contentChunk) = sent := by
    induction sent with
    | nil => rfl
    | cons piece sent ih =>
      have hcons := contents_append [origin.contentChunk piece] (sent.map origin.contentChunk)
      rw [List.map_cons, ← List.singleton_append, hcons, ih]
      rfl
  have hcons := contents_append [origin.initialChunk] (sent.map origin.contentChunk)
  rw [chunks, ← List.singleton_append, hcons, hmap]
  rfl

theorem finishReasons_chunks (origin : Origin) (sent : List String) :
    finishReasons (chunks origin sent) = [] := by
  have hmap : finishReasons (sent.map origin.contentChunk) = [] := by
    induction sent with
    | nil => rfl
    | cons piece sent ih =>
      have hcons := finishReasons_append [origin.contentChunk piece] (sent.map origin.contentChunk)
      rw [List.map_cons, ← List.singleton_append, hcons, ih]
      rfl
  have hcons := finishReasons_append [origin.initialChunk] (sent.map origin.contentChunk)
  rw [chunks, ← List.singleton_append, hcons, hmap]
  rfl

/-! ### The invariant -/

/-- What the channel has accepted in a run, and how far the task is. -/
structure StreamInvariant (origin : Origin) (tr : List (StreamStep × Option Event))
    (stream : ChatStream) (sent : List String) (tail : List Event) : Prop where
  delivers : stream.channel.Delivers (chunks origin sent ++ tail) (received tr)
  /-- Nothing was refused before the stream was cancelled. -/
  all : stream.cancelled = false → sent = pieces tr
  tail_contents : contents tail = []
  /-- The task sends nothing while the worker generates. -/
  generating : stream.reply = none → stream.task = .awaitingReply
  awaiting : stream.task = .awaitingReply → tail = []
  sending : ∀ reason, stream.task = .sendingFinish reason → Complete reason →
    stream.cancelled = false
  complete : ∀ reason ∈ finishReasons tail, Complete reason → stream.cancelled = false

theorem complete_finishReason {reply : Reply} {cancelled : Bool}
    (h : Complete (finishReason reply cancelled)) : cancelled = false := by
  rcases cancelled with - | -
  · rfl
  · exfalso
    rcases reply with (e | reason) | -
    · exact h.1 rfl
    · exact h.1 rfl
    · exact h.1 rfl

theorem pieces_append (tr tr' : List (StreamStep × Option Event)) :
    pieces (tr ++ tr') = pieces tr ++ pieces tr' := List.filterMap_append

theorem received_append (tr tr' : List (StreamStep × Option Event)) :
    received (tr ++ tr') = received tr ++ received tr' := List.filterMap_append

namespace StreamInvariant

variable {tr : List (StreamStep × Option Event)} {stream stream' : ChatStream}
  {sent : List String} {tail : List Event}

/-- The stream starts with the first chunk. -/
theorem start (origin : Origin) : StreamInvariant origin [] (ChatStream.start origin) [] [] where
  delivers := ⟨List.prefix_rfl, fun _ => rfl⟩
  all _ := rfl
  tail_contents := rfl
  generating _ := rfl
  awaiting _ := rfl
  sending _ h := by contradiction
  complete _ h := by contradiction

/-- A step that is no callback and changes nothing of the channel. -/
theorem of_channel_eq (h : StreamInvariant origin tr stream sent tail) {i : StreamStep}
    (hpieces : pieces [(i, none)] = [])
    (hchannel : stream'.channel = stream.channel)
    (hcancelled : stream'.cancelled = stream.cancelled)
    (hgenerating : stream'.reply = none → stream'.task = .awaitingReply)
    (hawaiting : stream'.task = .awaitingReply → tail = [])
    (hsending : ∀ reason, stream'.task = .sendingFinish reason → Complete reason →
      stream.cancelled = false) :
    StreamInvariant origin (tr ++ [(i, none)]) stream' sent tail := by
  have hreceived : received (tr ++ [(i, none)]) = received tr := by
    rw [received_append]
    exact List.append_nil _
  have hpieces : pieces (tr ++ [(i, none)]) = pieces tr := by
    rw [pieces_append, hpieces, List.append_nil]
  constructor
  · rw [hchannel, hreceived]
    exact h.delivers
  · rw [hcancelled, hpieces]
    exact h.all
  · exact h.tail_contents
  · exact hgenerating
  · exact hawaiting
  · rw [hcancelled]
    exact hsending
  · rw [hcancelled]
    exact h.complete

/-- The callback, while the worker generates. -/
theorem callback (h : StreamInvariant origin tr stream sent tail) (hreply : stream.reply = none)
    (tokenText : String) :
    ∃ sent', StreamInvariant origin (tr ++ [(.callback tokenText, none)])
        (stream.callback origin tokenText) sent' tail ∧
      (sent <+: pieces tr → KeepsOrder stream (.callback tokenText) →
        sent' <+: pieces (tr ++ [(.callback tokenText, none)])) := by
  have hpieces : pieces (tr ++ [(.callback tokenText, none)]) = pieces tr ++ [tokenText] :=
    pieces_append _ _
  have hreceived : received (tr ++ [(.callback tokenText, none)]) = received tr := by
    rw [received_append]
    exact List.append_nil _
  have htask := h.generating hreply
  have htail := h.awaiting htask
  by_cases hroom : stream.channel.HasRoom
  · -- The piece is let in, and is the next one unless an earlier one was refused.
    have hsend := Channel.trySend_of_hasRoom hroom (origin.contentChunk tokenText)
    refine ⟨sent ++ [tokenText], ?_, ?_⟩
    · rw [ChatStream.callback, hsend]
      refine ⟨?_, ?_, h.tail_contents, h.generating, h.awaiting, h.sending, h.complete⟩
      · have hdelivers := h.delivers.trySend hsend
        rw [htail, List.append_nil] at hdelivers
        rw [hreceived, htail, List.append_nil, chunks, List.map_append]
        exact hdelivers
      · intro hcancelled
        rw [hpieces, h.all hcancelled]
    · intro _ hkeeps
      have hcancelled : stream.cancelled = false :=
        Bool.eq_false_iff.2 fun hcancelled => hkeeps hcancelled hroom
      simp only [hpieces, h.all hcancelled, List.prefix_rfl]
  · obtain ⟨e, hsend⟩ :=
      Channel.trySend_of_not_hasRoom hroom (origin.contentChunk tokenText)
    refine ⟨sent, ?_, ?_⟩
    · rw [ChatStream.callback, hsend]
      refine ⟨?_, ?_, h.tail_contents, h.generating, h.awaiting, ?_, ?_⟩
      · rw [hreceived]
        exact h.delivers
      · intro hcancelled
        contradiction
      · intro reason hsending
        rw [htask] at hsending
        contradiction
      · intro reason hmem
        rw [htail] at hmem
        contradiction
    · intro hinit _
      rw [hpieces]
      exact hinit.trans (List.prefix_append _ _)

/-- The task sends an event. -/
theorem sendAwait (h : StreamInvariant origin tr stream sent tail) {event : Event}
    {task : FinishTask} (hsend : stream.sendAwait event task = some stream')
    (hcontents : contents [event] = [])
    (hreasons : ∀ reason ∈ finishReasons [event], Complete reason → stream.cancelled = false)
    (hreply : stream.reply ≠ none) (htask : task ≠ .awaitingReply)
    (hsending : ∀ reason, task ≠ .sendingFinish reason) :
    ∃ tail', StreamInvariant origin (tr ++ [(.send, none)]) stream' sent tail' := by
  have hpieces : pieces (tr ++ [(.send, none)]) = pieces tr := by
    rw [pieces_append]
    exact List.append_nil _
  have hreceived : received (tr ++ [(.send, none)]) = received tr := by
    rw [received_append]
    exact List.append_nil _
  rcases hchannel : stream.channel.trySend event with (e | channel)
  · rw [ChatStream.sendAwait, hchannel] at hsend
    rcases e with - | -
    · contradiction
    · -- The receiver is gone, and the event with it.
      cases hsend
      exact ⟨tail, h.of_channel_eq rfl rfl rfl (fun hnone => absurd hnone hreply)
        (fun hawaiting => absurd hawaiting htask)
        (fun reason hreason => absurd hreason (hsending reason))⟩
  · rw [ChatStream.sendAwait, hchannel] at hsend
    cases hsend
    refine ⟨tail ++ [event], ?_, ?_, ?_, fun hnone => absurd hnone hreply,
      fun hawaiting => absurd hawaiting htask,
      fun reason hreason => absurd hreason (hsending reason), ?_⟩
    · rw [hreceived, ← List.append_assoc]
      exact h.delivers.trySend hchannel
    · rw [hpieces]
      exact h.all
    · rw [contents_append, h.tail_contents, hcontents, List.append_nil]
    · intro reason hmem
      rw [finishReasons_append] at hmem
      rcases List.mem_append.1 hmem with hmem | hmem
      · exact h.complete reason hmem
      · exact hreasons reason hmem

/-- **One step.**  What it lets in keeps the order if the step does. -/
theorem step (h : StreamInvariant origin tr stream sent tail) {i : StreamStep} {out : Option Event}
    (hs : ChatStream.step origin stream i = some (stream', out)) :
    ∃ sent' tail', StreamInvariant origin (tr ++ [(i, out)]) stream' sent' tail' ∧
      (sent <+: pieces tr → KeepsOrder stream i → sent' <+: pieces (tr ++ [(i, out)])) := by
  have hkeep (hpieces : pieces [(i, out)] = []) : sent <+: pieces tr → KeepsOrder stream i →
      sent <+: pieces (tr ++ [(i, out)]) := by
    intro hinit _
    rw [pieces_append, hpieces, List.append_nil]
    exact hinit
  rcases i with tokenText | reply | - | - | - | -
  · -- The worker's callback.
    rw [ChatStream.step] at hs
    rcases hreply : stream.reply with - | reply
    · rw [hreply] at hs
      cases hs
      obtain ⟨sent', hinv, hinit⟩ := h.callback hreply tokenText
      exact ⟨sent', tail, hinv, hinit⟩
    · rw [hreply] at hs
      contradiction
  · -- The worker's reply.
    rw [ChatStream.step] at hs
    rcases hreply : stream.reply with - | first
    · rw [hreply] at hs
      cases hs
      exact ⟨sent, tail, h.of_channel_eq rfl rfl rfl (fun hnone => by contradiction) h.awaiting
        h.sending, hkeep rfl⟩
    · rw [hreply] at hs
      contradiction
  · -- The task reads the reply and the cancellation token.
    rw [ChatStream.step] at hs
    rcases htask : stream.task with - | reason | - | -
    · rcases hreply : stream.reply with - | reply
      · rw [htask, hreply] at hs
        contradiction
      · rw [htask, hreply] at hs
        cases hs
        refine ⟨sent, tail, h.of_channel_eq rfl rfl rfl ?_ ?_ ?_, hkeep rfl⟩
        · intro hnone
          contradiction
        · intro hawaiting
          contradiction
        · intro reason hreason hcomplete
          cases hreason
          exact complete_finishReason hcomplete
    · rw [htask] at hs
      contradiction
    · rw [htask] at hs
      contradiction
    · rw [htask] at hs
      contradiction
  · -- The task sends.
    rw [ChatStream.step] at hs
    have hreply (htask : stream.task ≠ .awaitingReply) : stream.reply ≠ none :=
      fun hnone => htask (h.generating hnone)
    rcases htask : stream.task with - | reason | - | -
    · rw [htask] at hs
      contradiction
    · rw [htask] at hs
      obtain ⟨next, hnext, hpair⟩ := Option.map_eq_some_iff.1 hs
      cases hpair
      obtain ⟨tail', hinv⟩ := h.sendAwait hnext rfl
        (fun r hr hcomplete => by
          rw [List.mem_singleton.1 hr] at hcomplete
          exact h.sending reason htask hcomplete)
        (hreply (by rw [htask]; nofun)) (by nofun) (by nofun)
      exact ⟨sent, tail', hinv, hkeep rfl⟩
    · rw [htask] at hs
      obtain ⟨next, hnext, hpair⟩ := Option.map_eq_some_iff.1 hs
      cases hpair
      obtain ⟨tail', hinv⟩ := h.sendAwait hnext rfl (fun r hr => by contradiction)
        (hreply (by rw [htask]; nofun)) (by nofun) (by nofun)
      exact ⟨sent, tail', hinv, hkeep rfl⟩
    · rw [htask] at hs
      contradiction
  · -- The client takes an event.
    rw [ChatStream.step] at hs
    obtain ⟨⟨event, channel⟩, hrecv, hpair⟩ := Option.map_eq_some_iff.1 hs
    cases hpair
    have hpieces : pieces (tr ++ [(.take, some event)]) = pieces tr := by
      rw [pieces_append]
      exact List.append_nil _
    refine ⟨sent, tail, ⟨?_, ?_, h.tail_contents, h.generating, h.awaiting, h.sending, h.complete⟩,
      hkeep rfl⟩
    · rw [received_append]
      exact h.delivers.recv hrecv
    · rw [hpieces]
      exact h.all
  · -- The client disconnects.
    cases hs
    refine ⟨sent, tail, ⟨?_, ?_, h.tail_contents, h.generating, h.awaiting, h.sending, h.complete⟩,
      hkeep rfl⟩
    · rw [received_append, show received [(StreamStep.disconnect, none)] = [] from rfl,
        List.append_nil]
      exact h.delivers.close
    · rw [pieces_append, show pieces [(StreamStep.disconnect, none)] = [] from rfl,
        List.append_nil]
      exact h.all

/-- What a prefix of the accepted events says of the pieces. -/
theorem contents_received (h : StreamInvariant origin tr stream sent tail) :
    contents (received tr) <+: sent ∧
      ((∃ reason ∈ finishReasons (received tr), Complete reason) →
        contents (received tr) = sent ∧ stream.cancelled = false) := by
  obtain ⟨rest, hrest⟩ := h.delivers.prefix_received
  have hall : contents (received tr) ++ contents rest = sent := by
    rw [← contents_append, hrest, contents_append, contents_chunks, h.tail_contents,
      List.append_nil]
  refine ⟨⟨contents rest, hall⟩, ?_⟩
  rintro ⟨reason, hmem, hcomplete⟩
  -- An event with a finish reason is received after all chunks of pieces.
  rcases List.prefix_or_prefix_of_prefix h.delivers.prefix_received
    (List.prefix_append (chunks origin sent) tail) with hbefore | hafter
  · obtain ⟨more, hmore⟩ := hbefore
    have hnone := finishReasons_chunks origin sent
    rw [← hmore, finishReasons_append] at hnone
    rw [(List.append_eq_nil_iff.1 hnone).1] at hmem
    contradiction
  · obtain ⟨some, hsome⟩ := hafter
    rw [← hsome, List.append_assoc] at hrest
    have htail : some ++ rest = tail := List.append_cancel_left hrest
    have hreasons : finishReasons (received tr) = finishReasons some := by
      rw [← hsome, finishReasons_append, finishReasons_chunks, List.nil_append]
    have hsomeContents : contents some = [] := by
      have htailContents := h.tail_contents
      rw [← htail, contents_append] at htailContents
      exact (List.append_eq_nil_iff.1 htailContents).1
    constructor
    · rw [← hsome, contents_append, contents_chunks, hsomeContents, List.append_nil]
    · refine h.complete reason ?_ hcomplete
      rw [← htail, finishReasons_append]
      exact List.mem_append_left _ (hreasons ▸ hmem)

end StreamInvariant

/-! ### Runs -/

/-- **In every run**, a complete finish is seen after all pieces. -/
theorem stream_complete {tr : List (StreamStep × Option Event)} {stream : ChatStream}
    (hr : Run (ChatStream.step origin) (ChatStream.start origin) tr stream)
    (hfinish : ∃ reason ∈ finishReasons (received tr), Complete reason) :
    contents (received tr) = pieces tr := by
  let P (tr : List (StreamStep × Option Event)) (stream : ChatStream) : Prop :=
    ∃ sent tail, StreamInvariant origin tr stream sent tail
  have hstart : P [] (.start origin) := ⟨[], [], .start origin⟩
  have hinv : P ([] ++ tr) stream := by
    refine hr.traceInvariant ?_ hstart
    rintro tr s i s' out ⟨sent, tail, hinv⟩ hs
    obtain ⟨sent', tail', hinv', -⟩ := hinv.step hs
    exact ⟨sent', tail', hinv'⟩
  obtain ⟨sent, tail, hinv⟩ := hinv
  rw [List.nil_append] at hinv
  obtain ⟨hall, hcancelled⟩ := hinv.contents_received.2 hfinish
  rw [hall, hinv.all hcancelled]

/-- **A stream in which a refused piece is followed by refused pieces only has no gaps.** -/
theorem stream_has_no_gaps (origin : Origin) (tr : List (StreamStep × Option Event))
    (stream : ChatStream) (hr : Run (ChatStream.step origin) (ChatStream.start origin) tr stream)
    (hmeet : StepsMeet (ChatStream.step origin) KeepsOrder (ChatStream.start origin)
      (tr.map Prod.fst)) : NoGaps tr := by
  let P (tr : List (StreamStep × Option Event)) (stream : ChatStream) : Prop :=
    ∃ sent tail, StreamInvariant origin tr stream sent tail ∧ sent <+: pieces tr
  have hstart : P [] (.start origin) := ⟨[], [], .start origin, List.prefix_rfl⟩
  have hinv : P ([] ++ tr) stream := by
    refine hr.traceInvariant_of_stepsMeet ?_ hmeet hstart
    rintro tr s i s' out ⟨sent, tail, hinv, hinit⟩ hkeeps hs
    obtain ⟨sent', tail', hinv', hinit'⟩ := hinv.step hs
    exact ⟨sent', tail', hinv', hinit' hinit hkeeps⟩
  obtain ⟨sent, tail, hinv, hinit⟩ := hinv
  rw [List.nil_append] at hinv hinit
  exact ⟨hinv.contents_received.1.trans hinit, stream_complete hr⟩

/-- A request. -/
def exampleOrigin : Origin := ⟨"chatcmpl-0", 0, "model"⟩

/-- A whole stream of one piece. -/
def shortTrace : List (StreamStep × Option Event) :=
  [(.callback "a", none), (.reply (.sent (.ok .eos)), none), (.awaitReply, none), (.send, none),
    (.send, none), (.take, some exampleOrigin.initialChunk),
    (.take, some (exampleOrigin.contentChunk "a")),
    (.take, some (exampleOrigin.finishChunk "stop")),
    (.take, some .done)]

theorem stream_has_no_gaps_short :
    finishReasons (received shortTrace) = ["stop"] ∧ NoGaps shortTrace := by
  have hr : ∃ stream, Run (ChatStream.step exampleOrigin) (ChatStream.start exampleOrigin)
      shortTrace stream :=
    ⟨_, .cons rfl (.cons rfl (.cons rfl (.cons rfl (.cons rfl (.cons rfl (.cons rfl
      (.cons rfl (.cons rfl (.nil _)))))))))⟩
  obtain ⟨stream, hr⟩ := hr
  refine ⟨rfl, stream_has_no_gaps exampleOrigin shortTrace stream hr ?_⟩
  exact .cons rfl (fun h => absurd h (by decide)) (.cons rfl trivial (.cons rfl trivial
    (.cons rfl trivial (.cons rfl trivial (.cons rfl trivial (.cons rfl trivial
      (.cons rfl trivial (.cons rfl trivial trivial))))))))

/-- A reader that starts late: the thirty-second piece finds the channel full, the
thirty-third does not. -/
def gapRun : List StreamStep :=
  List.replicate 31 (.callback "a") ++ [.callback "b", .take, .callback "c"] ++
    List.replicate 32 .take

/-- The client misses a piece and gets the one behind it. -/
theorem not_noGaps_gapRun : ∃ tr stream,
    Run (ChatStream.step exampleOrigin) (ChatStream.start exampleOrigin) tr stream ∧
      ¬ NoGaps tr := by
  have hgap : ∀ r ∈ runInputs (ChatStream.step exampleOrigin)
      (ChatStream.start exampleOrigin) gapRun,
      ¬ contents (received r.1) <+: pieces r.1 := by decide
  rcases hfeed : runInputs (ChatStream.step exampleOrigin) (ChatStream.start exampleOrigin) gapRun
    with - | ⟨tr, stream⟩
  · exact absurd hfeed (by decide)
  · exact ⟨tr, stream, run_of_runInputs hfeed, fun h => hgap _ hfeed h.1⟩

end Server

end Oxillama
