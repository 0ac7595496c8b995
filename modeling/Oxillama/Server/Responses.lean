/-
The Responses API (`oxillama-server/src/responses_store.rs`, `routes/responses.rs`).

A call of `create_response` reads the response that it continues, stores a record of its own,
hands the prompt to the worker and stores the output when the worker has replied.  Calls
overlap, and a step is what one of them does between two waits or two locks of the store.

* `continues_finished` — **a conversation is carried on as it is stored**: the record of a
  request that continues a finished response has that response's input, its output as a turn
  of the assistant and the request's own messages, and the finished response never changes;
* `answers_own_record` — **whatever else runs, a call is answered with its own record** and
  the text that the worker sent to it, and this is what stays stored.

What the worker replies is an input of the step.
-/
import Mathlib
import Oxillama.Lib.Channel
import Oxillama.Lib.Run
import Oxillama.Runtime.ChatTemplate
import Oxillama.Schema.Value

namespace Oxillama

namespace Server

namespace Responses

open Oxillama.Runtime (ChatTemplate Turn)
open Schema (Value)

/-! ### The store -/

/-- `ResponseStatus`. -/
inductive ResponseStatus
  | inProgress
  | completed
  | failed
  | cancelled
deriving DecidableEq

/-- `ResponseRecord`, without the constant `object`. -/
structure ResponseRecord where
  id : String
  createdAt : ℕ
  model : String
  status : ResponseStatus
  input : List Value
  output : Option String
  previousResponseId : Option String
  instructions : Option String
  tools : List Value

/-- `ResponseStore`. -/
abbrev ResponseStore := AList fun _ : String => ResponseRecord

namespace ResponseStore

/-- `ResponseStore::create`. -/
def create (store : ResponseStore) (record : ResponseRecord) : ResponseStore :=
  store.insert record.id record

/-- `ResponseStore::get`; `none` is `ResponseNotFound`. -/
def get (store : ResponseStore) (id : String) : Option ResponseRecord := store.lookup id

/-- `ResponseStore::update_output`; `none` is `ResponseNotFound`. -/
def updateOutput (store : ResponseStore) (id output : String) (status : ResponseStatus) :
    Option ResponseStore :=
  (store.lookup id).map fun record =>
    store.insert id { record with output := some output, status := status }

end ResponseStore

/-! ### Requests -/

/-- `ResponseInput`. -/
inductive ResponseInput
  | text (text : String)
  | messages (msgs : List Value)

/-- `CreateResponseRequest`, without the temperature. -/
structure CreateResponseRequest where
  model : Option String
  input : ResponseInput
  instructions : Option String
  previousResponseId : Option String
  stream : Option Bool
  tools : Option (List Value)
  maxOutputTokens : Option ℕ

/-- `input_to_messages`. -/
def inputToMessages : ResponseInput → List Value
  | .text text => [.object [("role", .string "user"), ("content", .string text)]]
  | .messages msgs => msgs

/-- The turn that a previous output becomes. -/
def assistantTurn (output : String) : Value :=
  .object [("role", .string "assistant"), ("content", .string output)]

/-- `msg[key]`. -/
def index (msg : Value) (key : String) : Value :=
  (msg.asObject.bind fun members => members.get key).getD .null

/-- The turn of a message. -/
def turnOf (msg : Value) : Turn :=
  let role := (index msg "role").asStr.getD "user"
  ⟨(if role ∈ ["system", "assistant", "tool", "user"] then role else "user").toList,
    ((index msg "content").asStr.getD "").toList⟩

/-- `format_prompt`. -/
def formatPrompt (messages : List Value) (instructions : Option String)
    (template : ChatTemplate) : Text :=
  let system := instructions.map fun sys => (⟨"system".toList, sys.toList⟩ : Turn)
  template.render (system.toList ++ messages.map turnOf) true

/-- What the handlers use of `AppState`. -/
structure App where
  modelId : String
  chatTemplate : ChatTemplate

/-- The errors of the handlers. -/
inductive ResponsesError
  | responseNotFound (id : String)
  | previousResponseNotFound (id : String)
  | queueFull
  | workerDead
  | invalidRequest (message : String)
deriving DecidableEq

/-- The messages of a request, behind those of the response that it continues. -/
def resolveInput (store : ResponseStore) (request : CreateResponseRequest) :
    Except ResponsesError (List Value) :=
  let inputMessages := inputToMessages request.input
  match request.previousResponseId with
  | none => .ok inputMessages
  | some prevId =>
    match store.get prevId with
    | none => .error (.previousResponseNotFound prevId)
    | some prev => .ok (prev.input ++ (prev.output.map assistantTurn).toList ++ inputMessages)

/-- `ResponseRecord::new_in_progress`, as `create_response` calls it. -/
def newInProgress (app : App) (request : CreateResponseRequest) (messages : List Value)
    (id : String) (now : ℕ) : ResponseRecord where
  id := id
  createdAt := now
  model := request.model.getD app.modelId
  status := .inProgress
  input := messages
  output := none
  previousResponseId := request.previousResponseId
  instructions := request.instructions
  tools := request.tools.getD []

/-- What `BatchRequest::Generate` and `GenerateStream` say of the prompt. -/
structure BatchRequest where
  prompt : Text
  maxTokens : ℕ

/-- The request that goes to the worker. -/
def batchRequest (app : App) (request : CreateResponseRequest) (messages : List Value) :
    BatchRequest :=
  ⟨formatPrompt messages request.instructions app.chatTemplate, request.maxOutputTokens.getD 256⟩

/-- `final_status` of a stream; `none` is a reply that nobody will send. -/
def finalStatus (reply : Option (Except String Unit)) (cancelled : Bool) : ResponseStatus :=
  match reply with
  | some (.ok _) => if cancelled then .cancelled else .completed
  | _ => if cancelled then .cancelled else .failed

/-! ### Calls -/

/-- Where a call of `create_response` is. -/
inductive ResponseCall
  /-- The response that it continues was read. -/
  | resolved (request : CreateResponseRequest) (messages : List Value)
  /-- It waits for the worker. -/
  | generating (id : String)
  /-- The task behind a stream waits for the worker. -/
  | streaming (id : String)
  /-- The output is stored, and the record is yet to be read for the answer. -/
  | stored (id : String)
  | ended

/-- The store and all calls that there were. -/
structure ResponsesState where
  store : ResponseStore
  calls : List ResponseCall

/-- What happens. -/
inductive ResponsesInput
  | request (request : CreateResponseRequest)
  /-- A call stores its record under a new identifier, and tries to queue its request. -/
  | create (i : ℕ) (id : String) (now : ℕ) (sent : Except TrySendError Unit)
  /-- The worker's reply to a call arrives; `none` says that there will be none. -/
  | generated (i : ℕ) (reply : Option (Except String String))
  | streamed (i : ℕ) (reply : Option (Except String Unit)) (cancelled : Bool)
  | answer (i : ℕ)
  /-- The client of a call that waits goes away. -/
  | disconnect (i : ℕ)
  /-- `get_response`. -/
  | get (id : String)

/-- What comes of it. -/
inductive ResponsesOutput
  | resolved
  | failed (e : ResponsesError)
  | created (record : ResponseRecord) (sent : Except ResponsesError BatchRequest)
  | updated (id : String) (status : ResponseStatus)
  | answered (record : ResponseRecord)
  | gone

namespace ResponsesState

/-- Nothing is stored. -/
def start : ResponsesState := ⟨∅, []⟩

/-- A call moves on. -/
def setCall (s : ResponsesState) (i : ℕ) (call : ResponseCall) : ResponsesState :=
  { s with calls := s.calls.set i call }

/-- How a refusal of the queue is answered. -/
def sendError : TrySendError → ResponsesError
  | .full => .queueFull
  | .closed => .workerDead

/-- One step; `none` is what a call cannot do where it is. -/
def step (app : App) (s : ResponsesState) :
    ResponsesInput → Option (ResponsesState × ResponsesOutput)
  | .request request =>
    match resolveInput s.store request with
    | .error e => some (s, .failed e)
    | .ok messages => some ({ s with calls := s.calls ++ [.resolved request messages] }, .resolved)
  | .create i id now sent =>
    match s.calls[i]? with
    | some (.resolved request messages) =>
      let record := newInProgress app request messages id now
      let stored := { s with store := s.store.create record }
      match sent with
      | .error e => some (stored.setCall i .ended, .created record (.error (sendError e)))
      | .ok _ =>
        let call := if request.stream.getD false then .streaming id else .generating id
        some (stored.setCall i call, .created record (.ok (batchRequest app request messages)))
    | _ => none
  | .generated i reply =>
    match s.calls[i]? with
    | some (.generating id) =>
      match reply with
      | some (.ok generated) =>
        match s.store.updateOutput id generated .completed with
        | some store =>
          some ({ s with store := store }.setCall i (.stored id), .updated id .completed)
        | none => some (s.setCall i .ended, .failed (.responseNotFound id))
      | some (.error e) => some (s.setCall i .ended, .failed (.invalidRequest e))
      | none => some (s.setCall i .ended, .failed .workerDead)
    | _ => none
  | .streamed i reply cancelled =>
    match s.calls[i]? with
    | some (.streaming id) =>
      let status := finalStatus reply cancelled
      -- the text is not captured, and an error of the update is ignored
      let store := (s.store.updateOutput id "" status).getD s.store
      some ({ s with store := store }.setCall i .ended, .updated id status)
    | _ => none
  | .answer i =>
    match s.calls[i]? with
    | some (.stored id) =>
      match s.store.get id with
      | some record => some (s.setCall i .ended, .answered record)
      | none => some (s.setCall i .ended, .failed (.responseNotFound id))
    | _ => none
  | .disconnect i =>
    match s.calls[i]? with
    | some (.generating _) => some (s.setCall i .ended, .gone)
    | _ => none
  | .get id =>
    match s.store.get id with
    | some record => some (s, .answered record)
    | none => some (s, .failed (.responseNotFound id))

end ResponsesState

/-- The identifiers that are drawn are new. -/
def Fresh (s : ResponsesState) : ResponsesInput → Prop
  | .create _ id _ _ => id ∉ s.store
  | _ => True

instance decidableFresh (s : ResponsesState) : ∀ input, Decidable (Fresh s input)
  | .create _ id _ _ => inferInstanceAs (Decidable (id ∉ s.store))
  | .request _ | .generated _ _ | .streamed _ _ _ | .answer _ | .disconnect _ | .get _ =>
    inferInstanceAs (Decidable True)

/-! ### What a step does -/

/-- A record with its output. -/
def ResponseRecord.finish (record : ResponseRecord) (output : String) (status : ResponseStatus) :
    ResponseRecord :=
  { record with output := some output, status := status }

/-- The record that a call waits to finish. -/
def ResponseCall.pending : ResponseCall → Option String
  | .generating id | .streaming id => some id
  | _ => none

section Steps

variable {app : App} {s s' : ResponsesState} {input : ResponsesInput} {out : ResponsesOutput}

/-- What a step does, apart from how it is answered where nothing is stored or returned. -/
inductive Moves (app : App) (s : ResponsesState) :
    ResponsesInput → ResponsesState → ResponsesOutput → Prop
  /-- Nothing changes. -/
  | still {input : ResponsesInput} {out : ResponsesOutput} (hcreate : ∀ i id now sent,
      input ≠ .create i id now sent) (hanswer : ∀ i, input ≠ .answer i) : Moves app s input s out
  | resolved {request : CreateResponseRequest} {messages : List Value}
      (h : resolveInput s.store request = .ok messages) :
      Moves app s (.request request)
        { s with calls := s.calls ++ [.resolved request messages] } .resolved
  | created {i : ℕ} {id : String} {now : ℕ} {sent : Except TrySendError Unit}
      {request : CreateResponseRequest} {messages : List Value} {call : ResponseCall}
      {dispatched : Except ResponsesError BatchRequest}
      (h : s.calls[i]? = some (.resolved request messages))
      (hcall : call = .ended ∨ (call = .generating id ∨ call = .streaming id) ∧
        dispatched = .ok (batchRequest app request messages)) :
      Moves app s (.create i id now sent)
        ⟨s.store.create (newInProgress app request messages id now), s.calls.set i call⟩
        (.created (newInProgress app request messages id now) dispatched)
  | generated {i : ℕ} {id text : String} {record : ResponseRecord}
      (h : s.calls[i]? = some (.generating id)) (hrecord : s.store.lookup id = some record) :
      Moves app s (.generated i (some (.ok text)))
        ⟨s.store.insert id (record.finish text .completed), s.calls.set i (.stored id)⟩
        (.updated id .completed)
  | streamed {i : ℕ} {id : String} {record : ResponseRecord} {status : ResponseStatus}
      {reply : Option (Except String Unit)} {cancelled : Bool}
      (h : s.calls[i]? = some (.streaming id)) (hrecord : s.store.lookup id = some record)
      (hstatus : status ≠ .inProgress) :
      Moves app s (.streamed i reply cancelled)
        ⟨s.store.insert id (record.finish "" status), s.calls.set i .ended⟩ (.updated id status)
  | answered {i : ℕ} {id : String} {record : ResponseRecord}
      (h : s.calls[i]? = some (.stored id)) (hrecord : s.store.lookup id = some record) :
      Moves app s (.answer i) (s.setCall i .ended) (.answered record)
  /-- A call is given up. -/
  | stopped {input : ResponsesInput} {i : ℕ} {out : ResponsesOutput}
      (hcreate : ∀ i id now sent, input ≠ .create i id now sent)
      (hanswer : ∀ i, input ≠ .answer i) :
      Moves app s input (s.setCall i .ended) out
  /-- The record that is to be answered is not there. -/
  | lost {i : ℕ} {id : String} {out : ResponsesOutput} (h : s.calls[i]? = some (.stored id))
      (hrecord : s.store.lookup id = none) :
      Moves app s (.answer i) (s.setCall i .ended) out

theorem finalStatus_ne (reply : Option (Except String Unit)) (cancelled : Bool) :
    finalStatus reply cancelled ≠ .inProgress := by
  cases cancelled <;> rcases reply with _ | _ | _ <;> simp [finalStatus]

/-- **What a step does.** -/
theorem moves_of_step (h : s.step app input = some (s', out)) : Moves app s input s' out := by
  cases input with
  | request request =>
    simp only [ResponsesState.step] at h
    split at h
    · obtain ⟨rfl, rfl⟩ := Prod.mk.inj (Option.some.inj h)
      exact .still (by simp) (by simp)
    · rename_i messages hmessages
      obtain ⟨rfl, rfl⟩ := Prod.mk.inj (Option.some.inj h)
      exact .resolved hmessages
  | create i id now sent =>
    simp only [ResponsesState.step] at h
    split at h
    · rename_i request messages hcall
      split at h
      · obtain ⟨rfl, rfl⟩ := Prod.mk.inj (Option.some.inj h)
        exact .created hcall (.inl rfl)
      · obtain ⟨rfl, rfl⟩ := Prod.mk.inj (Option.some.inj h)
        refine .created hcall (.inr ⟨?_, rfl⟩)
        split
        · exact .inr rfl
        · exact .inl rfl
    · cases h
  | generated i reply =>
    simp only [ResponsesState.step] at h
    split at h
    · rename_i id hcall
      split at h
      · rename_i text
        rw [ResponseStore.updateOutput] at h
        cases hrecord : s.store.lookup id with
        | none =>
          rw [hrecord] at h
          obtain ⟨rfl, rfl⟩ := Prod.mk.inj (Option.some.inj h)
          exact .stopped (by simp) (by simp)
        | some record =>
          rw [hrecord] at h
          obtain ⟨rfl, rfl⟩ := Prod.mk.inj (Option.some.inj h)
          exact .generated hcall hrecord
      · obtain ⟨rfl, rfl⟩ := Prod.mk.inj (Option.some.inj h)
        exact .stopped (by simp) (by simp)
      · obtain ⟨rfl, rfl⟩ := Prod.mk.inj (Option.some.inj h)
        exact .stopped (by simp) (by simp)
    · cases h
  | streamed i reply cancelled =>
    simp only [ResponsesState.step] at h
    split at h
    · rename_i id hcall
      rw [ResponseStore.updateOutput] at h
      cases hrecord : s.store.lookup id with
      | none =>
        rw [hrecord] at h
        obtain ⟨rfl, rfl⟩ := Prod.mk.inj (Option.some.inj h)
        exact .stopped (by simp) (by simp)
      | some record =>
        rw [hrecord] at h
        obtain ⟨rfl, rfl⟩ := Prod.mk.inj (Option.some.inj h)
        exact .streamed hcall hrecord (finalStatus_ne reply cancelled)
    · cases h
  | answer i =>
    simp only [ResponsesState.step] at h
    split at h
    · rename_i id hcall
      rw [ResponseStore.get] at h
      cases hrecord : s.store.lookup id with
      | none =>
        rw [hrecord] at h
        obtain ⟨rfl, rfl⟩ := Prod.mk.inj (Option.some.inj h)
        exact .lost hcall hrecord
      | some record =>
        rw [hrecord] at h
        obtain ⟨rfl, rfl⟩ := Prod.mk.inj (Option.some.inj h)
        exact .answered hcall hrecord
    · cases h
  | disconnect i =>
    simp only [ResponsesState.step] at h
    split at h
    · obtain ⟨rfl, rfl⟩ := Prod.mk.inj (Option.some.inj h)
      exact .stopped (by simp) (by simp)
    · cases h
  | get id =>
    simp only [ResponsesState.step] at h
    split at h
    · obtain ⟨rfl, rfl⟩ := Prod.mk.inj (Option.some.inj h)
      exact .still (by simp) (by simp)
    · obtain ⟨rfl, rfl⟩ := Prod.mk.inj (Option.some.inj h)
      exact .still (by simp) (by simp)

/-! ### What every state keeps -/

/-- What holds in every state that is reached. -/
structure Consistent (s : ResponsesState) : Prop where
  /-- A record has an output just when it is finished. -/
  output : ∀ {id : String} {record : ResponseRecord}, s.store.lookup id = some record →
    (record.status = .inProgress ↔ record.output = none)
  /-- A call that waits has a record that is not finished. -/
  waiting : ∀ {i : ℕ} {call : ResponseCall} {id : String}, s.calls[i]? = some call →
    call.pending = some id → ∃ record, s.store.lookup id = some record ∧ record.status = .inProgress
  /-- No two calls wait for one record. -/
  own : ∀ {i j : ℕ} {call call' : ResponseCall} {id : String}, s.calls[i]? = some call →
    s.calls[j]? = some call' → call.pending = some id → call'.pending = some id → i = j

theorem consistent_start : Consistent .start where
  output h := by cases h
  waiting h := by cases h
  own h := by cases h

theorem getElem?_set_cases {α : Type} {l : List α} {i j : ℕ} {a b : α}
    (h : (l.set i a)[j]? = some b) : (j = i ∧ b = a) ∨ (j ≠ i ∧ l[j]? = some b) := by
  by_cases hij : j = i
  · subst hij
    rw [List.getElem?_set_self'] at h
    cases hl : l[j]? with
    | none =>
      rw [hl] at h
      cases h
    | some c =>
      rw [hl] at h
      exact .inl ⟨rfl, (Option.some.inj h).symm⟩
  · rw [List.getElem?_set_ne (Ne.symm hij)] at h
    exact .inr ⟨hij, h⟩

theorem getElem?_append_cases {α : Type} {l : List α} {j : ℕ} {a b : α}
    (h : (l ++ [a])[j]? = some b) : (j = l.length ∧ b = a) ∨ l[j]? = some b := by
  rcases Nat.lt_trichotomy j l.length with hlt | rfl | hgt
  · rw [List.getElem?_append_left hlt] at h
    exact .inr h
  · rw [List.getElem?_concat_length] at h
    exact .inl ⟨rfl, (Option.some.inj h).symm⟩
  · rw [List.getElem?_eq_none (by simp; omega)] at h
    cases h

/-- A call that waits for nothing any more. -/
theorem Consistent.setCall (hs : Consistent s) (i : ℕ) {call : ResponseCall}
    (hquiet : call.pending = none) : Consistent (s.setCall i call) where
  output := hs.output
  waiting {j call' id} hcall hid := by
    rcases getElem?_set_cases hcall with ⟨-, rfl⟩ | ⟨-, hcall⟩
    · rw [hquiet] at hid
      cases hid
    · exact hs.waiting hcall hid
  own {j k call' call'' id} hj hk hjid hkid := by
    rcases getElem?_set_cases hj with ⟨-, rfl⟩ | ⟨-, hj⟩
    · rw [hquiet] at hjid
      cases hjid
    rcases getElem?_set_cases hk with ⟨-, rfl⟩ | ⟨-, hk⟩
    · rw [hquiet] at hkid
      cases hkid
    exact hs.own hj hk hjid hkid

/-- A new record, and a call that may wait for it. -/
theorem Consistent.create (hs : Consistent s) {i : ℕ} {id : String} {record : ResponseRecord}
    {call : ResponseCall} (hnew : id ∉ s.store) (hoff : record.output = none)
    (hstatus : record.status = .inProgress)
    (hcall : ∀ other, call.pending = some other → other = id) :
    Consistent ⟨s.store.insert id record, s.calls.set i call⟩ where
  output {other found} hlookup := by
    by_cases hsame : other = id
    · subst hsame
      rw [AList.lookup_insert] at hlookup
      obtain rfl := Option.some.inj hlookup
      exact iff_of_true hstatus hoff
    · rw [AList.lookup_insert_ne hsame] at hlookup
      exact hs.output hlookup
  waiting {j call' other} hj hother := by
    rcases getElem?_set_cases hj with ⟨-, rfl⟩ | ⟨-, hj⟩
    · obtain rfl := hcall other hother
      exact ⟨record, AList.lookup_insert _, hstatus⟩
    · obtain ⟨found, hfound, hprogress⟩ := hs.waiting hj hother
      have hne : other ≠ id := by
        rintro rfl
        exact hnew (AList.lookup_isSome.mp (hfound ▸ rfl))
      exact ⟨found, (AList.lookup_insert_ne hne).trans hfound, hprogress⟩
  own {j k call' call'' other} hj hk hjid hkid := by
    -- a call that waited before has a record, and the new one has none
    have hold : ∀ {l : ℕ} {c : ResponseCall}, s.calls[l]? = some c → c.pending ≠ some id := by
      intro l c hl hid
      obtain ⟨found, hfound, -⟩ := hs.waiting hl hid
      exact hnew (AList.lookup_isSome.mp (hfound ▸ rfl))
    rcases getElem?_set_cases hj with ⟨hji, rfl⟩ | ⟨-, hjold⟩
    · obtain rfl := hcall other hjid
      rcases getElem?_set_cases hk with ⟨hki, -⟩ | ⟨-, hkold⟩
      · exact hji.trans hki.symm
      · exact absurd hkid (hold hkold)
    · rcases getElem?_set_cases hk with ⟨-, rfl⟩ | ⟨-, hkold⟩
      · obtain rfl := hcall other hkid
        exact absurd hjid (hold hjold)
      · exact hs.own hjold hkold hjid hkid

/-- A record is finished, and its call waits no more. -/
theorem Consistent.finish (hs : Consistent s) {i : ℕ} {id text : String} {record : ResponseRecord}
    {call call' : ResponseCall} {status : ResponseStatus} (hi : s.calls[i]? = some call)
    (hid : call.pending = some id) (hstatus : status ≠ .inProgress)
    (hquiet : call'.pending = none) :
    Consistent ⟨s.store.insert id (record.finish text status), s.calls.set i call'⟩ where
  output {other found} hlookup := by
    by_cases hsame : other = id
    · subst hsame
      rw [AList.lookup_insert] at hlookup
      obtain rfl := Option.some.inj hlookup
      exact iff_of_false hstatus (by rintro ⟨⟩)
    · rw [AList.lookup_insert_ne hsame] at hlookup
      exact hs.output hlookup
  waiting {j call'' other} hj hother := by
    rcases getElem?_set_cases hj with ⟨-, rfl⟩ | ⟨hne, hold⟩
    · rw [hquiet] at hother
      cases hother
    · obtain ⟨found, hfound, hprogress⟩ := hs.waiting hold hother
      have hne : other ≠ id := by
        rintro rfl
        exact hne (hs.own hold hi hother hid)
      exact ⟨found, (AList.lookup_insert_ne hne).trans hfound, hprogress⟩
  own := (hs.setCall i hquiet).own

theorem Moves.consistent (h : Moves app s input s' out) (hfresh : Fresh s input)
    (hs : Consistent s) : Consistent s' := by
  cases h with
  | still hcreate hanswer => exact hs
  | @resolved request messages h =>
    have hold : ∀ {j : ℕ} {call : ResponseCall} {id : String},
        (s.calls ++ [.resolved request messages])[j]? = some call → call.pending = some id →
          s.calls[j]? = some call := by
      intro j call id hj hid
      rcases getElem?_append_cases hj with ⟨-, rfl⟩ | hj
      · cases hid
      · exact hj
    exact ⟨hs.output, fun hj hid => hs.waiting (hold hj hid) hid,
      fun hj hk hjid hkid => hs.own (hold hj hjid) (hold hk hkid) hjid hkid⟩
  | created h hcall =>
    refine hs.create hfresh rfl rfl fun other hother => ?_
    rcases hcall with rfl | ⟨rfl | rfl, -⟩
    · cases hother
    · exact (Option.some.inj hother).symm
    · exact (Option.some.inj hother).symm
  | generated h hrecord => exact hs.finish h rfl (by simp) rfl
  | streamed h hrecord hstatus => exact hs.finish h rfl hstatus rfl
  | answered h hrecord => exact hs.setCall _ rfl
  | stopped hcreate hanswer => exact hs.setCall _ rfl
  | lost h hrecord => exact hs.setCall _ rfl

/-! ### What becomes of a record -/

/-- What a later store still has of a record: all but the output and the status, and those as
well once the record is finished. -/
def Keeps (s s' : ResponsesState) : Prop :=
  ∀ {id : String} {record : ResponseRecord}, s.store.lookup id = some record →
    ∃ record', s'.store.lookup id = some record' ∧
      { record' with output := record.output, status := record.status } = record ∧
      (record.status ≠ .inProgress → record' = record)

theorem Keeps.refl (s : ResponsesState) : Keeps s s :=
  fun h => ⟨_, h, rfl, fun _ => rfl⟩

theorem Keeps.trans {s₁ s₂ s₃ : ResponsesState} (h : Keeps s₁ s₂) (h' : Keeps s₂ s₃) :
    Keeps s₁ s₃ := by
  intro id record hrecord
  obtain ⟨record₂, hrecord₂, hframe, hsame⟩ := h hrecord
  obtain ⟨record₃, hrecord₃, hframe', hsame'⟩ := h' hrecord₂
  have hthird := congrArg (fun found : ResponseRecord =>
    { found with output := record.output, status := record.status }) hframe'
  refine ⟨record₃, hrecord₃, hthird.trans hframe, fun hfinished => ?_⟩
  obtain rfl := hsame hfinished
  exact hsame' hfinished

/-- A record that is finished was in progress. -/
theorem keeps_finish (hs : Consistent s) {i : ℕ} {id text : String} {record : ResponseRecord}
    {call : ResponseCall} {calls : List ResponseCall} {status : ResponseStatus}
    (hi : s.calls[i]? = some call) (hid : call.pending = some id)
    (hrecord : s.store.lookup id = some record) :
    Keeps s ⟨s.store.insert id (record.finish text status), calls⟩ := by
  intro other found hfound
  by_cases hsame : other = id
  · subst hsame
    obtain rfl := Option.some.inj (hrecord.symm.trans hfound)
    obtain ⟨waiting, hwaiting, hprogress⟩ := hs.waiting hi hid
    obtain rfl := Option.some.inj (hwaiting.symm.trans hrecord)
    exact ⟨_, AList.lookup_insert _, rfl, fun hfinished => absurd hprogress hfinished⟩
  · exact ⟨found, (AList.lookup_insert_ne hsame).trans hfound, rfl, fun _ => rfl⟩

theorem Moves.keeps (h : Moves app s input s' out) (hfresh : Fresh s input)
    (hs : Consistent s) : Keeps s s' := by
  cases h with
  | created h hcall =>
    intro other found hfound
    refine ⟨found, (AList.lookup_insert_ne ?_).trans hfound, rfl, fun _ => rfl⟩
    rintro rfl
    exact hfresh (AList.lookup_isSome.mp (hfound ▸ rfl))
  | generated h hrecord => exact keeps_finish hs h rfl hrecord
  | streamed h hrecord hstatus => exact keeps_finish hs h rfl hrecord
  | still hcreate hanswer => exact Keeps.refl s
  | resolved h => exact fun h => ⟨_, h, rfl, fun _ => rfl⟩
  | answered h hrecord => exact fun h => ⟨_, h, rfl, fun _ => rfl⟩
  | stopped hcreate hanswer => exact fun h => ⟨_, h, rfl, fun _ => rfl⟩
  | lost h hrecord => exact fun h => ⟨_, h, rfl, fun _ => rfl⟩

/-- A record that a call goes on to wait for is as it was. -/
theorem Moves.same_of_pending (h : Moves app s input s' out) (hfresh : Fresh s input)
    (hs : Consistent s) {j : ℕ} {call : ResponseCall} {id : String} {record : ResponseRecord}
    (hj : s.calls[j]? = some call) (hid : call.pending = some id)
    (hj' : s'.calls[j]? = some call) (hrecord : s.store.lookup id = some record) :
    s'.store.lookup id = some record := by
  have hother : ∀ {i : ℕ} {other : String} {call₁ call₂ : ResponseCall} {stored : ResponseRecord},
      s.calls[i]? = some call₁ → call₁.pending = some other → call₂.pending = none →
      (s.calls.set i call₂)[j]? = some call →
      (s.store.insert other stored).lookup id = some record := by
    intro i other call₁ call₂ stored hi hother hquiet hset
    refine (AList.lookup_insert_ne ?_).trans hrecord
    rintro rfl
    obtain rfl := hs.own hj hi hid hother
    rcases getElem?_set_cases hset with ⟨-, rfl⟩ | ⟨hne, -⟩
    · rw [hquiet] at hid
      cases hid
    · exact hne rfl
  cases h with
  | created h hcall =>
    refine (AList.lookup_insert_ne ?_).trans hrecord
    rintro rfl
    exact hfresh (AList.lookup_isSome.mp (hrecord ▸ rfl))
  | generated h hfound => exact hother h rfl rfl hj'
  | streamed h hfound hstatus => exact hother h rfl rfl hj'
  | still hcreate hanswer => exact hrecord
  | resolved h => exact hrecord
  | answered h hfound => exact hrecord
  | stopped hcreate hanswer => exact hrecord
  | lost h hfound => exact hrecord

/-- Where a call comes from that waits. -/
theorem Moves.pending_cases (h : Moves app s input s' out) {j : ℕ} {call : ResponseCall}
    {id : String} (hj : s'.calls[j]? = some call) (hid : call.pending = some id) :
    s.calls[j]? = some call ∨ ∃ now sent record batch, input = .create j id now sent ∧
      out = .created record (.ok batch) ∧
      batch.prompt = formatPrompt record.input record.instructions app.chatTemplate ∧
      s'.store.lookup id = some record := by
  cases h with
  | still hcreate hanswer => exact .inl hj
  | resolved h =>
    rcases getElem?_append_cases hj with ⟨-, rfl⟩ | hj
    · cases hid
    · exact .inl hj
  | created h hcall =>
    rcases getElem?_set_cases hj with ⟨rfl, rfl⟩ | ⟨-, hj⟩
    · rcases hcall with rfl | ⟨rfl | rfl, rfl⟩
      · cases hid
      · obtain rfl := Option.some.inj hid
        exact .inr ⟨_, _, _, _, rfl, rfl, rfl, AList.lookup_insert _⟩
      · obtain rfl := Option.some.inj hid
        exact .inr ⟨_, _, _, _, rfl, rfl, rfl, AList.lookup_insert _⟩
    · exact .inl hj
  | generated h hrecord | streamed h hrecord hstatus | answered h hrecord
  | stopped hcreate hanswer | lost h hrecord =>
    rcases getElem?_set_cases hj with ⟨-, rfl⟩ | ⟨-, hj⟩
    · cases hid
    · exact .inl hj

/-- Where a call comes from that is about to be answered. -/
theorem Moves.stored_cases (h : Moves app s input s' out) {j : ℕ} {id : String}
    (hj : s'.calls[j]? = some (.stored id)) :
    s.calls[j]? = some (.stored id) ∨ ∃ text record, input = .generated j (some (.ok text)) ∧
      out = .updated id .completed ∧ s.calls[j]? = some (.generating id) ∧
      s.store.lookup id = some record ∧
      s'.store.lookup id = some (record.finish text .completed) := by
  cases h with
  | still hcreate hanswer => exact .inl hj
  | resolved h =>
    rcases getElem?_append_cases hj with ⟨-, heq⟩ | hj
    · cases heq
    · exact .inl hj
  | created h hcall =>
    rcases getElem?_set_cases hj with ⟨-, rfl⟩ | ⟨-, hj⟩
    · rcases hcall with heq | ⟨heq | heq, -⟩ <;> cases heq
    · exact .inl hj
  | generated h hrecord =>
    rcases getElem?_set_cases hj with ⟨rfl, heq⟩ | ⟨-, hj⟩
    · obtain rfl := ResponseCall.stored.inj heq
      exact .inr ⟨_, _, rfl, rfl, h, hrecord, AList.lookup_insert _⟩
    · exact .inl hj
  | streamed h hrecord hstatus | answered h hrecord | stopped hcreate hanswer
  | lost h hrecord =>
    rcases getElem?_set_cases hj with ⟨-, heq⟩ | ⟨-, hj⟩
    · cases heq
    · exact .inl hj

/-- A call that has its messages keeps them until it stores a record. -/
theorem Moves.resolved_cases (h : Moves app s input s' out) {j : ℕ} {call : ResponseCall}
    (hj : s.calls[j]? = some call) :
    s'.calls[j]? = some call ∨
      ∃ call', s'.calls[j]? = some call' ∧
        ∀ request messages, call' ≠ .resolved request messages := by
  have hlt : j < s.calls.length := (List.getElem?_eq_some_iff.mp hj).1
  have hset : ∀ (i : ℕ) {next : ResponseCall},
      (∀ request messages, next ≠ .resolved request messages) →
      (s.calls.set i next)[j]? = some call ∨ ∃ call', (s.calls.set i next)[j]? = some call' ∧
        ∀ request messages, call' ≠ .resolved request messages := by
    intro i next hnext
    by_cases hij : i = j
    · subst hij
      exact .inr ⟨next, List.getElem?_set_self hlt, hnext⟩
    · exact .inl ((List.getElem?_set_ne hij).trans hj)
  cases h with
  | still hcreate hanswer => exact .inl hj
  | resolved h => exact .inl ((List.getElem?_append_left hlt).trans hj)
  | created h hcall =>
    refine hset _ fun request messages => ?_
    rcases hcall with rfl | ⟨rfl | rfl, -⟩ <;> simp
  | generated h hrecord => exact hset _ (by simp)
  | streamed h hrecord hstatus => exact hset _ (by simp)
  | answered h hrecord => exact hset _ (by simp)
  | stopped hcreate hanswer => exact hset _ (by simp)
  | lost h hrecord => exact hset _ (by simp)

end Steps

/-! ### Runs -/

section Runs

variable {app : App} {s : ResponsesState} {tr : List (ResponsesInput × ResponsesOutput)}

/-- A call stored a record and queued what the template makes of it. -/
def Queued (app : App) (tr : List (ResponsesInput × ResponsesOutput)) (i : ℕ) (id : String)
    (record : ResponseRecord) : Prop :=
  ∃ now sent batch, (.create i id now sent, .created record (.ok batch)) ∈ tr ∧
    batch.prompt = formatPrompt record.input record.instructions app.chatTemplate

/-- The worker sent a call its text. -/
def Replied (tr : List (ResponsesInput × ResponsesOutput)) (i : ℕ) (id text : String) : Prop :=
  (.generated i (some (.ok text)), .updated id .completed) ∈ tr

/-- The calls and their answers, by what happened before. -/
structure Explained (app : App) (tr : List (ResponsesInput × ResponsesOutput))
    (s : ResponsesState) : Prop where
  waiting : ∀ {i : ℕ} {call : ResponseCall} {id : String}, s.calls[i]? = some call →
    call.pending = some id →
    ∃ record, Queued app tr i id record ∧ s.store.lookup id = some record
  stored : ∀ {i : ℕ} {id : String}, s.calls[i]? = some (.stored id) → ∃ record text,
    Queued app tr i id record ∧ Replied tr i id text ∧
      s.store.lookup id = some (record.finish text .completed)
  answered : ∀ {i : ℕ} {out : ResponsesOutput}, (.answer i, out) ∈ tr → ∃ id record text,
    Queued app tr i id record ∧ Replied tr i id text ∧
      out = .answered (record.finish text .completed) ∧
      s.store.lookup id = some (record.finish text .completed)

theorem explained_start (app : App) : Explained app [] .start where
  waiting h := by cases h
  stored h := by cases h
  answered h := by cases h

theorem Queued.append {i : ℕ} {id : String} {record : ResponseRecord}
    (h : Queued app tr i id record) (e : ResponsesInput × ResponsesOutput) :
    Queued app (tr ++ [e]) i id record := by
  obtain ⟨now, sent, batch, hmem, hprompt⟩ := h
  exact ⟨now, sent, batch, List.mem_append_left _ hmem, hprompt⟩

theorem Replied.append {i : ℕ} {id text : String} (h : Replied tr i id text)
    (e : ResponsesInput × ResponsesOutput) : Replied (tr ++ [e]) i id text :=
  List.mem_append_left _ h

/-- A finished record stays. -/
theorem Keeps.finished {s s' : ResponsesState} (h : Keeps s s') {id text : String}
    {record : ResponseRecord}
    (hrecord : s.store.lookup id = some (record.finish text .completed)) :
    s'.store.lookup id = some (record.finish text .completed) := by
  obtain ⟨record', hrecord', -, hsame⟩ := h hrecord
  rw [hrecord', hsame (by simp [ResponseRecord.finish])]

theorem Explained.step {s' : ResponsesState} {input : ResponsesInput} {out : ResponsesOutput}
    (h : Explained app tr s) (hs : Consistent s) (hfresh : Fresh s input)
    (hmove : Moves app s input s' out) : Explained app (tr ++ [(input, out)]) s' where
  waiting {i call id} hi hid := by
    rcases hmove.pending_cases hi hid with
      hold | ⟨now, sent, record, batch, rfl, rfl, hprompt, hrecord⟩
    · obtain ⟨record, hqueued, hrecord⟩ := h.waiting hold hid
      exact ⟨record, hqueued.append _, hmove.same_of_pending hfresh hs hold hid hi hrecord⟩
    · exact ⟨record, ⟨now, sent, batch, List.mem_append_right _ List.mem_cons_self, hprompt⟩,
        hrecord⟩
  stored {i id} hi := by
    rcases hmove.stored_cases hi with hold | ⟨text, record, rfl, rfl, hold, hrecord, hfinished⟩
    · obtain ⟨record, text, hqueued, hreplied, hrecord⟩ := h.stored hold
      exact ⟨record, text, hqueued.append _, hreplied.append _,
        Keeps.finished (hmove.keeps hfresh hs) hrecord⟩
    · obtain ⟨queued, hqueued, hfound⟩ := h.waiting hold rfl
      obtain rfl := Option.some.inj (hrecord.symm.trans hfound)
      exact ⟨record, text, hqueued.append _, List.mem_append_right _ List.mem_cons_self,
        hfinished⟩
  answered {i out'} hmem := by
    rcases List.mem_append.mp hmem with hold | hnew
    · obtain ⟨id, record, text, hqueued, hreplied, hout, hrecord⟩ := h.answered hold
      exact ⟨id, record, text, hqueued.append _, hreplied.append _, hout,
        Keeps.finished (hmove.keeps hfresh hs) hrecord⟩
    · obtain ⟨rfl, rfl⟩ := Prod.mk.inj (List.mem_singleton.mp hnew)
      cases hmove with
      | still hcreate hanswer => exact absurd rfl (hanswer i)
      | stopped hcreate hanswer => exact absurd rfl (hanswer i)
      | lost hi hrecord =>
        obtain ⟨record, text, -, -, hfound⟩ := h.stored hi
        rw [hrecord] at hfound
        cases hfound
      | answered hi hrecord =>
        obtain ⟨record, text, hqueued, hreplied, hfound⟩ := h.stored hi
        obtain rfl := Option.some.inj (hrecord.symm.trans hfound)
        exact ⟨_, record, text, hqueued.append _, hreplied.append _, rfl, hrecord⟩

/-- **Every call that is answered gets its own record**, with the text that the worker sent to
it for the prompt of this record, and the record stays as it was answered. -/
theorem answers_own_record (hrun : Run (ResponsesState.step app) .start tr s)
    (hfresh : StepsMeet (ResponsesState.step app) Fresh .start (tr.map Prod.fst)) :
    ∀ i out, (.answer i, out) ∈ tr → ∃ id record text,
      Queued app tr i id record ∧ Replied tr i id text ∧
        out = .answered (record.finish text .completed) ∧
        s.store.lookup id = some (record.finish text .completed) := by
  have hinv : Consistent s ∧ Explained app tr s := by
    refine hrun.traceInvariant_of_stepsMeet (C := Fresh)
      (P := fun tr s => Consistent s ∧ Explained app tr s) ?_ hfresh
      ⟨consistent_start, explained_start app⟩
    rintro tr s input s' out ⟨hs, hexplained⟩ hmeet hstep
    have hmove := moves_of_step hstep
    exact ⟨hmove.consistent hmeet hs, hexplained.step hs hmeet hmove⟩
  exact fun i out hmem => hinv.2.answered hmem

/-- What holds behind the request of the call `i`, that has its messages. -/
structure Carried (m : ResponsesState) (i : ℕ) (request : CreateResponseRequest)
    (messages : List Value) (tr : List (ResponsesInput × ResponsesOutput)) (s : ResponsesState) :
    Prop where
  consistent : Consistent s
  keeps : Keeps m s
  call : s.calls[i]? = some (.resolved request messages) ∨
    ∃ call, s.calls[i]? = some call ∧ ∀ request messages, call ≠ .resolved request messages
  record : ∀ {id : String} {now : ℕ} {sent : Except TrySendError Unit} {out : ResponsesOutput},
    (.create i id now sent, out) ∈ tr → ∃ record, s.store.lookup id = some record ∧
      record.input = messages ∧ record.previousResponseId = request.previousResponseId

theorem Carried.step {m s' : ResponsesState} {i : ℕ} {request : CreateResponseRequest}
    {messages : List Value} {input : ResponsesInput} {out : ResponsesOutput}
    (h : Carried m i request messages tr s) (hfresh : Fresh s input)
    (hmove : Moves app s input s' out) :
    Carried m i request messages (tr ++ [(input, out)]) s' where
  consistent := hmove.consistent hfresh h.consistent
  keeps := Keeps.trans h.keeps (hmove.keeps hfresh h.consistent)
  call := by
    rcases h.call with hi | ⟨call, hi, hcall⟩
    · exact hmove.resolved_cases hi
    · rcases hmove.resolved_cases hi with hi | hi
      · exact .inr ⟨call, hi, hcall⟩
      · exact .inr hi
  record {id now sent out'} hmem := by
    rcases List.mem_append.mp hmem with hold | hnew
    · obtain ⟨record, hrecord, hinput, hprevious⟩ := h.record hold
      obtain ⟨record', hrecord', hframe, -⟩ := hmove.keeps hfresh h.consistent hrecord
      refine ⟨record', hrecord', ?_, ?_⟩
      · exact (congrArg ResponseRecord.input hframe).trans hinput
      · exact (congrArg ResponseRecord.previousResponseId hframe).trans hprevious
    · obtain ⟨rfl, rfl⟩ := Prod.mk.inj (List.mem_singleton.mp hnew)
      cases hmove with
      | still hcreate hanswer => exact absurd rfl (hcreate _ _ _ _)
      | stopped hcreate hanswer => exact absurd rfl (hcreate _ _ _ _)
      | created hi hcall =>
        rcases h.call with hi' | ⟨call, hi', hother⟩
        · obtain ⟨rfl, rfl⟩ := ResponseCall.resolved.inj (Option.some.inj (hi.symm.trans hi'))
          exact ⟨_, AList.lookup_insert _, rfl, rfl⟩
        · exact absurd (Option.some.inj (hi'.symm.trans hi)) (hother _ _)

/-- What a request carries on that continues a finished response. -/
theorem messages_of_finished {m : ResponsesState} {request : CreateResponseRequest}
    {messages : List Value} {previous : String} {prev : ResponseRecord} (hm : Consistent m)
    (h : resolveInput m.store request = .ok messages)
    (hprevious : request.previousResponseId = some previous)
    (hprev : m.store.lookup previous = some prev) (hfinished : prev.status ≠ .inProgress) :
    ∃ output, prev.output = some output ∧
      messages = prev.input ++ assistantTurn output :: inputToMessages request.input := by
  obtain ⟨output, houtput⟩ := Option.ne_none_iff_exists'.mp
    ((hm.output hprev).not.mp hfinished)
  refine ⟨output, houtput, ?_⟩
  rw [resolveInput, hprevious] at h
  dsimp only at h
  rw [ResponseStore.get, hprev] at h
  dsimp only at h
  rw [houtput] at h
  rw [← Except.ok.inj h, List.append_assoc]
  rfl

/-- **A conversation is carried on as it is stored.**  The record of a call that continues a
finished response has that response's input, its output as a turn of the assistant and the
messages of the request, whatever ran between the request and its record; and the finished
response never changes. -/
theorem continues_finished {m m' : ResponsesState}
    {before after : List (ResponsesInput × ResponsesOutput)} {request : CreateResponseRequest}
    {previous : String} {prev : ResponseRecord}
    (hbefore : Run (ResponsesState.step app) .start before m)
    (hrequest : m.step app (.request request) = some (m', .resolved))
    (hafter : Run (ResponsesState.step app) m' after s)
    (hfresh : StepsMeet (ResponsesState.step app) Fresh .start (before.map Prod.fst))
    (hfresh' : StepsMeet (ResponsesState.step app) Fresh m' (after.map Prod.fst))
    (hprevious : request.previousResponseId = some previous)
    (hprev : m.store.lookup previous = some prev) (hfinished : prev.status ≠ .inProgress) :
    s.store.lookup previous = some prev ∧ ∃ output, prev.output = some output ∧
      ∀ id now sent out, (.create m.calls.length id now sent, out) ∈ after →
        ∃ record, s.store.lookup id = some record ∧
          record.input = prev.input ++ assistantTurn output :: inputToMessages request.input ∧
          record.previousResponseId = some previous := by
  have hm : Consistent m := hbefore.invariant_of_stepsMeet
    (fun hs hmeet hstep => (moves_of_step hstep).consistent hmeet hs) hfresh consistent_start
  obtain ⟨messages, hmessages, rfl⟩ : ∃ messages, resolveInput m.store request = .ok messages ∧
      m' = { m with calls := m.calls ++ [.resolved request messages] } := by
    simp only [ResponsesState.step] at hrequest
    split at hrequest
    · cases (Prod.mk.inj (Option.some.inj hrequest)).2
    · rename_i messages hmessages
      exact ⟨messages, hmessages, (Prod.mk.inj (Option.some.inj hrequest)).1.symm⟩
  obtain ⟨output, houtput, hcombined⟩ :=
    messages_of_finished hm hmessages hprevious hprev hfinished
  have hstart : Carried m m.calls.length request messages []
      { m with calls := m.calls ++ [.resolved request messages] } :=
    { consistent := (Moves.resolved hmessages : Moves app m _ _ _).consistent trivial hm
      keeps := fun h => ⟨_, h, rfl, fun _ => rfl⟩
      call := .inl List.getElem?_concat_length
      record := by
        intro id now sent out hmem
        cases hmem }
  have hcarried : Carried m m.calls.length request messages after s :=
    hafter.traceInvariant_of_stepsMeet (P := Carried m m.calls.length request messages)
      (fun h hmeet hstep => h.step hmeet (moves_of_step hstep)) hfresh' hstart
  obtain ⟨found, hfound, -, hsame⟩ := hcarried.keeps hprev
  refine ⟨hsame hfinished ▸ hfound, output, houtput, fun id now sent out hmem => ?_⟩
  obtain ⟨record, hrecord, hinput, hlink⟩ := hcarried.record hmem
  exact ⟨record, hrecord, hinput.trans hcombined, hlink.trans hprevious⟩

end Runs

/-! ### Two calls -/

/-- A server whose model has the ChatML template. -/
def plainApp : App := ⟨"m", .chatMl⟩

/-- A request with a text. -/
def ask (text : String) (previous : Option String) : CreateResponseRequest :=
  ⟨none, .text text, none, previous, none, none, none⟩

/-- A first record, as it is created. -/
def firstRecord : ResponseRecord :=
  newInProgress plainApp (ask "red" none) (inputToMessages (.text "red")) "a" 10

/-- A second one. -/
def secondRecord : ResponseRecord :=
  newInProgress plainApp (ask "blue" none) (inputToMessages (.text "blue")) "b" 11

/-- Two calls of which the second is answered first. -/
def overlappingCalls : List (ResponsesInput × ResponsesOutput) :=
  [(.request (ask "red" none), .resolved), (.request (ask "blue" none), .resolved),
   (.create 1 "b" 11 (.ok ()), .created secondRecord
     (.ok (batchRequest plainApp (ask "blue" none) (inputToMessages (.text "blue"))))),
   (.create 0 "a" 10 (.ok ()), .created firstRecord
     (.ok (batchRequest plainApp (ask "red" none) (inputToMessages (.text "red"))))),
   (.generated 0 (some (.ok "rose")), .updated "a" .completed),
   (.generated 1 (some (.ok "sky")), .updated "b" .completed),
   (.answer 1, .answered (secondRecord.finish "sky" .completed)),
   (.answer 0, .answered (firstRecord.finish "rose" .completed))]

theorem answers_own_record_two : ∃ s,
    Run (ResponsesState.step plainApp) .start overlappingCalls s ∧ ∃ id record text,
      Queued plainApp overlappingCalls 0 id record ∧ Replied overlappingCalls 0 id text ∧
        ResponsesOutput.answered (firstRecord.finish "rose" .completed) =
          .answered (record.finish text .completed) ∧
        s.store.lookup id = some (record.finish text .completed) := by
  have hrun : Run (ResponsesState.step plainApp) .start overlappingCalls _ :=
    .cons rfl (.cons rfl (.cons rfl (.cons rfl (.cons rfl (.cons rfl (.cons rfl (.single rfl)))))))
  exact ⟨_, hrun, answers_own_record hrun (stepsMeet_of_meets (by decide)) 0 _
    (List.mem_of_getLast? rfl)⟩

/-- It is finished, and its call is about to be answered. -/
def finishedFirst : ResponsesState where
  store := ((∅ : ResponseStore).insert "a" firstRecord).insert "a"
    (firstRecord.finish "rose" .completed)
  calls := [.stored "a"]

/-- A second question behind a finished first one. -/
theorem continues_finished_two : ∃ m' s after,
    finishedFirst.step plainApp (.request (ask "why" (some "a"))) = some (m', .resolved) ∧
      Run (ResponsesState.step plainApp) m' after s ∧
      ∃ record, s.store.lookup "b" = some record ∧ record.input =
        firstRecord.input ++ assistantTurn "rose" :: inputToMessages (.text "why") := by
  have hbefore : Run (ResponsesState.step plainApp) .start _ finishedFirst :=
    .cons (i := .request (ask "red" none)) rfl (.cons (i := .create 0 "a" 10 (.ok ())) rfl
      (.single (i := .generated 0 (some (.ok "rose"))) rfl))
  have hrequest : finishedFirst.step plainApp (.request (ask "why" (some "a"))) =
      some (_, .resolved) := rfl
  have hafter : Run (ResponsesState.step plainApp) { finishedFirst with
      calls := finishedFirst.calls ++ [.resolved (ask "why" (some "a"))
        (firstRecord.input ++ [assistantTurn "rose"] ++ inputToMessages (.text "why"))] } _ _ :=
    .single (i := .create 1 "b" 11 (.ok ())) rfl
  obtain ⟨-, output, houtput, hall⟩ := continues_finished hbefore hrequest hafter
    (stepsMeet_of_meets (by decide)) (stepsMeet_of_meets (by decide)) rfl
    (AList.lookup_insert _) (by decide)
  obtain ⟨record, hrecord, hinput, -⟩ := hall _ _ _ _ (List.mem_of_getLast? rfl)
  obtain rfl := Option.some.inj houtput
  exact ⟨_, _, _, hrequest, hafter, record, hrecord, hinput⟩

end Responses

end Server

end Oxillama
