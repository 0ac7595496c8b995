/-
When a run has an assistant message exactly if it is completed.

* `Stage.answers_run` — only the step that appends the message changes how many there are;
* `Service.Undisturbed` — once the message of a run is appended, the
  worker's steps do not fail and find it not cancelled, and no cancel is written over a
  completed run;
* `Service.answered_of_undisturbed` — **in every state of such a run of the service, each run
  that is not being processed has one message if it is completed and none otherwise**;
* `Service.failed_with_message` — a run cancelled after its message was appended ends as
  failed, and the message stays.
-/
import Oxillama.Assistants.RunFinality

namespace Oxillama

namespace Assistants

/-- Whether the worker has appended the message of its run. -/
def Stage.appended : Stage → Bool
  | .updateStep | .finish | .finishWrite _ => true
  | _ => false

/-- **What a step of the worker does to the messages**, and where it leads.  It appends one, or
leaves them alone; and unless the step fails, or finds the run cancelled, it goes on. -/
theorem Stage.answers_run (stage : Stage) (store : ThreadStore) (runId : String)
    (fault : Option String) (reply : Except String String) (k : String) :
    (stage.run store runId fault reply).1.answers k = store.answers k ∧
        (∀ stage', (stage.run store runId fault reply).2 = some stage' →
          stage'.appended = true → stage.appended = true) ∨
      stage.appended = false ∧
        (stage.run store runId fault reply).2 = some .updateStep ∧
        (stage.run store runId fault reply).1.answers k =
          store.answers k + if runId = k then 1 else 0 := by
  cases stage with
  | start =>
    left
    rw [Stage.run]
    cases (store.getRun runId fault).bind (notTerminal runId) with
    | error e => exact ⟨rfl, fun stage' hs happ => by cases hs; cases happ⟩
    | ok run => exact ⟨rfl, fun stage' hs happ => by cases hs; cases happ⟩
  | startWrite run =>
    left
    cases fault with
    | some e => exact ⟨rfl, fun stage' hs happ => by cases hs; cases happ⟩
    | none => exact ⟨rfl, fun stage' hs happ => by cases hs; cases happ⟩
  | listMessages | appendStep =>
    left
    cases fault with
    | some e => exact ⟨rfl, fun stage' hs happ => by cases hs; cases happ⟩
    | none => exact ⟨rfl, fun stage' hs happ => by cases hs; cases happ⟩
  | generate =>
    left
    cases reply with
    | error e => exact ⟨rfl, fun stage' hs happ => by cases hs; cases happ⟩
    | ok text => exact ⟨rfl, fun stage' hs happ => by cases hs; cases happ⟩
  | getRun text =>
    left
    rw [Stage.run]
    cases store.getRun runId fault with
    | error e => exact ⟨rfl, fun stage' hs happ => by cases hs; cases happ⟩
    | ok run => exact ⟨rfl, fun stage' hs happ => by cases hs; cases happ⟩
  | appendMessage text =>
    cases fault with
    | some e =>
      left
      exact ⟨rfl, fun stage' hs happ => by cases hs; cases happ⟩
    | none =>
      refine .inr ⟨rfl, rfl, ?_⟩
      show (store.messages ++ [ThreadMessage.mk runId text]).countP _ =
        store.messages.countP _ + _
      rw [List.countP_append, List.countP_singleton]
      simp only [decide_eq_true_eq]
  | fail error =>
    left
    rw [Stage.run]
    cases store.getRun runId fault with
    | error e => exact ⟨rfl, fun stage' hs happ => by cases hs⟩
    | ok run => exact ⟨rfl, fun stage' hs happ => by cases hs; cases happ⟩
  | failWrite run error =>
    left
    cases fault with
    | some e => exact ⟨rfl, fun stage' hs happ => by cases hs⟩
    | none => exact ⟨rfl, fun stage' hs happ => by cases hs⟩
  | updateStep =>
    left
    cases fault with
    | some e => exact ⟨rfl, fun _ _ _ => rfl⟩
    | none => exact ⟨rfl, fun _ _ _ => rfl⟩
  | finish =>
    left
    rw [Stage.run]
    cases (store.getRun runId fault).bind (notTerminal runId) with
    | error e => exact ⟨rfl, fun _ _ _ => rfl⟩
    | ok run => exact ⟨rfl, fun _ _ _ => rfl⟩
  | finishWrite run =>
    left
    cases fault with
    | some e => exact ⟨rfl, fun _ _ _ => rfl⟩
    | none => exact ⟨rfl, fun _ _ _ => rfl⟩

/-- A step after which the worker is done with its run. -/
theorem Stage.of_run_none {stage : Stage} {store : ThreadStore} {runId : String}
    {fault : Option String} {reply : Except String String}
    (h : (stage.run store runId fault reply).2 = none) :
    (stage.writes = some .completed ∧ fault = none) ∨
      stage.appended = false ∧ (stage.writes = none ∨ stage.writes = some .failed) := by
  cases stage with
  | fail error => exact .inr ⟨rfl, .inl rfl⟩
  | failWrite run error => exact .inr ⟨rfl, .inr rfl⟩
  | finishWrite run =>
    cases fault with
    | some e => cases h
    | none => exact .inl ⟨rfl, rfl⟩
  | start =>
    rw [Stage.run] at h
    cases hget : (store.getRun runId fault).bind (notTerminal runId) <;> rw [hget] at h <;> cases h
  | finish =>
    rw [Stage.run] at h
    cases hget : (store.getRun runId fault).bind (notTerminal runId) <;> rw [hget] at h <;> cases h
  | getRun text =>
    rw [Stage.run] at h
    cases hget : store.getRun runId fault <;> rw [hget] at h <;> cases h
  | generate => cases reply <;> cases h
  | startWrite | listMessages | appendStep | appendMessage | updateStep =>
    cases fault <;> cases h

/-- A step that does not fail after the message is appended: it goes on, or it completes the
run. -/
theorem Stage.run_of_appended {stage : Stage} (store : ThreadStore) {runId : String}
    (happ : stage.appended = true) (reply : Except String String)
    (hfinish : stage = .finish →
      ∃ st, store.status runId = some st ∧ st.isTerminal = false) :
    ∀ stage', (stage.run store runId none reply).2 = some stage' → stage'.appended = true := by
  intro stage' h
  cases stage with
  | updateStep =>
    cases h
    rfl
  | finishWrite run => cases h
  | finish =>
    obtain ⟨st, hst, hterminal⟩ := hfinish rfl
    obtain ⟨run, hrun, rfl⟩ := Option.map_eq_some_iff.mp hst
    have hget : (store.getRun runId none).bind (notTerminal runId) = .ok run := by
      rw [ThreadStore.getRun, hrun]
      show notTerminal runId run = .ok run
      rw [notTerminal, hterminal]
      rfl
    rw [Stage.run, hget] at h
    cases h
    rfl
  | _ => cases happ

theorem CancelStage.answers_run (stage : CancelStage) (store : ThreadStore)
    (fault : Option String) (k : String) :
    (stage.run store fault).1.answers k = store.answers k := by
  cases stage with
  | check runId =>
    rw [CancelStage.run]
    cases store.getRun runId fault with
    | error e => rfl
    | ok run =>
      dsimp only
      split <;> rfl
  | force runId =>
    rw [CancelStage.run]
    cases store.getRun runId fault <;> rfl
  | write runId run => cases fault <;> rfl
  | reread runId => rfl
  | done out => rfl

namespace Service

/-- How many assistant messages there are for a run. -/
def answers (s : Service) (runId : String) : ℕ := s.store.answers runId

/-- **The condition on a step.**  Once the message of its run is appended, the worker's step
does not fail, and where it reads the run again the run is not cancelled; and a cancel that is
written finds its run not completed. -/
def Undisturbed (s : Service) : Event → Prop
  | .work fault _ => ∀ w ∈ s.worker, w.2.appended = true →
      fault = none ∧ (w.2 = .finish → s.status w.1 ≠ some .cancelled)
  | .advance i none => ∀ stage ∈ s.cancels[i]?, ∀ r ∈ stage.writes,
      s.status r ≠ some .completed
  | _ => True

instance (s : Service) : DecidablePred s.Undisturbed
  | .work .. => inferInstanceAs (Decidable (∀ w ∈ _, _))
  | .advance _ none => inferInstanceAs (Decidable (∀ stage ∈ _, _))
  | .advance _ (some _) | .create .. | .dequeue | .cancel _ => .isTrue trivial

/-- The messages a run ought to have. -/
def expected (st : Option RunStatus) : ℕ := if st = some .completed then 1 else 0

/-- Each run has the messages it ought to have: while it is being processed, one from when its
message is appended on, and none before. -/
structure Answered (s : Service) : Prop where
  pending : s.Open
  resting : ∀ r, r ∉ s.current → s.answers r = expected (s.status r)
  running : ∀ r stage, s.worker = some (r, stage) →
    s.answers r = if stage.appended then 1 else 0

theorem answered_init : init.Answered where
  pending := open_init
  resting := fun _ _ => rfl
  running := fun _ _ h => by cases h

/-- A run that is pending ought to have no message. -/
theorem Open.expected_eq_zero {s : Service} (h : s.Open) {r : String} (hr : r ∈ s.ahead) :
    expected (s.status r) = 0 := by
  obtain ⟨st, hst, hpending⟩ := h.pending r hr
  rw [hst, expected, if_neg]
  rintro heq
  cases heq
  cases hpending

theorem answered_work {s s' : Service} {fault : Option String} {reply : Except String String}
    {out : Unit} (h : s.Answered) (hguard : s.Undisturbed (.work fault reply))
    (hs : s.step (.work fault reply) = some (s', out)) : s'.Answered := by
  have hopen := open_step h.pending hs
  have hstatus := step_status hs
  cases hworker : s.worker with
  | none =>
    rw [step, hworker] at hs
    cases hs
    exact h
  | some current =>
    obtain ⟨r, stage⟩ := current
    have hs' := step_work hworker hs
    have hcurrent : s.current = [r] := by
      rw [Service.current, hworker]
      rfl
    have hmem : r ∈ s.ahead := by
      rw [ahead, hcurrent]
      exact List.mem_cons_self
    have hrunning := h.running r stage hworker
    have hanswers := fun k => stage.answers_run s.store r fault reply k
    -- another run keeps its status and its messages
    have hother : ∀ k, k ≠ r → s'.answers k = expected (s'.status k) := by
      intro k hk
      have hsame : s'.status k = s.status k := by
        rw [hstatus k]
        cases fault with
        | some e => rfl
        | none =>
          rw [writes_work hworker]
          cases stage.writes with
          | none => rfl
          | some st => exact if_neg hk
      have hcount : s'.answers k = s.answers k := by
        rw [hs']
        rcases hanswers k with ⟨heq, -⟩ | ⟨-, -, heq⟩
        · exact heq
        · refine heq.trans ?_
          rw [if_neg (Ne.symm hk)]
          rfl
      rw [hsame, hcount]
      exact h.resting k (by rw [hcurrent]; simpa using hk)
    have hanswer : s'.answers r = (stage.run s.store r fault reply).1.answers r := by
      rw [hs']
      rfl
    have hnone : stage.appended = false → s.answers r = 0 := by
      intro happ
      rw [hrunning, happ]
      rfl
    cases hnext : (stage.run s.store r fault reply).2 with
    | some stage' =>
      have hworker' : s'.worker = some (r, stage') := by
        rw [hs']
        show (stage.run s.store r fault reply).2.map _ = _
        rw [hnext]
        rfl
      refine ⟨hopen, fun k hk => hother k ?_, ?_⟩
      · rintro rfl
        refine hk ?_
        rw [Service.current, hworker']
        exact List.mem_cons_self
      · intro r' stage'' hr'
        obtain ⟨rfl, rfl⟩ := Prod.mk.inj (Option.some.inj (hworker'.symm.trans hr'))
        rw [hanswer]
        rcases hanswers r with ⟨hkeep, hback⟩ | ⟨happ, hstage, hadd⟩
        · rw [hkeep]
          refine hrunning.trans ?_
          cases happ : stage.appended with
          | true =>
            obtain ⟨rfl, hfinish⟩ := hguard (r, stage) hworker happ
            have happ' := Stage.run_of_appended s.store happ reply (fun hstage => ?_)
              stage' hnext
            · rw [happ']
            · obtain ⟨st, hst, hpending⟩ := h.pending.pending r hmem
              refine ⟨st, hst, ?_⟩
              have hnot := hfinish hstage
              cases st with
              | cancelled => exact absurd hst hnot
              | queued | inProgress => rfl
              | completed | failed | expired => cases hpending
          | false =>
            have happ' : stage'.appended = false := by
              by_contra hne
              have := hback stage' hnext (by simpa using hne)
              rw [happ] at this
              cases this
            rw [happ']
        · rw [hadd, if_pos rfl]
          obtain rfl := Option.some.inj (hstage.symm.trans hnext)
          show s.answers r + 1 = 1
          rw [hnone happ]
    | none =>
      have hworker' : s'.worker = none := by
        rw [hs']
        show (stage.run s.store r fault reply).2.map _ = _
        rw [hnext]
        rfl
      refine ⟨hopen, fun k _ => ?_, fun r' stage' hr' => by rw [hworker'] at hr'; cases hr'⟩
      by_cases hk : k = r
      · subst hk
        have hkeep : s'.answers k = s.answers k := by
          rw [hanswer]
          rcases hanswers k with ⟨hkeep, -⟩ | ⟨-, hstage, -⟩
          · exact hkeep
          · cases hstage.symm.trans hnext
        rw [hkeep]
        rcases Stage.of_run_none hnext with ⟨hwrites, rfl⟩ | ⟨happ, hwrites⟩
        · -- completed: the message is there
          have happ : stage.appended = true := by
            cases stage <;> cases hwrites
            rfl
          rw [hrunning, happ, hstatus k, writes_work hworker, hwrites]
          show 1 = expected (if k = k then _ else _)
          rw [if_pos rfl]
          rfl
        · -- failed, or left as it is: there is none
          rw [hnone happ, hstatus k]
          have hzero := h.pending.expected_eq_zero hmem
          cases fault with
          | some e => exact hzero.symm
          | none =>
            rw [writes_work hworker]
            rcases hwrites with hwrites | hwrites
            · rw [hwrites]
              exact hzero.symm
            · rw [hwrites]
              show 0 = expected (if k = k then _ else _)
              rw [if_pos rfl]
              rfl
      · exact hother k hk

/-- A step of no worker leaves the messages and the run of the worker alone, or lets it take a
run of the queue. -/
theorem answers_step {s s' : Service} {e : Event} {out : Unit}
    (hs : s.step e = some (s', out)) (hwork : ∀ fault reply, e ≠ .work fault reply) :
    (∀ k, s'.answers k = s.answers k) ∧
      (s'.worker = s.worker ∨
        s.worker = none ∧ ∃ r, r ∈ s.queue ∧ s'.worker = some (r, .start)) := by
  cases e with
  | create runId queueOpen =>
    rw [step] at hs
    split at hs
    · cases hs
    · cases hs
      cases queueOpen <;> exact ⟨fun _ => rfl, .inl rfl⟩
  | dequeue =>
    rw [step] at hs
    split at hs
    · rename_i runId queue hworker hqueue
      cases hs
      refine ⟨fun _ => rfl, .inr ⟨hworker, runId, ?_, rfl⟩⟩
      rw [hqueue]
      exact List.mem_cons_self
    · cases hs
      exact ⟨fun _ => rfl, .inl rfl⟩
  | work fault reply => exact absurd rfl (hwork fault reply)
  | cancel runId =>
    cases hs
    exact ⟨fun _ => rfl, .inl rfl⟩
  | advance i fault =>
    cases hi : s.cancels[i]? with
    | none =>
      rw [step, hi] at hs
      cases hs
      exact ⟨fun _ => rfl, .inl rfl⟩
    | some stage =>
      obtain rfl := step_advance hi hs
      exact ⟨fun k => stage.answers_run s.store fault k, .inl rfl⟩

/-- A run that rests keeps the number of messages it ought to have. -/
theorem expected_step {s s' : Service} {e : Event} {out : Unit}
    (hguard : s.Undisturbed e) (hs : s.step e = some (s', out))
    (hwork : ∀ fault reply, e ≠ .work fault reply) (k : String) :
    k ∉ s.current → expected (s'.status k) = expected (s.status k) := by
  intro hk
  rw [step_status hs k]
  cases e with
  | create runId queueOpen =>
    rw [step] at hs
    split at hs
    · cases hs
    · rename_i hnew
      show expected (if k = runId then _ else _) = _
      by_cases hkr : k = runId
      · subst hkr
        have hnone : s.status k = none := ThreadStore.status_eq_none.mpr hnew
        rw [if_pos rfl, hnone]
        cases queueOpen <;> rfl
      · rw [if_neg hkr]
  | dequeue => rfl
  | work fault reply => exact absurd rfl (hwork fault reply)
  | cancel runId => rfl
  | advance i fault =>
    cases fault with
    | some e => rfl
    | none =>
      cases hwrites : s.writes (.advance i none) with
      | none => rfl
      | some write =>
        obtain ⟨r, st⟩ := write
        obtain ⟨stage, hi, hwrites⟩ := Option.bind_eq_some_iff.mp hwrites
        obtain ⟨r', hr', heq⟩ := Option.map_eq_some_iff.mp hwrites
        obtain ⟨rfl, rfl⟩ := Prod.mk.inj heq
        have hnot := hguard stage hi r' hr'
        show expected (if k = r' then _ else _) = _
        by_cases hkr : k = r'
        · subst hkr
          rw [if_pos rfl, expected, expected, if_neg hnot]
          rfl
        · rw [if_neg hkr]

/-- **One step that meets the condition** leaves each run with the messages it ought to have. -/
theorem answered_step {s s' : Service} {e : Event} {out : Unit} (h : s.Answered)
    (hguard : s.Undisturbed e) (hs : s.step e = some (s', out)) : s'.Answered := by
  by_cases hwork : ∃ fault reply, e = .work fault reply
  · obtain ⟨fault, reply, rfl⟩ := hwork
    exact answered_work h hguard hs
  · have hwork' : ∀ fault reply, e ≠ .work fault reply :=
      fun fault reply heq => hwork ⟨fault, reply, heq⟩
    obtain ⟨hanswers, hworker⟩ := answers_step hs hwork'
    have hexpected := expected_step hguard hs hwork'
    refine ⟨open_step h.pending hs, ?_, ?_⟩
    · intro k hk
      have hk' : k ∉ s.current := by
        rcases hworker with heq | ⟨hnone, -⟩
        · rw [current, heq] at hk
          exact hk
        · rw [current, hnone]
          simp
      rw [hanswers k, hexpected k hk']
      exact h.resting k hk'
    · intro r stage hr
      rcases hworker with heq | ⟨hnone, r', hqueue, heq⟩
      · rw [heq] at hr
        rw [hanswers r]
        exact h.running r stage hr
      · -- the run that the worker takes was pending, and so has no message
        rw [heq] at hr
        obtain ⟨rfl, rfl⟩ := Prod.mk.inj (Option.some.inj hr)
        have hrest : r' ∉ s.current := by
          rw [current, hnone]
          simp
        rw [hanswers r', h.resting r' hrest]
        exact h.pending.expected_eq_zero (List.mem_append_right _ hqueue)

/-- **A run has its message exactly if it is completed.**  In every state of a run of the
service whose steps meet the condition, each run that is not being processed has one assistant
message if it is completed, and none otherwise; in a quiescent state that is each run. -/
theorem answered_of_undisturbed {s : Service} {tr : List (Event × Unit)}
    (hr : Run step init tr s) (hmeet : StepsMeet step Undisturbed init (tr.map Prod.fst)) :
    ∀ r, r ∉ s.current →
      s.answers r = if s.status r = some .completed then 1 else 0 :=
  (hr.invariant_of_stepsMeet answered_step hmeet answered_init).resting

/-- The steps of the worker from a run's start to the appending of its message. -/
def untilAppended : List Event :=
  [.create "run" true, .dequeue, .work none (.ok ""), .work none (.ok ""), .work none (.ok ""),
    .work none (.ok ""), .work none (.ok "Hello"), .work none (.ok ""), .work none (.ok "")]

/-- The rest of the steps of the worker on that run. -/
def thenCompleted : List Event :=
  [.work none (.ok ""), .work none (.ok ""), .work none (.ok "")]

theorem answered_of_undisturbed_once :
    ∃ tr s, Run step init tr s ∧ s.worker = none ∧ s.status "run" = some .completed ∧
      s.answers "run" = 1 := by
  have hrun := run_of_runInputs
    (show runInputs step init (untilAppended ++ thenCompleted) = some _ from rfl)
  have hmeet : StepsMeet step Undisturbed init (untilAppended ++ thenCompleted) :=
    stepsMeet_of_meets rfl
  have hanswers := answered_of_undisturbed hrun hmeet "run" (by simp [current])
  exact ⟨_, _, hrun, rfl, rfl, hanswers⟩

/-- **A run cancelled after its message was appended** ends as failed, and the message stays. -/
theorem failed_with_message :
    ∃ tr s, runInputs step init (untilAppended ++
        [.cancel "run", .advance 0 none, .advance 0 none, .advance 0 none, .advance 0 none] ++
        thenCompleted ++ [.work none (.ok "")]) = some (tr, s) ∧
      s.worker = none ∧ s.status "run" = some .failed ∧ s.answers "run" = 1 :=
  ⟨_, _, rfl, rfl, rfl, rfl⟩

end Service

end Assistants

end Oxillama
