/-
When the terminal statuses of runs are final.

* `Service.step_status` — every step writes the status of at most one run
  (`Service.writes`);
* `Service.Open` — the runs that the worker has yet to process, and the one it is processing,
  are queued, in progress or cancelled; no step changes that;
* `Service.final_iff_guarded` — **no step of a run changes a terminal status exactly if the
  worker writes no status over a cancelled one, and no cancel writes over a run that has
  completed or failed since it was checked**;
* `Service.cancelled_then_failed` — a run cancelled while it is queued ends as failed.
-/
import Oxillama.Assistants.RunWorker

namespace Oxillama

namespace Assistants

namespace ThreadStore

theorem status_writeRun (store : ThreadStore) (runId : String) (run : RunRecord) (k : String) :
    (store.writeRun runId run none).1.status k =
      if k = runId then some run.status else store.status k := by
  show ((store.runs.insert runId run).lookup k).map RunRecord.status = _
  by_cases hk : k = runId
  · subst hk
    rw [if_pos rfl, AList.lookup_insert]
    rfl
  · rw [if_neg hk, AList.lookup_insert_ne hk]
    rfl

theorem status_eq_none {store : ThreadStore} {runId : String} :
    store.status runId = none ↔ runId ∉ store.runs := by
  rw [status, Option.map_eq_none_iff, AList.lookup_eq_none]

end ThreadStore

/-! ### What a step writes -/

/-- The status that a step of the worker writes, unless it fails. -/
def Stage.writes : Stage → Option RunStatus
  | .startWrite _ => some .inProgress
  | .finishWrite _ => some .completed
  | .failWrite .. => some .failed
  | _ => none

/-- The run whose status a step of the cancel route writes, unless it fails. -/
def CancelStage.writes : CancelStage → Option String
  | .write runId _ => some runId
  | _ => none

/-- The statuses after a step of the worker. -/
theorem Stage.status_run (stage : Stage) (store : ThreadStore) (runId : String)
    (fault : Option String) (reply : Except String String) (k : String) :
    (stage.run store runId fault reply).1.status k =
      match fault, stage.writes with
      | none, some st => if k = runId then some st else store.status k
      | _, _ => store.status k := by
  cases stage with
  | start =>
    rw [Stage.run]
    cases (store.getRun runId fault).bind (notTerminal runId) <;> cases fault <;> rfl
  | finish =>
    rw [Stage.run]
    cases (store.getRun runId fault).bind (notTerminal runId) <;> cases fault <;> rfl
  | getRun text =>
    rw [Stage.run]
    cases store.getRun runId fault <;> cases fault <;> rfl
  | fail error =>
    rw [Stage.run]
    cases store.getRun runId fault <;> cases fault <;> rfl
  | generate => cases reply <;> cases fault <;> rfl
  | listMessages | appendStep | updateStep => cases fault <;> rfl
  | appendMessage text => cases fault <;> rfl
  | startWrite run =>
    cases fault with
    | some e => rfl
    | none => exact store.status_writeRun runId _ k
  | finishWrite run =>
    cases fault with
    | some e => rfl
    | none => exact store.status_writeRun runId _ k
  | failWrite run error =>
    cases fault with
    | some e => rfl
    | none => exact store.status_writeRun runId _ k

/-- The statuses after a step of the cancel route. -/
theorem CancelStage.status_run (stage : CancelStage) (store : ThreadStore)
    (fault : Option String) (k : String) :
    (stage.run store fault).1.status k =
      match fault, stage.writes with
      | none, some runId => if k = runId then some .cancelled else store.status k
      | _, _ => store.status k := by
  cases stage with
  | check runId =>
    rw [CancelStage.run]
    cases hget : store.getRun runId fault with
    | error e => cases fault <;> rfl
    | ok run =>
      dsimp only
      split <;> cases fault <;> rfl
  | force runId =>
    rw [CancelStage.run]
    cases store.getRun runId fault <;> cases fault <;> rfl
  | write runId run =>
    cases fault with
    | some e => rfl
    | none => exact store.status_writeRun runId _ k
  | reread runId => cases fault <;> rfl
  | done out => cases fault <;> rfl

namespace Service

/-- The status of a run. -/
def status (s : Service) (runId : String) : Option RunStatus := s.store.status runId

/-- A step of the worker on its run. -/
theorem step_work {s s' : Service} {runId : String} {stage : Stage} {fault : Option String}
    {reply : Except String String} {out : Unit} (hworker : s.worker = some (runId, stage))
    (hs : s.step (.work fault reply) = some (s', out)) :
    s' = { s with
      store := (stage.run s.store runId fault reply).1
      worker := (stage.run s.store runId fault reply).2.map fun stage' => (runId, stage') } := by
  rw [step, hworker] at hs
  exact (congrArg Prod.fst (Option.some.inj hs)).symm

/-- A step of a request to cancel. -/
theorem step_advance {s s' : Service} {i : ℕ} {stage : CancelStage} {fault : Option String}
    {out : Unit} (hi : s.cancels[i]? = some stage)
    (hs : s.step (.advance i fault) = some (s', out)) :
    s' = { s with
      store := (stage.run s.store fault).1
      cancels := s.cancels.set i (stage.run s.store fault).2 } := by
  rw [step, hi] at hs
  exact (congrArg Prod.fst (Option.some.inj hs)).symm

/-- The run whose status an event writes, and the status. -/
def writes (s : Service) : Event → Option (String × RunStatus)
  | .create runId queueOpen => some (runId, if queueOpen then .queued else .failed)
  | .work none _ => s.worker.bind fun (runId, stage) => stage.writes.map fun st => (runId, st)
  | .advance i none => s.cancels[i]?.bind fun stage => stage.writes.map fun r => (r, .cancelled)
  | _ => none

theorem writes_work {s : Service} {runId : String} {stage : Stage}
    (hworker : s.worker = some (runId, stage)) (reply : Except String String) :
    s.writes (.work none reply) = stage.writes.map fun st => (runId, st) := by
  rw [writes, hworker]
  rfl

/-- **A step writes the status of at most one run.** -/
theorem step_status {s s' : Service} {e : Event} {out : Unit} (hs : s.step e = some (s', out))
    (k : String) :
    s'.status k =
      match s.writes e with
      | some (runId, st) => if k = runId then some st else s.status k
      | none => s.status k := by
  cases e with
  | create runId queueOpen =>
    rw [step] at hs
    split at hs
    · cases hs
    · cases hs
      cases queueOpen with
      | true => exact s.store.status_writeRun runId _ k
      | false => exact s.store.status_writeRun runId _ k
  | dequeue =>
    rw [step] at hs
    split at hs
    · cases hs
      rfl
    · cases hs
      rfl
  | work fault reply =>
    cases hworker : s.worker with
    | none =>
      rw [step, hworker] at hs
      cases hs
      cases fault with
      | none => rw [writes, hworker]; rfl
      | some e => rfl
    | some current =>
      obtain ⟨runId, stage⟩ := current
      obtain rfl := step_work hworker hs
      refine (stage.status_run s.store runId fault reply k).trans ?_
      cases fault with
      | some e => rfl
      | none =>
        rw [writes, hworker, Option.bind_some]
        dsimp only
        cases stage.writes <;> rfl
  | cancel runId =>
    cases hs
    rfl
  | advance i fault =>
    cases hi : s.cancels[i]? with
    | none =>
      rw [step, hi] at hs
      cases hs
      cases fault with
      | none => rw [writes, hi]; rfl
      | some e => rfl
    | some stage =>
      obtain rfl := step_advance hi hs
      refine (stage.status_run s.store fault k).trans ?_
      cases fault with
      | some e => rfl
      | none =>
        rw [writes, hi, Option.bind_some]
        cases stage.writes <;> rfl

/-! ### The runs of the worker -/

/-- The run the worker is processing, if there is one. -/
def current (s : Service) : List String := s.worker.toList.map Prod.fst

/-- The runs the worker is not done with: the one it is processing, and those of its queue. -/
def ahead (s : Service) : List String := s.current ++ s.queue

end Service

/-- The statuses of a run that the worker is not done with. -/
def RunStatus.isPending : RunStatus → Bool
  | .queued | .inProgress | .cancelled => true
  | .completed | .failed | .expired => false

namespace Service

/-- The runs the worker is not done with are queued, in progress or cancelled, and none of
them is there twice; and no run ever expires. -/
structure Open (s : Service) : Prop where
  nodup : s.ahead.Nodup
  pending : ∀ r ∈ s.ahead, ∃ st, s.status r = some st ∧ st.isPending = true
  notExpired : ∀ r, s.status r ≠ some .expired

theorem open_init : init.Open where
  nodup := List.nodup_nil
  pending := fun r hr => by cases hr
  notExpired := fun r hr => by cases hr

/-- After the last status it writes the worker is done with the run. -/
theorem run_none_of_last {stage : Stage} {st : RunStatus}
    (h : stage.writes = some st) (hst : st.isPending = false) (store : ThreadStore)
    (runId : String) (reply : Except String String) :
    (stage.run store runId none reply).2 = none := by
  cases stage with
  | finishWrite | failWrite => rfl
  | startWrite =>
    cases h
    cases hst
  | _ => cases h

/-- What a step does to the runs the worker is not done with. -/
theorem ahead_step {s s' : Service} {e : Event} {out : Unit} (hs : s.step e = some (s', out)) :
    s'.ahead = s.ahead ∨
    (∃ r, e = .create r true ∧ r ∉ s.store.runs ∧ s'.ahead = s.ahead ++ [r]) ∨
    ∃ r stage, s.worker = some (r, stage) ∧ s'.ahead = s.queue := by
  cases e with
  | create runId queueOpen =>
    rw [step] at hs
    split at hs
    · cases hs
    · rename_i hnew
      cases hs
      cases queueOpen with
      | true =>
        refine .inr (.inl ⟨runId, rfl, hnew, ?_⟩)
        exact (List.append_assoc s.current s.queue [runId]).symm
      | false => exact .inl rfl
  | dequeue =>
    rw [step] at hs
    split at hs
    · rename_i runId queue hworker hqueue
      cases hs
      left
      rw [ahead, ahead, current, current, hworker, hqueue]
      rfl
    · cases hs
      exact .inl rfl
  | work fault reply =>
    cases hworker : s.worker with
    | none =>
      rw [step, hworker] at hs
      cases hs
      exact .inl rfl
    | some current =>
      obtain ⟨runId, stage⟩ := current
      obtain rfl := step_work hworker hs
      cases hrest : (stage.run s.store runId fault reply).2 with
      | none => exact .inr (.inr ⟨runId, stage, rfl, rfl⟩)
      | some stage' =>
        left
        rw [ahead, ahead, Service.current, Service.current, hworker]
        rfl
  | cancel runId =>
    cases hs
    exact .inl rfl
  | advance i fault =>
    cases hi : s.cancels[i]? with
    | none =>
      rw [step, hi] at hs
      cases hs
      exact .inl rfl
    | some stage =>
      obtain rfl := step_advance hi hs
      exact .inl rfl

theorem mem_runs_of_status {s : Service} {r : String} {st : RunStatus}
    (h : s.status r = some st) : r ∈ s.store.runs := by
  by_contra hnew
  rw [status, ThreadStore.status_eq_none.mpr hnew] at h
  cases h

/-- **Every step keeps the runs of the worker pending.** -/
theorem open_step {s s' : Service} {e : Event} {out : Unit} (h : s.Open)
    (hs : s.step e = some (s', out)) : s'.Open := by
  have hstatus := step_status hs
  have hahead := ahead_step hs
  have hnodup := h.nodup
  refine ⟨?_, ?_, ?_⟩
  · rcases hahead with heq | ⟨r, -, hnew, heq⟩ | ⟨r, stage, -, heq⟩
    · rw [heq]
      exact hnodup
    · rw [heq, List.nodup_append_comm, List.singleton_append, List.nodup_cons]
      refine ⟨fun hr => ?_, hnodup⟩
      obtain ⟨st, hst, -⟩ := h.pending r hr
      exact hnew (mem_runs_of_status hst)
    · rw [heq]
      exact (List.nodup_append.mp hnodup).2.1
  · intro r hr
    rw [hstatus r]
    -- a run ahead now was ahead before, unless it has just been created
    have hbefore : r ∈ s.ahead ∨ e = .create r true := by
      rcases hahead with heq | ⟨r', rfl, -, heq⟩ | ⟨r', stage, -, heq⟩
      · exact .inl (heq ▸ hr)
      · rw [heq, List.mem_append, List.mem_singleton] at hr
        exact hr.imp_right fun hr => by rw [hr]
      · rw [heq] at hr
        exact .inl (List.mem_append_right _ hr)
    cases hwrites : s.writes e with
    | none =>
      refine h.pending r (hbefore.resolve_right ?_)
      rintro rfl
      cases hwrites
    | some write =>
      obtain ⟨w, st⟩ := write
      dsimp only
      by_cases hrw : r = w
      · subst hrw
        refine ⟨st, if_pos rfl, ?_⟩
        cases e with
        | create runId queueOpen =>
          cases hwrites
          cases queueOpen with
          | true => rfl
          | false =>
            obtain ⟨st, hst, -⟩ := h.pending r (hbefore.resolve_right (by simp))
            rw [step, if_pos (mem_runs_of_status hst)] at hs
            cases hs
        | work fault reply =>
          cases fault with
          | some e => cases hwrites
          | none =>
            obtain ⟨⟨runId, stage⟩, hworker, hwrites⟩ := Option.bind_eq_some_iff.mp hwrites
            obtain ⟨st', hst', heq⟩ := Option.map_eq_some_iff.mp hwrites
            obtain ⟨rfl, rfl⟩ := Prod.mk.inj heq
            by_contra hlast
            have hnone := run_none_of_last hst' ((Bool.not_eq_true _).mp hlast) s.store
              runId reply
            obtain rfl := step_work hworker hs
            rw [ahead, current] at hr
            dsimp only at hr
            rw [hnone] at hr
            have hqueue : runId ∈ s.queue := hr
            rw [ahead, current, hworker] at hnodup
            exact (List.nodup_cons.mp hnodup).1 hqueue
        | advance i fault =>
          cases fault with
          | some e => cases hwrites
          | none =>
            obtain ⟨stage, -, hwrites⟩ := Option.bind_eq_some_iff.mp hwrites
            obtain ⟨r', -, heq⟩ := Option.map_eq_some_iff.mp hwrites
            obtain ⟨rfl, rfl⟩ := Prod.mk.inj heq
            rfl
        | dequeue | cancel => cases hwrites
      · rw [if_neg hrw]
        refine h.pending r (hbefore.resolve_right ?_)
        rintro rfl
        cases hwrites
        exact hrw rfl
  · intro r hr
    rw [hstatus r] at hr
    cases hwrites : s.writes e with
    | none =>
      rw [hwrites] at hr
      exact h.notExpired r hr
    | some write =>
      obtain ⟨w, st⟩ := write
      rw [hwrites] at hr
      dsimp only at hr
      split at hr
      · obtain rfl := Option.some.inj hr
        cases e with
        | create runId queueOpen => cases queueOpen <;> cases hwrites
        | work fault reply =>
          cases fault with
          | some e => cases hwrites
          | none =>
            obtain ⟨⟨runId, stage⟩, -, hwrites⟩ := Option.bind_eq_some_iff.mp hwrites
            obtain ⟨st', hst', heq⟩ := Option.map_eq_some_iff.mp hwrites
            obtain ⟨rfl, rfl⟩ := Prod.mk.inj heq
            cases stage <;> cases hst'
        | advance i fault =>
          cases fault with
          | some e => cases hwrites
          | none =>
            obtain ⟨stage, -, hwrites⟩ := Option.bind_eq_some_iff.mp hwrites
            obtain ⟨r', -, heq⟩ := Option.map_eq_some_iff.mp hwrites
            cases heq
        | dequeue | cancel => cases hwrites
      · exact h.notExpired r hr

/-! ### Finality -/

/-- No terminal status has changed. -/
def KeepsTerminal (s s' : Service) : Prop :=
  ∀ r st, s.status r = some st → st.isTerminal = true → s'.status r = some st

/-- **The guard.**  A status that the worker writes finds its run not cancelled, and a cancel
that is written finds its run neither completed nor failed. -/
def Guard (s : Service) : Event → Prop
  | .work none _ => ∀ r stage, s.worker = some (r, stage) → stage.writes ≠ none →
      s.status r ≠ some .cancelled
  | .advance i none => ∀ stage r, s.cancels[i]? = some stage → stage.writes = some r →
      s.status r ≠ some .completed ∧ s.status r ≠ some .failed
  | _ => True

/-- A step keeps the terminal statuses exactly if the one it writes is not over another. -/
theorem keepsTerminal_iff {s s' : Service} {e : Event} {out : Unit}
    (hs : s.step e = some (s', out)) :
    s.KeepsTerminal s' ↔ ∀ r st, s.writes e = some (r, st) →
      ∀ old, s.status r = some old → old.isTerminal = true → old = st := by
  have hstatus := step_status hs
  constructor
  · intro hkeeps r st hwrites old hold hterminal
    have hnew := hkeeps r old hold hterminal
    rw [hstatus r, hwrites] at hnew
    dsimp only at hnew
    rw [if_pos rfl] at hnew
    exact (Option.some.inj hnew).symm
  · intro h r old hold hterminal
    rw [hstatus r]
    cases hwrites : s.writes e with
    | none => exact hold
    | some write =>
      obtain ⟨w, st⟩ := write
      dsimp only
      by_cases hrw : r = w
      · subst hrw
        rw [if_pos rfl, h r st hwrites old hold hterminal]
      · rw [if_neg hrw]
        exact hold

/-- **A step keeps the terminal statuses exactly if it meets its guard.** -/
theorem guard_exact {s s' : Service} {e : Event} {out : Unit} (h : s.Open)
    (hs : s.step e = some (s', out)) : s.KeepsTerminal s' ↔ s.Guard e := by
  rw [keepsTerminal_iff hs]
  cases e with
  | create runId queueOpen =>
    refine iff_of_true (fun r st hwrites old hold _ => ?_) trivial
    cases hwrites
    rw [step, if_pos (mem_runs_of_status hold)] at hs
    cases hs
  | dequeue => exact iff_of_true (fun r st hwrites => by cases hwrites) trivial
  | cancel runId => exact iff_of_true (fun r st hwrites => by cases hwrites) trivial
  | work fault reply =>
    cases fault with
    | some e => exact iff_of_true (fun r st hwrites => by cases hwrites) trivial
    | none =>
      constructor
      · intro hover r stage hworker hwrites hcancelled
        obtain ⟨st, hst⟩ := Option.ne_none_iff_exists'.mp hwrites
        have heq := hover r st ((writes_work hworker reply).trans (by rw [hst]; rfl)) _
          hcancelled rfl
        subst heq
        cases stage <;> cases hst
      · intro hguard r st hwrites old hold hterminal
        obtain ⟨⟨runId, stage⟩, hworker, hwrites⟩ := Option.bind_eq_some_iff.mp hwrites
        obtain ⟨st', hst', heq⟩ := Option.map_eq_some_iff.mp hwrites
        obtain ⟨rfl, rfl⟩ := Prod.mk.inj heq
        -- the run is pending, so the only terminal status it can have is cancelled
        have hmem : runId ∈ s.ahead := by
          rw [ahead, current, hworker]
          exact List.mem_cons_self
        obtain ⟨st, hst, hpending⟩ := h.pending runId hmem
        obtain rfl := Option.some.inj (hold.symm.trans hst)
        have hnot := hguard runId stage hworker (by rw [hst']; simp)
        cases old with
        | cancelled => exact absurd hold hnot
        | queued | inProgress => cases hterminal
        | completed | failed | expired => cases hpending
  | advance i fault =>
    cases fault with
    | some e => exact iff_of_true (fun r st hwrites => by cases hwrites) trivial
    | none =>
      constructor
      · intro hover stage r hi hwrites
        have hwrite : s.writes (.advance i none) = some (r, .cancelled) := by
          rw [writes, hi, Option.bind_some, hwrites]
          rfl
        constructor
        · intro hcompleted
          cases hover r .cancelled hwrite _ hcompleted rfl
        · intro hfailed
          cases hover r .cancelled hwrite _ hfailed rfl
      · intro hguard r st hwrites old hold hterminal
        obtain ⟨stage, hi, hwrites⟩ := Option.bind_eq_some_iff.mp hwrites
        obtain ⟨r', hr', heq⟩ := Option.map_eq_some_iff.mp hwrites
        obtain ⟨rfl, rfl⟩ := Prod.mk.inj heq
        obtain ⟨hcompleted, hfailed⟩ := hguard stage r' hi hr'
        cases old with
        | cancelled => rfl
        | completed => exact absurd hold hcompleted
        | failed => exact absurd hold hfailed
        | expired => exact absurd hold (h.notExpired r')
        | queued | inProgress => cases hterminal

/-- A step panics only where the identifier of a new run is not new. -/
theorem guard_of_none {s : Service} {e : Event} (hs : s.step e = none) : s.Guard e := by
  cases e with
  | create | dequeue | cancel => trivial
  | work fault reply =>
    rw [step] at hs
    split at hs <;> cases hs
  | advance i fault =>
    rw [step] at hs
    split at hs <;> cases hs

/-- **When terminal statuses are final.**  No step of a run of the service, with any runs and
any requests to cancel, changes a terminal status, exactly if every step meets its guard. -/
theorem final_iff_guarded (events : List Event) :
    EachStep step KeepsTerminal init events ↔ StepsMeet step Guard init events :=
  eachStep_iff_stepsMeet (J := Open) open_step (fun _ hs => guard_of_none hs) guard_exact
    open_init events

/-- And then a terminal status stays, from whenever it is reached. -/
theorem terminal_stays {events : List Event} (hmeet : StepsMeet step Guard init events)
    {tr tr' : List (Event × Unit)} {s s' : Service} (hr : Run step init tr s)
    (hr' : Run step s tr' s') (hevents : events = (tr ++ tr').map Prod.fst) :
    s.KeepsTerminal s' := by
  subst hevents
  rw [List.map_append] at hmeet
  have hopen : s.Open := hr.invariant open_step open_init
  have heach : EachStep step KeepsTerminal s (tr'.map Prod.fst) :=
    (eachStep_iff_stepsMeet (J := Open) open_step (fun _ hs => guard_of_none hs) guard_exact
      hopen _).mpr (hmeet.of_run hr)
  exact heach.of_run (fun _ _ _ h _ => h)
    (fun h h' r st hst hterminal => h' r st (h r st hst hterminal) hterminal) hr'

/-- A run is cancelled before the worker takes it. -/
def cancelledWhileQueued : List Event :=
  [.create "run" true, .cancel "run", .advance 0 none, .advance 0 none, .advance 0 none,
    .dequeue, .work none (.ok ""), .work none (.ok ""), .work none (.ok "")]

/-- **A cancelled run ends as failed**: the worker finds it cancelled, and takes that for an
error of its own. -/
theorem cancelled_then_failed :
    ∃ tr tr' s s', runInputs step init (cancelledWhileQueued.take 5) = some (tr, s) ∧
      runInputs step s (cancelledWhileQueued.drop 5) = some (tr', s') ∧
      s.status "run" = some .cancelled ∧ s'.status "run" = some .failed :=
  ⟨_, _, _, _, rfl, rfl, rfl, rfl⟩

end Service

end Assistants

end Oxillama
