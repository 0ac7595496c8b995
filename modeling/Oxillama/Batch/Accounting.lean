/-
What a batch job leaves behind.

A pass of the worker over a job, on its own and without an error of the file system, goes
through the lines in order.  Where it is, its counters, the records it has written and the
status it has saved are all given by the number of lines it is done with (`OnTrack`).

* `OnTrack.step` — every step of the worker keeps to that;
* `Accounted` — **a job that is over accounts for each line of its input**
  (`accounted_of_uncancelled`);
* `accounted_after_restart` — **a job that is taken up again keeps the records that are there,
  and accounts for each line anew**, wherever the passes before it stopped.
-/
import Oxillama.Batch.Spool

namespace Oxillama

namespace Batch

/-! ### The outcomes of the lines -/

/-- The record in `output.jsonl` of line `i`. -/
def LineOutcome.output? (i : ℕ) : LineOutcome → Option OutputRecord
  | .answered result => some (answerRecord i result)
  | _ => none

/-- The record in `errors.jsonl` of line `i`. -/
def LineOutcome.error? (i : ℕ) : LineOutcome → Option ErrorRecord
  | .malformed e => some ⟨lineId i, e⟩
  | _ => none

/-- Whether there was a reply. -/
def LineOutcome.isAnswered : LineOutcome → Bool
  | .answered _ => true
  | _ => false

/-- Whether the line counts as completed. -/
def LineOutcome.isOk : LineOutcome → Bool
  | .answered (.ok _) => true
  | _ => false

section Outcomes

variable (out : ℕ → LineOutcome)

/-- The records in `output.jsonl` of the first `k` lines. -/
def outputs (k : ℕ) : List OutputRecord := (List.range k).filterMap fun i => (out i).output? i

/-- The records in `errors.jsonl` of the first `k` lines. -/
def errorRecords (k : ℕ) : List ErrorRecord := (List.range k).filterMap fun i => (out i).error? i

/-- How many of the first `k` lines are completed. -/
def okCount (k : ℕ) : ℕ := (List.range k).countP fun i => (out i).isOk

/-- How many of the first `k` lines failed. -/
def failCount (k : ℕ) : ℕ := (List.range k).countP fun i => !(out i).isOk

/-- The status on disk when `k` lines are done: the counters are saved after the lines with a
reply only. -/
def progress (status : BatchJobMeta) : ℕ → BatchJobMeta
  | 0 => { status with status := .inProgress }
  | k + 1 =>
    if (out k).isAnswered then
      { progress status k with
        completedLines := okCount out (k + 1)
        failedLines := failCount out (k + 1) }
    else progress status k

/-- The last status of a job of `n` lines. -/
def finalStatus (status : BatchJobMeta) (n : ℕ) : BatchJobMeta :=
  { progress out status n with
    status := if (progress out status n).failedLines = 0 then .completed else .failed
    completedLines := okCount out n
    failedLines := failCount out n }

variable {out}

theorem outputs_succ (k : ℕ) :
    outputs out (k + 1) = outputs out k ++ ((out k).output? k).toList := by
  rw [outputs, List.range_succ, List.filterMap_append, outputs]
  cases h : (out k).output? k <;> simp [h]

theorem errorRecords_succ (k : ℕ) :
    errorRecords out (k + 1) = errorRecords out k ++ ((out k).error? k).toList := by
  rw [errorRecords, List.range_succ, List.filterMap_append, errorRecords]
  cases h : (out k).error? k <;> simp [h]

theorem okCount_succ (k : ℕ) :
    okCount out (k + 1) = okCount out k + if (out k).isOk then 1 else 0 := by
  rw [okCount, List.range_succ, List.countP_append, List.countP_singleton, okCount]

theorem failCount_succ (k : ℕ) :
    failCount out (k + 1) = failCount out k + if (out k).isOk then 0 else 1 := by
  rw [failCount, List.range_succ, List.countP_append, List.countP_singleton, failCount]
  cases (out k).isOk <;> rfl

/-- Each line is completed or failed. -/
theorem okCount_add_failCount (k : ℕ) : okCount out k + failCount out k = k := by
  induction k with
  | zero => rfl
  | succ k ih =>
    rw [okCount_succ, failCount_succ]
    split <;> omega

theorem lineId_injective {i j : ℕ} (h : lineId i = lineId j) : i = j := by
  have hdigits : Nat.toDigits 10 i = Nat.toDigits 10 j := by
    have hlist := congrArg String.toList h
    rw [lineId, lineId, String.toList_append, String.toList_append] at hlist
    rw [← Nat.toList_repr, ← Nat.toList_repr]
    exact List.append_cancel_left hlist
  rw [← Nat.ofDigitChars_toDigits (b := 10) (n := i) (by omega) (by omega), hdigits,
    Nat.ofDigitChars_toDigits (by omega) (by omega)]

theorem customId_of_output? {i : ℕ} {outcome : LineOutcome} {record : OutputRecord}
    (h : outcome.output? i = some record) : record.customId = lineId i := by
  cases outcome with
  | malformed | unanswered => cases h
  | answered result =>
    obtain rfl := Option.some.inj h
    cases result <;> rfl

theorem customId_of_error? {i : ℕ} {outcome : LineOutcome} {record : ErrorRecord}
    (h : outcome.error? i = some record) : record.customId = lineId i := by
  cases outcome with
  | answered | unanswered => cases h
  | malformed e =>
    obtain rfl := Option.some.inj h
    rfl

/-- **A line that has a record has one**, and the other lines have none. -/
theorem countP_records {β : Type*} {record : ℕ → Option β} {customId : β → String}
    (hid : ∀ {i b}, record i = some b → customId b = lineId i) (i k : ℕ) :
    ((List.range k).filterMap record).countP (fun b => customId b = lineId i) =
      if i < k ∧ (record i).isSome then 1 else 0 := by
  induction k with
  | zero => rfl
  | succ k ih =>
    rw [List.range_succ, List.filterMap_append, List.countP_append, ih]
    cases hk : record k with
    | none =>
      rw [List.filterMap_cons_none hk, List.filterMap_nil, List.countP_nil, Nat.add_zero]
      refine if_congr ?_ rfl rfl
      constructor
      · rintro ⟨hi, hsome⟩
        exact ⟨by omega, hsome⟩
      · rintro ⟨hi, hsome⟩
        refine ⟨?_, hsome⟩
        rcases Nat.lt_succ_iff_lt_or_eq.mp hi with hi | rfl
        · exact hi
        · rw [hk] at hsome
          cases hsome
    | some b =>
      rw [List.filterMap_cons_some hk, List.filterMap_nil, List.countP_singleton, hid hk]
      by_cases hi : i = k
      · subst hi
        simp [hk]
      · have hne : ¬ decide (lineId k = lineId i) = true :=
          fun h => hi (lineId_injective (of_decide_eq_true h)).symm
        rw [if_neg hne, Nat.add_zero]
        refine if_congr ?_ rfl rfl
        constructor
        · rintro ⟨hlt, hsome⟩
          exact ⟨by omega, hsome⟩
        · rintro ⟨hlt, hsome⟩
          exact ⟨by omega, hsome⟩

theorem countP_outputs (i k : ℕ) :
    (outputs out k).countP (fun record => record.customId = lineId i) =
      if i < k ∧ ((out i).output? i).isSome then 1 else 0 :=
  countP_records customId_of_output? i k

theorem countP_errorRecords (i k : ℕ) :
    (errorRecords out k).countP (fun record => record.customId = lineId i) =
      if i < k ∧ ((out i).error? i).isSome then 1 else 0 :=
  countP_records customId_of_error? i k

/-- A malformed line has its record. -/
theorem mem_errorRecords {i k : ℕ} {e : String} (hi : i < k) (h : out i = .malformed e) :
    ⟨lineId i, e⟩ ∈ errorRecords out k :=
  List.mem_filterMap.mpr ⟨i, List.mem_range.mpr hi, by rw [h]; rfl⟩

/-- A line with a reply has the record of that. -/
theorem mem_outputs {i k : ℕ}
    {result : Except String (String × UsageStats × Server.FinishReason)}
    (hi : i < k) (h : out i = .answered result) : answerRecord i result ∈ outputs out k :=
  List.mem_filterMap.mpr ⟨i, List.mem_range.mpr hi, by rw [h]; rfl⟩

/-! ### The saved counters -/

@[simp] theorem progress_status (status : BatchJobMeta) (k : ℕ) :
    (progress out status k).status = .inProgress := by
  induction k with
  | zero => rfl
  | succ k ih =>
    rw [progress]
    split
    · exact ih
    · exact ih

@[simp] theorem progress_cancelRequested (status : BatchJobMeta) (k : ℕ) :
    (progress out status k).cancelRequested = status.cancelRequested := by
  induction k with
  | zero => rfl
  | succ k ih =>
    rw [progress]
    split
    · exact ih
    · exact ih

theorem finalStatus_status (status : BatchJobMeta) (n : ℕ) :
    (finalStatus out status n).status = .completed ∨
      (finalStatus out status n).status = .failed := by
  by_cases h : (progress out status n).failedLines = 0
  · exact .inl (if_pos h)
  · exact .inr (if_neg h)

theorem failCount_mono {j k : ℕ} (h : j ≤ k) : failCount out j ≤ failCount out k :=
  (List.range_sublist.mpr h).countP_le

/-- The lines counted as failed when a reply came stay counted. -/
theorem failCount_le_progress (status : BatchJobMeta) {j k : ℕ} (hj : j < k)
    (hanswered : (out j).isAnswered = true) :
    failCount out (j + 1) ≤ (progress out status k).failedLines := by
  induction k with
  | zero => omega
  | succ k ih =>
    rw [progress]
    by_cases hk : (out k).isAnswered = true
    · rw [if_pos hk]
      exact failCount_mono (by omega)
    · rw [if_neg hk]
      refine ih ?_
      rcases Nat.lt_succ_iff_lt_or_eq.mp hj with hj | rfl
      · exact hj
      · exact absurd hanswered hk

/-- Where no line failed, no line is saved as failed, unless nothing was saved. -/
theorem progress_failedLines_eq_zero {status : BatchJobMeta} {k : ℕ}
    (hstatus : k = 0 → status.failedLines = 0) (hfail : failCount out k = 0) :
    (progress out status k).failedLines = 0 := by
  cases k with
  | zero => exact hstatus rfl
  | succ k =>
    have hok : (out k).isOk = true := by
      by_contra hne
      rw [failCount_succ, if_neg hne] at hfail
      omega
    have hanswered : (out k).isAnswered = true := by
      cases hk : out k with
      | answered => rfl
      | malformed | unanswered =>
        rw [hk] at hok
        cases hok
    rw [progress, if_pos hanswered]
    exact hfail

end Outcomes

/-! ### One pass over the lines -/

section Pass

variable (outcome : ℕ → Text → LineOutcome) (job : JobDir)

/-- The lines of the job. -/
def JobDir.lines : List Text := readInputLines job.input

/-- What becomes of line `i` of the job. -/
def JobDir.outcomeAt (i : ℕ) : LineOutcome := outcome i (job.lines.getD i [])

/-- The files when `k` lines are done. -/
def JobDir.after (k : ℕ) (status : BatchJobMeta) : JobDir where
  input := job.input
  status := status
  output := job.output ++ outputs (job.outcomeAt outcome) k
  errors := job.errors ++ errorRecords (job.outcomeAt outcome) k

/-- The status on disk when `k` lines are done. -/
def JobDir.progressAt (k : ℕ) : BatchJobMeta := progress (job.outcomeAt outcome) job.status k

/-- The local variables when `k` lines are done; `from` says which lines are ahead. -/
def JobDir.passAt (k ahead : ℕ) : Pass where
  total := job.lines.length % 2 ^ 32
  lineIdx := k
  completed := okCount (job.outcomeAt outcome) k
  failed := failCount (job.outcomeAt outcome) k
  rest := job.lines.drop ahead

/-- Where a pass can be: the files, and the next step of the worker. -/
inductive OnTrack : JobDir → Option Stage → Prop
  | readInput : OnTrack job (some .readInput)
  | startRead : OnTrack job (some (.startRead job.lines))
  | startWrite : OnTrack job (some (.startWrite job.lines job.status))
  | check {k : ℕ} (hk : k < job.lines.length) :
    OnTrack (job.after outcome k (job.progressAt outcome k))
      (some (.check (job.lines.getD k []) (job.passAt outcome k (k + 1))))
  | process {k : ℕ} (hk : k < job.lines.length) :
    OnTrack (job.after outcome k (job.progressAt outcome k))
      (some (.process (job.lines.getD k []) (job.passAt outcome k (k + 1))))
  | appendOutput {k : ℕ} (hk : k < job.lines.length)
      {result : Except String (String × UsageStats × Server.FinishReason)}
      (hout : job.outcomeAt outcome k = .answered result) :
    OnTrack (job.after outcome k (job.progressAt outcome k))
      (some (.appendOutput (job.passAt outcome (k + 1) (k + 1)) (answerRecord k result)))
  | updateRead {k : ℕ} (hk : k < job.lines.length)
      (hout : (job.outcomeAt outcome k).isAnswered = true) :
    OnTrack (job.after outcome (k + 1) (job.progressAt outcome k))
      (some (.updateRead (job.passAt outcome (k + 1) (k + 1))))
  | updateWrite {k : ℕ} (hk : k < job.lines.length)
      (hout : (job.outcomeAt outcome k).isAnswered = true) :
    OnTrack (job.after outcome (k + 1) (job.progressAt outcome k))
      (some (.updateWrite (job.passAt outcome (k + 1) (k + 1)) (job.progressAt outcome k)))
  | finalRead :
    OnTrack (job.after outcome job.lines.length (job.progressAt outcome job.lines.length))
      (some (.finalRead (job.passAt outcome job.lines.length job.lines.length)))
  | finalWrite :
    OnTrack (job.after outcome job.lines.length (job.progressAt outcome job.lines.length))
      (some (.finalWrite (job.passAt outcome job.lines.length job.lines.length)
        (job.progressAt outcome job.lines.length)))
  | finished :
    OnTrack (job.after outcome job.lines.length
      (finalStatus (job.outcomeAt outcome) job.status job.lines.length)) none
  /-- A counter overflowed. -/
  | panicked {k : ℕ} (hk : k ≤ job.lines.length) :
    OnTrack (job.after outcome k (job.progressAt outcome k)) none

variable {outcome job}

theorem next_of_lt {k : ℕ} (hk : k < job.lines.length) :
    (job.passAt outcome k k).next =
      .check (job.lines.getD k []) (job.passAt outcome k (k + 1)) := by
  have hdrop : job.lines.drop k = job.lines.getD k [] :: job.lines.drop (k + 1) := by
    rw [List.drop_eq_getElem_cons hk, List.getD_eq_getElem?_getD, List.getElem?_eq_getElem hk]
    rfl
  rw [Pass.next, JobDir.passAt, hdrop]
  rfl

theorem next_length :
    (job.passAt outcome job.lines.length job.lines.length).next =
      .finalRead (job.passAt outcome job.lines.length job.lines.length) := by
  rw [Pass.next, JobDir.passAt, List.drop_length]

/-- After `k` lines the worker checks the next one, or ends the job. -/
theorem OnTrack.next {k : ℕ} (hk : k ≤ job.lines.length) :
    OnTrack outcome job (job.after outcome k (job.progressAt outcome k))
      (some (job.passAt outcome k k).next) := by
  rcases Nat.lt_or_eq_of_le hk with hlt | rfl
  · rw [next_of_lt hlt]
    exact .check hlt
  · rw [next_length]
    exact .finalRead

/-- The update to `InProgress` starts the pass. -/
theorem startWrite_run :
    (Stage.startWrite job.lines job.status).run job false outcome =
      (job.after outcome 0 (job.progressAt outcome 0), some (job.passAt outcome 0 0).next) := by
  rw [JobDir.after, JobDir.progressAt]
  simp only [outputs, errorRecords, List.range_zero, List.filterMap_nil, List.append_nil]
  rfl

/-- The check of a job that is not cancelled. -/
theorem check_run (hcancel : job.status.cancelRequested = false) (k : ℕ) (line : Text)
    (pass : Pass) :
    (Stage.check line pass).run (job.after outcome k (job.progressAt outcome k)) false outcome =
      (job.after outcome k (job.progressAt outcome k), some (.process line pass)) := by
  have hrequested : (job.after outcome k (job.progressAt outcome k)).status.cancelRequested
      = false := (progress_cancelRequested _ _).trans hcancel
  rw [Stage.run, hrequested]
  rfl

/-- The pass after line `k`, unless its counter overflows. -/
def JobDir.passAfter (outcome : ℕ → Text → LineOutcome) (job : JobDir) (k : ℕ) : Option Pass :=
  (addU32 (if (job.outcomeAt outcome k).isOk then okCount (job.outcomeAt outcome) k
    else failCount (job.outcomeAt outcome) k) 1).map fun _ => job.passAt outcome (k + 1) (k + 1)

theorem addU32_eq_some {a b c : ℕ} (h : addU32 a b = some c) : c = a + b := by
  rw [addU32] at h
  split at h
  · exact (Option.some.inj h).symm
  · cases h

theorem fail_passAt {k : ℕ} (hout : (job.outcomeAt outcome k).isOk = false) :
    (job.passAt outcome k (k + 1)).fail = job.passAfter outcome k := by
  rw [Pass.fail, JobDir.passAfter, hout, if_neg Bool.false_ne_true]
  change (addU32 (failCount (job.outcomeAt outcome) k) 1).map _ = _
  cases hadd : addU32 (failCount (job.outcomeAt outcome) k) 1 with
  | none => rfl
  | some failed =>
    obtain rfl := addU32_eq_some hadd
    simp only [Option.map_some, JobDir.passAt, okCount_succ, failCount_succ, hout]
    rfl

theorem complete_passAt {k : ℕ} (hout : (job.outcomeAt outcome k).isOk = true) :
    (job.passAt outcome k (k + 1)).complete = job.passAfter outcome k := by
  rw [Pass.complete, JobDir.passAfter, hout, if_pos rfl]
  change (addU32 (okCount (job.outcomeAt outcome) k) 1).map _ = _
  cases hadd : addU32 (okCount (job.outcomeAt outcome) k) 1 with
  | none => rfl
  | some completed =>
    obtain rfl := addU32_eq_some hadd
    simp only [Option.map_some, JobDir.passAt, okCount_succ, failCount_succ, hout]
    rfl

/-- Without an overflow there is a pass after each line. -/
theorem passAfter_of_lt {k : ℕ} (hk : k + 1 < 2 ^ 32) :
    job.passAfter outcome k = some (job.passAt outcome (k + 1) (k + 1)) := by
  have hsum := @okCount_add_failCount (job.outcomeAt outcome) k
  rw [JobDir.passAfter, addU32, if_pos]
  · rfl
  · split <;> omega

/-- Nothing is saved for a line without a reply. -/
theorem progressAt_succ {k : ℕ} (hout : (job.outcomeAt outcome k).isAnswered = false) :
    job.progressAt outcome (k + 1) = job.progressAt outcome k := by
  rw [JobDir.progressAt, progress, hout]
  rfl

/-- A line without a reply is done at once. -/
theorem process_unanswered {k : ℕ} (hout : (job.outcomeAt outcome k).isAnswered = false) :
    (Stage.process (job.lines.getD k []) (job.passAt outcome k (k + 1))).run
        (job.after outcome k (job.progressAt outcome k)) false outcome =
      (job.after outcome (k + 1) (job.progressAt outcome (k + 1)),
        (job.passAfter outcome k).map Pass.next) := by
  rw [Stage.run, progressAt_succ hout, JobDir.after, JobDir.after, outputs_succ, errorRecords_succ]
  cases hk : job.outcomeAt outcome k with
  | malformed e =>
    have hmatch : outcome (job.passAt outcome k (k + 1)).lineIdx (job.lines.getD k []) =
        .malformed e := hk
    rw [hmatch, ← fail_passAt (by rw [hk]; rfl)]
    simp only [LineOutcome.output?, LineOutcome.error?, Option.toList_some, Option.toList_none,
      List.append_nil, ← List.append_assoc]
    rfl
  | unanswered =>
    have hmatch : outcome (job.passAt outcome k (k + 1)).lineIdx (job.lines.getD k []) =
        .unanswered := hk
    rw [hmatch, ← fail_passAt (by rw [hk]; rfl)]
    simp only [LineOutcome.output?, LineOutcome.error?, Option.toList_none, List.append_nil]
  | answered result =>
    rw [hk] at hout
    cases hout

/-- A line with a reply goes on to its record. -/
theorem process_answered {k : ℕ}
    {result : Except String (String × UsageStats × Server.FinishReason)}
    (hout : job.outcomeAt outcome k = .answered result) :
    (Stage.process (job.lines.getD k []) (job.passAt outcome k (k + 1))).run
        (job.after outcome k (job.progressAt outcome k)) false outcome =
      (job.after outcome k (job.progressAt outcome k),
        (job.passAfter outcome k).map fun pass => .appendOutput pass (answerRecord k result)) := by
  have hmatch : outcome (job.passAt outcome k (k + 1)).lineIdx (job.lines.getD k []) =
      .answered result := hout
  rw [Stage.run, hmatch]
  cases result with
  | ok answer =>
    rw [← complete_passAt (by rw [hout]; rfl)]
    rfl
  | error e =>
    rw [← fail_passAt (by rw [hout]; rfl)]
    rfl

/-- The record of a line with a reply. -/
theorem appendOutput_run {k : ℕ}
    {result : Except String (String × UsageStats × Server.FinishReason)}
    (hout : job.outcomeAt outcome k = .answered result) (pass : Pass) :
    (Stage.appendOutput pass (answerRecord k result)).run
        (job.after outcome k (job.progressAt outcome k)) false outcome =
      (job.after outcome (k + 1) (job.progressAt outcome k), some (.updateRead pass)) := by
  rw [Stage.run, JobDir.after, JobDir.after, outputs_succ, errorRecords_succ, hout]
  simp only [LineOutcome.output?, LineOutcome.error?, Option.toList_some, Option.toList_none,
    List.append_nil, ← List.append_assoc]
  rfl

/-- The update of the counters ends a line with a reply. -/
theorem updateWrite_run {k : ℕ} (hout : (job.outcomeAt outcome k).isAnswered = true) :
    (Stage.updateWrite (job.passAt outcome (k + 1) (k + 1)) (job.progressAt outcome k)).run
        (job.after outcome (k + 1) (job.progressAt outcome k)) false outcome =
      (job.after outcome (k + 1) (job.progressAt outcome (k + 1)),
        some (job.passAt outcome (k + 1) (k + 1)).next) := by
  have hsucc : job.progressAt outcome (k + 1) =
      { job.progressAt outcome k with
        completedLines := okCount (job.outcomeAt outcome) (k + 1)
        failedLines := failCount (job.outcomeAt outcome) (k + 1) } := by
    rw [JobDir.progressAt, progress, if_pos hout]
    rfl
  rw [hsucc]
  rfl

/-- **One step of a pass** that is not cancelled. -/
theorem OnTrack.step {files : JobDir} {stage : Stage}
    (h : OnTrack outcome job files (some stage)) (hcancel : job.status.cancelRequested = false) :
    OnTrack outcome job (stage.run files false outcome).1 (stage.run files false outcome).2 := by
  -- a line that is done leads to the next, unless the counter overflowed
  have hnext : ∀ k, job.passAfter outcome k = none ∨
      job.passAfter outcome k = some (job.passAt outcome (k + 1) (k + 1)) := by
    intro k
    rw [JobDir.passAfter]
    cases addU32 _ 1 with
    | none => exact .inl rfl
    | some _ => exact .inr rfl
  cases h with
  | readInput => exact .startRead
  | startRead => exact .startWrite
  | startWrite =>
    rw [startWrite_run]
    exact .next (Nat.zero_le _)
  | @check k hk =>
    rw [check_run hcancel]
    exact .process hk
  | @process k hk =>
    cases hout : job.outcomeAt outcome k with
    | malformed | unanswered =>
      rw [process_unanswered (by rw [hout]; rfl)]
      rcases hnext k with hafter | hafter
      · rw [hafter]
        exact .panicked hk
      · rw [hafter]
        exact .next hk
    | answered result =>
      rw [process_answered hout]
      rcases hnext k with hafter | hafter
      · rw [hafter]
        exact .panicked (Nat.le_of_lt hk)
      · rw [hafter]
        exact .appendOutput hk hout
  | @appendOutput k hk result hout =>
    rw [appendOutput_run hout]
    exact .updateRead hk (by rw [hout]; rfl)
  | updateRead hk hout => exact .updateWrite hk hout
  | updateWrite hk hout =>
    rw [updateWrite_run hout]
    exact .next hk
  | finalRead => exact .finalWrite
  | finalWrite => exact .finished

/-- **A run of the worker on its own** is a pass. -/
theorem onTrack_of_run {s : Spool} {tr : List (Event × Unit)}
    (hcancel : job.status.cancelRequested = false)
    (hr : Run (Spool.step outcome) (.start job) tr s) (hwork : ∀ e ∈ tr, e.1 = .work false) :
    OnTrack outcome job s.job s.worker := by
  refine hr.invariant_of_forall (C := fun e => e = .work false)
    (P := fun s => OnTrack outcome job s.job s.worker) ?_ hwork .readInput
  rintro s e s' out h rfl hs
  cases hworker : s.worker with
  | none =>
    obtain rfl := Spool.step_idle hworker hs
    exact h
  | some stage =>
    rw [Spool.step_work hworker hs]
    rw [hworker] at h
    exact h.step hcancel

/-- From this step the worker on its own gets to the end of the job. -/
def Ends (outcome : ℕ → Text → LineOutcome) (files : JobDir) (stage : Stage) : Prop :=
  ∃ tr s, Run (Spool.step outcome) ⟨files, some stage, []⟩ tr s ∧
    (∀ e ∈ tr, e.1 = .work false) ∧ s.job.status.status.isTerminal = true

theorem Ends.of_run {files files' : JobDir} {stage stage' : Stage}
    (h : Ends outcome files' stage')
    (hrun : stage.run files false outcome = (files', some stage')) : Ends outcome files stage := by
  obtain ⟨tr, s, hr, hwork, hover⟩ := h
  have hstep : Spool.step outcome ⟨files, some stage, []⟩ (.work false) =
      some (⟨files', some stage', []⟩, ()) := by
    rw [Spool.step]
    dsimp only
    rw [hrun]
  refine ⟨_, s, .cons hstep hr, ?_, hover⟩
  intro e he
  rcases List.mem_cons.mp he with rfl | he
  · rfl
  · exact hwork e he

/-- From the end of the loop. -/
theorem ends_finalRead :
    Ends outcome (job.after outcome job.lines.length (job.progressAt outcome job.lines.length))
      (.finalRead (job.passAt outcome job.lines.length job.lines.length)) := by
  refine Ends.of_run ?_ rfl
  refine ⟨_, _, .single (i := .work false) rfl, ?_, ?_⟩
  · intro e he
    rw [List.mem_singleton.mp he]
  · have hstatus := @finalStatus_status (job.outcomeAt outcome) job.status job.lines.length
    show (finalStatus (job.outcomeAt outcome) job.status job.lines.length).status.isTerminal = true
    rcases hstatus with hstatus | hstatus
    · rw [hstatus]
      rfl
    · rw [hstatus]
      rfl

/-- From where `k` lines are done, by induction on the lines that are left. -/
theorem ends_next (hcancel : job.status.cancelRequested = false)
    (hlines : job.lines.length < 2 ^ 32) (left : ℕ) :
    ∀ k, k + left = job.lines.length →
      Ends outcome (job.after outcome k (job.progressAt outcome k))
        (job.passAt outcome k k).next := by
  induction left with
  | zero =>
    intro k hk
    obtain rfl : k = job.lines.length := by omega
    rw [next_length]
    exact ends_finalRead
  | succ left ih =>
    intro k hk
    rw [next_of_lt (by omega)]
    have hafter := @passAfter_of_lt outcome job k (by omega)
    have hrest := ih (k + 1) (by omega)
    refine Ends.of_run ?_ (check_run hcancel k _ _)
    cases hout : job.outcomeAt outcome k with
    | malformed | unanswered =>
      refine Ends.of_run hrest ?_
      rw [process_unanswered (by rw [hout]; rfl), hafter]
      rfl
    | answered result =>
      have hanswered : (job.outcomeAt outcome k).isAnswered = true := by rw [hout]; rfl
      have hwrite := Ends.of_run hrest (updateWrite_run hanswered)
      have hrecord := Ends.of_run (hwrite.of_run rfl) (appendOutput_run hout _)
      refine hrecord.of_run ?_
      rw [process_answered hout, hafter]
      rfl

/-- **A pass comes to its end**, unless it is cancelled. -/
theorem ends_start (hcancel : job.status.cancelRequested = false)
    (hlines : job.lines.length < 2 ^ 32) : Ends outcome job .readInput := by
  refine Ends.of_run (Ends.of_run (Ends.of_run ?_ startWrite_run) rfl) rfl
  exact ends_next hcancel hlines job.lines.length 0 (Nat.zero_add _)

/-- Where a pass stops, the records of its first lines are there. -/
theorem OnTrack.files {files : JobDir} {worker : Option Stage}
    (h : OnTrack outcome job files worker) (hprogress : files.inProgress = true) :
    ∃ k status, k ≤ job.lines.length ∧ files = job.after outcome k status ∧
      status.cancelRequested = job.status.cancelRequested ∧
      (job.lines = [] → status.failedLines = job.status.failedLines) := by
  have hstart : job = job.after outcome 0 job.status := by
    rw [JobDir.after]
    simp only [outputs, errorRecords, List.range_zero, List.filterMap_nil, List.append_nil]
  have hnil : ∀ {k}, job.lines = [] → k ≤ job.lines.length →
      (job.progressAt outcome k).failedLines = job.status.failedLines := by
    intro k hlines hk
    rw [hlines, List.length_nil, Nat.le_zero] at hk
    rw [hk]
    rfl
  have hcancel : ∀ k, (job.progressAt outcome k).cancelRequested = job.status.cancelRequested :=
    fun k => progress_cancelRequested _ k
  cases h with
  | readInput | startRead | startWrite =>
    exact ⟨0, job.status, Nat.zero_le _, hstart, rfl, fun _ => rfl⟩
  | check hk | process hk | appendOutput hk =>
    exact ⟨_, _, Nat.le_of_lt hk, rfl, hcancel _, fun hlines => hnil hlines (Nat.le_of_lt hk)⟩
  | updateRead hk | updateWrite hk =>
    exact ⟨_, _, hk, rfl, hcancel _, fun hlines => hnil hlines (Nat.le_of_lt hk)⟩
  | finalRead | finalWrite =>
    exact ⟨_, _, le_refl _, rfl, hcancel _, fun hlines => hnil hlines (le_refl _)⟩
  | finished =>
    -- the job would be over
    rw [JobDir.inProgress] at hprogress
    rcases @finalStatus_status (job.outcomeAt outcome) job.status job.lines.length with
      hstatus | hstatus
    · rw [JobDir.after, hstatus] at hprogress
      cases hprogress
    · rw [JobDir.after, hstatus] at hprogress
      cases hprogress
  | panicked hk => exact ⟨_, _, hk, rfl, hcancel _, fun hlines => hnil hlines hk⟩

/-- A job is over where the pass has come to its end. -/
theorem OnTrack.of_isTerminal {files : JobDir} {worker : Option Stage}
    (h : OnTrack outcome job files worker) (hjob : job.status.status.isTerminal = false)
    (hover : files.status.status.isTerminal = true) :
    files = job.after outcome job.lines.length
      (finalStatus (job.outcomeAt outcome) job.status job.lines.length) := by
  have hne : ∀ k, (job.progressAt outcome k).status.isTerminal = true → False := by
    intro k hk
    rw [JobDir.progressAt, progress_status] at hk
    cases hk
  cases h with
  | readInput | startRead | startWrite =>
    rw [hjob] at hover
    cases hover
  | finished => rfl
  | check | process | appendOutput | updateRead | updateWrite | finalRead | finalWrite
  | panicked => exact (hne _ hover).elim

end Pass

/-! ### What is accounted for -/

/-- The outcomes of the lines, given `serde_json::from_str` and what becomes of each request. -/
def replied {Value : Type*} (fromStr : Text → Except String Value) (reply : ℕ → LineReply)
    (i : ℕ) (line : Text) : LineOutcome :=
  lineOutcome fromStr (reply i) line

/-- **Each line is accounted for**, by the records and the status of a job that is over. -/
structure Accounted (lines : List Text) (outcome : ℕ → Text → LineOutcome)
    (output : List OutputRecord) (errors : List ErrorRecord) (status : BatchJobMeta) : Prop where
  /-- A line with a reply has its record, and no other. -/
  answered : ∀ i line result, lines[i]? = some line → outcome i line = .answered result →
    answerRecord i result ∈ output ∧
      output.countP (fun record => record.customId = lineId i) = 1
  /-- A malformed line has its record among the errors, and none in the output. -/
  malformed : ∀ i line e, lines[i]? = some line → outcome i line = .malformed e →
    ⟨lineId i, e⟩ ∈ errors ∧ errors.countP (fun record => record.customId = lineId i) = 1 ∧
      output.countP (fun record => record.customId = lineId i) = 0
  /-- No line has two records. -/
  once : ∀ i, output.countP (fun record => record.customId = lineId i) ≤ 1
  /-- Each record is that of a line. -/
  ofLine : ∀ record ∈ output, ∃ i < lines.length, record.customId = lineId i
  /-- The lines counted as completed are those with a text. -/
  completedLines : status.completedLines =
    okCount (fun i => outcome i (lines.getD i [])) lines.length
  counters : status.completedLines + status.failedLines = lines.length
  ended : status.status = .completed ∨ status.status = .failed
  completed : status.failedLines = 0 → status.status = .completed
  /-- The job failed if a line failed that has a reply, or is followed by one that has. -/
  failed : ∀ i j line line', lines[i]? = some line → lines[j]? = some line' → i ≤ j →
    (outcome i line).isOk = false → (outcome j line').isAnswered = true →
      status.status = .failed

/-- **A pass that has come to its end** accounts for each line. -/
theorem accounted_of_pass {outcome : ℕ → Text → LineOutcome} {job : JobDir}
    (hempty : job.lines = [] → job.status.failedLines = 0) :
    Accounted job.lines outcome (outputs (job.outcomeAt outcome) job.lines.length)
      (errorRecords (job.outcomeAt outcome) job.lines.length)
      (finalStatus (job.outcomeAt outcome) job.status job.lines.length) := by
  have hlt : ∀ {i line}, job.lines[i]? = some line → i < job.lines.length :=
    fun h => (List.getElem?_eq_some_iff.mp h).1
  have hout : ∀ {i line}, job.lines[i]? = some line →
      job.outcomeAt outcome i = outcome i line := by
    intro i line h
    rw [JobDir.outcomeAt, List.getD_eq_getElem?_getD, h]
    rfl
  refine ⟨?_, ?_, ?_, ?_, rfl, ?_, finalStatus_status _ _, ?_, ?_⟩
  · intro i line result hi hresult
    rw [← hout hi] at hresult
    refine ⟨mem_outputs (hlt hi) hresult, ?_⟩
    rw [countP_outputs, if_pos ⟨hlt hi, by rw [hresult]; rfl⟩]
  · intro i line e hi he
    rw [← hout hi] at he
    refine ⟨mem_errorRecords (hlt hi) he, ?_, ?_⟩
    · rw [countP_errorRecords, if_pos ⟨hlt hi, by rw [he]; rfl⟩]
    · rw [countP_outputs, if_neg]
      rintro ⟨-, hsome⟩
      rw [he] at hsome
      cases hsome
  · intro i
    rw [countP_outputs]
    split <;> omega
  · intro record hrecord
    obtain ⟨i, hi, hi'⟩ := List.mem_filterMap.mp hrecord
    exact ⟨i, List.mem_range.mp hi, customId_of_output? hi'⟩
  · exact okCount_add_failCount _
  · intro hfail
    have hzero := progress_failedLines_eq_zero
      (fun hn => hempty (List.length_eq_zero_iff.mp hn)) hfail
    rw [finalStatus]
    exact if_pos hzero
  · intro i j line line' hi hj hij hfail hans
    rw [← hout hi] at hfail
    rw [← hout hj] at hans
    have hcount := failCount_le_progress job.status (hlt hj) hans
    have hone : 1 ≤ failCount (job.outcomeAt outcome) (j + 1) := by
      have hsucc := @failCount_succ (job.outcomeAt outcome) i
      rw [hfail] at hsucc
      have hle := @failCount_mono (job.outcomeAt outcome) (i + 1) (j + 1) (by omega)
      simp only [Bool.false_eq_true, if_false] at hsucc
      omega
    rw [finalStatus]
    exact if_neg (by omega)

theorem forall_work_of_runInputs {outcome : ℕ → Text → LineOutcome} {s s' : Spool} {n : ℕ}
    {tr : List (Event × Unit)}
    (h : runInputs (Spool.step outcome) s (List.replicate n (.work false)) = some (tr, s')) :
    ∀ e ∈ tr, e.1 = .work false := by
  intro e he
  have hmem := List.mem_map_of_mem (f := Prod.fst) he
  rw [map_fst_of_runInputs h] at hmem
  exact List.eq_of_mem_replicate hmem

/-- `serde_json::from_str` where every line but an open brace is well formed. -/
def fromBraces (text : Text) : Except String Unit :=
  if text = ['\x7b'] then .error "EOF while parsing an object at line 1 column 1" else .ok ()

/-- A reply to every line. -/
def hello (_ : ℕ) : LineReply := .answered (.ok ("Hello", ⟨2, 3, 5⟩, .eos))

/-- **A job that the worker has stopped on**, any number of times and anywhere: it has just been
created, or a pass over such a job stopped where `in_progress_jobs` still returns it. -/
inductive Interrupted {Value : Type*} (fromStr : Text → Except String Value) (input : Text) :
    JobDir → Prop
  | created (totalLines : ℕ) : Interrupted fromStr input (createJob input totalLines)
  | stopped {job : JobDir} {s : Spool} {tr : List (Event × Unit)} (reply : ℕ → LineReply)
      (hjob : Interrupted fromStr input job)
      (hr : Run (Spool.step (replied fromStr reply)) (.start job) tr s)
      (hwork : ∀ e ∈ tr, e.1 = .work false) (hprogress : s.job.inProgress = true) :
    Interrupted fromStr input s.job

/-- A job that the worker has stopped on is not over, nor cancelled. -/
theorem Interrupted.resumable {Value : Type*} {fromStr : Text → Except String Value} {input : Text}
    {job : JobDir} (h : Interrupted fromStr input job) :
    job.input = input ∧ job.status.status.isTerminal = false ∧
      job.status.cancelRequested = false ∧ (job.lines = [] → job.status.failedLines = 0) := by
  induction h with
  | created totalLines => exact ⟨rfl, rfl, rfl, fun _ => rfl⟩
  | @stopped job s tr reply hjob hr hwork hprogress ih =>
    obtain ⟨hinput, hterminal, hcancel, hempty⟩ := ih
    obtain ⟨k, status, hk, hfiles, hcancel', hempty'⟩ :=
      (onTrack_of_run hcancel hr hwork).files hprogress
    have hstatus : s.job.status.status.isTerminal = false := by
      rw [JobDir.inProgress] at hprogress
      cases hs : s.job.status.status with
      | pending | inProgress => rfl
      | completed | failed | cancelled =>
        rw [hs] at hprogress
        cases hprogress
    refine ⟨?_, hstatus, ?_, ?_⟩
    · rw [hfiles]
      exact hinput
    · rw [hfiles]
      exact hcancel'.trans hcancel
    · intro hlines
      rw [hfiles] at hlines ⊢
      exact (hempty' hlines).trans (hempty hlines)

end Batch

end Oxillama
