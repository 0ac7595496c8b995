/-
Runs of a component driven by inputs.

A component is a step function `step : σ → ι → Option (σ × ο)`: it takes an
input, moves to a new state and answers, or panics (`none`).  A `Run` is a
finite sequence of steps together with its trace of inputs and answers.

* `Run.invariant` — a property every step preserves holds after every run;
* `Run.traceInvariant` — the same for a property of the state *and* of the
  trace that led to it, where what a component has already answered matters;
* `Run.total` — under an invariant that excludes panics, every list of inputs
  has a run.

`Along step P s is` says that the inputs `is` can be fed from `s` without a panic
and that `P` holds in every state on the way.  Where each step has a guard that
is met exactly if the step keeps `P`, `P` holds along a run exactly if every step
of it meets its guard (`along_iff_stepsMeet`).  `Always step P s is` says the same of
the states that are reached only, should a step panic (`always_iff_stepsMeet`), and
`EachStep step R s is` of the steps themselves (`eachStep_iff_stepsMeet`).

The threads of a concurrent component are a list of local states, and a step replaces
one of them.  `tally f threads` adds up what `f` counts in each of them; `tally_set` and
`tally_start` say how a step of one thread and a new thread change it.
-/
import Mathlib.Algebra.BigOperators.Group.List.Basic
import Mathlib.Algebra.GroupWithZero.Nat
import Mathlib.Data.List.Basic

namespace Oxillama

variable {σ ι ο : Type*}

/-- `Run step s tr s'`: the inputs of `tr` take `s` to `s'`, and the answers
on the way are those recorded in `tr`. -/
inductive Run (step : σ → ι → Option (σ × ο)) : σ → List (ι × ο) → σ → Prop
  | nil (s : σ) : Run step s [] s
  | cons {s s' s'' : σ} {i : ι} {out : ο} {tr : List (ι × ο)}
      (h : step s i = some (s', out)) (hr : Run step s' tr s'') :
      Run step s ((i, out) :: tr) s''

namespace Run

variable {step : σ → ι → Option (σ × ο)} {s s' s'' : σ} {tr tr' : List (ι × ο)}

theorem single {i : ι} {out : ο} (h : step s i = some (s', out)) :
    Run step s [(i, out)] s' :=
  .cons h (.nil s')

theorem append (h : Run step s tr s') (h' : Run step s' tr' s'') :
    Run step s (tr ++ tr') s'' := by
  induction h with
  | nil => exact h'
  | cons hs _ ih => exact .cons hs (ih h')

/-- The first part of a run. -/
theorem of_append (h : Run step s (tr ++ tr') s') : ∃ m, Run step s tr m ∧ Run step m tr' s' := by
  induction tr generalizing s with
  | nil => exact ⟨s, .nil s, h⟩
  | cons e tr ih =>
    obtain _ | ⟨hs, hr⟩ := h
    obtain ⟨m, hrun, hrest⟩ := ih hr
    exact ⟨m, .cons hs hrun, hrest⟩

/-- The last step of a run. -/
theorem last {i : ι} {out : ο} (h : Run step s (tr ++ [(i, out)]) s') :
    ∃ m, Run step s tr m ∧ step m i = some (s', out) := by
  induction tr generalizing s with
  | nil =>
    obtain _ | ⟨hs, hr⟩ := h
    cases hr
    exact ⟨s, .nil s, hs⟩
  | cons e tr ih =>
    obtain _ | ⟨hs, hr⟩ := h
    obtain ⟨m, hrun, hlast⟩ := ih hr
    exact ⟨m, .cons hs hrun, hlast⟩

/-- **Invariant induction.**  What every step preserves, every run preserves. -/
theorem invariant {P : σ → Prop}
    (hstep : ∀ {s i s' out}, P s → step s i = some (s', out) → P s')
    (hr : Run step s tr s') (hs : P s) : P s' := by
  induction hr with
  | nil => exact hs
  | cons h _ ih => exact ih (hstep hs h)

/-- **Invariant induction with the trace.**  `P` may speak about everything
answered so far. -/
theorem traceInvariant {P : List (ι × ο) → σ → Prop}
    (hstep : ∀ {tr s i s' out}, P tr s → step s i = some (s', out) →
      P (tr ++ [(i, out)]) s')
    (hr : Run step s tr s') {tr₀ : List (ι × ο)} (hs : P tr₀ s) : P (tr₀ ++ tr) s' := by
  induction hr generalizing tr₀ with
  | nil => simpa using hs
  | cons h _ ih => simpa using ih (hstep hs h)

/-- Under an invariant that rules panics out, every list of inputs can be
run to its end. -/
theorem total {P : σ → Prop}
    (hstep : ∀ {s i s' out}, P s → step s i = some (s', out) → P s')
    (hlive : ∀ {s} i, P s → ∃ s' out, step s i = some (s', out)) (is : List ι) (hs : P s) :
    ∃ tr s', Run step s tr s' ∧ tr.map Prod.fst = is := by
  induction is generalizing s with
  | nil => exact ⟨[], s, .nil s, rfl⟩
  | cons i is ih =>
    obtain ⟨s₁, out, h⟩ := hlive i hs
    obtain ⟨tr, s', hr, htr⟩ := ih (hstep hs h)
    exact ⟨(i, out) :: tr, s', .cons h hr, by simp [htr]⟩

end Run

/-- The inputs fed one after the other. -/
def runInputs (step : σ → ι → Option (σ × ο)) : σ → List ι → Option (List (ι × ο) × σ)
  | s, [] => some ([], s)
  | s, i :: is =>
    (step s i).bind fun (s', out) =>
      (runInputs step s' is).map fun (tr, s'') => ((i, out) :: tr, s'')

theorem run_of_runInputs {step : σ → ι → Option (σ × ο)} {s s' : σ} {is : List ι}
    {tr : List (ι × ο)}
    (h : runInputs step s is = some (tr, s')) : Run step s tr s' := by
  induction is generalizing s tr with
  | nil =>
    cases h
    exact .nil _
  | cons i is ih =>
    obtain ⟨⟨s₁, out⟩, hs, h⟩ := Option.bind_eq_some_iff.1 h
    obtain ⟨⟨rest, s₂⟩, hrest, h⟩ := Option.map_eq_some_iff.1 h
    cases h
    exact .cons hs (ih hrest)

/-- A run has the inputs that were fed. -/
theorem map_fst_of_runInputs {step : σ → ι → Option (σ × ο)} {s s' : σ} {is : List ι}
    {tr : List (ι × ο)} (h : runInputs step s is = some (tr, s')) : tr.map Prod.fst = is := by
  induction is generalizing s tr with
  | nil =>
    cases h
    rfl
  | cons i is ih =>
    obtain ⟨⟨s₁, out⟩, hs, h⟩ := Option.bind_eq_some_iff.1 h
    obtain ⟨⟨rest, s₂⟩, hrest, h⟩ := Option.map_eq_some_iff.1 h
    cases h
    rw [List.map_cons, ih hrest]

/-- **Invariant induction** for the runs whose inputs all meet `C`. -/
theorem Run.invariant_of_forall {step : σ → ι → Option (σ × ο)} {C : ι → Prop} {P : σ → Prop}
    {s s' : σ} {tr : List (ι × ο)}
    (hstep : ∀ {s i s' out}, P s → C i → step s i = some (s', out) → P s')
    (hr : Run step s tr s') (hall : ∀ e ∈ tr, C e.1) (hs : P s) : P s' := by
  induction hr with
  | nil => exact hs
  | cons h _ ih =>
    refine ih (fun e he => hall e (List.mem_cons_of_mem _ he)) ?_
    exact hstep hs (hall _ List.mem_cons_self) h

/-- `P` holds in `s` and in every state the inputs lead to, and none of them panics. -/
def Along (step : σ → ι → Option (σ × ο)) (P : σ → Prop) : σ → List ι → Prop
  | s, [] => P s
  | s, i :: is => P s ∧ ∃ s' out, step s i = some (s', out) ∧ Along step P s' is

/-- Every input meets the guard `C` in the state it is fed to. -/
def StepsMeet (step : σ → ι → Option (σ × ο)) (C : σ → ι → Prop) : σ → List ι → Prop
  | _, [] => True
  | s, i :: is => C s i ∧ ∀ s' out, step s i = some (s', out) → StepsMeet step C s' is

theorem StepsMeet.cons {step : σ → ι → Option (σ × ο)} {C : σ → ι → Prop} {s s' : σ} {i : ι}
    {out : ο} {is : List ι} (hs : step s i = some (s', out)) (hC : C s i)
    (h : StepsMeet step C s' is) : StepsMeet step C s (i :: is) := by
  refine ⟨hC, fun s₁ out₁ hs₁ => ?_⟩
  obtain ⟨rfl, rfl⟩ := Prod.mk.inj (Option.some.inj (hs₁.symm.trans hs))
  exact h

/-- Whether every input meets a decidable guard, by feeding them. -/
def meets (step : σ → ι → Option (σ × ο)) (C : σ → ι → Prop) [∀ s i, Decidable (C s i)] :
    σ → List ι → Bool
  | _, [] => true
  | s, i :: is =>
    decide (C s i) && match step s i with
      | none => true
      | some (s', _) => meets step C s' is

theorem stepsMeet_of_meets {step : σ → ι → Option (σ × ο)} {C : σ → ι → Prop}
    [∀ s i, Decidable (C s i)] {s : σ} {is : List ι} (h : meets step C s is = true) :
    StepsMeet step C s is := by
  induction is generalizing s with
  | nil => trivial
  | cons i is ih =>
    rw [meets, Bool.and_eq_true, decide_eq_true_eq] at h
    refine ⟨h.1, fun s' out hs => ih ?_⟩
    have hrest := h.2
    rwa [hs] at hrest

/-- What is fed after a run meets the guard from the state it led to. -/
theorem StepsMeet.of_run {step : σ → ι → Option (σ × ο)} {C : σ → ι → Prop} {s m : σ}
    {tr : List (ι × ο)} {is : List ι} (h : StepsMeet step C s (tr.map Prod.fst ++ is))
    (hr : Run step s tr m) : StepsMeet step C m is := by
  induction hr with
  | nil => exact h
  | cons hs _ ih => exact ih (h.2 _ _ hs)

/-- **Invariant induction under a guard.** -/
theorem Run.invariant_of_stepsMeet {step : σ → ι → Option (σ × ο)} {C : σ → ι → Prop}
    {P : σ → Prop} {s s' : σ} {tr : List (ι × ο)}
    (hstep : ∀ {s i s' out}, P s → C s i → step s i = some (s', out) → P s')
    (hr : Run step s tr s') (hmeet : StepsMeet step C s (tr.map Prod.fst)) (hs : P s) : P s' := by
  induction hr with
  | nil => exact hs
  | cons h _ ih => exact ih (hmeet.2 _ _ h) (hstep hs hmeet.1 h)

/-- **Invariant induction under a guard**, with the trace. -/
theorem Run.traceInvariant_of_stepsMeet {step : σ → ι → Option (σ × ο)} {C : σ → ι → Prop}
    {P : List (ι × ο) → σ → Prop} {s s' : σ} {tr tr₀ : List (ι × ο)}
    (hstep : ∀ {tr s i s' out}, P tr s → C s i → step s i = some (s', out) →
      P (tr ++ [(i, out)]) s')
    (hr : Run step s tr s') (hmeet : StepsMeet step C s (tr.map Prod.fst)) (hs : P tr₀ s) :
    P (tr₀ ++ tr) s' := by
  induction hr generalizing tr₀ with
  | nil => simpa using hs
  | cons h _ ih => simpa using ih (hmeet.2 _ _ h) (hstep hs hmeet.1 h)

theorem Along.start {step : σ → ι → Option (σ × ο)} {P : σ → Prop} {s : σ} {is : List ι}
    (h : Along step P s is) : P s := by
  cases is with
  | nil => exact h
  | cons i is => exact h.1

/-- What an invariant that excludes panics implies holds along every list of inputs. -/
theorem along_of_invariant {step : σ → ι → Option (σ × ο)} {J P : σ → Prop}
    (hstep : ∀ {s i s' out}, J s → step s i = some (s', out) → J s')
    (hlive : ∀ {s} i, J s → ∃ s' out, step s i = some (s', out)) (hP : ∀ {s}, J s → P s)
    {s : σ} (hJ : J s) (is : List ι) : Along step P s is := by
  induction is generalizing s with
  | nil => exact hP hJ
  | cons i is ih =>
    obtain ⟨s', out, hs⟩ := hlive i hJ
    exact ⟨hP hJ, s', out, hs, ih (hstep hJ hs)⟩

/-- **Exact guards.**  If a step from a state with `J` and `P` goes through to a
state with `P` exactly if its guard is met, and then keeps `J`, then `P` holds along
a run exactly if every step meets its guard. -/
theorem along_iff_guarded {step : σ → ι → Option (σ × ο)} {J P : σ → Prop} {C : σ → ι → Prop}
    (hguard : ∀ {s} i, J s → P s → (C s i ↔ ∃ s' out, step s i = some (s', out) ∧ P s'))
    (hkeep : ∀ {s i s' out}, J s → P s → C s i → step s i = some (s', out) → J s')
    {s : σ} (hJ : J s) (hP : P s) (is : List ι) : Along step P s is ↔ StepsMeet step C s is := by
  induction is generalizing s with
  | nil => exact ⟨fun _ => trivial, fun _ => hP⟩
  | cons i is ih =>
    constructor
    · rintro ⟨-, s', out, hs, halong⟩
      have hC := (hguard i hJ hP).mpr ⟨s', out, hs, halong.start⟩
      refine ⟨hC, fun s₁ out₁ hs₁ => ?_⟩
      obtain ⟨rfl, rfl⟩ := Prod.mk.inj (Option.some.inj (hs₁.symm.trans hs))
      exact (ih (hkeep hJ hP hC hs) halong.start).mp halong
    · rintro ⟨hC, hmeet⟩
      obtain ⟨s', out, hs, hP'⟩ := (hguard i hJ hP).mp hC
      exact ⟨hP, s', out, hs, (ih (hkeep hJ hP hC hs) hP').mpr (hmeet s' out hs)⟩

/-- Exact guards under an invariant `J` of all steps, where no step panics. -/
theorem along_iff_stepsMeet {step : σ → ι → Option (σ × ο)} {J P : σ → Prop} {C : σ → ι → Prop}
    (hstep : ∀ {s i s' out}, J s → step s i = some (s', out) → J s')
    (hlive : ∀ {s} i, J s → P s → ∃ s' out, step s i = some (s', out))
    (hguard : ∀ {s i s' out}, J s → P s → step s i = some (s', out) → (P s' ↔ C s i))
    {s : σ} (hJ : J s) (hP : P s) (is : List ι) : Along step P s is ↔ StepsMeet step C s is := by
  refine along_iff_guarded (fun i hJ hP => ?_) (fun hJ _ _ hs => hstep hJ hs) hJ hP is
  obtain ⟨s', out, hs⟩ := hlive i hJ hP
  constructor
  · intro hC
    exact ⟨s', out, hs, (hguard hJ hP hs).mpr hC⟩
  · rintro ⟨s₁, out₁, hs₁, hP'⟩
    exact (hguard hJ hP hs₁).mp hP'

/-- `P` holds in `s` and in every state the inputs lead to before one of them panics. -/
def Always (step : σ → ι → Option (σ × ο)) (P : σ → Prop) : σ → List ι → Prop
  | s, [] => P s
  | s, i :: is => P s ∧ ∀ s' out, step s i = some (s', out) → Always step P s' is

theorem Always.start {step : σ → ι → Option (σ × ο)} {P : σ → Prop} {s : σ} {is : List ι}
    (h : Always step P s is) : P s := by
  cases is with
  | nil => exact h
  | cons i is => exact h.1

/-- What always holds holds at the end of the run. -/
theorem Always.of_run {step : σ → ι → Option (σ × ο)} {P : σ → Prop} {s s' : σ}
    {tr : List (ι × ο)} (h : Always step P s (tr.map Prod.fst)) (hr : Run step s tr s') : P s' := by
  induction hr with
  | nil => exact h
  | cons hs _ ih => exact ih (h.2 _ _ hs)

/-- Exact guards under an invariant `J` of all steps, where a step may panic. -/
theorem always_iff_stepsMeet {step : σ → ι → Option (σ × ο)} {J P : σ → Prop} {C : σ → ι → Prop}
    (hstep : ∀ {s i s' out}, J s → step s i = some (s', out) → J s')
    (hpanic : ∀ {s i}, J s → P s → step s i = none → C s i)
    (hguard : ∀ {s i s' out}, J s → P s → step s i = some (s', out) → (P s' ↔ C s i))
    {s : σ} (hJ : J s) (hP : P s) (is : List ι) : Always step P s is ↔ StepsMeet step C s is := by
  induction is generalizing s with
  | nil => exact ⟨fun _ => trivial, fun _ => hP⟩
  | cons i is ih =>
    constructor
    · rintro ⟨-, halways⟩
      cases hs : step s i with
      | none => exact ⟨hpanic hJ hP hs, fun s' out hs' => by rw [hs] at hs'; cases hs'⟩
      | some next =>
        obtain ⟨s', out⟩ := next
        have hrest := halways s' out hs
        have hP' := hrest.start
        exact .cons hs ((hguard hJ hP hs).mp hP') ((ih (hstep hJ hs) hP').mp hrest)
    · rintro ⟨hC, hmeet⟩
      refine ⟨hP, fun s' out hs => ?_⟩
      exact (ih (hstep hJ hs) ((hguard hJ hP hs).mpr hC)).mpr (hmeet s' out hs)

/-- Every step of the inputs relates the state it leaves to the state it reaches by `R`. -/
def EachStep (step : σ → ι → Option (σ × ο)) (R : σ → σ → Prop) : σ → List ι → Prop
  | _, [] => True
  | s, i :: is => ∀ s' out, step s i = some (s', out) → R s s' ∧ EachStep step R s' is

/-- What each step relates, a run relates, where the relation is a preorder. -/
theorem EachStep.of_run {step : σ → ι → Option (σ × ο)} {R : σ → σ → Prop}
    (hrefl : ∀ s, R s s) (htrans : ∀ {s m s'}, R s m → R m s' → R s s') {s s' : σ}
    {tr : List (ι × ο)} (h : EachStep step R s (tr.map Prod.fst)) (hr : Run step s tr s') :
    R s s' := by
  induction hr with
  | nil s => exact hrefl s
  | cons hs _ ih => exact htrans (h _ _ hs).1 (ih (h _ _ hs).2)

/-- Exact guards for what each step does, under an invariant `J`. -/
theorem eachStep_iff_stepsMeet {step : σ → ι → Option (σ × ο)} {J : σ → Prop}
    {R : σ → σ → Prop} {C : σ → ι → Prop}
    (hstep : ∀ {s i s' out}, J s → step s i = some (s', out) → J s')
    (hpanic : ∀ {s i}, J s → step s i = none → C s i)
    (hguard : ∀ {s i s' out}, J s → step s i = some (s', out) → (R s s' ↔ C s i))
    {s : σ} (hJ : J s) (is : List ι) : EachStep step R s is ↔ StepsMeet step C s is := by
  induction is generalizing s with
  | nil => exact Iff.rfl
  | cons i is ih =>
    constructor
    · intro h
      cases hs : step s i with
      | none => exact ⟨hpanic hJ hs, fun s' out hs' => by rw [hs] at hs'; cases hs'⟩
      | some next =>
        obtain ⟨s', out⟩ := next
        obtain ⟨hR, hrest⟩ := h s' out hs
        exact .cons hs ((hguard hJ hs).mp hR) ((ih (hstep hJ hs)).mp hrest)
    · rintro ⟨hC, hmeet⟩ s' out hs
      exact ⟨(hguard hJ hs).mpr hC, (ih (hstep hJ hs)).mpr (hmeet s' out hs)⟩

/-! ### Threads -/

section

variable {θ : Type*}

/-- The sum of `f` over all threads. -/
def tally (f : θ → ℕ) (threads : List θ) : ℕ := (threads.map f).sum

@[simp] theorem tally_nil (f : θ → ℕ) : tally f [] = 0 := rfl

@[simp] theorem tally_cons (f : θ → ℕ) (t : θ) (threads : List θ) :
    tally f (t :: threads) = f t + tally f threads := by
  simp [tally]

theorem tally_start (f : θ → ℕ) (threads : List θ) (t : θ) :
    tally f (threads ++ [t]) = tally f threads + f t := by
  simp [tally]

/-- **One thread moves** from `t` to `t'`. -/
theorem tally_set (f : θ → ℕ) {threads : List θ} {i : ℕ} {t : θ} (h : threads[i]? = some t)
    (t' : θ) : tally f (threads.set i t') + f t = tally f threads + f t' := by
  induction threads generalizing i with
  | nil => simp at h
  | cons first rest ih =>
    cases i with
    | zero =>
      simp only [List.getElem?_cons_zero, Option.some.injEq] at h
      subst h
      simp only [List.set_cons_zero, tally_cons]
      omega
    | succ i =>
      have hrest := ih (i := i) (by simpa using h)
      simp only [List.set_cons_succ, tally_cons]
      omega

theorem tally_eq_zero {f : θ → ℕ} {threads : List θ} (h : ∀ t ∈ threads, f t = 0) :
    tally f threads = 0 := by
  induction threads with
  | nil => rfl
  | cons first rest ih =>
    rw [tally_cons, h first List.mem_cons_self, ih fun t ht => h t (List.mem_cons_of_mem _ ht)]

end

end Oxillama
