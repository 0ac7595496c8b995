/-
States of a sequence (`oxillama-arch/src/common/sequence_state.rs`, and the state of a Jamba
model, `jamba/model.rs`).

* `step_within_iff` — what an operation has to meet so that the position stays within
  the capacity;
* `within_always_iff` — **the position never exceeds the capacity along a run, just
  when every operation of the run meets that**;
* `restore_layers_eq_iff` — a snapshot is restored whole into layers of the same sizes.
-/
import Mathlib.Data.List.Basic
import Mathlib.Algebra.Group.Defs
import Oxillama.Lib.Run

namespace Oxillama

namespace Arch

variable {α : Type}

/-- `SequenceStateSnapshot`. -/
inductive SequenceStateSnapshot (α : Type)
  | attention (position : ℕ)
  | mamba2 (ssmStates : List (List α)) (position : ℕ)
  | jamba (attentionPosition : ℕ) (ssmStates : List (List α))

/-- `ArchError::ConfigMismatch`. -/
structure ConfigMismatch where
  param : String
  expected : String
  got : String
  deriving DecidableEq, Repr

/-! ### Attention -/

/-- `AttentionSequenceState`. -/
structure AttentionSequenceState where
  position : ℕ
  maxCapacity : ℕ

namespace AttentionSequenceState

/-- `AttentionSequenceState::new`. -/
def new (maxCapacity : ℕ) : AttentionSequenceState := ⟨0, maxCapacity⟩

/-- `reset`. -/
def reset (s : AttentionSequenceState) : AttentionSequenceState := { s with position := 0 }

/-- `advance`. -/
def advance (s : AttentionSequenceState) : AttentionSequenceState :=
  if s.position < s.maxCapacity then { s with position := s.position + 1 } else s

/-- `restore_from_snapshot_payload`. -/
def restore (s : AttentionSequenceState) : SequenceStateSnapshot α → AttentionSequenceState
  | .attention position => { s with position }
  | _ => s

end AttentionSequenceState

/-! ### Mamba-2 -/

/-- `SsmLayerState`. -/
structure SsmLayerState (α : Type) where
  h : List α
  dState : ℕ
  dInner : ℕ

namespace SsmLayerState

/-- `SsmLayerState::new`. -/
def new [Zero α] (dState dInner : ℕ) : SsmLayerState α :=
  ⟨List.replicate (dState * dInner) 0, dState, dInner⟩

/-- `SsmLayerState::clear`. -/
def clear [Zero α] (layer : SsmLayerState α) : SsmLayerState α :=
  { layer with h := List.replicate layer.h.length 0 }

/-- As many elements of a snapshot as there are, and as fit. -/
def copyFrom (layer : SsmLayerState α) (state : List α) : SsmLayerState α :=
  let copyLen := min state.length layer.h.length
  { layer with h := state.take copyLen ++ layer.h.drop copyLen }

end SsmLayerState

/-- `for (layer, state) in layers.iter_mut().zip(states)`. -/
def zipUpdate {β γ : Type} (f : β → γ → β) : List β → List γ → List β
  | b :: bs, c :: cs => f b c :: zipUpdate f bs cs
  | bs, _ => bs

/-- `Mamba2SequenceState`. -/
structure Mamba2SequenceState (α : Type) where
  layers : List (SsmLayerState α)
  position : ℕ
  maxCapacity : ℕ

namespace Mamba2SequenceState

/-- `Mamba2SequenceState::new`. -/
def new [Zero α] (nLayers dState dInner maxCapacity : ℕ) : Mamba2SequenceState α :=
  ⟨List.replicate nLayers (.new dState dInner), 0, maxCapacity⟩

/-- `reset`. -/
def reset [Zero α] (s : Mamba2SequenceState α) : Mamba2SequenceState α :=
  { s with position := 0, layers := s.layers.map SsmLayerState.clear }

/-- `advance`. -/
def advance (s : Mamba2SequenceState α) : Mamba2SequenceState α :=
  if s.position < s.maxCapacity then { s with position := s.position + 1 } else s

/-- `snapshot_payload`. -/
def snapshotPayload (s : Mamba2SequenceState α) : SequenceStateSnapshot α :=
  .mamba2 (s.layers.map SsmLayerState.h) s.position

/-- `restore_from_snapshot_payload`. -/
def restore (s : Mamba2SequenceState α) : SequenceStateSnapshot α → Mamba2SequenceState α
  | .mamba2 ssmStates position =>
    { s with position, layers := zipUpdate SsmLayerState.copyFrom s.layers ssmStates }
  | _ => s

end Mamba2SequenceState

/-! ### Jamba -/

/-- `LayerKind`. -/
inductive LayerKind
  | attention
  | ssm

/-- `JambaLayerState`. -/
inductive JambaLayerState (α : Type)
  | attention (s : AttentionSequenceState)
  | ssm (s : SsmLayerState α)

/-- `JambaSequenceState`. -/
structure JambaSequenceState (α : Type) where
  layers : List (JambaLayerState α)
  position : ℕ
  maxCapacity : ℕ

namespace JambaSequenceState

/-- `JambaSequenceState::new`, of a configuration's `layer_pattern`, `d_state` and `d_inner`. -/
def new [Zero α] (layerPattern : List LayerKind) (dState dInner maxCapacity : ℕ) :
    JambaSequenceState α where
  layers := layerPattern.map fun
    | .attention => .attention (.new maxCapacity)
    | .ssm => .ssm (.new dState dInner)
  position := 0
  maxCapacity := maxCapacity

/-- `reset`. -/
def reset [Zero α] (s : JambaSequenceState α) : JambaSequenceState α where
  layers := s.layers.map fun
    | .attention s => .attention s.reset
    | .ssm s => .ssm s.clear
  position := 0
  maxCapacity := s.maxCapacity

/-- `advance`, without a bound. -/
def advance (s : JambaSequenceState α) : JambaSequenceState α :=
  { s with position := s.position + 1 }

/-- `snapshot_payload`. -/
def snapshotPayload (s : JambaSequenceState α) : SequenceStateSnapshot α :=
  .jamba s.position (s.layers.map fun
    | .attention _ => []
    | .ssm s => s.h)

/-- `restore_from_snapshot_payload`. -/
def restore (s : JambaSequenceState α) : SequenceStateSnapshot α → JambaSequenceState α
  | .jamba attentionPosition ssmStates =>
    { s with
      position := attentionPosition
      layers := zipUpdate (fun layer state => match layer with
        | .attention s => .attention s
        | .ssm s => .ssm (s.copyFrom state)) s.layers ssmStates }
  | _ => s

end JambaSequenceState

/-! ### The trait -/

/-- `dyn SequenceState`. -/
inductive SequenceState (α : Type)
  | attention (s : AttentionSequenceState)
  | mamba2 (s : Mamba2SequenceState α)
  | jamba (s : JambaSequenceState α)

namespace SequenceState

/-- `step_position`. -/
def stepPosition : SequenceState α → ℕ
  | attention s => s.position
  | mamba2 s => s.position
  | jamba s => s.position

/-- `capacity`. -/
def capacity : SequenceState α → ℕ
  | attention s => s.maxCapacity
  | mamba2 s => s.maxCapacity
  | jamba s => s.maxCapacity

/-- `reset`. -/
def reset [Zero α] : SequenceState α → SequenceState α
  | attention s => attention s.reset
  | mamba2 s => mamba2 s.reset
  | jamba s => jamba s.reset

/-- `advance`. -/
def advance : SequenceState α → SequenceState α
  | attention s => attention s.advance
  | mamba2 s => mamba2 s.advance
  | jamba s => jamba s.advance

/-- `try_advance`. -/
def tryAdvance (s : SequenceState α) : Except ConfigMismatch Unit × SequenceState α :=
  let cap := s.capacity
  if s.stepPosition ≥ cap then
    (.error ⟨"sequence_state.position", "< capacity (" ++ toString cap ++ ")",
      toString s.stepPosition⟩, s)
  else (.ok (), s.advance)

/-- `snapshot_payload`. -/
def snapshotPayload : SequenceState α → SequenceStateSnapshot α
  | attention s => .attention s.position
  | mamba2 s => s.snapshotPayload
  | jamba s => s.snapshotPayload

/-- `restore_from_snapshot_payload`. -/
def restore (s : SequenceState α) (snap : SequenceStateSnapshot α) : SequenceState α :=
  match s with
  | attention s => attention (s.restore snap)
  | mamba2 s => mamba2 (s.restore snap)
  | jamba s => jamba (s.restore snap)

end SequenceState

/-! ### Runs -/

/-- What is done to a state. -/
inductive SequenceOp (α : Type)
  | advance
  | tryAdvance
  | reset
  | snapshot
  | restore (snap : SequenceStateSnapshot α)

/-- What an operation answers. -/
inductive SequenceAnswer (α : Type)
  | done
  | tried (result : Except ConfigMismatch Unit)
  | payload (snap : SequenceStateSnapshot α)

namespace SequenceState

variable [Zero α]

/-- One operation.  None of them panics. -/
def step (s : SequenceState α) : SequenceOp α → Option (SequenceState α × SequenceAnswer α)
  | .advance => some (s.advance, .done)
  | .tryAdvance => some (s.tryAdvance.2, .tried s.tryAdvance.1)
  | .reset => some (s.reset, .done)
  | .snapshot => some (s, .payload s.snapshotPayload)
  | .restore snap => some (s.restore snap, .done)

/-- The position is within the capacity. -/
def Within (s : SequenceState α) : Prop := s.stepPosition ≤ s.capacity

/-- A fresh state. -/
inductive Fresh : SequenceState α → Prop
  | attention (maxCapacity : ℕ) : Fresh (attention (.new maxCapacity))
  | mamba2 (nLayers dState dInner maxCapacity : ℕ) :
      Fresh (mamba2 (.new nLayers dState dInner maxCapacity))
  | jamba (layerPattern : List LayerKind) (dState dInner maxCapacity : ℕ) :
      Fresh (jamba (.new layerPattern dState dInner maxCapacity))

/-- A snapshot fits a state if it is of another kind, or of a position within the capacity. -/
def Fits (s : SequenceState α) (snap : SequenceStateSnapshot α) : Prop :=
  match s, snap with
  | attention s, .attention position => position ≤ s.maxCapacity
  | mamba2 s, .mamba2 _ position => position ≤ s.maxCapacity
  | jamba s, .jamba position _ => position ≤ s.maxCapacity
  | _, _ => True

/-- What an operation has to meet: a snapshot fits, and a Jamba state advances below its capacity
only. -/
def Meets (s : SequenceState α) : SequenceOp α → Prop
  | .advance => match s with
    | jamba s => s.position < s.maxCapacity
    | _ => True
  | .restore snap => s.Fits snap
  | _ => True

omit [Zero α] in
theorem within_advance {s : SequenceState α} (h : s.Within) (hroom : s.Meets .advance) :
    s.advance.Within := by
  cases s with
  | attention s =>
    show (s.advance).position ≤ (s.advance).maxCapacity
    rw [AttentionSequenceState.advance]
    split
    · assumption
    · exact h
  | mamba2 s =>
    show (s.advance).position ≤ (s.advance).maxCapacity
    rw [Mamba2SequenceState.advance]
    split
    · assumption
    · exact h
  | jamba s => exact hroom

omit [Zero α] in
theorem within_restore_iff {s : SequenceState α} {snap : SequenceStateSnapshot α} (h : s.Within) :
    (s.restore snap).Within ↔ s.Fits snap := by
  cases s <;> cases snap <;> first | exact Iff.rfl | exact iff_of_true h trivial

/-- **What keeps the position within the capacity.** -/
theorem step_within_iff {s s' : SequenceState α} {op : SequenceOp α} {out : SequenceAnswer α}
    (h : s.Within) (hstep : s.step op = some (s', out)) : s'.Within ↔ s.Meets op := by
  cases op <;> obtain ⟨rfl, -⟩ := Prod.mk.inj (Option.some.inj hstep)
  case advance =>
    constructor
    · intro hwithin
      cases s with
      | attention s => trivial
      | mamba2 s => trivial
      | jamba s => exact hwithin
    · exact within_advance h
  case tryAdvance =>
    refine iff_of_true ?_ trivial
    rw [tryAdvance]
    split
    · exact h
    · rename_i hroom
      refine within_advance h ?_
      cases s with
      | attention s => trivial
      | mamba2 s => trivial
      | jamba s => exact Nat.not_le.mp hroom
  case reset =>
    refine iff_of_true ?_ trivial
    cases s <;> exact Nat.zero_le _
  case snapshot => exact iff_of_true h trivial
  case restore snap => exact within_restore_iff h

theorem Fresh.within {s : SequenceState α} (h : s.Fresh) : s.Within := by
  cases h <;> exact Nat.zero_le _

/-- **The position stays within the capacity along a run, just when every operation meets what it
has to.** -/
theorem within_always_iff {s : SequenceState α} (h : s.Within) (ops : List (SequenceOp α)) :
    Always step Within s ops ↔ StepsMeet step Meets s ops :=
  always_iff_stepsMeet (J := fun _ => True) (fun _ _ => trivial)
    (fun {s op} _ _ hnone => by cases op <;> cases hnone)
    (fun _ hwithin hstep => step_within_iff hwithin hstep) trivial h ops

end SequenceState

/-! ### Restoring layers -/

/-- Two layers are of the same sizes. -/
structure SsmLayerState.SameSizes (layer layer' : SsmLayerState α) : Prop where
  h : layer.h.length = layer'.h.length
  dState : layer.dState = layer'.dState
  dInner : layer.dInner = layer'.dInner

theorem SsmLayerState.copyFrom_eq_iff {layer source : SsmLayerState α} :
    layer.copyFrom source.h = source ↔ layer.SameSizes source := by
  constructor
  · intro heq
    have hlength : (layer.copyFrom source.h).h.length = layer.h.length := by
      rw [copyFrom]
      dsimp only
      rw [List.length_append, List.length_take, List.length_drop]
      omega
    have hstate : (layer.copyFrom source.h).dState = source.dState := congrArg _ heq
    have hinner : (layer.copyFrom source.h).dInner = source.dInner := congrArg _ heq
    rw [heq] at hlength
    exact ⟨hlength.symm, hstate, hinner⟩
  · rintro ⟨hlength, hstate, hinner⟩
    obtain ⟨h, dState, dInner⟩ := source
    obtain rfl : layer.dState = dState := hstate
    obtain rfl : layer.dInner = dInner := hinner
    rw [copyFrom]
    dsimp only at hlength ⊢
    rw [hlength, Nat.min_self, List.take_length, List.drop_of_length_le (Nat.le_of_eq hlength),
      List.append_nil]

/-- **A snapshot is restored whole, just into layers of the same sizes.** -/
theorem restore_layers_eq_iff {layers source : List (SsmLayerState α)} :
    zipUpdate SsmLayerState.copyFrom layers (source.map SsmLayerState.h) = source ↔
      List.Forall₂ SsmLayerState.SameSizes layers source := by
  induction layers generalizing source with
  | nil =>
    cases source with
    | nil => exact iff_of_true rfl .nil
    | cons l source => exact iff_of_false (fun h => nomatch h) fun h => nomatch h
  | cons layer layers ih =>
    cases source with
    | nil => exact iff_of_false (fun h => nomatch h) fun h => nomatch h
    | cons l source =>
      rw [List.forall₂_cons, ← ih, ← SsmLayerState.copyFrom_eq_iff, List.map_cons, zipUpdate,
        List.cons.injEq]

end Arch

end Oxillama
