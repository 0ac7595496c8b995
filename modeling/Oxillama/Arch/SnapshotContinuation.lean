/-
Going on from a snapshot of a Mamba-2 state (`oxillama-arch/src/mamba2/model.rs`).

A snapshot holds the recurrence of every layer and the position.  The rings of the
convolutions are held by the model and are not part of it.

* `runLayers_same` — the position and the capacity have no influence on a run;
* `sequence_snapshots` — **what keeps a position within its capacity, and when a
  restored state goes on as the original does**: the layers are of the same sizes
  and the rings hold what they held;
* `not_snapshots` — a snapshot beyond the capacity, and a ring that was cleared.
-/
import Mathlib.Tactic.NormNum
import Oxillama.Arch.ConvChunks
import Oxillama.Arch.SequenceState

namespace Oxillama

namespace Arch

variable {α : Type} [ConvF32 α]

/-! ### The model -/

/-- What a block fails with; `message` is for what the projections and the scan raise. -/
inductive BlockError
  | conv (e : ConvError)
  | invalidConfig (detail : String)
  | message (detail : String)
  deriving DecidableEq, Repr

/-- `Mamba2LayerWeights`, as what a block computes with them.  Of `project` (the norm, the fused
projection and the slices of its result), `scan` and `output` (the gate, the norm and the output
projection) nothing is known. -/
structure Mamba2LayerWeights (α : Type) where
  project : List α → Except BlockError (List α × List α × List α)
  wConv : List α
  bConv : List α
  scan : List α → List α → SsmLayerState α → Except BlockError (List α) × SsmLayerState α
  output : List α → List α → Except BlockError (List α)

/-- What a `Mamba2Model` keeps from token to token: `state` and `conv_state`. -/
structure Mamba2Memory (α : Type) where
  state : Mamba2SequenceState α
  convState : List (ConvRing α)

/-- `Mamba2Model`, without what it keeps. -/
structure Mamba2Model (α : Type) where
  nLayer : ℕ
  convDim : ℕ
  dConv : ℕ
  embedToken : ℕ → Except BlockError (List α)
  layers : List (Mamba2LayerWeights α)

namespace Mamba2Model

variable (model : Mamba2Model α)

/-- `mamba2_block`. -/
def mamba2Block (layerIdx : ℕ) (x : List α) (memory : Mamba2Memory α) :
    Except BlockError (List α) × Mamba2Memory α :=
  match model.layers[layerIdx]? with
  | none => (.error (.invalidConfig ("mamba2: no weights for layer " ++ toString layerIdx)), memory)
  | some layer =>
    match layer.project x with
    | .error e => (.error e, memory)
    | .ok (z, xbcIn, dtRaw) =>
      match memory.convState[layerIdx]? with
      | none => (.error (.invalidConfig ("mamba2: conv ring for layer " ++ toString layerIdx ++
          " (have " ++ toString memory.convState.length ++ " layers)")), memory)
      | some ring =>
        match conv1dDepthwiseStateful xbcIn layer.wConv layer.bConv ring 1 model.convDim
            model.dConv with
        | .error e => (.error (.conv e), memory)
        | .ok (xbc, ring) =>
          let memory := { memory with convState := memory.convState.set layerIdx ring }
          match memory.state.layers[layerIdx]? with
          | none =>
            (.error (.invalidConfig ("mamba2: no SSM state for layer " ++ toString layerIdx)),
              memory)
          | some layerState =>
            let (y, layerState) := layer.scan xbc dtRaw layerState
            let memory := { memory with
              state := { memory.state with
                layers := memory.state.layers.set layerIdx layerState } }
            match y with
            | .error e => (.error e, memory)
            | .ok y => (layer.output z y, memory)

/-- The loop of `run_layers` over the layers.  An error comes with its layer. -/
def runBlocks : List ℕ → List α → Mamba2Memory α →
    Except (ℕ × BlockError) (List α) × Mamba2Memory α
  | [], hidden, memory => (.ok hidden, memory)
  | layerIdx :: rest, hidden, memory =>
    match model.mamba2Block layerIdx hidden memory with
    | (.error e, memory) => (.error (layerIdx, e), memory)
    | (.ok blockOut, memory) => runBlocks rest (zipUpdate (· + ·) hidden blockOut) memory

/-- `run_layers`, from the hidden state of the last token. -/
def runFrom : List ℕ → List α → Mamba2Memory α →
    Except (Option ℕ × BlockError) (List α) × Mamba2Memory α
  | [], hidden, memory => (.ok hidden, memory)
  | tokId :: tokens, _, memory =>
    match model.embedToken tokId with
    | .error e => (.error (none, e), memory)
    | .ok hidden =>
      match model.runBlocks (List.range model.nLayer) hidden memory with
      | (.error (layer, e), memory) => (.error (some layer, e), memory)
      | (.ok hidden, memory) =>
        runFrom tokens hidden { memory with state := memory.state.advance }

/-- `run_layers`. -/
def runLayers (tokens : List ℕ) (memory : Mamba2Memory α) :
    Except (Option ℕ × BlockError) (List α) × Mamba2Memory α :=
  model.runFrom tokens [] memory

end Mamba2Model

/-! ### The position does not matter -/

/-- The same recurrence and the same rings. -/
def SameMemory (memory memory' : Mamba2Memory α) : Prop :=
  memory.state.layers = memory'.state.layers ∧ memory.convState = memory'.convState

/-- The same result, and the same memory left. -/
def SameRun {ε : Type} (run run' : Except ε (List α) × Mamba2Memory α) : Prop :=
  run.1 = run'.1 ∧ SameMemory run.2 run'.2

section Same

variable (model : Mamba2Model α) {memory memory' : Mamba2Memory α}

theorem mamba2Block_same (h : SameMemory memory memory') (layerIdx : ℕ) (x : List α) :
    SameRun (model.mamba2Block layerIdx x memory) (model.mamba2Block layerIdx x memory') := by
  obtain ⟨⟨layers, position, maxCapacity⟩, convState⟩ := memory
  obtain ⟨⟨layers', position', maxCapacity'⟩, convState'⟩ := memory'
  obtain ⟨hlayers, hrings⟩ := h
  obtain rfl : layers = layers' := hlayers
  obtain rfl : convState = convState' := hrings
  rw [Mamba2Model.mamba2Block, Mamba2Model.mamba2Block]
  cases model.layers[layerIdx]? with
  | none => exact ⟨rfl, rfl, rfl⟩
  | some layer =>
    dsimp only
    cases layer.project x with
    | error e => exact ⟨rfl, rfl, rfl⟩
    | ok projected =>
      obtain ⟨z, xbcIn, dtRaw⟩ := projected
      dsimp only
      cases convState[layerIdx]? with
      | none => exact ⟨rfl, rfl, rfl⟩
      | some ring =>
        dsimp only
        cases conv1dDepthwiseStateful xbcIn layer.wConv layer.bConv ring 1 model.convDim
            model.dConv with
        | error e => exact ⟨rfl, rfl, rfl⟩
        | ok convolved =>
          dsimp only
          cases layers[layerIdx]? with
          | none => exact ⟨rfl, rfl, rfl⟩
          | some layerState =>
            dsimp only
            cases (layer.scan convolved.1 dtRaw layerState).1 <;> exact ⟨rfl, rfl, rfl⟩

theorem runBlocks_same (h : SameMemory memory memory') (rest : List ℕ) (hidden : List α) :
    SameRun (model.runBlocks rest hidden memory) (model.runBlocks rest hidden memory') := by
  induction rest generalizing memory memory' hidden with
  | nil => exact ⟨rfl, h⟩
  | cons layerIdx rest ih =>
    rw [Mamba2Model.runBlocks, Mamba2Model.runBlocks]
    obtain ⟨hresult, hmemory⟩ := mamba2Block_same model h layerIdx hidden
    generalize model.mamba2Block layerIdx hidden memory = run at hresult hmemory
    generalize model.mamba2Block layerIdx hidden memory' = run' at hresult hmemory
    obtain ⟨result, next⟩ := run
    obtain ⟨result', next'⟩ := run'
    obtain rfl : result = result' := hresult
    cases result with
    | error e => exact ⟨rfl, hmemory⟩
    | ok blockOut => exact ih hmemory _

omit [ConvF32 α] in
theorem sameMemory_advance (h : SameMemory memory memory') :
    SameMemory { memory with state := memory.state.advance }
      { memory' with state := memory'.state.advance } := by
  have hlayers : ∀ s : Mamba2SequenceState α, s.advance.layers = s.layers := by
    intro s
    rw [Mamba2SequenceState.advance]
    split <;> rfl
  exact ⟨(hlayers _).trans (h.1.trans (hlayers _).symm), h.2⟩

theorem runFrom_same (h : SameMemory memory memory') (tokens : List ℕ) (hidden : List α) :
    SameRun (model.runFrom tokens hidden memory) (model.runFrom tokens hidden memory') := by
  induction tokens generalizing memory memory' hidden with
  | nil => exact ⟨rfl, h⟩
  | cons tokId tokens ih =>
    rw [Mamba2Model.runFrom, Mamba2Model.runFrom]
    cases model.embedToken tokId with
    | error e => exact ⟨rfl, h⟩
    | ok embedded =>
      dsimp only
      obtain ⟨hresult, hmemory⟩ := runBlocks_same model h (List.range model.nLayer)
        embedded
      generalize model.runBlocks (List.range model.nLayer) embedded memory = run at hresult hmemory
      generalize model.runBlocks (List.range model.nLayer) embedded memory' = run' at hresult hmemory
      obtain ⟨result, next⟩ := run
      obtain ⟨result', next'⟩ := run'
      obtain rfl : result = result' := hresult
      cases result with
      | error e => exact ⟨rfl, hmemory⟩
      | ok hidden => exact ih (sameMemory_advance hmemory) _

/-- **A run depends on the recurrence and the rings alone.** -/
theorem runLayers_same (h : SameMemory memory memory') (tokens : List ℕ) :
    SameRun (model.runLayers tokens memory) (model.runLayers tokens memory') :=
  runFrom_same model h tokens []

end Same

/-! ### Snapshots -/

/-- A snapshot of `source`, restored into `target`, goes on as `source` does: whatever the tokens,
the results, the recurrence and the rings are the same. -/
def GoesOn (model : Mamba2Model α) (source target : Mamba2SequenceState α)
    (convThen convNow : List (ConvRing α)) : Prop :=
  ∀ tokens, SameRun (model.runLayers tokens ⟨target.restore source.snapshotPayload, convNow⟩)
    (model.runLayers tokens ⟨source, convThen⟩)

/-- **Snapshots, when they are safe and when they are faithful.** -/
theorem sequence_snapshots (model : Mamba2Model α) {s : SequenceState α} (hfresh : s.Fresh) :
    (∀ ops, Always SequenceState.step SequenceState.Within s ops ↔
      StepsMeet SequenceState.step SequenceState.Meets s ops) ∧
    ∀ source target convThen convNow, GoesOn model source target convThen convNow ↔
      List.Forall₂ SsmLayerState.SameSizes target.layers source.layers ∧ convNow = convThen := by
  refine ⟨SequenceState.within_always_iff hfresh.within, fun source target convThen convNow => ?_⟩
  have hrestored : SameMemory ⟨target.restore source.snapshotPayload, convNow⟩
      ⟨source, convThen⟩ ↔
      List.Forall₂ SsmLayerState.SameSizes target.layers source.layers ∧ convNow = convThen :=
    and_congr_left' restore_layers_eq_iff
  rw [← hrestored]
  -- without tokens, a run leaves the memory as it is
  exact ⟨fun h => (h []).2, fun h tokens => runLayers_same model h tokens⟩

/-! ### Two sequences -/

open Extended

/-- A model of one layer, which convolves its input with the one before it and keeps the result. -/
def lagModel : Mamba2Model (Extended ℚ) where
  nLayer := 1
  convDim := 1
  dConv := 2
  embedToken
    | 0 => .ok [num 0]
    | _ => .ok [num 1]
  layers := [{
    project := fun x => .ok ([], x, [])
    wConv := [num 1, num 0]
    bConv := [num 0]
    scan := fun xbc _ layer => (.ok xbc, { layer with h := xbc })
    output := fun _ y => .ok y }]

/-- The states of both kinds, fresh, and a snapshot that fits. -/
theorem sequence_snapshots_fresh :
    Always SequenceState.step SequenceState.Within
      (.attention (.new 8) : SequenceState (Extended ℚ)) [.advance, .restore (.attention 8)] ∧
    GoesOn lagModel ⟨[⟨[num 1], 1, 1⟩], 1, 8⟩ (.new 1 1 1 8) [.new 1 2] [.new 1 2] := by
  obtain ⟨hwithin, hgoesOn⟩ := sequence_snapshots lagModel (.attention 8)
  refine ⟨(hwithin _).mpr ⟨trivial, fun s out hstep => ?_⟩,
    (hgoesOn _ _ _ _).mpr ⟨.cons ⟨rfl, rfl, rfl⟩ .nil, rfl⟩⟩
  obtain ⟨rfl, -⟩ := Prod.mk.inj (Option.some.inj hstep)
  exact ⟨le_refl 8, fun _ _ _ => trivial⟩

/-- What it begins with. -/
def lagFresh : Mamba2Memory (Extended ℚ) := ⟨.new 1 1 1 8, [.new 1 2]⟩

theorem silu_one : (num 1 : Extended ℚ) * sigmoid (num 1) = num (1 / 3) := by
  have hexp : ConvF32.exp (-(num 1 : Extended ℚ)) = num 2 := if_neg (by norm_num)
  have hsigmoid : sigmoid (num 1 : Extended ℚ) = num (1 / (1 + 2)) := by
    rw [sigmoid, hexp]
    exact if_neg (by norm_num)
  rw [hsigmoid]
  exact congrArg num (by norm_num)

/-- **A snapshot at position 5 goes into a state of capacity 3, and a token is forgotten** by the
convolution of a model that goes on from a snapshot with fresh rings. -/
theorem not_snapshots :
    ¬ SequenceState.Within ((.attention (.new 3) : SequenceState (Extended ℚ)).restore
      (SequenceState.attention (AttentionSequenceState.advance^[5] (.new 8))).snapshotPayload) ∧
    ¬ GoesOn lagModel (lagModel.runLayers [1] lagFresh).2.state lagFresh.state
      (lagModel.runLayers [1] lagFresh).2.convState lagFresh.convState := by
  refine ⟨fun h => absurd (show 5 ≤ 3 from h) (by decide), fun h => ?_⟩
  have hlayers := (h [0]).2.1
  have hh := congrArg (List.map SsmLayerState.h) hlayers
  change [[num (0 + 1 * 0 + 0 * 0) * sigmoid (num (0 + 1 * 0 + 0 * 0))]] =
    [[num (0 + 1 * 1 + 0 * 0) * sigmoid (num (0 + 1 * 1 + 0 * 0))]] at hh
  rw [show (0 + 1 * 0 + 0 * 0 : ℚ) = 0 by norm_num, show (0 + 1 * 1 + 0 * 0 : ℚ) = 1 by norm_num,
    silu_zero, silu_one] at hh
  have hnum := List.head_eq_of_cons_eq (List.head_eq_of_cons_eq hh)
  exact absurd (Extended.num.inj hnum) (by norm_num)

end Arch

end Oxillama
