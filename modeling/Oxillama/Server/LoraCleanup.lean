/-
Adapters from one request to the next (`oxillama-server/src/worker.rs`,
`oxillama-runtime/src/engine/mod.rs`, and `apply_lora_scaled` of the models in
`oxillama-arch`).

A request pushes its adapters onto the stack of the engine, applies them to the model,
generates, and takes them off again.  A panic leaves it at any point of that, and unwinds to
`run_worker`, which resets the engine.  The linear layers of the model are modified one after
the other, so a panic may come between two of them.

Where a stage panics, its error is the engine it leaves behind.

* `Stage`, `processGenerate` — a request with its stages, and the point where it panics;
* `clean_worker_iff` — when a request leaves no adapter behind;
* `isolated_iff` — **the runs in which no request finds an adapter**.
-/
import Oxillama.Arch.LoraStack
import Oxillama.Kv.KvCache
import Oxillama.Lib.Run

namespace Oxillama

namespace Server

namespace Cleanup

open Arch (QuantLinear LoraAdapter LoadedLora ArchError Bare)

variable {α W : Type}

/-! ### Models -/

/-- How an architecture takes the adapters of a stack. -/
inductive LoraSupport
  /-- `llama`: `apply_lora` sets the slot of a layer, and no scale but one is honoured. -/
  | replacing
  /-- `apply_lora_scaled` is overridden, and pushes. -/
  | accumulating
  /-- `apply_lora` fails with the given text. -/
  | unsupported (detail : String)
  deriving DecidableEq, Repr

/-- A `ForwardPass`: its support for adapters, and its linear layers by tensor name. -/
structure Model (W α : Type) where
  support : LoraSupport
  projections : List (String × QuantLinear W α)

/-- What an entry of the stack does to a linear layer. -/
def attach (support : LoraSupport) (entry : LoadedLora α × α) (name : String)
    (linear : QuantLinear W α) : QuantLinear W α :=
  match entry.1.get name with
  | none => linear
  | some adapter =>
    match support with
    | .replacing => linear.setLora adapter
    | .accumulating => linear.pushLora adapter entry.2
    | .unsupported _ => linear

namespace Model

/-- The first `n` linear layers under a function. -/
def patch (n : ℕ) (f : String → QuantLinear W α → QuantLinear W α) (model : Model W α) :
    Model W α :=
  { model with
    projections := (model.projections.take n).map (fun p => (p.1, f p.1 p.2)) ++
      model.projections.drop n }

/-- All of them. -/
def patchAll (f : String → QuantLinear W α → QuantLinear W α) (model : Model W α) : Model W α :=
  model.patch model.projections.length f

section Apply

variable [ToString α] (unitScale : α → Bool)

/-- The error of `apply_lora_scaled`, if it refuses a scale.  `unitScale` is
`(scale - 1.0).abs() <= f32::EPSILON`. -/
def refusal (support : LoraSupport) (scale : α) : Option ArchError :=
  match support with
  | .accumulating => none
  | .replacing => if unitScale scale then none else some (scaled scale)
  | .unsupported detail =>
    if unitScale scale then some (.notSupported detail) else some (scaled scale)
where
  scaled (scale : α) : ArchError := .notSupported ("apply_lora_scaled(scale = " ++ toString scale ++
    ") not implemented for this architecture; the per-entry LoRA scale would be silently discarded")

/-- `apply_lora_stack`: the first failure leaves the entries before it applied. -/
def applyLoraStack : List (LoadedLora α × α) → Model W α → Except ArchError Unit × Model W α
  | [], model => (.ok (), model)
  | entry :: entries, model =>
    match refusal unitScale model.support entry.2 with
    | some e => (.error e, model)
    | none => applyLoraStack entries (model.patchAll (attach model.support entry))

/-- The entries that are applied, from a stack. -/
def accepted (entries : List (LoadedLora α × α)) (model : Model W α) : List (LoadedLora α × α) :=
  entries.takeWhile fun entry => (refusal unitScale model.support entry.2).isNone

/-- `apply_lora_stack` where it panics, after `whole` entries and `n` linear layers of the next
one. -/
def applyPart (entries : List (LoadedLora α × α)) (whole n : ℕ) (model : Model W α) :
    Model W α :=
  let applied := (applyLoraStack unitScale ((accepted unitScale entries model).take whole) model).2
  match (accepted unitScale entries model)[whole]? with
  | none => applied
  | some entry => applied.patch n (attach model.support entry)

end Apply

/-- `unapply_all_loras` where it panics, after `n` linear layers.  Where adapters are not
supported it does nothing. -/
def unapplyPart (n : ℕ) (model : Model W α) : Model W α :=
  match model.support with
  | .unsupported _ => model
  | _ => model.patch n fun _ linear => linear.clearLora

/-- `unapply_all_loras`. -/
def unapplyAllLoras (model : Model W α) : Model W α := model.unapplyPart model.projections.length

end Model

/-! ### The engine -/

/-- `InferenceEngine`, as far as requests leave something in it. -/
structure Engine (W α : Type) where
  loraStack : List (LoadedLora α × α)
  /-- `forward_pass`. -/
  model : Option (Model W α)
  kvCache : Kv.KvCache

namespace Engine

/-- `reset`.  The adapters are not part of what it clears. -/
def reset (engine : Engine W α) : Engine W α := { engine with kvCache := engine.kvCache.clear }

/-- `push_lora`, once for every entry. -/
def pushLoras (entries : List (LoadedLora α × α)) (engine : Engine W α) : Engine W α :=
  { engine with loraStack := engine.loraStack ++ entries }

/-- `RuntimeError`, the part of it that applying a stack raises. -/
inductive RuntimeError
  | modelNotLoaded
  | arch (e : ArchError)
  deriving DecidableEq, Repr

/-- `apply_lora_stack`. -/
def applyLoraStack [ToString α] (unitScale : α → Bool) (engine : Engine W α) :
    Except RuntimeError Unit × Engine W α :=
  if engine.loraStack = [] then (.ok (), engine)
  else
    match engine.model with
    | none => (.error .modelNotLoaded, engine)
    | some model =>
      let (result, model) := model.applyLoraStack unitScale engine.loraStack
      (result.mapError .arch, { engine with model := some model })

/-- `unapply_all_loras`. -/
def unapplyAllLoras (engine : Engine W α) : Engine W α :=
  { engine with loraStack := [], model := engine.model.map Model.unapplyAllLoras }

/-- `unapply_all_loras` where it panics, after `n` linear layers. -/
def unapplyPart (n : ℕ) (engine : Engine W α) : Engine W α :=
  { engine with loraStack := [], model := engine.model.map (Model.unapplyPart n) }

end Engine

/-! ### Requests -/

/-- Where a request panics, if it gets there. -/
inductive Panic
  /-- Before the adapters are looked up. -/
  | early
  /-- After so many adapters were pushed. -/
  | pushing (pushed : ℕ)
  /-- While the stack is applied, after so many entries and linear layers of the next one. -/
  | applying (whole n : ℕ)
  /-- While a stack that was refused is taken off, after so many linear layers. -/
  | refusing (n : ℕ)
  | generating
  /-- While the adapters are taken off, after so many linear layers. -/
  | detaching (n : ℕ)
  /-- When the reply is sent. -/
  | late
  deriving DecidableEq, Repr

/-- `BatchRequest::Generate` and `BatchRequest::GenerateStream`. -/
structure GenerateRequest (α : Type) where
  /-- The client is gone before the request is processed. -/
  dropped : Bool
  loraSelection : List (String × α)
  /-- What generating does to the cache, up to its end, its error or its panic. -/
  generated : Kv.KvCache → Kv.KvCache
  panic : Option Panic

/-- `BatchRequest::Embed`. -/
structure EmbedRequest where
  dropped : Bool
  embedded : Kv.KvCache → Kv.KvCache
  panics : Bool

/-- A stage of a request: what it answers, or the engine that its panic leaves. -/
abbrev Stage (W α : Type) := Except (Engine W α)

/-- The worker: its engine, the registry of adapters and whether its lock is poisoned. -/
structure Worker (W α : Type) where
  engine : Engine W α
  loras : AList fun _ : String => LoadedLora α
  poisoned : Bool

namespace Worker

/-- The adapters that a selection finds. -/
def found (loraSelection : List (String × α)) (s : Worker W α) : List (LoadedLora α × α) :=
  if s.poisoned then []
  else loraSelection.filterMap fun (name, scale) =>
    (s.loras.lookup name).map fun lora => (lora, scale)

section Process

variable [ToString α] (unitScale : α → Bool)

/-- What follows a stack that was refused: it is taken off, and no adapter counts. -/
def takeOff (panic : Option Panic) (engine : Engine W α) : Stage W α (Engine W α × ℕ) :=
  match panic with
  | some (.refusing n) => throw (engine.unapplyPart n)
  | _ => return (engine.unapplyAllLoras, 0)

/-- `apply_lora_selection`, with the number of adapters that were applied. -/
def applyLoraSelection (panic : Option Panic) (found : List (LoadedLora α × α))
    (engine : Engine W α) : Stage W α (Engine W α × ℕ) :=
  match panic with
  | some (.pushing pushed) => throw (engine.pushLoras (found.take pushed))
  | panic =>
    let engine := engine.pushLoras found
    if found = [] then return (engine, 0)
    else
      match panic with
      | some (.applying whole n) =>
        throw { engine with
          model := engine.model.map (Model.applyPart unitScale engine.loraStack whole n) }
      | panic =>
        match engine.applyLoraStack unitScale with
        | (.ok (), engine) => return (engine, found.length)
        | (.error _, engine) => takeOff panic engine

/-- `run_generate`, and taking the adapters off. -/
def runGenerate (r : GenerateRequest α) (loraCount : ℕ) (engine : Engine W α) :
    Stage W α (Engine W α) :=
  let engine := { engine with kvCache := r.generated engine.kvCache }
  if r.panic = some .generating then throw engine
  else if loraCount = 0 then return engine
  else
    match r.panic with
    | some (.detaching n) => throw (engine.unapplyPart n)
    | _ => return engine.unapplyAllLoras

/-- `process_one_request`, of a request that generates. -/
def processGenerate (r : GenerateRequest α) (s : Worker W α) : Stage W α (Engine W α) :=
  if r.panic = some .early then throw s.engine
  else if r.dropped then return s.engine
  else do
    let (engine, loraCount) ← applyLoraSelection unitScale r.panic
      (s.found r.loraSelection) s.engine
    let engine ← runGenerate r loraCount engine
    if r.panic = some .late then throw engine else return engine

/-- `process_one_request`, of a request for an embedding. -/
def processEmbed (r : EmbedRequest) (engine : Engine W α) : Stage W α (Engine W α) :=
  let engine :=
    if r.dropped then engine
    else { engine.reset with kvCache := r.embedded engine.reset.kvCache }
  if r.panics then throw engine else return engine

/-- `catch_unwind` of `run_worker`, and the reset after a panic. -/
def catchUnwind : Stage W α (Engine W α) → Engine W α
  | .ok engine => engine
  | .error engine => engine.reset

/-- What happens: a request, or a change of the registry. -/
inductive Event (α : Type)
  | generate (r : GenerateRequest α)
  | embed (r : EmbedRequest)
  | registerLora (name : String) (lora : LoadedLora α)
  | unregisterLora (name : String)
  | poison

/-- One event. -/
def step (s : Worker W α) : Event α → Option (Worker W α × Unit)
  | .generate r => some ({ s with engine := catchUnwind (processGenerate unitScale r s) }, ())
  | .embed r => some ({ s with engine := catchUnwind (processEmbed r s.engine) }, ())
  | .registerLora name lora =>
    some (if name = "" || s.poisoned then s else { s with loras := s.loras.insert name lora }, ())
  | .unregisterLora name =>
    some (if s.poisoned then s else { s with loras := s.loras.erase name }, ())
  | .poison => some ({ s with poisoned := true }, ())

end Process

end Worker

/-! ### What a stack leaves in a model -/

/-- A linear layer stays bare if no entry names it. -/
theorem bare_attach_iff {support : LoraSupport} (hsupport : ∀ detail, support ≠ .unsupported detail)
    {entry : LoadedLora α × α} {name : String} {linear : QuantLinear W α} :
    Bare (attach support entry name linear) ↔ Bare linear ∧ entry.1.get name = none := by
  unfold attach
  cases entry.1.get name with
  | none => simp
  | some adapter =>
    cases support with
    | replacing => simp [Bare, QuantLinear.setLora]
    | accumulating => simp [Bare, QuantLinear.pushLora]
    | unsupported detail => exact absurd rfl (hsupport detail)

theorem bare_foldl_attach_iff {support : LoraSupport}
    (hsupport : ∀ detail, support ≠ .unsupported detail) {entries : List (LoadedLora α × α)}
    {name : String} {linear : QuantLinear W α} :
    Bare (entries.foldl (fun linear entry => attach support entry name linear) linear) ↔
      Bare linear ∧ ∀ entry ∈ entries, entry.1.get name = none := by
  induction entries generalizing linear with
  | nil => simp
  | cons entry entries ih =>
    rw [List.foldl_cons, ih, bare_attach_iff hsupport, List.forall_mem_cons, and_assoc]

theorem bare_clearLora (linear : QuantLinear W α) : Bare linear.clearLora := ⟨rfl, rfl⟩

namespace Model

/-- No adapter is attached to the model. -/
def Clean (model : Model W α) : Prop := ∀ p ∈ model.projections, p.2.loraCount = 0

theorem projections_patchAll (f : String → QuantLinear W α → QuantLinear W α)
    (model : Model W α) :
    (model.patchAll f).projections = model.projections.map fun p => (p.1, f p.1 p.2) := by
  show (model.projections.take _).map _ ++ model.projections.drop _ = _
  rw [List.take_length, List.drop_length, List.append_nil]

theorem patchAll_patchAll (f g : String → QuantLinear W α → QuantLinear W α)
    (model : Model W α) :
    (model.patchAll f).patchAll g = model.patchAll fun name linear => g name (f name linear) := by
  have hmap : ∀ (h : String → QuantLinear W α → QuantLinear W α) (model : Model W α),
      model.patchAll h =
        { model with projections := model.projections.map fun p => (p.1, h p.1 p.2) } := by
    intro h model
    rw [← projections_patchAll]
    rfl
  rw [hmap, hmap, hmap, List.map_map]
  rfl

theorem patchAll_id (model : Model W α) : model.patchAll (fun _ linear => linear) = model := by
  have hproj := projections_patchAll (fun _ linear => linear) model
  rw [List.map_id''] at hproj
  · cases model
    exact congrArg (Model.mk _) hproj
  · intro p
    rfl

/-- The model with entries applied. -/
def applied (entries : List (LoadedLora α × α)) (model : Model W α) : Model W α :=
  model.patchAll fun name linear =>
    entries.foldl (fun linear entry => attach model.support entry name linear) linear

section Apply

variable [ToString α] {unitScale : α → Bool} {entries : List (LoadedLora α × α)}

/-- **What a stack leaves**: the entries before the first one that is refused are applied. -/
theorem applyLoraStack_model (entries : List (LoadedLora α × α)) (model : Model W α) :
    (model.applyLoraStack unitScale entries).2 =
      model.applied (model.accepted unitScale entries) := by
  induction entries generalizing model with
  | nil => exact (patchAll_id model).symm
  | cons entry entries ih =>
    rw [accepted, List.takeWhile_cons, applyLoraStack]
    cases href : refusal unitScale model.support entry.2 with
    | some e =>
      simp only [Option.isNone_some, Bool.false_eq_true, if_false]
      exact (patchAll_id model).symm
    | none =>
      simp only [Option.isNone_none, if_true]
      rw [ih]
      exact patchAll_patchAll _ _ model

/-- A stack is taken if no scale of it is refused. -/
theorem applyLoraStack_ok_iff (unitScale : α → Bool) (entries : List (LoadedLora α × α))
    (model : Model W α) :
    (model.applyLoraStack unitScale entries).1 = .ok () ↔
      ∀ entry ∈ entries, refusal unitScale model.support entry.2 = none := by
  induction entries generalizing model with
  | nil => simp [applyLoraStack]
  | cons entry entries ih =>
    rw [applyLoraStack, List.forall_mem_cons]
    cases href : refusal unitScale model.support entry.2 with
    | some e => simp
    | none =>
      rw [and_iff_right rfl]
      exact ih _

/-- Where adapters are not supported, none is applied. -/
theorem accepted_eq_nil {model : Model W α} {detail : String}
    (hsupport : model.support = .unsupported detail) : model.accepted unitScale entries = [] := by
  cases entries with
  | nil => rfl
  | cons entry entries =>
    rw [accepted, hsupport, List.takeWhile_cons, refusal]
    split <;> simp

/-- No entry that is applied names a linear layer from the `n`-th on. -/
def Spares (unitScale : α → Bool) (entries : List (LoadedLora α × α)) (n : ℕ)
    (model : Model W α) : Prop :=
  ∀ p ∈ model.projections.drop n, ∀ entry ∈ model.accepted unitScale entries,
    entry.1.get p.1 = none

/-- **What taking off the first `n` linear layers leaves.** -/
theorem clean_unapplyPart_iff {model : Model W α} (hclean : model.Clean)
    (entries : List (LoadedLora α × α)) (n : ℕ) :
    ((model.applied (model.accepted unitScale entries)).unapplyPart n).Clean ↔
      model.Spares unitScale entries n := by
  by_cases hsupport : ∀ detail, model.support ≠ .unsupported detail
  · have hpart : (model.applied (model.accepted unitScale entries)).unapplyPart n =
        (model.applied (model.accepted unitScale entries)).patch n
          fun _ linear => linear.clearLora := by
      unfold unapplyPart
      split
      · rename_i detail hdetail
        exact absurd hdetail (hsupport detail)
      · rfl
    rw [hpart, Clean, patch]
    dsimp only
    rw [applied, projections_patchAll, List.forall_mem_append, ← List.map_drop]
    -- the layers before the `n`-th one are cleared
    have hfirst : ∀ p ∈ List.map (fun p : String × QuantLinear W α => (p.1, p.2.clearLora))
        ((model.projections.map fun p => (p.1, (model.accepted unitScale entries).foldl
          (fun linear entry => attach model.support entry p.1 linear) p.2)).take n),
        p.2.loraCount = 0 := by
      intro p hp
      obtain ⟨q, -, rfl⟩ := List.mem_map.mp hp
      exact Arch.loraCount_eq_zero_iff.mpr (bare_clearLora q.2)
    rw [and_iff_right hfirst, List.forall_mem_map, Spares]
    refine forall₂_congr fun p hp => ?_
    rw [Arch.loraCount_eq_zero_iff, bare_foldl_attach_iff hsupport, and_iff_right]
    exact Arch.loraCount_eq_zero_iff.mp (hclean p (List.mem_of_mem_drop hp))
  · -- nothing is attached, and nothing is taken off
    push Not at hsupport
    obtain ⟨detail, hdetail⟩ := hsupport
    have hnil : model.accepted unitScale entries = [] := accepted_eq_nil hdetail
    have hsame : (model.applied []).unapplyPart n = model := by
      rw [applied]
      simp only [List.foldl_nil]
      rw [patchAll_id, unapplyPart, hdetail]
    rw [Spares, hnil, hsame]
    simp [hclean]

theorem spares_all (unitScale : α → Bool) (entries : List (LoadedLora α × α))
    (model : Model W α) : model.Spares unitScale entries model.projections.length := by
  rw [Spares, List.drop_length]
  simp

end Apply

end Model

/-! ### What a request leaves in the engine -/

namespace Engine

/-- **What the next request should find**: an empty stack, and no adapter in the model. -/
structure Clean (engine : Engine W α) : Prop where
  loraStack_eq : engine.loraStack = []
  model : ∀ model ∈ engine.model, model.Clean

/-- The cache has nothing to do with it. -/
theorem Clean.withCache {engine : Engine W α} (h : engine.Clean) (kvCache : Kv.KvCache) :
    Clean { engine with kvCache } := ⟨h.loraStack_eq, h.model⟩

theorem clean_reset_iff {engine : Engine W α} : engine.reset.Clean ↔ engine.Clean :=
  ⟨fun h => ⟨h.loraStack_eq, h.model⟩, fun h => ⟨h.loraStack_eq, h.model⟩⟩

theorem not_clean_of_stack {engine : Engine W α} (h : engine.loraStack ≠ []) : ¬ engine.Clean :=
  fun hclean => h hclean.loraStack_eq

section Apply

variable [ToString α] {unitScale : α → Bool} {entries : List (LoadedLora α × α)}
  {engine : Engine W α}

/-- The engine takes a stack if it has a model and no scale is refused. -/
def Takes (unitScale : α → Bool) (entries : List (LoadedLora α × α)) (engine : Engine W α) :
    Prop :=
  ∃ model ∈ engine.model, ∀ entry ∈ entries, Model.refusal unitScale model.support entry.2 = none

/-- No entry that is applied names a linear layer from the `n`-th on. -/
def Spares (unitScale : α → Bool) (entries : List (LoadedLora α × α)) (n : ℕ)
    (engine : Engine W α) : Prop :=
  ∀ model ∈ engine.model, model.Spares unitScale entries n

/-- The engine with a stack pushed, and applied as far as the model takes it. -/
def withStack (unitScale : α → Bool) (entries : List (LoadedLora α × α)) (engine : Engine W α) :
    Engine W α :=
  { engine with
    loraStack := entries
    model := engine.model.map fun model => model.applied (model.accepted unitScale entries) }

/-- Pushing onto an empty stack and applying. -/
theorem applyLoraStack_eq (unitScale : α → Bool) (hclean : engine.Clean) (hne : entries ≠ []) :
    ∃ result, (engine.pushLoras entries).applyLoraStack unitScale =
        (result, engine.withStack unitScale entries) ∧
      (result = .ok () ↔ engine.Takes unitScale entries) := by
  have hpush : engine.pushLoras entries = { engine with loraStack := entries } := by
    rw [pushLoras, hclean.loraStack_eq, List.nil_append]
  rw [hpush, applyLoraStack, if_neg hne, withStack, Takes]
  cases engine.model with
  | none =>
    refine ⟨_, rfl, ?_⟩
    simp
  | some model =>
    refine ⟨(model.applyLoraStack unitScale entries).1.mapError .arch, ?_, ?_⟩
    · show (_, { engine with
        loraStack := entries
        model := some (model.applyLoraStack unitScale entries).2 }) = _
      rw [Model.applyLoraStack_model]
      rfl
    · have hok := Model.applyLoraStack_ok_iff unitScale entries model
      simp only [Option.mem_def, Option.some.injEq, exists_eq_left']
      rw [← hok]
      cases (model.applyLoraStack unitScale entries).1 with
      | error e => simp [Except.mapError]
      | ok u => simp [Except.mapError]

/-- **Taking a stack off in part.** -/
theorem clean_unapplyPart_iff (hclean : engine.Clean) (n : ℕ) :
    ((engine.withStack unitScale entries).unapplyPart n).Clean ↔
      engine.Spares unitScale entries n := by
  have hmodel : ((engine.withStack unitScale entries).unapplyPart n).model =
      engine.model.map fun model =>
        (model.applied (model.accepted unitScale entries)).unapplyPart n := by
    show (engine.model.map _).map _ = _
    rw [Option.map_map]
    rfl
  constructor
  · intro h model hm
    refine (Model.clean_unapplyPart_iff (hclean.model model hm) entries n).mp (h.model _ ?_)
    rw [hmodel]
    exact Option.mem_map_of_mem _ hm
  · intro h
    refine ⟨rfl, fun model' hm' => ?_⟩
    rw [hmodel] at hm'
    obtain ⟨model, hm, rfl⟩ := Option.mem_map.mp hm'
    exact (Model.clean_unapplyPart_iff (hclean.model model hm) entries n).mpr (h model hm)

/-- Taking it off leaves nothing. -/
theorem clean_unapplyAllLoras (hclean : engine.Clean) :
    (engine.withStack unitScale entries).unapplyAllLoras.Clean := by
  refine ⟨rfl, fun model' hm' => ?_⟩
  obtain ⟨applied, happlied, rfl⟩ := Option.mem_map.mp hm'
  obtain ⟨model, hm, rfl⟩ := Option.mem_map.mp happlied
  have hlen : (model.applied (model.accepted unitScale entries)).projections.length =
      model.projections.length := by
    rw [Model.applied, Model.projections_patchAll, List.length_map]
  rw [Model.unapplyAllLoras, hlen]
  exact (Model.clean_unapplyPart_iff (hclean.model model hm) entries _).mpr
    (Model.spares_all unitScale entries model)

end Apply

end Engine

namespace Worker

theorem clean_catchUnwind_ok {engine : Engine W α} :
    (catchUnwind (.ok engine)).Clean ↔ engine.Clean := Iff.rfl

theorem clean_catchUnwind_error {engine : Engine W α} :
    (catchUnwind (.error engine)).Clean ↔ engine.Clean := Engine.clean_reset_iff

/-- A last stage that may panic, and changes nothing. -/
theorem clean_late {engine : Engine W α} {c : Prop} [Decidable c] :
    (catchUnwind (if c then throw engine else return engine)).Clean ↔ engine.Clean := by
  split
  · exact clean_catchUnwind_error
  · exact clean_catchUnwind_ok

/-- What is behind the adapters: generating, taking them off, and the reply. -/
def afterSelection (r : GenerateRequest α) (loraCount : ℕ) (engine : Engine W α) :
    Stage W α (Engine W α) := do
  let engine ← runGenerate r loraCount engine
  if r.panic = some .late then throw engine else return engine

/-- Without adapters it leaves a clean engine clean. -/
theorem clean_afterSelection_zero {r : GenerateRequest α} {engine : Engine W α}
    (hclean : engine.Clean) : (catchUnwind (afterSelection r 0 engine)).Clean := by
  unfold afterSelection runGenerate
  dsimp only
  rw [if_pos rfl]
  by_cases hpanic : r.panic = some .generating
  · rw [if_pos hpanic]
    exact clean_catchUnwind_error.mpr (hclean.withCache _)
  · rw [if_neg hpanic]
    exact clean_late.mpr (hclean.withCache _)

section Process

variable [ToString α] {unitScale : α → Bool} {r : GenerateRequest α} {s : Worker W α}

/-- **The requests that leave nothing behind.**  They find no adapter; or they do not panic
between their first adapter and the end of taking them off, unless what they panic with is no
longer attached.  A stack that is refused is taken off before anything is generated. -/
def LeavesNothing (unitScale : α → Bool) (s : Worker W α) (r : GenerateRequest α) : Prop :=
  r.dropped = true ∨ s.found r.loraSelection = [] ∨
    match r.panic with
    | none | some .early | some .late => True
    | some (.pushing pushed) => pushed = 0
    | some (.applying _ _) => False
    | some (.refusing n) => s.engine.Takes unitScale (s.found r.loraSelection) ∨
        s.engine.Spares unitScale (s.found r.loraSelection) n
    | some .generating => ¬ s.engine.Takes unitScale (s.found r.loraSelection)
    | some (.detaching n) => s.engine.Takes unitScale (s.found r.loraSelection) →
        s.engine.Spares unitScale (s.found r.loraSelection) n

/-- What an event has to be for the engine to stay clean. -/
def Guard (unitScale : α → Bool) (s : Worker W α) : Event α → Prop
  | .generate r => s.LeavesNothing unitScale r
  | _ => True

/-- A request without adapters leaves the engine as clean as it was. -/
theorem clean_without_adapters (hclean : s.engine.Clean) (hfound : s.found r.loraSelection = []) :
    (catchUnwind (processGenerate unitScale r s)).Clean := by
  have hpush : ∀ n, s.engine.pushLoras (List.take n ([] : List (LoadedLora α × α))) = s.engine := by
    intro n
    rw [List.take_nil, Engine.pushLoras, List.append_nil]
  have hselect : applyLoraSelection unitScale r.panic [] s.engine = .ok (s.engine, 0) ∨
      applyLoraSelection unitScale r.panic [] s.engine = .error s.engine := by
    have hnil := hpush 0
    rw [List.take_nil] at hnil
    unfold applyLoraSelection
    split
    · right
      rw [hpush]
      rfl
    · left
      rw [hnil]
      rfl
  rw [processGenerate, hfound]
  split
  · exact clean_catchUnwind_error.mpr hclean
  · split
    · exact hclean
    · rcases hselect with hok | herror
      · rw [hok]
        exact clean_afterSelection_zero hclean
      · rw [herror]
        exact clean_catchUnwind_error.mpr hclean

/-- With adapters it matters whether they are taken off before the panic. -/
theorem clean_afterSelection_iff (unitScale : α → Bool) (r : GenerateRequest α)
    {engine : Engine W α} (hclean : engine.Clean)
    {found : List (LoadedLora α × α)} (hne : found ≠ []) :
    (catchUnwind (afterSelection r found.length (engine.withStack unitScale found))).Clean ↔
      match r.panic with
      | some .generating => False
      | some (.detaching n) => engine.Spares unitScale found n
      | _ => True := by
  have hcount : found.length ≠ 0 := fun h => hne (List.length_eq_zero_iff.mp h)
  have hcache := hclean.withCache (r.generated engine.kvCache)
  have hstack : { engine.withStack unitScale found with
      kvCache := r.generated (engine.withStack unitScale found).kvCache } =
        ({ engine with kvCache := r.generated engine.kvCache } : Engine W α).withStack unitScale
          found := rfl
  unfold afterSelection runGenerate
  dsimp only
  rw [hstack, if_neg hcount]
  cases hpanic : r.panic with
  | none => exact iff_of_true (Engine.clean_unapplyAllLoras hcache) trivial
  | some panic =>
    cases panic with
    | generating =>
      rw [if_pos rfl]
      exact iff_of_false
        (fun h => Engine.not_clean_of_stack hne (clean_catchUnwind_error.mp h)) id
    | detaching n =>
      exact clean_catchUnwind_error.trans (Engine.clean_unapplyPart_iff hcache n)
    | late =>
      exact iff_of_true (clean_catchUnwind_error.mpr (Engine.clean_unapplyAllLoras hcache)) trivial
    | early => exact iff_of_true (Engine.clean_unapplyAllLoras hcache) trivial
    | pushing pushed => exact iff_of_true (Engine.clean_unapplyAllLoras hcache) trivial
    | applying whole n => exact iff_of_true (Engine.clean_unapplyAllLoras hcache) trivial
    | refusing n => exact iff_of_true (Engine.clean_unapplyAllLoras hcache) trivial

/-- **Selecting adapters**, unless it panics before the stack has been applied: the stack is
taken, or taken off again. -/
theorem applyLoraSelection_eq (unitScale : α → Bool) {engine : Engine W α}
    (hclean : engine.Clean) {found : List (LoadedLora α × α)} (hne : found ≠ [])
    {panic : Option Panic}
    (hpushing : ∀ pushed, panic ≠ some (.pushing pushed))
    (happlying : ∀ whole n, panic ≠ some (.applying whole n)) :
    engine.Takes unitScale found ∧ applyLoraSelection unitScale panic found engine =
        .ok (engine.withStack unitScale found, found.length) ∨
    ¬ engine.Takes unitScale found ∧ applyLoraSelection unitScale panic found engine =
      takeOff panic (engine.withStack unitScale found) := by
  obtain ⟨result, happly, hok⟩ := Engine.applyLoraStack_eq unitScale hclean hne
  have hselect : applyLoraSelection unitScale panic found engine =
      match (engine.pushLoras found).applyLoraStack unitScale with
      | (.ok (), engine) => .ok (engine, found.length)
      | (.error _, engine) => takeOff panic engine := by
    unfold applyLoraSelection
    split
    · exact absurd rfl (hpushing _)
    · dsimp only
      rw [if_neg hne]
      split
      · exact absurd rfl (happlying _ _)
      · rfl
  rw [hselect, happly, ← hok]
  cases result with
  | error e => exact .inr ⟨(fun h => nomatch h), rfl⟩
  | ok u => exact .inl ⟨rfl, rfl⟩

/-- **When a request leaves no adapter behind.** -/
theorem clean_processGenerate_iff (hclean : s.engine.Clean) :
    (catchUnwind (processGenerate unitScale r s)).Clean ↔ s.LeavesNothing unitScale r := by
  by_cases hearly : r.panic = some .early
  · refine iff_of_true ?_ (.inr (.inr ?_))
    · rw [processGenerate, if_pos hearly]
      exact clean_catchUnwind_error.mpr hclean
    · rw [hearly]
      trivial
  by_cases hdropped : r.dropped = true
  · refine iff_of_true ?_ (.inl hdropped)
    rw [processGenerate, if_neg hearly, if_pos hdropped]
    exact hclean
  by_cases hfound : s.found r.loraSelection = []
  · exact iff_of_true (clean_without_adapters hclean hfound) (.inr (.inl hfound))
  have hprocess : processGenerate unitScale r s =
      applyLoraSelection unitScale r.panic (s.found r.loraSelection) s.engine >>=
        fun p => afterSelection r p.2 p.1 := by
    rw [processGenerate, if_neg hearly, if_neg hdropped]
    rfl
  rw [LeavesNothing, or_iff_right hdropped, or_iff_right hfound, hprocess]
  generalize hpanic : r.panic = panic
  by_cases hpushing : ∃ pushed, panic = some (.pushing pushed)
  · obtain ⟨pushed, rfl⟩ := hpushing
    -- the panic leaves what has been pushed
    have hstack : (s.engine.pushLoras ((s.found r.loraSelection).take pushed)).loraStack =
        (s.found r.loraSelection).take pushed := by
      show s.engine.loraStack ++ _ = _
      rw [hclean.loraStack_eq, List.nil_append]
    refine clean_catchUnwind_error.trans ⟨fun h => ?_, fun h => ?_⟩
    · rcases List.take_eq_nil_iff.mp (hstack.symm.trans h.loraStack_eq) with hzero | hnil
      · exact hzero
      · exact absurd hnil hfound
    · obtain rfl : pushed = 0 := h
      exact ⟨hstack, hclean.model⟩
  by_cases happlying : ∃ whole n, panic = some (.applying whole n)
  · obtain ⟨whole, n, rfl⟩ := happlying
    refine iff_of_false (fun h => ?_) id
    have hstack : (s.engine.pushLoras (s.found r.loraSelection)).loraStack ≠ [] := by
      show s.engine.loraStack ++ _ ≠ _
      rw [hclean.loraStack_eq, List.nil_append]
      exact hfound
    unfold applyLoraSelection at h
    dsimp only at h
    rw [if_neg hfound] at h
    exact hstack (clean_catchUnwind_error.mp h).loraStack_eq
  push Not at hpushing happlying
  have hafter := clean_afterSelection_iff unitScale r hclean hfound
  rw [hpanic] at hafter
  have hnothing : (catchUnwind (afterSelection r 0
      (s.engine.withStack unitScale (s.found r.loraSelection)).unapplyAllLoras)).Clean :=
    clean_afterSelection_zero (Engine.clean_unapplyAllLoras hclean)
  have hpart : ∀ n, (catchUnwind (.error
      ((s.engine.withStack unitScale (s.found r.loraSelection)).unapplyPart n))).Clean ↔
        s.engine.Spares unitScale (s.found r.loraSelection) n := fun n =>
    clean_catchUnwind_error.trans (Engine.clean_unapplyPart_iff hclean n)
  rcases applyLoraSelection_eq unitScale hclean hfound hpushing happlying with
    ⟨htakes, hselect⟩ | ⟨htakes, hselect⟩
  · rw [hselect]
    refine hafter.trans ?_
    cases panic with
    | none => rfl
    | some panic => cases panic <;> simp_all
  · rw [hselect]
    cases panic with
    | none => exact iff_of_true hnothing trivial
    | some panic =>
      cases panic with
      | refusing n => exact (hpart n).trans (or_iff_right htakes).symm
      | early => exact iff_of_true hnothing trivial
      | pushing pushed => exact absurd rfl (hpushing pushed)
      | applying whole n => exact absurd rfl (happlying whole n)
      | generating => exact iff_of_true hnothing htakes
      | detaching n => exact iff_of_true hnothing fun h => absurd h htakes
      | late => exact iff_of_true hnothing trivial

/-- An event keeps the engine clean exactly if it meets the guard. -/
theorem clean_step_iff {s' : Worker W α} {e : Event α} {out : Unit} (hclean : s.engine.Clean)
    (hstep : s.step unitScale e = some (s', out)) :
    s'.engine.Clean ↔ s.Guard unitScale e := by
  cases e with
  | generate r =>
    obtain ⟨rfl, -⟩ := Prod.mk.inj (Option.some.inj hstep)
    exact clean_processGenerate_iff hclean
  | embed r =>
    obtain ⟨rfl, -⟩ := Prod.mk.inj (Option.some.inj hstep)
    refine iff_of_true ?_ trivial
    refine clean_late.mpr ?_
    split
    · exact hclean
    · exact (Engine.clean_reset_iff.mpr hclean).withCache _
  | registerLora name lora =>
    obtain ⟨rfl, -⟩ := Prod.mk.inj (Option.some.inj hstep)
    refine iff_of_true ?_ trivial
    split
    · exact hclean
    · exact hclean
  | unregisterLora name =>
    obtain ⟨rfl, -⟩ := Prod.mk.inj (Option.some.inj hstep)
    refine iff_of_true ?_ trivial
    split
    · exact hclean
    · exact hclean
  | poison =>
    obtain ⟨rfl, -⟩ := Prod.mk.inj (Option.some.inj hstep)
    exact iff_of_true hclean trivial

/-- **The runs in which no request finds an adapter**: the engine is clean before every event,
and after the last one, if and only if every request of the run leaves nothing behind. -/
theorem isolated_iff (unitScale : α → Bool) (hclean : s.engine.Clean) (events : List (Event α)) :
    Along (step unitScale) (fun s => s.engine.Clean) s events ↔
      StepsMeet (step unitScale) (Guard unitScale) s events := by
  refine along_iff_stepsMeet (J := fun _ => True) (fun _ _ => trivial) (fun e _ _ => ?_)
    (fun _ h hstep => clean_step_iff h hstep) trivial hclean events
  cases e <;> exact ⟨_, _, rfl⟩

end Process

/-! ### A panic with an adapter -/

/-- An adapter of rank one for the only linear layer of a model. -/
def sampleLora : LoadedLora ℤ :=
  ⟨AList.singleton "blk.0.attn_q.weight" ⟨[1], [1], 1, 1, 1, 1, rfl, rfl⟩⟩

/-- A worker with a model of one linear layer, and the adapter in its registry. -/
def sampleWorker : Worker Unit ℤ where
  engine :=
    { loraStack := []
      model := some ⟨.accumulating, [("blk.0.attn_q.weight", ⟨(), none, 1, 1, none, []⟩)]⟩
      kvCache := .withDtype 1 4 1 .f32 }
  loras := AList.singleton "style" sampleLora
  poisoned := false

/-- A request for the adapter. -/
def sampleRequest (panic : Option Panic) : GenerateRequest ℤ :=
  ⟨false, [("style", 1)], id, panic⟩

theorem clean_sampleWorker : sampleWorker.engine.Clean := by
  refine ⟨rfl, fun model hm => ?_⟩
  obtain rfl := Option.some.inj hm
  exact List.forall_mem_singleton.mpr rfl

/-- A request that returns, one that panics without adapters, and one that panics when its reply
is sent. -/
theorem isolated_sample :
    Along (step fun scale => scale == 1) (fun s => s.engine.Clean) sampleWorker
      [.generate (sampleRequest none), .generate ⟨false, [("other", 1)], id, some .generating⟩,
        .generate (sampleRequest (some .late))] := by
  refine (isolated_iff _ clean_sampleWorker _).mpr ?_
  refine StepsMeet.cons rfl (.inr (.inr trivial)) ?_
  refine StepsMeet.cons rfl (.inr (.inl rfl)) ?_
  exact StepsMeet.cons rfl (.inr (.inr trivial)) trivial

/-- **A panic while generating leaves the adapter**, on the stack and in the model. -/
theorem adapter_after_panic :
    ¬ Along (step fun scale => scale == 1) (fun s => s.engine.Clean) sampleWorker
      [.generate (sampleRequest (some .generating)), .generate ⟨false, [], id, none⟩] := by
  rintro ⟨-, s', out, hstep, hrest⟩
  obtain ⟨rfl, -⟩ := Prod.mk.inj (Option.some.inj hstep)
  have hstack := hrest.start.loraStack_eq
  cases hstack

end Worker

end Cleanup

end Server

end Oxillama
