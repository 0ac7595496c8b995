/-
The pool of sequence states (`oxillama-runtime/src/sequence_pool.rs`,
`oxillama-arch/src/common/sequence_state.rs`, `oxillama-arch/src/jamba/model.rs`).

A slot carries the id of its request, a position, and the state of an architecture, which
counts positions too.  `alloc` writes the id; `release` resets all three; between the two the
owner steps its slot.

Beside the pool, `Bound` keeps for every slot that is out the id it was allocated for and how
often its owner has stepped it.  It is there for the statements only.

* `SequenceState.positionAfter` — where a sequence stands after so many tokens;
* `Sound` — the invariant: a slot shows its owner's id and position, a free slot shows none;
* `sound_of_run` — it holds after every sequence of calls;
* `pools_never_alias` — **both pools**.
-/
import Oxillama.Lib.Usize
import Oxillama.Runtime.KvPool

namespace Oxillama

namespace Runtime

/-! ### Sequence states -/

/-- `SsmLayerState`. -/
structure SsmLayerState where
  h : List Kv.F32
  dState : ℕ
  dInner : ℕ
  deriving DecidableEq, Repr

/-- `SsmLayerState::new`. -/
def SsmLayerState.new (dState dInner : ℕ) : SsmLayerState :=
  ⟨List.replicate (dState * dInner) 0, dState, dInner⟩

/-- `SsmLayerState::clear`. -/
def SsmLayerState.clear (layer : SsmLayerState) : SsmLayerState :=
  { layer with h := layer.h.map fun _ => 0 }

/-- `AttentionSequenceState`. -/
structure AttentionSequenceState where
  position : ℕ
  maxCapacity : ℕ
  deriving DecidableEq, Repr

/-- `AttentionSequenceState::new`. -/
def AttentionSequenceState.new (maxCapacity : ℕ) : AttentionSequenceState := ⟨0, maxCapacity⟩

/-- `JambaLayerState`. -/
inductive JambaLayerState
  | attention (state : AttentionSequenceState)
  | ssm (state : SsmLayerState)
  deriving DecidableEq, Repr

/-- `LayerKind`. -/
inductive LayerKind
  | attention
  | ssm
  deriving DecidableEq, Repr

/-- The implementations of the trait `SequenceState`. -/
inductive SequenceState
  | attention (state : AttentionSequenceState)
  | mamba2 (layers : List SsmLayerState) (position maxCapacity : ℕ)
  | jamba (layers : List JambaLayerState) (position maxCapacity : ℕ)
  deriving DecidableEq, Repr

namespace SequenceState

/-- `Mamba2SequenceState::new`. -/
def newMamba2 (nLayers dState dInner maxCapacity : ℕ) : SequenceState :=
  .mamba2 (List.replicate nLayers (SsmLayerState.new dState dInner)) 0 maxCapacity

/-- `JambaSequenceState::new`, with the `layer_pattern`, `d_state` and `d_inner` of the model. -/
def newJamba (layerPattern : List LayerKind) (dState dInner maxCapacity : ℕ) : SequenceState :=
  .jamba (layerPattern.map fun kind => match kind with
    | .attention => .attention (AttentionSequenceState.new maxCapacity)
    | .ssm => .ssm (SsmLayerState.new dState dInner)) 0 maxCapacity

/-- `SequenceState::reset`. -/
def reset : SequenceState → SequenceState
  | .attention state => .attention { state with position := 0 }
  | .mamba2 layers _ maxCapacity => .mamba2 (layers.map SsmLayerState.clear) 0 maxCapacity
  | .jamba layers _ maxCapacity =>
    .jamba (layers.map fun layer => match layer with
      | .attention state => .attention { state with position := 0 }
      | .ssm state => .ssm state.clear) 0 maxCapacity

/-- `SequenceState::step_position`. -/
def stepPosition : SequenceState → ℕ
  | .attention state => state.position
  | .mamba2 _ position _ => position
  | .jamba _ position _ => position

/-- `SequenceState::capacity`. -/
def capacity : SequenceState → ℕ
  | .attention state => state.maxCapacity
  | .mamba2 _ _ maxCapacity => maxCapacity
  | .jamba _ _ maxCapacity => maxCapacity

/-- `SequenceState::advance`.  The counter of a Jamba model is not held at its capacity; nothing
where it overflows. -/
def advance : SequenceState → Option SequenceState
  | .attention state => some (.attention
      (if state.position < state.maxCapacity then { state with position := state.position + 1 }
      else state))
  | .mamba2 layers position maxCapacity => some (.mamba2 layers
      (if position < maxCapacity then position + 1 else position) maxCapacity)
  | .jamba layers position maxCapacity =>
    (usizeAdd position 1).map fun position => .jamba layers position maxCapacity

/-- **Where a sequence stands** after so many tokens from its beginning. -/
def positionAfter (state : SequenceState) (tokens : ℕ) : ℕ :=
  match state with
  | .attention _ | .mamba2 _ _ _ => min tokens state.capacity
  | .jamba _ _ _ => tokens

theorem stepPosition_reset (state : SequenceState) : state.reset.stepPosition = 0 := by
  cases state <;> rfl

theorem positionAfter_zero (state : SequenceState) : state.positionAfter 0 = 0 := by
  cases state <;> simp [positionAfter]

/-- Advancing is going one token further. -/
theorem positionAfter_advance {state state' : SequenceState} {tokens : ℕ}
    (h : state.stepPosition = state.positionAfter tokens) (hstep : state.advance = some state') :
    state'.stepPosition = state'.positionAfter (tokens + 1) := by
  cases state with
  | attention s =>
    obtain rfl := Option.some.inj hstep
    have hpos : s.position = min tokens s.maxCapacity := h
    show (if _ then _ else s : AttentionSequenceState).position =
      min (tokens + 1) (if _ then _ else s : AttentionSequenceState).maxCapacity
    split
    · show s.position + 1 = min (tokens + 1) s.maxCapacity
      omega
    · omega
  | mamba2 layers position maxCapacity =>
    obtain rfl := Option.some.inj hstep
    have hpos : position = min tokens maxCapacity := h
    show (if position < maxCapacity then position + 1 else position) = min (tokens + 1) maxCapacity
    split <;> omega
  | jamba layers position maxCapacity =>
    obtain ⟨next, hnext, rfl⟩ := Option.map_eq_some_iff.mp hstep
    have hpos : position = tokens := h
    show next = tokens + 1
    unfold usizeAdd at hnext
    split at hnext
    · obtain rfl := Option.some.inj hnext
      omega
    · cases hnext

end SequenceState

/-- The models, as far as their sequence states differ. -/
inductive ForwardPass
  | attention
  | mamba2 (nLayer dState dInner : ℕ)
  | jamba (layerPattern : List LayerKind) (dState dInner : ℕ)
  deriving DecidableEq, Repr

/-- `ForwardPass::allocate_sequence_state`. -/
def ForwardPass.allocateSequenceState (model : ForwardPass) (maxContextLength : ℕ) :
    SequenceState :=
  match model with
  | .attention => .attention (AttentionSequenceState.new maxContextLength)
  | .mamba2 nLayer dState dInner => .newMamba2 nLayer dState dInner maxContextLength
  | .jamba layerPattern dState dInner => .newJamba layerPattern dState dInner maxContextLength

/-- The states that models allocate stand at their beginning. -/
theorem ForwardPass.stepPosition_allocate (model : ForwardPass) (maxContextLength : ℕ) :
    (model.allocateSequenceState maxContextLength).stepPosition = 0 := by
  cases model <;> rfl

/-! ### The pool -/

/-- `PoolError`. -/
inductive PoolError
  | exhausted
  | invalidSlot (idx : ℕ)
  deriving DecidableEq, Repr

/-- `SequenceSlot`. -/
structure SequenceSlot where
  state : SequenceState
  position : ℕ
  requestId : UInt64
  deriving DecidableEq, Repr

namespace SequenceSlot

/-- `SequenceSlot::new`. -/
def new (state : SequenceState) : SequenceSlot := ⟨state, state.stepPosition, 0⟩

/-- `SequenceSlot::step`. -/
def step (slot : SequenceSlot) : Option SequenceSlot :=
  slot.state.advance.map fun state => { slot with state, position := state.stepPosition }

/-- `SequenceSlot::reset`. -/
def reset (slot : SequenceSlot) : SequenceSlot := ⟨slot.state.reset, 0, 0⟩

end SequenceSlot

/-- `SsmStatePool`. -/
structure SsmStatePool where
  slots : List (Option SequenceSlot)
  freeList : List ℕ
  capacity : ℕ
  deriving DecidableEq

namespace SsmStatePool

/-- `SsmStatePool::new`. -/
def new (capacity : ℕ) (makeState : ℕ → SequenceState) : SsmStatePool where
  slots := (List.range capacity).map fun i => some (SequenceSlot.new (makeState i))
  freeList := List.range capacity
  capacity := capacity

/-- `SsmStatePool::from_forward_pass`. -/
def fromForwardPass (model : ForwardPass) (capacity maxContextLength : ℕ) : SsmStatePool :=
  new capacity fun _ => model.allocateSequenceState maxContextLength

/-- `SsmStatePool::alloc`.  Nothing where `slots[idx]` panics. -/
def alloc (pool : SsmStatePool) (requestId : UInt64) :
    Option (Except PoolError ℕ × SsmStatePool) :=
  match pool.freeList.getLast? with
  | none => some (.error .exhausted, pool)
  | some idx =>
    if idx < pool.slots.length then
      some (.ok idx, { pool with
        freeList := pool.freeList.dropLast
        slots := pool.slots.modify idx fun slot => slot.map fun s => { s with requestId } })
    else none

/-- `SsmStatePool::release`. -/
def release (pool : SsmStatePool) (idx : ℕ) : Except PoolError Unit × SsmStatePool :=
  if idx ≥ pool.slots.length then (.error (.invalidSlot idx), pool)
  else if idx ∈ pool.freeList then (.error (.invalidSlot idx), pool)
  else (.ok (), { pool with
    freeList := pool.freeList ++ [idx]
    slots := pool.slots.modify idx fun slot => slot.map SequenceSlot.reset })

/-- `SsmStatePool::slot`. -/
def slot (pool : SsmStatePool) (idx : ℕ) : Option SequenceSlot := (pool.slots[idx]?).join

/-- `step` on the slot that `SsmStatePool::slot_mut` returns.  Nothing where it panics. -/
def stepSlot (pool : SsmStatePool) (idx : ℕ) : Option SsmStatePool :=
  match pool.slot idx with
  | none => some pool
  | some slot => slot.step.map fun slot => { pool with slots := pool.slots.set idx (some slot) }

/-- `SsmStatePool::free_count`. -/
def freeCount (pool : SsmStatePool) : ℕ := pool.freeList.length

/-- `SsmStatePool::used_count`. -/
def usedCount (pool : SsmStatePool) : ℕ := pool.capacity - pool.freeList.length

end SsmStatePool

/-! ### Calls -/

/-- The calls of a pool, and the step that the owner of a slot makes. -/
inductive SsmCall
  | alloc (requestId : UInt64)
  | release (idx : ℕ)
  | slot (idx : ℕ)
  | step (idx : ℕ)
  deriving DecidableEq, Repr

/-- What they answer. -/
inductive SsmAnswer
  | allocated (result : Except PoolError ℕ)
  | released (result : Except PoolError Unit)
  | slot (slot : Option SequenceSlot)
  | stepped

/-- The owner of a slot: its id, and how many steps it has made. -/
structure Owner where
  requestId : UInt64
  steps : ℕ
  deriving DecidableEq, Repr

/-- A pool and the owners of its slots. -/
structure Bound where
  pool : SsmStatePool
  held : List (ℕ × Owner)

/-- One more step of the owner of a slot. -/
def countStep (idx : ℕ) (g : ℕ × Owner) : Owner :=
  if g.1 = idx then { g.2 with steps := g.2.steps + 1 } else g.2

/-- A call.  A slot belongs to the request it was allocated for until it is released; only then
does somebody step it. -/
def Bound.step (s : Bound) : SsmCall → Option (Bound × SsmAnswer)
  | .alloc requestId => (s.pool.alloc requestId).map fun (result, pool) =>
    match result with
    | .error e => ({ s with pool }, .allocated (.error e))
    | .ok idx => ({ pool, held := (idx, ⟨requestId, 0⟩) :: s.held }, .allocated (.ok idx))
  | .release idx =>
    match s.pool.release idx with
    | (.error e, pool) => some ({ s with pool }, .released (.error e))
    | (.ok (), pool) => some ({ pool, held := withoutSlot idx s.held }, .released (.ok ()))
  | .slot idx => some (s, .slot (s.pool.slot idx))
  | .step idx =>
    if idx ∈ s.held.map Prod.fst then
      (s.pool.stepSlot idx).map fun pool =>
        ({ pool, held := s.held.map fun g => (g.1, countStep idx g) }, .stepped)
    else some (s, .stepped)

/-- The pool before the first call. -/
def Bound.start (capacity : ℕ) (makeState : ℕ → SequenceState) : Bound :=
  { pool := SsmStatePool.new capacity makeState, held := [] }

/-! ### The invariant -/

/-- A slot shows this id, and the position after so many steps. -/
structure SequenceSlot.Shows (slot : SequenceSlot) (requestId : UInt64) (steps : ℕ) : Prop where
  requestId_eq : slot.requestId = requestId
  position_eq : slot.position = slot.state.positionAfter steps
  stepPosition_eq : slot.state.stepPosition = slot.position

theorem SequenceSlot.Shows.step {slot slot' : SequenceSlot} {requestId : UInt64} {steps : ℕ}
    (h : slot.Shows requestId steps) (hstep : slot.step = some slot') :
    slot'.Shows requestId (steps + 1) := by
  obtain ⟨state, hadvance, rfl⟩ := Option.map_eq_some_iff.mp hstep
  have hpos : slot.state.stepPosition = slot.state.positionAfter steps := by
    rw [h.stepPosition_eq, h.position_eq]
  exact ⟨h.requestId_eq, SequenceState.positionAfter_advance hpos hadvance, rfl⟩

theorem SequenceSlot.shows_reset (slot : SequenceSlot) : slot.reset.Shows 0 0 where
  requestId_eq := rfl
  position_eq := (SequenceState.positionAfter_zero _).symm
  stepPosition_eq := SequenceState.stepPosition_reset _

namespace SsmStatePool

/-- Every slot is free or has one owner; it shows the id and the steps of its owner, or nothing
if it is free. -/
structure Sound (n : ℕ) (pool : SsmStatePool) (held : List (ℕ × Owner)) : Prop where
  partitioned : Partitioned n pool.freeList held
  capacity_eq : pool.capacity = n
  length_slots : pool.slots.length = n
  owned : ∀ g ∈ held, ∃ slot, pool.slot g.1 = some slot ∧ slot.Shows g.2.requestId g.2.steps
  unowned : ∀ idx ∈ pool.freeList, ∃ slot, pool.slot idx = some slot ∧ slot.Shows 0 0

theorem sound_new {n : ℕ} {makeState : ℕ → SequenceState}
    (hfresh : ∀ i, (makeState i).stepPosition = 0) : Sound n (new n makeState) [] where
  partitioned := Partitioned.start n
  capacity_eq := rfl
  length_slots := by
    show ((List.range n).map _).length = n
    rw [List.length_map, List.length_range]
  owned g hg := absurd hg List.not_mem_nil
  unowned idx hidx := by
    have hlt : idx < n := List.mem_range.mp hidx
    refine ⟨SequenceSlot.new (makeState idx), ?_, rfl, ?_, rfl⟩
    · show (((List.range n).map fun i => some (SequenceSlot.new (makeState i)))[idx]?).join = _
      rw [List.getElem?_map, List.getElem?_range hlt]
      rfl
    · rw [SequenceState.positionAfter_zero]
      exact hfresh idx

section Calls

variable {n idx : ℕ} {pool : SsmStatePool} {held : List (ℕ × Owner)}

/-- Changing one slot. -/
theorem slot_modify (pool : SsmStatePool) (freeList : List ℕ) (idx i : ℕ)
    (f : SequenceSlot → SequenceSlot) :
    ({ pool with
        freeList
        slots := pool.slots.modify idx fun slot => slot.map f } : SsmStatePool).slot i =
      if idx = i then (pool.slot i).map f else pool.slot i := by
  show ((pool.slots.modify idx fun slot => slot.map f)[i]?).join = _
  rw [List.getElem?_modify, slot]
  split
  · cases pool.slots[i]? with
    | none => rfl
    | some slot => rfl
  · cases pool.slots[i]? with
    | none => rfl
    | some slot => rfl

/-- **What `alloc` does**: the pool is exhausted, or the last free slot is bound to the
request. -/
theorem alloc_cases (h : Sound n pool held) (requestId : UInt64) :
    pool.freeList = [] ∧ pool.alloc requestId = some (.error .exhausted, pool) ∨
    ∃ rest idx, pool.freeList = rest ++ [idx] ∧ pool.alloc requestId = some (.ok idx,
      { pool with
        freeList := rest
        slots := pool.slots.modify idx fun slot => slot.map fun s => { s with requestId } }) := by
  rcases List.eq_nil_or_concat pool.freeList with hnil | ⟨rest, idx, hlast⟩
  · left
    refine ⟨hnil, ?_⟩
    rw [alloc, hnil]
    rfl
  · right
    rw [List.concat_eq_append] at hlast
    have hlt : idx < pool.slots.length := by
      rw [h.length_slots]
      refine h.partitioned.lt_of_free ?_
      rw [hlast]
      exact List.mem_append_right rest List.mem_cons_self
    refine ⟨rest, idx, hlast, ?_⟩
    rw [alloc, hlast, List.getLast?_concat, List.dropLast_concat]
    exact if_pos hlt

/-- **What `release` does**: it fails and leaves the pool alone, or the slot was owned. -/
theorem release_cases (h : Sound n pool held) (idx : ℕ) :
    idx ∉ held.map Prod.fst ∧ (∃ e, pool.release idx = (.error e, pool)) ∨
    idx ∈ held.map Prod.fst ∧ pool.release idx = (.ok (), { pool with
      freeList := pool.freeList ++ [idx]
      slots := pool.slots.modify idx fun slot => slot.map SequenceSlot.reset }) := by
  rw [h.partitioned.held_iff, release, h.length_slots]
  by_cases hout : idx ≥ n
  · left
    rw [if_pos hout]
    exact ⟨fun hheld => absurd hheld.1 (not_lt.mpr hout), _, rfl⟩
  · rw [if_neg hout]
    by_cases hfree : idx ∈ pool.freeList
    · left
      rw [if_pos hfree]
      exact ⟨fun hheld => hheld.2 hfree, _, rfl⟩
    · right
      rw [if_neg hfree]
      exact ⟨⟨not_le.mp hout, hfree⟩, rfl⟩

/-- A slot goes to its new owner: it shows the id, and is at its beginning. -/
theorem Sound.lend {rest : List ℕ} (h : Sound n pool held) (hlast : pool.freeList = rest ++ [idx])
    (requestId : UInt64) :
    Sound n { pool with
        freeList := rest
        slots := pool.slots.modify idx fun slot => slot.map fun s => { s with requestId } }
      ((idx, ⟨requestId, 0⟩) :: held) := by
  have hmem : idx ∈ pool.freeList := by
    rw [hlast]
    exact List.mem_append_right rest List.mem_cons_self
  have hpart := h.partitioned
  rw [hlast] at hpart
  have hnodup := h.partitioned.nodup_free
  rw [hlast] at hnodup
  refine ⟨hpart.lend _, h.capacity_eq, ?_, ?_, ?_⟩
  · rw [List.length_modify]
    exact h.length_slots
  · refine List.forall_mem_cons.mpr ⟨?_, fun g hg => ?_⟩
    · obtain ⟨slot, hslot, hshows⟩ := h.unowned idx hmem
      refine ⟨{ slot with requestId }, ?_, rfl, hshows.position_eq, hshows.stepPosition_eq⟩
      rw [slot_modify, if_pos rfl, hslot]
      rfl
    · -- another owner's slot is not the one that was free
      obtain ⟨slot, hslot, hshows⟩ := h.owned g hg
      have hne : idx ≠ g.1 := fun heq => h.partitioned.disjoint g hg (heq ▸ hmem)
      refine ⟨slot, ?_, hshows⟩
      rw [slot_modify, if_neg hne]
      exact hslot
  · intro i hi
    obtain ⟨slot, hslot, hshows⟩ := h.unowned i (hlast ▸ List.mem_append_left _ hi)
    have hne : idx ≠ i := by
      intro heq
      exact (List.nodup_append.mp hnodup).2.2 i hi idx List.mem_cons_self heq.symm
    refine ⟨slot, ?_, hshows⟩
    rw [slot_modify, if_neg hne]
    exact hslot

/-- A slot goes back to the free list, and shows nothing any more. -/
theorem Sound.takeBack (h : Sound n pool held) (hheld : idx ∈ held.map Prod.fst) :
    Sound n { pool with
        freeList := pool.freeList ++ [idx]
        slots := pool.slots.modify idx fun slot => slot.map SequenceSlot.reset }
      (withoutSlot idx held) := by
  refine ⟨h.partitioned.takeBack hheld, h.capacity_eq, ?_, ?_, ?_⟩
  · rw [List.length_modify]
    exact h.length_slots
  · intro g hg
    obtain ⟨slot, hslot, hshows⟩ := h.owned g (Partitioned.mem_of_withoutSlot hg)
    refine ⟨slot, ?_, hshows⟩
    rw [slot_modify, if_neg (h.partitioned.ne_of_withoutSlot hg).symm]
    exact hslot
  · intro i hi
    rcases List.mem_append.mp hi with hi | hi
    · obtain ⟨slot, hslot, hshows⟩ := h.unowned i hi
      have hne : idx ≠ i := by
        rintro rfl
        exact (h.partitioned.held_iff.mp hheld).2 hi
      refine ⟨slot, ?_, hshows⟩
      rw [slot_modify, if_neg hne]
      exact hslot
    · obtain rfl := List.mem_singleton.mp hi
      obtain ⟨g, hg, rfl⟩ := List.mem_map.mp hheld
      obtain ⟨slot, hslot, -⟩ := h.owned g hg
      refine ⟨slot.reset, ?_, slot.shows_reset⟩
      rw [slot_modify, if_pos rfl, hslot]
      rfl

/-- The owner of a slot makes a step. -/
theorem Sound.stepSlot {pool' : SsmStatePool} (h : Sound n pool held)
    (hheld : idx ∈ held.map Prod.fst) (hstep : pool.stepSlot idx = some pool') :
    Sound n pool' (held.map fun g => (g.1, countStep idx g)) := by
  have hlt : idx < pool.slots.length := by
    rw [h.length_slots]
    exact (h.partitioned.held_iff.mp hheld).1
  obtain ⟨g₀, hg₀, rfl⟩ := List.mem_map.mp hheld
  obtain ⟨slot, hslot, hshows⟩ := h.owned g₀ hg₀
  rw [SsmStatePool.stepSlot, hslot] at hstep
  obtain ⟨slot', hslot', rfl⟩ := Option.map_eq_some_iff.mp hstep
  have hset : ∀ i, ({ pool with slots := pool.slots.set g₀.1 (some slot') } : SsmStatePool).slot i =
      if g₀.1 = i then some slot' else pool.slot i := by
    intro i
    show ((pool.slots.set g₀.1 (some slot'))[i]?).join = _
    by_cases hi : g₀.1 = i
    · subst hi
      rw [if_pos rfl, List.getElem?_set_self hlt]
      rfl
    · rw [if_neg hi, List.getElem?_set_ne hi]
      rfl
  refine ⟨h.partitioned.map_holders (countStep g₀.1), h.capacity_eq, ?_, ?_, ?_⟩
  · rw [List.length_set]
    exact h.length_slots
  · intro g' hg'
    obtain ⟨g, hg, rfl⟩ := List.mem_map.mp hg'
    by_cases hslots : g.1 = g₀.1
    · -- the slot has one owner only
      have hsame : g.2 = g₀.2 := by
        have hg' : (g₀.1, g.2) ∈ held := hslots ▸ hg
        exact h.partitioned.holder_unique hg' hg₀
      refine ⟨slot', ?_, ?_⟩
      · rw [hset, if_pos hslots.symm]
      · show slot'.Shows (countStep g₀.1 g).requestId (countStep g₀.1 g).steps
        rw [countStep, if_pos hslots, hsame]
        exact hshows.step hslot'
    · obtain ⟨slot₁, hslot₁, hshows₁⟩ := h.owned g hg
      refine ⟨slot₁, ?_, ?_⟩
      · rw [hset, if_neg (Ne.symm hslots)]
        exact hslot₁
      · show slot₁.Shows (countStep g₀.1 g).requestId (countStep g₀.1 g).steps
        rw [countStep, if_neg hslots]
        exact hshows₁
  · intro i hi
    obtain ⟨slot₁, hslot₁, hshows₁⟩ := h.unowned i hi
    have hne : g₀.1 ≠ i := by
      rintro rfl
      exact h.partitioned.disjoint g₀ hg₀ hi
    refine ⟨slot₁, ?_, hshows₁⟩
    rw [hset, if_neg hne]
    exact hslot₁

end Calls

end SsmStatePool

/-! ### Runs -/

section Runs

variable {n : ℕ} {s s' : Bound} {answer : SsmAnswer}

/-- Every call keeps the invariant. -/
theorem Bound.sound_step {call : SsmCall} (h : s.pool.Sound n s.held)
    (hstep : s.step call = some (s', answer)) : s'.pool.Sound n s'.held := by
  cases call with
  | alloc requestId =>
    rcases SsmStatePool.alloc_cases h requestId with ⟨-, halloc⟩ | ⟨rest, idx, hlast, halloc⟩
    · rw [Bound.step, halloc] at hstep
      obtain ⟨rfl, -⟩ := Prod.mk.inj (Option.some.inj hstep)
      exact h
    · rw [Bound.step, halloc] at hstep
      obtain ⟨rfl, -⟩ := Prod.mk.inj (Option.some.inj hstep)
      exact h.lend hlast requestId
  | release idx =>
    rcases SsmStatePool.release_cases h idx with ⟨-, e, hrelease⟩ | ⟨hheld, hrelease⟩
    · rw [Bound.step, hrelease] at hstep
      obtain ⟨rfl, -⟩ := Prod.mk.inj (Option.some.inj hstep)
      exact h
    · rw [Bound.step, hrelease] at hstep
      obtain ⟨rfl, -⟩ := Prod.mk.inj (Option.some.inj hstep)
      exact h.takeBack hheld
  | slot idx =>
    obtain ⟨rfl, -⟩ := Prod.mk.inj (Option.some.inj hstep)
    exact h
  | step idx =>
    simp only [Bound.step] at hstep
    by_cases hheld : idx ∈ s.held.map Prod.fst
    · rw [if_pos hheld] at hstep
      obtain ⟨pool', hpool', heq⟩ := Option.map_eq_some_iff.mp hstep
      obtain ⟨rfl, -⟩ := Prod.mk.inj heq
      exact h.stepSlot hheld hpool'
    · rw [if_neg hheld] at hstep
      obtain ⟨rfl, -⟩ := Prod.mk.inj (Option.some.inj hstep)
      exact h

/-- **Every slot has one place, and shows its owner**, after every sequence of calls. -/
theorem Bound.sound_of_run {makeState : ℕ → SequenceState}
    (hfresh : ∀ i, (makeState i).stepPosition = 0) {tr : List (SsmCall × SsmAnswer)}
    (hrun : Run Bound.step (Bound.start n makeState) tr s) : s.pool.Sound n s.held :=
  hrun.invariant (P := fun s => s.pool.Sound n s.held) sound_step
    (SsmStatePool.sound_new hfresh)

/-- The slots that are not free are in use. -/
theorem SsmStatePool.Sound.usedCount_eq {pool : SsmStatePool} {held : List (ℕ × Owner)}
    (h : pool.Sound n held) : pool.usedCount = held.length := by
  have hsum := h.partitioned.length_add
  rw [SsmStatePool.usedCount, h.capacity_eq]
  omega

/-- A `release` that fails leaves the pool alone. -/
theorem SsmStatePool.release_error {pool pool' : SsmStatePool} {idx : ℕ} {e : PoolError}
    (h : pool.release idx = (.error e, pool')) : pool' = pool := by
  unfold SsmStatePool.release at h
  split at h
  · exact (Prod.mk.inj h).2.symm
  · split at h
    · exact (Prod.mk.inj h).2.symm
    · cases (Prod.mk.inj h).1

/-- What a slot shows to whoever looks it up: the id and the position of its owner, or nothing. -/
structure ShowsOwners (pool : SsmStatePool) (held : List (ℕ × Owner)) : Prop where
  owned : ∀ g ∈ held, ∃ slot, pool.slot g.1 = some slot ∧ slot.requestId = g.2.requestId ∧
    slot.position = slot.state.positionAfter g.2.steps
  unowned : ∀ idx ∈ pool.freeList, ∃ slot, pool.slot idx = some slot ∧ slot.requestId = 0 ∧
    slot.position = 0

theorem SsmStatePool.Sound.showsOwners {pool : SsmStatePool} {held : List (ℕ × Owner)}
    (h : pool.Sound n held) : ShowsOwners pool held where
  owned g hg := by
    obtain ⟨slot, hslot, hshows⟩ := h.owned g hg
    exact ⟨slot, hslot, hshows.requestId_eq, hshows.position_eq⟩
  unowned idx hidx := by
    obtain ⟨slot, hslot, hshows⟩ := h.unowned idx hidx
    refine ⟨slot, hslot, hshows.requestId_eq, ?_⟩
    rw [hshows.position_eq, SequenceState.positionAfter_zero]

end Runs

end Runtime

end Oxillama
