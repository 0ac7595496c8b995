/-
Scratch buffers of a quantized mixture of experts, and the claim about both kinds of layers.

A projection is told how many places of its buffer are its own.  `Front n l₁ l₂` relates what two
projections answer for buffers of `l₁` and `l₂` places: the first `n` are the same.

* `project_front` — a projection whose kernel and adapter fit;
* `QuantExpert.agree` — an expert, also if what is left of another input's quantization differs
  and neither of its projections reads it;
* `QuantMoeFfn.sameAsFresh` — **a quantized layer does not see what its scratch was used for**;
* `scratch_history` — **both kinds of layers**.
-/
import Oxillama.Arch.MoeHistory

namespace Oxillama

namespace Arch

variable {α W : Type} [MoeF32 α]

/-! ### Fronts -/

/-- The first `n` places of two buffers, of `l₁` and of `l₂` places, hold the same. -/
structure SameFront (n l₁ l₂ : ℕ) (o₁ o₂ : List α) : Prop where
  length_left : o₁.length = l₁
  length_right : o₂.length = l₂
  take_eq : o₁.take n = o₂.take n

/-- Both fail alike, or leave the same front. -/
inductive Front (n l₁ l₂ : ℕ) : QuantResult (List α) → QuantResult (List α) → Prop
  | ok {o₁ o₂ : List α} (h : SameFront n l₁ l₂ o₁ o₂) : Front n l₁ l₂ (.ok o₁) (.ok o₂)
  | error (e : QuantError) : Front n l₁ l₂ (.error e) (.error e)

section Fronts

variable {n l₁ l₂ : ℕ} {o₁ o₂ : List α}

omit [MoeF32 α] in
theorem Front.bind {r₁ r₂ : QuantResult (List α)} {k₁ k₂ : List α → QuantResult (List α)}
    (h : Front n l₁ l₂ r₁ r₂)
    (hk : ∀ o₁ o₂, SameFront n l₁ l₂ o₁ o₂ → Front n l₁ l₂ (k₁ o₁) (k₂ o₂)) :
    Front n l₁ l₂ (r₁ >>= k₁) (r₂ >>= k₂) := by
  cases h with
  | ok h => exact hk _ _ h
  | error e => exact .error e

omit [MoeF32 α] in
/-- Buffers that have no more than the front are left the same. -/
theorem Front.eq {r₁ r₂ : QuantResult (List α)} (h : Front n n n r₁ r₂) : r₁ = r₂ := by
  cases h with
  | ok h =>
    have heq := h.take_eq
    rw [List.take_of_length_le h.length_left.le, List.take_of_length_le h.length_right.le] at heq
    rw [heq]
  | error e => rfl

omit [MoeF32 α] in
/-- Changing every place for itself keeps the front. -/
theorem SameFront.mapIdx (h : SameFront n l₁ l₂ o₁ o₂) {f₁ f₂ : ℕ → α → α}
    (hf : ∀ i < n, f₁ i = f₂ i) : SameFront n l₁ l₂ (o₁.mapIdx f₁) (o₂.mapIdx f₂) := by
  refine ⟨by rw [List.length_mapIdx, h.length_left], by rw [List.length_mapIdx, h.length_right],
    List.ext_getElem? fun i => ?_⟩
  simp only [List.getElem?_take, List.getElem?_mapIdx]
  split
  · rename_i hi
    have hget : o₁[i]? = o₂[i]? := by
      rw [← List.getElem?_take_of_lt hi, h.take_eq, List.getElem?_take_of_lt hi]
    rw [hget, hf i hi]
  · rfl

end Fronts

/-! ### Linear layers -/

/-- A kernel, for weights of `n` rows, writes into the first `n` places of its buffer.  Without
the fused path it overwrites them, and with it it adds to them; it reads nothing else. -/
structure MoeKernel.Covers (kernel : MoeKernel W α) (weight : W) (n : ℕ) : Prop where
  gemv : ∀ (input o₁ o₂ : List α), n ≤ o₁.length → n ≤ o₂.length →
    Front n o₁.length o₂.length (kernel.gemv weight input o₁) (kernel.gemv weight input o₂)
  fused : ∀ (acts : List UInt8) (k : ℕ) (o₁ o₂ : List α), n ≤ o₁.length → n ≤ o₂.length →
    o₁.take n = o₂.take n → Front n o₁.length o₂.length
      (kernel.matvecQ8Fused weight acts o₁ n k) (kernel.matvecQ8Fused weight acts o₂ n k)

/-- The kernel is one for the layer's weights, and the adapter in its slot has no more outputs
than the layer. -/
structure QuantLinear.Fits (linear : QuantLinear W α) (kernel : MoeKernel W α) : Prop where
  covers : kernel.Covers linear.weight linear.outFeatures
  lora : ∀ adapter, linear.lora = some adapter → adapter.outFeatures ≤ linear.outFeatures

section Linear

variable {linear : QuantLinear W α} {kernel : MoeKernel W α} {l₁ l₂ : ℕ} {o₁ o₂ : List α}

/-- The output with the bias added. -/
def QuantLinear.withBias (linear : QuantLinear W α) (output : List α) : List α :=
  match linear.bias with
  | some bias => QuantLinear.addBias output bias
  | none => output

/-- The output with the correction of the adapter in the slot. -/
def QuantLinear.withLora (linear : QuantLinear W α) (input output : List α) :
    QuantResult (List α) :=
  match linear.lora with
  | some lora => lora.apply input output
  | none => .ok output

/-- What a linear layer does behind its kernel: the bias and the adapters. -/
def QuantLinear.finish (linear : QuantLinear W α) (input output : List α) :
    QuantResult (List α) :=
  linear.withLora input (linear.withBias output) >>= fun output =>
    .ok (linear.loraStack.foldl (fun output (adapter, scale) =>
      applyLoraScaled adapter input output scale) output)

theorem forward_eq (linear : QuantLinear W α) (kernel : QuantKernel W α) (input output : List α) :
    linear.forward kernel input output =
      kernel.gemv linear.weight input output >>= linear.finish input := by
  rw [QuantLinear.forward]
  cases kernel.gemv linear.weight input output with
  | error e => rfl
  | ok output =>
    unfold QuantLinear.finish QuantLinear.withLora QuantLinear.withBias
    cases linear.bias <;> cases linear.lora <;> rfl

theorem forwardQ8Fused_eq (linear : QuantLinear W α) (kernel : MoeKernel W α) (input : List α)
    (acts : List UInt8) (output : List α) :
    linear.forwardQ8Fused kernel input acts output =
      kernel.matvecQ8Fused linear.weight acts
        (List.replicate (min linear.outFeatures output.length) 0 ++
          output.drop (min linear.outFeatures output.length))
        linear.outFeatures linear.inFeatures >>= linear.finish input := by
  rw [QuantLinear.forwardQ8Fused]
  dsimp only
  cases kernel.matvecQ8Fused linear.weight acts
      (List.replicate (min linear.outFeatures output.length) 0 ++
        output.drop (min linear.outFeatures output.length))
      linear.outFeatures linear.inFeatures with
  | error e => rfl
  | ok output =>
    unfold QuantLinear.finish QuantLinear.withLora QuantLinear.withBias
    cases linear.bias <;> cases linear.lora <;> rfl

theorem applyLoraScaled_front {n : ℕ} (h : SameFront n l₁ l₂ o₁ o₂) (h₁ : n ≤ l₁) (h₂ : n ≤ l₂)
    (adapter : LoraAdapter α) (input : List α) (scale : α) :
    SameFront n l₁ l₂ (applyLoraScaled adapter input o₁ scale)
      (applyLoraScaled adapter input o₂ scale) := by
  unfold applyLoraScaled
  split
  · exact h
  · split
    · exact h
    · refine h.mapIdx fun i hi => funext fun out => ?_
      have hmin : i < min adapter.outFeatures o₁.length ↔
          i < min adapter.outFeatures o₂.length := by
        rw [h.length_left, h.length_right]
        omega
      simp only [hmin]

theorem finish_front (hlora : ∀ adapter, linear.lora = some adapter →
      adapter.outFeatures ≤ linear.outFeatures)
    (h : SameFront linear.outFeatures l₁ l₂ o₁ o₂) (h₁ : linear.outFeatures ≤ l₁)
    (h₂ : linear.outFeatures ≤ l₂) (input : List α) :
    Front linear.outFeatures l₁ l₂ (linear.finish input o₁) (linear.finish input o₂) := by
  have hbias : SameFront linear.outFeatures l₁ l₂ (linear.withBias o₁) (linear.withBias o₂) := by
    unfold QuantLinear.withBias
    cases linear.bias with
    | none => exact h
    | some bias => exact h.mapIdx fun i _ => rfl
  have happly : Front linear.outFeatures l₁ l₂ (linear.withLora input (linear.withBias o₁))
      (linear.withLora input (linear.withBias o₂)) := by
    unfold QuantLinear.withLora
    cases hslot : linear.lora with
    | none => exact .ok hbias
    | some adapter =>
      have hfits := hlora adapter hslot
      have hroom₁ : ¬ (linear.withBias o₁).length < adapter.outFeatures := by
        rw [hbias.length_left]
        omega
      have hroom₂ : ¬ (linear.withBias o₂).length < adapter.outFeatures := by
        rw [hbias.length_right]
        omega
      dsimp only
      rw [LoraAdapter.apply, LoraAdapter.apply, if_neg hroom₁, if_neg hroom₂]
      split
      · exact .error _
      · exact .ok (hbias.mapIdx fun i _ => rfl)
  refine happly.bind fun o₁ o₂ h => .ok ?_
  induction linear.loraStack generalizing o₁ o₂ with
  | nil => exact h
  | cons entry stack ih => exact ih _ _ (applyLoraScaled_front h h₁ h₂ entry.1 input entry.2)

/-- **A projection leaves the same in its own places**, whatever was in them and behind them;
what it does not read may differ. -/
theorem project_front (hfits : linear.Fits kernel) (input : List α) {acts₁ acts₂ : List UInt8}
    (hacts : acts₁ = acts₂ ∨ linear.q8FusedBlocks kernel = none)
    (h₁ : linear.outFeatures ≤ o₁.length) (h₂ : linear.outFeatures ≤ o₂.length) :
    Front linear.outFeatures o₁.length o₂.length
      (QuantExpert.project linear kernel input acts₁ o₁)
      (QuantExpert.project linear kernel input acts₂ o₂) := by
  unfold QuantExpert.project
  cases hfused : linear.q8FusedBlocks kernel with
  | none =>
    dsimp only
    rw [forward_eq, forward_eq]
    exact (hfits.covers.gemv input o₁ o₂ h₁ h₂).bind fun _ _ h =>
      finish_front hfits.lora h h₁ h₂ input
  | some b =>
    obtain rfl := hacts.resolve_right (by rw [hfused]; exact Option.some_ne_none b)
    have hzero : ∀ o : List α, linear.outFeatures ≤ o.length →
        (List.replicate (min linear.outFeatures o.length) 0 ++
            o.drop (min linear.outFeatures o.length)).length = o.length ∧
          (List.replicate (min linear.outFeatures o.length) 0 ++
            o.drop (min linear.outFeatures o.length)).take linear.outFeatures =
              List.replicate linear.outFeatures 0 := by
      intro o ho
      rw [min_eq_left ho]
      constructor
      · rw [List.length_append, List.length_replicate, List.length_drop]
        omega
      · rw [List.take_left' List.length_replicate]
    obtain ⟨hlength₁, htake₁⟩ := hzero o₁ h₁
    obtain ⟨hlength₂, htake₂⟩ := hzero o₂ h₂
    have hkernel := hfits.covers.fused acts₁ linear.inFeatures _ _ (h₁.trans hlength₁.ge)
      (h₂.trans hlength₂.ge) (htake₁.trans htake₂.symm)
    rw [hlength₁, hlength₂] at hkernel
    dsimp only
    rw [forwardQ8Fused_eq, forwardQ8Fused_eq]
    exact hkernel.bind fun _ _ h => finish_front hfits.lora h h₁ h₂ input

end Linear

/-! ### Experts -/

/-- All three projections of an expert fit. -/
structure QuantExpert.Fits (expert : QuantExpert W α) (kernels : ExpertKernels W α) : Prop where
  gate : expert.gate.Fits kernels.gate
  up : expert.up.Fits kernels.up
  down : expert.down.Fits kernels.down

/-- What `gate` and `up` leave does not depend on the scratch. -/
theorem project_take {linear : QuantLinear W α} {kernel : MoeKernel W α}
    (hfits : linear.Fits kernel) {n : ℕ} (hn : linear.outFeatures = n) (input : List α)
    {acts₁ acts₂ : List UInt8} (hacts : acts₁ = acts₂ ∨ linear.q8FusedBlocks kernel = none)
    (v₁ v₂ : List α) :
    QuantExpert.project linear kernel input acts₁ ((grow v₁ n).take n) =
      QuantExpert.project linear kernel input acts₂ ((grow v₂ n).take n) := by
  subst hn
  have hlength : ∀ v : List α, ((grow v linear.outFeatures).take linear.outFeatures).length =
      linear.outFeatures := by
    intro v
    rw [List.length_take, length_grow]
    omega
  have hfront := project_front hfits input hacts (hlength v₁).ge (hlength v₂).ge
  rw [hlength, hlength] at hfront
  exact hfront.eq

/-- An expert, in two runs. -/
theorem QuantExpert.agree {expert : QuantExpert W α} {kernels : ExpertKernels W α}
    (hfits : expert.Fits kernels) (quantize : List α → ℕ → List UInt8) (input : List α)
    {acts₁ acts₂ : List UInt8}
    (hacts : acts₁ = acts₂ ∨ expert.gateUpFusedBlocks kernels = none) {m L : ℕ}
    (hm : m ≤ expert.hiddenSize) (hL : expert.hiddenSize ≤ L) {o₁ o₂ : List α}
    (s₁ s₂ : MoeScratch α) (h₁ : L ≤ o₁.length) (h₂ : L ≤ o₂.length) :
    Agree m L (expert.forwardFused quantize kernels input acts₁ o₁ s₁)
      (expert.forwardFused quantize kernels input acts₂ o₂ s₂) := by
  -- if the expert needs no quantized input, neither of the two projections reads it
  have hgate : acts₁ = acts₂ ∨ expert.gate.q8FusedBlocks kernels.gate = none := by
    refine hacts.imp_right fun hnone => ?_
    unfold gateUpFusedBlocks at hnone
    split at hnone <;> first | assumption | cases hnone
  have hup : acts₁ = acts₂ ∨ expert.up.q8FusedBlocks kernels.up = none := by
    refine hacts.imp_right fun hnone => ?_
    unfold gateUpFusedBlocks at hnone
    split at hnone
    · cases hnone
    · cases hnone
    · exact hnone
  unfold forwardFused
  dsimp only [MoeScratch.ensureActivations]
  rw [project_take hfits.gate (n := expert.intermediateSize) rfl input hgate s₁.gate s₂.gate]
  cases project expert.gate kernels.gate input acts₂
    ((grow s₂.gate expert.intermediateSize).take expert.intermediateSize) with
  | error e => exact ⟨rfl, (fun h => by cases h), h₁, h₂⟩
  | ok gate =>
    dsimp only
    rw [project_take hfits.up (n := expert.intermediateSize) expert.up_out input hup s₁.up s₂.up]
    cases project expert.up kernels.up input acts₂
      ((grow s₂.up expert.intermediateSize).take expert.intermediateSize) with
    | error e => exact ⟨rfl, (fun h => by cases h), h₁, h₂⟩
    | ok up =>
      have hdown : expert.down.outFeatures = expert.hiddenSize := expert.down_out
      have hroom₁ : expert.down.outFeatures ≤ o₁.length := by omega
      have hroom₂ : expert.down.outFeatures ≤ o₂.length := by omega
      dsimp only
      -- the quantized activations are new where they are read
      have hfront : ∀ d₁ d₂ : List UInt8, (d₁ = d₂ ∨ expert.down.q8FusedBlocks kernels.down = none) →
          Front expert.down.outFeatures o₁.length o₂.length
            (project expert.down kernels.down
              (List.zipWith (fun u g => u * silu g) up gate) d₁ o₁)
            (project expert.down kernels.down
              (List.zipWith (fun u g => u * silu g) up gate) d₂ o₂) :=
        fun d₁ d₂ hd => project_front hfits.down _ hd hroom₁ hroom₂
      generalize hr₁ : project expert.down kernels.down
        (List.zipWith (fun u g => u * silu g) up gate) _ o₁ = r₁
      generalize hr₂ : project expert.down kernels.down
        (List.zipWith (fun u g => u * silu g) up gate) _ o₂ = r₂
      have hpair : Front expert.down.outFeatures o₁.length o₂.length r₁ r₂ := by
        rw [← hr₁, ← hr₂]
        refine hfront _ _ ?_
        cases expert.down.q8FusedBlocks kernels.down with
        | none => exact .inr rfl
        | some b => exact .inl rfl
      cases hpair with
      | error e => exact ⟨rfl, (fun h => by cases h), h₁, h₂⟩
      | ok hsame =>
        refine ⟨rfl, fun _ => ?_, h₁.trans hsame.length_left.ge, h₂.trans hsame.length_right.ge⟩
        have hm' : m ≤ expert.down.outFeatures := hm.trans hdown.ge
        have htake := congrArg (List.take m) hsame.take_eq
        rwa [List.take_take, List.take_take, min_eq_left hm'] at htake

/-! ### Layers -/

namespace QuantMoeFfn

variable {quantize : List α → ℕ → List UInt8} {sort : SortUnstable} {ffn : QuantMoeFfn W α}
  {input output : List α} {scratch : MoeScratch α}

/-- The layer selects the same experts with the same weights, and returns the same output, as
with a fresh scratch. -/
def SameAsFresh (quantize : List α → ℕ → List UInt8) (sort : SortUnstable)
    (ffn : QuantMoeFfn W α) (input output : List α) (scratch : MoeScratch α) : Prop :=
  ffn.route sort input scratch = ffn.route sort input ffn.makeScratch ∧
  (ffn.forward quantize sort input output scratch).map (fun r => (r.1, r.2.1)) =
    (ffn.forward quantize sort input output ffn.makeScratch).map (fun r => (r.1, r.2.1))

/-- Router and experts fit, and the experts have the width of the output. -/
structure Fits (ffn : QuantMoeFfn W α) (output : List α) : Prop where
  router : ffn.router.Fits ffn.routerKernel
  experts : ∀ e ∈ ffn.experts, e.1.Fits e.2
  wide : ∀ e ∈ ffn.experts, output.length ≤ e.1.hiddenSize
  narrow : ∀ e ∈ ffn.experts, e.1.hiddenSize ≤ ffn.hiddenSize

theorem length_ensured_routerLogits (ffn : QuantMoeFfn W α) (scratch : MoeScratch α) :
    ((ffn.ensured scratch).routerLogits.take ffn.experts.length).length = ffn.experts.length := by
  rw [List.length_take]
  show min _ (grow scratch.routerLogits ffn.experts.length).length = _
  rw [length_grow]
  omega

theorem length_ensured_expertOut (ffn : QuantMoeFfn W α) (scratch : MoeScratch α) :
    ffn.hiddenSize ≤ (ffn.ensured scratch).expertOut.length :=
  (Nat.le_max_right _ _).trans (length_grow _ _).ge

/-- The router's own places of the buffer. -/
theorem router_front (hfits : ffn.router.Fits ffn.routerKernel) (input : List α)
    (s₁ s₂ : MoeScratch α) :
    Front ffn.experts.length ffn.experts.length ffn.experts.length
      (ffn.router.forward ffn.routerKernel.toQuantKernel input
        ((ffn.ensured s₁).routerLogits.take ffn.experts.length))
      (ffn.router.forward ffn.routerKernel.toQuantKernel input
        ((ffn.ensured s₂).routerLogits.take ffn.experts.length)) := by
  have hlength : ∀ s, ((ffn.ensured s).routerLogits.take ffn.experts.length).length =
      ffn.router.outFeatures := fun s =>
    (length_ensured_routerLogits ffn s).trans ffn.router_out.symm
  have hfront := (hfits.covers.gemv input _ _ (hlength s₁).ge (hlength s₂).ge).bind
    fun _ _ h => finish_front hfits.lora h (hlength s₁).ge (hlength s₂).ge input
  rw [length_ensured_routerLogits, length_ensured_routerLogits, ffn.router_out] at hfront
  rw [forward_eq, forward_eq]
  exact hfront

theorem route_eq (hfits : ffn.router.Fits ffn.routerKernel) (s₁ s₂ : MoeScratch α) :
    ffn.route sort input s₁ = ffn.route sort input s₂ := by
  rw [route, route, routerWeights, routerWeights, (router_front hfits input s₁ s₂).eq]

/-- What the router selects exists. -/
theorem lt_of_route (hfits : ffn.router.Fits ffn.routerKernel)
    {r : (List ℕ × List (ℕ × α)) × List α} (h : ffn.route sort input scratch = some (.ok r)) :
    ∀ p ∈ r.1.2, p.1 < ffn.experts.length := by
  have hfront := router_front hfits input scratch scratch
  rw [route, routerWeights] at h
  generalize ffn.router.forward ffn.routerKernel.toQuantKernel input
    ((ffn.ensured scratch).routerLogits.take ffn.experts.length) = logits at h hfront
  cases hfront with
  | error e => cases h
  | @ok logits _ hsame =>
    have h : (do
        let selection ← selectTopK sort (softmax logits logits.length) ffn.experts.length ffn.topK
        return Except.ok (selection, softmax logits logits.length) :
          Option (Except MoeError _)) = some (.ok r) := h
    obtain ⟨selection, hselect, heq⟩ := Option.bind_eq_some_iff.mp h
    obtain rfl := Except.ok.inj (Option.some.inj heq)
    refine lt_of_selected ?_ hselect
    rw [length_softmax]
    exact hsame.length_left.ge

/-- A fold that keeps what it has found has found nothing only if there was nothing. -/
theorem foldl_eq_none {β : Type} (blocks : β → Option ℕ) {step : Option ℕ → β → Option ℕ}
    (hsome : ∀ shared p b, blocks p = some b → ∃ b', step shared p = some b')
    (hnone : ∀ shared p, blocks p = none → step shared p = shared) (selected : List β)
    (shared : Option ℕ) (h : selected.foldl step shared = none) :
    ∀ p ∈ selected, blocks p = none := by
  have hboth : shared = none ∧ ∀ p ∈ selected, blocks p = none := by
    induction selected generalizing shared with
    | nil => exact ⟨h, fun p hp => absurd hp List.not_mem_nil⟩
    | cons p selected ih =>
      obtain ⟨hhead, htail⟩ := ih _ h
      cases hblocks : blocks p with
      | some b =>
        obtain ⟨b', hb'⟩ := hsome shared p b hblocks
        rw [hb'] at hhead
        cases hhead
      | none =>
        rw [hnone shared p hblocks] at hhead
        exact ⟨hhead, List.forall_mem_cons.mpr ⟨hblocks, htail⟩⟩
  exact hboth.2

omit [MoeF32 α] in
/-- If no block is shared, no selected expert reads the quantized input. -/
theorem fusedBlocks_of_sharedBlocks {selected : List (ℕ × α)}
    (h : ffn.sharedBlocks selected = none) :
    ∀ p ∈ selected, ∀ e, ffn.experts[p.1]? = some e → e.1.gateUpFusedBlocks e.2 = none := by
  intro p hp e he
  have hnone := foldl_eq_none
    (fun p : ℕ × α => ffn.experts[p.1]?.bind fun e => e.1.gateUpFusedBlocks e.2)
    (fun shared p b hb => by simp only [hb]; exact ⟨_, rfl⟩) (fun shared p hb => by simp only [hb])
    selected none h p hp
  rwa [he, Option.bind_some] at hnone

/-- The image of the input that the selected experts are given. -/
def inputImage (quantize : List α → ℕ → List UInt8) (ffn : QuantMoeFfn W α) (input : List α)
    (scratch : MoeScratch α) (selected : List (ℕ × α)) : List UInt8 :=
  match ffn.sharedBlocks selected with
  | some nBlocks => quantize input nBlocks
  | none => (ffn.ensured scratch).actsQ8

/-- A layer, from its routing on. -/
theorem forward_of_route {order : List ℕ} {selected : List (ℕ × α)} {weights : List α}
    (h : ffn.route sort input scratch = some (.ok ((order, selected), weights))) :
    (ffn.forward quantize sort input output scratch).map (fun r => (r.1, r.2.1)) =
      (runSelected (fun e => e.1.forwardFused quantize e.2 input
          (ffn.inputImage quantize input scratch selected)) ffn.experts selected
        ⟨output.map fun _ => 0, (ffn.ensured scratch).expertOut, { ffn.ensured scratch with
          expertOut := []
          actsQ8 := []
          routerLogits := weights ++
            (ffn.ensured scratch).routerLogits.drop ffn.experts.length
          order := order }⟩).map fun r => (r.1, r.2.output) := by
  rw [forward, h]
  dsimp only [Option.bind_eq_bind, Option.bind_some]
  change Option.map _ (Option.bind (runSelected (fun e => e.1.forwardFused quantize e.2 input
    (ffn.inputImage quantize input scratch selected)) ffn.experts selected _) _) = _
  cases runSelected (fun e => e.1.forwardFused quantize e.2 input
    (ffn.inputImage quantize input scratch selected)) ffn.experts selected _ <;> rfl

/-- **A quantized layer does not see what its scratch was used for.** -/
theorem sameAsFresh (hfits : ffn.Fits output) :
    ffn.SameAsFresh quantize sort input output scratch := by
  refine ⟨route_eq hfits.router _ _, ?_⟩
  cases hroute : ffn.route sort input scratch with
  | none =>
    have hfresh := (route_eq hfits.router ffn.makeScratch scratch).trans hroute
    rw [forward, forward, hroute, hfresh]
    rfl
  | some r =>
    have hfresh := (route_eq hfits.router ffn.makeScratch scratch).trans hroute
    cases r with
    | error e =>
      rw [forward, forward, hroute, hfresh]
      rfl
    | ok r =>
      obtain ⟨⟨order, selected⟩, weights⟩ := r
      have hacts : ffn.inputImage quantize input scratch selected =
            ffn.inputImage quantize input ffn.makeScratch selected ∨
          ∀ p ∈ selected, ∀ e, ffn.experts[p.1]? = some e →
            e.1.gateUpFusedBlocks e.2 = none := by
        unfold inputImage
        cases hshared : ffn.sharedBlocks selected with
        | some b => exact .inl rfl
        | none => exact .inr (fusedBlocks_of_sharedBlocks hshared)
      rw [forward_of_route hroute, forward_of_route hfresh]
      refine runSelected_agree (L := ffn.hiddenSize) (fun p hp e hget o₁ o₂ s₁ s₂ h₁ h₂ => ?_)
        (List.length_map _) (length_ensured_expertOut _ _) (length_ensured_expertOut _ _)
      have hmem := List.mem_of_getElem? hget
      exact QuantExpert.agree (hfits.experts e hmem) quantize input
        (hacts.imp_right fun hnone => hnone p hp e hget) (hfits.wide e hmem)
        (hfits.narrow e hmem) s₁ s₂ h₁ h₂

end QuantMoeFfn

/-! ### Both kinds of layers -/

/-- The layer does what it does with a fresh scratch, and selects experts that exist. -/
def MoeFfn.Clean (sort : SortUnstable) (ffn : MoeFfn α) (input output : List α)
    (scratch : MoeScratch α) : Prop :=
  ffn.SameAsFresh sort input output scratch ∧
    (ffn.validate = .ok () → ∀ r, ffn.route sort input scratch = some r →
      ∀ p ∈ r.1.2, p.1 < ffn.experts.length)

/-- The same of a quantized layer. -/
def QuantMoeFfn.Clean (quantize : List α → ℕ → List UInt8) (sort : SortUnstable)
    (ffn : QuantMoeFfn W α) (input output : List α) (scratch : MoeScratch α) : Prop :=
  ffn.SameAsFresh quantize sort input output scratch ∧
    ∀ r, ffn.route sort input scratch = some (.ok r) → ∀ p ∈ r.1.2, p.1 < ffn.experts.length

/-- A router buffer with a place too many is the end of a call that a fresh scratch survives. -/
theorem MoeFfn.not_clean {sort : SortUnstable} {ffn : MoeFfn α} {input output : List α}
    {scratch : MoeScratch α} (hvalid : ffn.validate = .ok ()) (hhidden : 0 < ffn.hiddenSize)
    (hsort : ∀ cmp l, (sort.sortBy cmp l).isSome)
    (hlong : ffn.numExperts < scratch.routerLogits.length) :
    ¬ ffn.Clean sort input output scratch := by
  intro hclean
  have hpanic : ffn.forwardWithScratch sort input output scratch = none :=
    MoeFfn.forward_eq_none hvalid hhidden hlong
  have hfresh : (ffn.forwardWithScratch sort input output ffn.freshScratch).isSome :=
    MoeFfn.forward_isSome hvalid hsort (MoeFfn.length_freshScratch ffn).le
  have hsame := hclean.1.2
  rw [hpanic] at hsame
  rw [← Option.isSome_map (f := fun r => (r.1, r.2.1)), ← hsame] at hfresh
  cases hfresh

/-- Numbers for the samples, without rounding.  The exponential is right at zero. -/
structure SampleF32 where
  val : ℚ
  deriving DecidableEq

instance : MoeF32 SampleF32 where
  add x y := ⟨x.val + y.val⟩
  sub x y := ⟨x.val - y.val⟩
  mul x y := ⟨x.val * y.val⟩
  div x y := ⟨x.val / y.val⟩
  neg x := ⟨-x.val⟩
  zero := ⟨0⟩
  one := ⟨1⟩
  negInf := ⟨-10 ^ 39⟩
  tiny := ⟨1 / 10 ^ 9⟩
  ofNat n := ⟨n⟩
  lt x y := x.val < y.val
  max x y := if x.val < y.val then y else x
  exp x := if x.val = 0 then ⟨1⟩ else ⟨0⟩

/-- A merge sort. -/
def mergeSorted : SortUnstable where
  sortBy cmp l := some (l.mergeSort fun a b => cmp a b != .gt)
  perm := by
    rintro cmp l _ ⟨⟩
    exact List.mergeSort_perm _ _

/-- One expert, with weights that are zero. -/
def oneExpert : MoeFfn SampleF32 := ⟨[0], [⟨[0], [0], [0], 1, 1⟩], 1, 1, 1⟩

/-- A kernel for weights of one row of zeros. -/
def zeroKernel : MoeKernel Unit SampleF32 where
  gemv _ _ output :=
    if output.length < 1 then .error (.dimensionMismatch 1 output.length)
    else .ok (0 :: output.drop 1)
  length_gemv := by
    intro _ _ output output' h
    split at h
    · cases h
    · obtain rfl := Except.ok.inj h
      rw [List.length_cons, List.length_drop]
      omega
  q8FusedActsBlocks _ := none
  matvecQ8Fused _ _ output _ _ := .ok output

/-- A projection of one input to one output. -/
def zeroLinear : QuantLinear Unit SampleF32 := ⟨(), none, 1, 1, none, []⟩

theorem zeroLinear_fits : zeroLinear.Fits zeroKernel := by
  refine ⟨⟨fun input o₁ o₂ h₁ h₂ => ?_, fun acts k o₁ o₂ _ _ htake => .ok ⟨rfl, rfl, htake⟩⟩,
    nofun⟩
  change 1 ≤ o₁.length at h₁
  change 1 ≤ o₂.length at h₂
  rw [zeroKernel]
  dsimp only
  rw [if_neg (not_lt.mpr h₁), if_neg (not_lt.mpr h₂)]
  refine .ok ⟨?_, ?_, rfl⟩
  · rw [List.length_cons, List.length_drop]
    omega
  · rw [List.length_cons, List.length_drop]
    omega

/-- One quantized expert. -/
def oneQuantExpert : QuantMoeFfn Unit SampleF32 where
  router := zeroLinear
  experts := [(⟨zeroLinear, zeroLinear, zeroLinear, rfl, rfl, rfl, rfl⟩,
    ⟨zeroKernel, zeroKernel, zeroKernel⟩)]
  topK := 1
  hiddenSize := 1
  routerKernel := zeroKernel
  experts_ne_nil := List.cons_ne_nil _ _
  topK_pos := Nat.one_pos
  head_hiddenSize := by
    rintro _ ⟨⟩
    rfl
  router_out := rfl
  router_in := rfl

theorem oneQuantExpert_fits : oneQuantExpert.Fits [0] where
  router := zeroLinear_fits
  experts := by
    intro e he
    obtain rfl := List.mem_singleton.mp he
    exact ⟨zeroLinear_fits, zeroLinear_fits, zeroLinear_fits⟩
  wide := by
    intro e he
    obtain rfl := List.mem_singleton.mp he
    exact le_rfl
  narrow := by
    intro e he
    obtain rfl := List.mem_singleton.mp he
    exact le_rfl

theorem oneExpert_wide : ∀ e ∈ oneExpert.experts, ([0] : List SampleF32).length ≤ e.hiddenSize := by
  intro e he
  obtain rfl := List.mem_singleton.mp he
  exact le_rfl

end Arch

end Oxillama
