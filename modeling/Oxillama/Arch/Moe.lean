/-
Mixture-of-experts layers (`oxillama-arch/src/common/moe.rs`), and what
`oxillama-quant/src/parallel.rs` and `common/linear.rs` do for them.

A buffer that is modified in place is what it is left as.  `none` is a panic: an index that is
out of bounds, or a sort that gives up on an order that is none.  A projection that fails is
taken to leave the buffer it was given as it was.
-/
import Oxillama.Arch.Lora

namespace Oxillama

namespace Arch

/-- The numbers of a layer, uninterpreted. -/
class MoeF32 (α : Type) extends Add α, Sub α, Mul α, Div α, Neg α, Zero α where
  one : α
  /-- `f32::NEG_INFINITY`. -/
  negInf : α
  /-- `1e-9`. -/
  tiny : α
  /-- `n as f32`. -/
  ofNat : ℕ → α
  /-- `x < y`. -/
  lt : α → α → Bool
  max : α → α → α
  exp : α → α

/-- `ArchError`, the part of it that these layers raise. -/
inductive MoeError
  | invalidShape (name : String) (expected got : List ℕ)
  | invalidConfig (detail : String)
  | quant (e : QuantError)
  deriving DecidableEq, Repr

/-- `sort_unstable_by`: some sorted arrangement of the list, or a panic if the comparison is
not a total order. -/
structure SortUnstable where
  sortBy : (ℕ → ℕ → Ordering) → List ℕ → Option (List ℕ)
  perm : ∀ {cmp l l'}, sortBy cmp l = some l' → l'.Perm l

/-! ### Scratch buffers -/

/-- `MoeScratch`. -/
structure MoeScratch (α : Type) where
  gate : List α
  up : List α
  expertOut : List α
  routerLogits : List α
  order : List ℕ
  actsQ8 : List UInt8
  downQ8 : List UInt8

/-- `if v.len() < n { v.resize(n, 0.0) }`. -/
def grow {α : Type} [Zero α] (v : List α) (n : ℕ) : List α :=
  v ++ List.replicate (n - v.length) 0

namespace MoeScratch

variable {α : Type} [Zero α]

/-- `MoeScratch::new`. -/
def new (hiddenSize intermediateSize numExperts : ℕ) : MoeScratch α where
  gate := List.replicate intermediateSize 0
  up := List.replicate intermediateSize 0
  expertOut := List.replicate hiddenSize 0
  routerLogits := List.replicate numExperts 0
  order := List.range numExperts
  actsQ8 := []
  downQ8 := []

/-- `MoeScratch::ensure_activations`. -/
def ensureActivations (scratch : MoeScratch α) (intermediateSize : ℕ) : MoeScratch α :=
  { scratch with
    gate := grow scratch.gate intermediateSize
    up := grow scratch.up intermediateSize }

/-- `MoeScratch::ensure_output`. -/
def ensureOutput (scratch : MoeScratch α) (hiddenSize : ℕ) : MoeScratch α :=
  { scratch with expertOut := grow scratch.expertOut hiddenSize }

/-- `MoeScratch::ensure_router`. -/
def ensureRouter (scratch : MoeScratch α) (numExperts : ℕ) : MoeScratch α :=
  { scratch with
    routerLogits := grow scratch.routerLogits numExperts
    order := if scratch.order.length < numExperts then List.range numExperts
      else scratch.order }

end MoeScratch

/-- `for_each_row`: every row below `n` is evaluated into its place. -/
def forEachRow {α : Type} (output : List α) (n : ℕ) (rowFn : ℕ → α) : List α :=
  output.mapIdx fun i o => if i < n then rowFn i else o

variable {α W : Type} [MoeF32 α]

/-- `g / (1.0 + (-g).exp())`. -/
def silu (g : α) : α := g / (MoeF32.one + MoeF32.exp (-g))

/-! ### Experts -/

/-- `Expert`. -/
structure Expert (α : Type) where
  gate : List α
  up : List α
  down : List α
  hiddenSize : ℕ
  intermediateSize : ℕ

namespace Expert

/-- `Expert::validate`. -/
def validate (expert : Expert α) : Except MoeError Unit :=
  let gateUp := expert.intermediateSize * expert.hiddenSize
  let down := expert.hiddenSize * expert.intermediateSize
  if expert.gate.length ≠ gateUp then
    .error (.invalidShape "expert.gate" [expert.intermediateSize, expert.hiddenSize]
      [expert.gate.length])
  else if expert.up.length ≠ gateUp then
    .error (.invalidShape "expert.up" [expert.intermediateSize, expert.hiddenSize]
      [expert.up.length])
  else if expert.down.length ≠ down then
    .error (.invalidShape "expert.down" [expert.hiddenSize, expert.intermediateSize]
      [expert.down.length])
  else .ok ()

/-- `Expert::forward_with_scratch`: the result, and what it leaves in `output` and in the
scratch.  The rows are within the weights, whose lengths have been checked. -/
def forwardWithScratch (expert : Expert α) (input output : List α) (scratch : MoeScratch α) :
    Except MoeError Unit × List α × MoeScratch α :=
  match expert.validate with
  | .error e => (.error e, output, scratch)
  | .ok () =>
    let n := expert.intermediateSize
    let h := expert.hiddenSize
    let scratch := scratch.ensureActivations n
    let gateVec := forEachRow (scratch.gate.take n) n fun i =>
      silu (dot (row h expert.gate i) input)
    let upVec := forEachRow (scratch.up.take n) n fun i =>
      dot (row h expert.up i) input * gateVec.getD i 0
    let output := forEachRow output h fun i => dot (row n expert.down i) upVec
    (.ok (), output, { scratch with
      gate := gateVec ++ scratch.gate.drop n
      up := upVec ++ scratch.up.drop n })

end Expert

/-! ### Routing -/

/-- The largest of the logits, or minus infinity. -/
def maxLogit (logits : List α) : α := logits.foldl MoeF32.max MoeF32.negInf

/-- The sum of numbers, from left to right. -/
def total (xs : List α) : α := xs.foldl (· + ·) 0

/-- The softmax weights of the logits, where `n` shares equally if all weights vanish. -/
def softmax (logits : List α) (n : ℕ) : List α :=
  let expVals := logits.map fun l => MoeF32.exp (l - maxLogit logits)
  let expSum := total expVals
  if MoeF32.lt 0 expSum then expVals.map (· / expSum)
  else expVals.map fun _ => MoeF32.one / MoeF32.ofNat n

/-- `exp_vals[b].partial_cmp(&exp_vals[a]).unwrap_or(Ordering::Equal)`. -/
def byDescending (weights : List α) (a b : ℕ) : Ordering :=
  let x := weights.getD b 0
  let y := weights.getD a 0
  if MoeF32.lt x y then .lt else if MoeF32.lt y x then .gt else .eq

/-- The order of the experts, and those with the largest weights, each with its share in the
output: the steps from the sort of the indices to the renormalised weights. -/
def selectTopK (sort : SortUnstable) (weights : List α) (n topK : ℕ) :
    Option (List ℕ × List (ℕ × α)) := do
  let order ← sort.sortBy (byDescending weights) (List.range n)
  let effectiveK := min topK n
  let picked ← (order.take effectiveK).mapM fun e => weights[e]?.map (e, ·)
  let selectedSum := total (picked.map Prod.snd)
  return (order, picked.map fun (e, w) =>
    (e, if MoeF32.lt MoeF32.tiny selectedSum then w / selectedSum
      else MoeF32.one / MoeF32.ofNat effectiveK))

/-- `for (o, e) in output.iter_mut().zip(expert_out.iter()) { *o += weight * e; }` -/
def accumulate (output expertOut : List α) (weight : α) : List α :=
  output.mapIdx fun i o => match expertOut[i]? with
    | some e => o + weight * e
    | none => o

/-- What a loop over the selected experts works on: the output, the buffer an expert writes
into, and the other scratch buffers. -/
structure Buffers (α : Type) where
  output : List α
  expertOut : List α
  scratch : MoeScratch α

/-- The loop over the selected experts: it ends with the first that fails. -/
def runSelected {E : Type} (run : E → List α → MoeScratch α →
      Except MoeError Unit × List α × MoeScratch α) (experts : List E) :
    List (ℕ × α) → Buffers α → Option (Except MoeError Unit × Buffers α)
  | [], bufs => some (.ok (), bufs)
  | (idx, weight) :: selected, bufs => do
    let expert ← experts[idx]?
    match run expert bufs.expertOut bufs.scratch with
    | (.ok (), expertOut, scratch) =>
      runSelected run experts selected ⟨accumulate bufs.output expertOut weight, expertOut, scratch⟩
    | (.error e, expertOut, scratch) => return (.error e, ⟨bufs.output, expertOut, scratch⟩)

/-! ### Layers -/

/-- `MoeFfn`. -/
structure MoeFfn (α : Type) where
  router : List α
  experts : List (Expert α)
  topK : ℕ
  numExperts : ℕ
  hiddenSize : ℕ

namespace MoeFfn

/-- `MoeFfn::validate`. -/
def validate (ffn : MoeFfn α) : Except MoeError Unit :=
  if ffn.router.length ≠ ffn.numExperts * ffn.hiddenSize then
    .error (.invalidShape "moe.router" [ffn.numExperts, ffn.hiddenSize] [ffn.router.length])
  else if ffn.experts.length ≠ ffn.numExperts then
    .error (.invalidShape "moe.experts" [ffn.numExperts] [ffn.experts.length])
  else if ffn.topK = 0 then .error (.invalidConfig "MoeFfn top_k must be >= 1")
  else .ok ()

/-- The intermediate size of the first expert. -/
def firstIntermediate (ffn : MoeFfn α) : ℕ := (ffn.experts.head?.map (·.intermediateSize)).getD 0

/-- The scratch that the layer needs, where it is too short. -/
def ensured (ffn : MoeFfn α) (scratch : MoeScratch α) : MoeScratch α :=
  ((scratch.ensureRouter ffn.numExperts).ensureOutput ffn.hiddenSize).ensureActivations
    ffn.firstIntermediate

/-- The loop that fills the router logits: it goes through the whole buffer. -/
def routerLogits (ffn : MoeFfn α) (input buffer : List α) : Option (List α) :=
  (List.range buffer.length).mapM fun i =>
    if (i + 1) * ffn.hiddenSize ≤ ffn.router.length then
      some (dot (row ffn.hiddenSize ffn.router i) input)
    else none

/-- The router: the order of the experts, those that are selected with their weights, and the
logits it leaves. -/
def route (sort : SortUnstable) (ffn : MoeFfn α) (input : List α) (scratch : MoeScratch α) :
    Option ((List ℕ × List (ℕ × α)) × List α) := do
  let logits ← ffn.routerLogits input (ffn.ensured scratch).routerLogits
  let selection ← selectTopK sort (softmax logits ffn.numExperts) ffn.numExperts ffn.topK
  return (selection, logits)

/-- `MoeFfn::forward_with_scratch`: the result, and what it leaves in `output` and in the
scratch. -/
def forwardWithScratch (sort : SortUnstable) (ffn : MoeFfn α) (input output : List α)
    (scratch : MoeScratch α) : Option (Except MoeError Unit × List α × MoeScratch α) :=
  match ffn.validate with
  | .error e => some (.error e, output, scratch)
  | .ok () => do
    let ((order, selected), logits) ← ffn.route sort input scratch
    let scratch := ffn.ensured scratch
    let (result, bufs) ← runSelected (fun expert => expert.forwardWithScratch input) ffn.experts
      selected ⟨output.map fun _ => 0, scratch.expertOut,
        { scratch with expertOut := [], routerLogits := [], order := order }⟩
    return (result, bufs.output, { bufs.scratch with
      expertOut := bufs.expertOut
      routerLogits := logits })

/-- `MoeFfn::forward`: with a scratch of its own. -/
def freshScratch (ffn : MoeFfn α) : MoeScratch α :=
  .new ffn.hiddenSize ffn.firstIntermediate ffn.numExperts

end MoeFfn

/-! ### Quantized layers -/

/-- `QuantKernel` with its fused path, which reads activations that are already quantized. -/
structure MoeKernel (W α : Type) extends QuantKernel W α where
  q8FusedActsBlocks : ℕ → Option ℕ
  matvecQ8Fused : W → List UInt8 → List α → ℕ → ℕ → QuantResult (List α)

/-- `QuantLinear::q8_fused_blocks`. -/
def QuantLinear.q8FusedBlocks (linear : QuantLinear W α) (kernel : MoeKernel W α) : Option ℕ :=
  kernel.q8FusedActsBlocks linear.inFeatures

/-- `QuantLinear::forward_q8_fused`: the output it leaves. -/
def QuantLinear.forwardQ8Fused (linear : QuantLinear W α) (kernel : MoeKernel W α)
    (input : List α) (actsQ8 : List UInt8) (output : List α) : QuantResult (List α) := do
  let nRows := min linear.outFeatures output.length
  let output := List.replicate nRows 0 ++ output.drop nRows
  let output ← kernel.matvecQ8Fused linear.weight actsQ8 output linear.outFeatures
    linear.inFeatures
  let output := match linear.bias with
    | some bias => QuantLinear.addBias output bias
    | none => output
  let output ← match linear.lora with
    | some lora => lora.apply input output
    | none => .ok output
  return linear.loraStack.foldl (fun output (adapter, scale) =>
    applyLoraScaled adapter input output scale) output

/-- `QuantExpert`, with what `QuantExpert::new` checks. -/
structure QuantExpert (W α : Type) where
  gate : QuantLinear W α
  up : QuantLinear W α
  down : QuantLinear W α
  up_out : up.outFeatures = gate.outFeatures
  up_in : up.inFeatures = gate.inFeatures
  down_in : down.inFeatures = gate.outFeatures
  down_out : down.outFeatures = gate.inFeatures

/-- `ExpertKernels`. -/
structure ExpertKernels (W α : Type) where
  gate : MoeKernel W α
  up : MoeKernel W α
  down : MoeKernel W α

namespace QuantExpert

/-- `QuantExpert::hidden_size`. -/
def hiddenSize (expert : QuantExpert W α) : ℕ := expert.gate.inFeatures

/-- `QuantExpert::intermediate_size`. -/
def intermediateSize (expert : QuantExpert W α) : ℕ := expert.gate.outFeatures

/-- `QuantExpert::gate_up_fused_blocks`. -/
def gateUpFusedBlocks (expert : QuantExpert W α) (kernels : ExpertKernels W α) : Option ℕ :=
  match expert.gate.q8FusedBlocks kernels.gate, expert.up.q8FusedBlocks kernels.up with
  | some b, some b' => some (max b b')
  | some b, none => some b
  | none, b => b

/-- One projection, on the fused path if its kernel has one. -/
def project (linear : QuantLinear W α) (kernel : MoeKernel W α) (input : List α)
    (actsQ8 : List UInt8) (output : List α) : QuantResult (List α) :=
  match linear.q8FusedBlocks kernel with
  | some _ => linear.forwardQ8Fused kernel input actsQ8 output
  | none => linear.forward kernel.toQuantKernel input output

/-- `QuantExpert::forward_fused`: the result, and what it leaves in `output` and in the
scratch.  `quantize` is `quantize_activations_q8_0_into`, which clears the buffer first. -/
def forwardFused (quantize : List α → ℕ → List UInt8) (expert : QuantExpert W α)
    (kernels : ExpertKernels W α) (input : List α) (actsQ8 : List UInt8) (output : List α)
    (scratch : MoeScratch α) : Except MoeError Unit × List α × MoeScratch α :=
  let n := expert.intermediateSize
  let scratch := scratch.ensureActivations n
  match project expert.gate kernels.gate input actsQ8 (scratch.gate.take n) with
  | .error e => (.error (.quant e), output, scratch)
  | .ok gate =>
    let scratch := { scratch with gate := gate ++ scratch.gate.drop n }
    match project expert.up kernels.up input actsQ8 (scratch.up.take n) with
    | .error e => (.error (.quant e), output, scratch)
    | .ok up =>
      let up := List.zipWith (fun u g => u * silu g) up gate
      let scratch := { scratch with up := up ++ scratch.up.drop n }
      let downQ8 := match expert.down.q8FusedBlocks kernels.down with
        | some nBlocks => quantize up nBlocks
        | none => scratch.downQ8
      let scratch := { scratch with downQ8 := downQ8 }
      match project expert.down kernels.down up downQ8 output with
      | .error e => (.error (.quant e), output, scratch)
      | .ok output => (.ok (), output, scratch)

end QuantExpert

/-- `QuantMoeFfn`, with what `QuantMoeFfn::new` checks and resolves: a kernel for each
expert. -/
structure QuantMoeFfn (W α : Type) where
  router : QuantLinear W α
  experts : List (QuantExpert W α × ExpertKernels W α)
  topK : ℕ
  hiddenSize : ℕ
  routerKernel : MoeKernel W α
  experts_ne_nil : experts ≠ []
  topK_pos : 0 < topK
  head_hiddenSize : ∀ e ∈ experts.head?, e.1.hiddenSize = hiddenSize
  router_out : router.outFeatures = experts.length
  router_in : router.inFeatures = hiddenSize

namespace QuantMoeFfn

/-- The intermediate size of the first expert. -/
def firstIntermediate (ffn : QuantMoeFfn W α) : ℕ :=
  (ffn.experts.head?.map (·.1.intermediateSize)).getD 0

/-- `QuantMoeFfn::make_scratch`. -/
def makeScratch (ffn : QuantMoeFfn W α) : MoeScratch α :=
  .new ffn.hiddenSize ffn.firstIntermediate ffn.experts.length

/-- The scratch that the layer needs, where it is too short. -/
def ensured (ffn : QuantMoeFfn W α) (scratch : MoeScratch α) : MoeScratch α :=
  ((scratch.ensureRouter ffn.experts.length).ensureOutput ffn.hiddenSize).ensureActivations
    ffn.firstIntermediate

/-- The weights of the router: logits and softmax in the first places of the buffer. -/
def routerWeights (ffn : QuantMoeFfn W α) (input buffer : List α) : QuantResult (List α) := do
  let logits ← ffn.router.forward ffn.routerKernel.toQuantKernel input
    (buffer.take ffn.experts.length)
  return softmax logits logits.length

/-- The number of blocks in which the selected experts need the input, if any of them does. -/
def sharedBlocks (ffn : QuantMoeFfn W α) (selected : List (ℕ × α)) : Option ℕ :=
  selected.foldl (fun shared (idx, _) =>
    match ffn.experts[idx]?.bind fun e => e.1.gateUpFusedBlocks e.2 with
    | some b => some (shared.elim b (max · b))
    | none => shared) none

/-- The router: the order of the experts, those that are selected with their weights, and the
weights it leaves. -/
def route (sort : SortUnstable) (ffn : QuantMoeFfn W α) (input : List α) (scratch : MoeScratch α) :
    Option (Except MoeError ((List ℕ × List (ℕ × α)) × List α)) :=
  match ffn.routerWeights input (ffn.ensured scratch).routerLogits with
  | .error e => some (.error (.quant e))
  | .ok weights => do
    let selection ← selectTopK sort weights ffn.experts.length ffn.topK
    return .ok (selection, weights)

/-- `QuantMoeFfn::forward`: the result, and what it leaves in `output` and in the scratch. -/
def forward (quantize : List α → ℕ → List UInt8) (sort : SortUnstable) (ffn : QuantMoeFfn W α)
    (input output : List α) (scratch : MoeScratch α) :
    Option (Except MoeError Unit × List α × MoeScratch α) := do
  match ← ffn.route sort input scratch with
  | .error e => return (.error e, output, ffn.ensured scratch)
  | .ok ((order, selected), weights) =>
    let scratch := ffn.ensured scratch
    let actsQ8 := match ffn.sharedBlocks selected with
      | some nBlocks => quantize input nBlocks
      | none => scratch.actsQ8
    let (result, bufs) ← runSelected
      (fun e => e.1.forwardFused quantize e.2 input actsQ8) ffn.experts selected
      ⟨output.map fun _ => 0, scratch.expertOut, { scratch with
        expertOut := []
        actsQ8 := []
        routerLogits := weights ++ scratch.routerLogits.drop ffn.experts.length
        order := order }⟩
    return (result, bufs.output, { bufs.scratch with
      expertOut := bufs.expertOut
      actsQ8 := actsQ8 })

end QuantMoeFfn

end Arch

end Oxillama
