/-
A stack of adapters and the sum of its entries.

`LlamaModel` applies the entries of a stack one by one, each into the slot that
`setLora` replaces.  What is left is the last adapter of each linear layer.

* `LoraAdapter.matrix` — the correction of an adapter as a matrix;
* `applyLoraStack_model` — **what a stack leaves**: the entries before the first one whose
  scale the model does not honour are applied, and the last one of them counts;
* `applies_as_sum_iff` — **exactly when the stack means the sum of its entries**.
-/
import Mathlib.Algebra.BigOperators.Fin
import Mathlib.Algebra.BigOperators.Ring.Finset
import Mathlib.Algebra.Order.Field.Basic
import Mathlib.Data.Finmap
import Mathlib.Data.List.GetD
import Mathlib.Data.List.TakeWhile
import Oxillama.Arch.Lora

namespace Oxillama

namespace Arch

open Finset

variable {α W : Type}

/-! ### Sums of products -/

section Dot

variable [CommSemiring α]

theorem dot_eq_sum (xs ys : List α) : dot xs ys = (List.zipWith (· * ·) xs ys).sum := by
  rw [dot, List.sum_eq_foldl]

theorem dot_eq_sum_range {n : ℕ} {xs ys : List α} (h : xs.length ≤ n ∨ ys.length ≤ n) :
    dot xs ys = ∑ i ∈ range n, xs.getD i 0 * ys.getD i 0 := by
  rw [dot_eq_sum]
  induction n generalizing xs ys with
  | zero =>
    rcases h with h | h
    · rw [List.length_eq_zero_iff.1 (Nat.le_zero.1 h)]
      simp
    · rw [List.length_eq_zero_iff.1 (Nat.le_zero.1 h)]
      simp
  | succ n ih =>
    rcases xs with - | ⟨x, xs⟩
    · simp
    · rcases ys with - | ⟨y, ys⟩
      · simp
      · rw [Finset.sum_range_succ', List.zipWith_cons_cons, List.sum_cons,
          ih (by simpa using h), add_comm]
        simp

theorem getD_row {d : ℕ} (v : List α) (r : ℕ) {i : ℕ} (hi : i < d) :
    (row d v r).getD i 0 = v.getD (r * d + i) 0 := by
  rw [List.getD_eq_getElem?_getD, getElem?_row, if_pos hi, List.getD_eq_getElem?_getD]

/-- The list with a single one, at `k`. -/
def unit (n k : ℕ) : List α := (List.range n).map fun i => if i = k then 1 else 0

theorem length_unit (n k : ℕ) : (unit n k : List α).length = n := by simp [unit]

theorem getD_unit {n i : ℕ} (k : ℕ) (hi : i < n) :
    (unit n k : List α).getD i 0 = if i = k then 1 else 0 := by
  simp [unit, List.getD_eq_getElem?_getD, hi]

end Dot

/-! ### Adapters as matrices -/

namespace LoraAdapter

section Matrix

variable [CommSemiring α]

/-- Entry `(o, k)` of `scale * B @ A`. -/
def matrix (adapter : LoraAdapter α) (o k : ℕ) : α :=
  adapter.scale * ∑ r ∈ range adapter.rank,
    adapter.b.getD (o * adapter.rank + r) 0 * adapter.a.getD (r * adapter.inFeatures + k) 0

/-- What an adapter adds to output `o`. -/
def correction (adapter : LoraAdapter α) (input : List α) (o : ℕ) : α :=
  dot (row adapter.rank adapter.b o) (adapter.project input) * adapter.scale

theorem getD_project (adapter : LoraAdapter α) (input : List α) {r : ℕ} (hr : r < adapter.rank) :
    (adapter.project input).getD r 0 = ∑ k ∈ range adapter.inFeatures,
      adapter.a.getD (r * adapter.inFeatures + k) 0 * input.getD k 0 := by
  have hget : (adapter.project input).getD r 0 =
      dot (row adapter.inFeatures adapter.a r) (input.take adapter.inFeatures) := by
    simp [project, List.getD_eq_getElem?_getD, hr]
  rw [hget, dot_eq_sum_range (Or.inl (length_row_le _ _ _))]
  refine Finset.sum_congr rfl fun k hk => ?_
  have hk := Finset.mem_range.1 hk
  simp only [getD_row _ _ hk, List.getD_eq_getElem?_getD, List.getElem?_take_of_lt hk]

/-- **An adapter adds its matrix times the input.** -/
theorem correction_eq (adapter : LoraAdapter α) (input : List α) (o : ℕ) :
    adapter.correction input o =
      ∑ k ∈ range adapter.inFeatures, adapter.matrix o k * input.getD k 0 := by
  rw [correction, dot_eq_sum_range (Or.inl (length_row_le _ _ _))]
  have hrow : ∀ r ∈ range adapter.rank,
      (row adapter.rank adapter.b o).getD r 0 * (adapter.project input).getD r 0 =
        ∑ k ∈ range adapter.inFeatures, adapter.b.getD (o * adapter.rank + r) 0 *
          adapter.a.getD (r * adapter.inFeatures + k) 0 * input.getD k 0 := by
    intro r hr
    have hr := Finset.mem_range.1 hr
    rw [getD_row _ _ hr, getD_project _ _ hr, Finset.mul_sum]
    refine Finset.sum_congr rfl fun k _ => ?_
    rw [mul_assoc]
  rw [Finset.sum_congr rfl hrow, Finset.sum_comm, Finset.sum_mul]
  refine Finset.sum_congr rfl fun k _ => ?_
  rw [matrix, ← Finset.sum_mul]
  ring

end Matrix

end LoraAdapter

/-! ### The linear layers of a model -/

/-- The linear layers of a layer, with the projections they are. -/
def LlamaLayer.linears (layer : LlamaLayer W α) : List (String × QuantLinear W α) :=
  [("attn_q", layer.attnQ), ("attn_k", layer.attnK), ("attn_v", layer.attnV),
    ("attn_output", layer.attnOutput)] ++
  match layer.ffn with
  | .dense ffn => [("ffn_gate", ffn.gate), ("ffn_up", ffn.up), ("ffn_down", ffn.down)]
  | .moe => []

namespace LlamaModel

/-- The linear layers of a model, with the names of their tensors. -/
def projections (model : LlamaModel W α) : List (String × QuantLinear W α) :=
  (model.layers.mapIdx fun i layer =>
    layer.linears.map fun (projection, linear) => (tensorName i projection, linear)).flatten

/-- The linear layers of a model under a function. -/
def mapProjections (f : String → QuantLinear W α → QuantLinear W α) (model : LlamaModel W α) :
    LlamaModel W α where
  layers := model.layers.mapIdx fun i layer => layer.mapLinears fun p => f (tensorName i p)

theorem projections_mapProjections (f : String → QuantLinear W α → QuantLinear W α)
    (model : LlamaModel W α) :
    (model.mapProjections f).projections = model.projections.map fun p => (p.1, f p.1 p.2) := by
  have hlayer : ∀ (i : ℕ) (layer : LlamaLayer W α),
      (layer.mapLinears fun p => f (tensorName i p)).linears.map
          (fun p => (tensorName i p.1, p.2)) =
        (layer.linears.map fun p => (tensorName i p.1, p.2)).map fun p => (p.1, f p.1 p.2) := by
    intro i layer
    rcases hffn : layer.ffn with ffn | -
    · simp [LlamaLayer.mapLinears, LlamaLayer.linears, hffn]
    · simp [LlamaLayer.mapLinears, LlamaLayer.linears, hffn]
  rw [projections, projections, mapProjections, List.map_flatten]
  congr 1
  refine List.ext_getElem (by simp) fun i _ _ => ?_
  simp only [List.getElem_mapIdx, List.getElem_map]
  exact hlayer _ _

theorem mapProjections_mapProjections (f g : String → QuantLinear W α → QuantLinear W α)
    (model : LlamaModel W α) :
    (model.mapProjections f).mapProjections g =
      model.mapProjections fun name linear => g name (f name linear) := by
  have hlayer : ∀ (i : ℕ) (layer : LlamaLayer W α),
      (layer.mapLinears fun p => f (tensorName i p)).mapLinears (fun p => g (tensorName i p)) =
        layer.mapLinears fun p linear => g (tensorName i p) (f (tensorName i p) linear) := by
    intro i layer
    rcases hffn : layer.ffn with ffn | -
    · simp [LlamaLayer.mapLinears, hffn]
    · simp [LlamaLayer.mapLinears, hffn]
  rw [mapProjections, mapProjections, mapProjections, List.mapIdx_mapIdx]
  simp only [Function.comp_def, hlayer]

theorem mapProjections_id {f : String → QuantLinear W α → QuantLinear W α}
    {model : LlamaModel W α} (h : ∀ p ∈ model.projections, f p.1 p.2 = p.2) :
    model.mapProjections f = model := by
  have hlayer : ∀ (i : ℕ) (hi : i < model.layers.length),
      (model.layers[i].mapLinears fun p => f (tensorName i p)) = model.layers[i] := by
    intro i hi
    have hf : ∀ p ∈ model.layers[i].linears, f (tensorName i p.1) p.2 = p.2 := by
      intro p hp
      refine h (tensorName i p.1, p.2) (List.mem_flatten.2 ⟨_, List.mem_mapIdx.2 ⟨i, hi, rfl⟩, ?_⟩)
      exact List.mem_map.2 ⟨p, hp, rfl⟩
    rcases hlayer : model.layers[i] with ⟨q, k, v, output, ffn⟩
    rw [hlayer] at hf
    rcases ffn with ffn | -
    · simp_all [LlamaLayer.mapLinears, LlamaLayer.linears]
    · simp_all [LlamaLayer.mapLinears, LlamaLayer.linears]
  rcases model with ⟨layers⟩
  rw [mapProjections, LlamaModel.mk.injEq]
  refine List.ext_getElem (by simp) fun i _ hi => ?_
  rw [List.getElem_mapIdx]
  exact hlayer i hi

end LlamaModel

/-! ### The last adapter of a linear layer -/

/-- The adapters that entries have for a tensor, each with the scale of its entry. -/
def naming (entries : List (LoadedLora α × α)) (name : String) : List (LoraAdapter α × α) :=
  entries.filterMap fun entry => (entry.1.get name).map (·, entry.2)

/-- A linear layer with the last of some adapters in its slot. -/
def QuantLinear.attachLast (adapters : List (LoraAdapter α × α)) (linear : QuantLinear W α) :
    QuantLinear W α :=
  match adapters.getLast? with
  | some (adapter, _) => linear.setLora adapter
  | none => linear

/-- A linear layer to which no adapter is attached. -/
def Bare (linear : QuantLinear W α) : Prop := linear.lora = none ∧ linear.loraStack = []

theorem loraCount_eq_zero_iff {linear : QuantLinear W α} : linear.loraCount = 0 ↔ Bare linear := by
  rw [QuantLinear.loraCount, Bare]
  rcases linear.lora with - | adapter
  · simp
  · simp

theorem clearLora_attachLast {linear : QuantLinear W α} (hbare : Bare linear)
    (adapters : List (LoraAdapter α × α)) : (linear.attachLast adapters).clearLora = linear := by
  have hclear : (linear.attachLast adapters).clearLora = linear.clearLora := by
    unfold QuantLinear.attachLast
    rcases adapters.getLast? with - | ⟨adapter, scale⟩
    · rfl
    · rfl
  rcases linear with ⟨weight, bias, outFeatures, inFeatures, lora, loraStack⟩
  obtain ⟨hlora, hstack⟩ := hbare
  simp only at hlora hstack
  rw [hclear, hlora, hstack]
  rfl

theorem naming_eq_nil_iff {entries : List (LoadedLora α × α)} {name : String} :
    naming entries name = [] ↔ ∀ entry ∈ entries, entry.1.get name = none := by
  simp [naming, List.filterMap_eq_nil_iff]

namespace LlamaModel

/-- Applying adapters one after the other leaves the last one of each linear layer. -/
theorem foldl_applyLora (entries : List (LoadedLora α × α)) (model : LlamaModel W α) :
    entries.foldl (fun model entry => model.applyLora entry.1) model =
      model.mapProjections fun name => QuantLinear.attachLast (naming entries name) := by
  induction entries generalizing model with
  | nil => exact (mapProjections_id fun p _ => rfl).symm
  | cons entry entries ih =>
    rw [List.foldl_cons, ih]
    have happly : model.applyLora entry.1 = model.mapProjections fun name linear =>
        (entry.1.get name).elim linear linear.setLora := by
      rw [applyLora, mapProjections]
      congr 2
      funext i layer
      congr 1
      funext projection linear
      cases entry.1.get (tensorName i projection) <;> rfl
    rw [happly, mapProjections_mapProjections]
    congr 1
    funext name linear
    rcases hget : entry.1.get name with - | adapter
    · simp [naming, hget]
    · -- A later adapter replaces the one of this entry.
      rcases hlast : (naming entries name).getLast? with - | ⟨later, scale⟩
      · have hnil := List.getLast?_eq_none_iff.1 hlast
        have hcons : naming (entry :: entries) name =
            (adapter, entry.2) :: naming entries name := by
          simp [naming, hget]
        simp [QuantLinear.attachLast, hcons, hnil]
      · have hcons : naming (entry :: entries) name =
            (adapter, entry.2) :: naming entries name := by
          simp [naming, hget]
        simp [QuantLinear.attachLast, hcons, List.getLast?_cons, hlast, QuantLinear.setLora]

/-- Detaching all adapters leaves a model as it was before any was attached. -/
theorem unapplyAllLoras_mapProjections {model : LlamaModel W α}
    (hbare : ∀ p ∈ model.projections, Bare p.2)
    (adapters : String → List (LoraAdapter α × α)) :
    (model.mapProjections fun name => QuantLinear.attachLast (adapters name)).unapplyAllLoras =
      model := by
  have hunapply (m : LlamaModel W α) :
      m.unapplyAllLoras = m.mapProjections fun _ linear => linear.clearLora := by
    rw [unapplyAllLoras, mapProjections, LlamaModel.mk.injEq]
    refine List.ext_getElem (by simp) fun i _ _ => ?_
    rw [List.getElem_map, List.getElem_mapIdx]
  rw [hunapply, mapProjections_mapProjections]
  refine mapProjections_id fun p hp => ?_
  exact clearLora_attachLast (hbare p hp) _

end LlamaModel

/-! ### Corrected outputs -/

theorem mapIdx_self (v : List α) : (v.mapIdx fun _ d => d) = v := by
  refine List.ext_getElem (by simp) fun i _ _ => ?_
  rw [List.getElem_mapIdx]

section Corrections

variable [CommRing α]

/-- A linear layer computes what another one computes, and a correction. -/
def CorrectedBy (delta : List α → ℕ → List α) (linear linear' : QuantLinear W α) : Prop :=
  ∀ (kernel : QuantKernel W α) (input output : List α), input.length = linear.inFeatures →
    output.length = linear.outFeatures →
    linear'.forward kernel input output = (linear.forward kernel input output).map
      (List.zipWith (· + ·) · (delta input linear.outFeatures))

/-- The dimensions of an adapter are those of a linear layer. -/
def Compatible (adapter : LoraAdapter α) (linear : QuantLinear W α) : Prop :=
  adapter.inFeatures = linear.inFeatures ∧ adapter.outFeatures = linear.outFeatures

/-- The sum of the corrections of some adapters, with their scales. -/
def sumCorrection (adapters : List (LoraAdapter α × α)) (input : List α) (o : ℕ) : α :=
  (adapters.map fun entry => entry.2 * entry.1.correction input o).sum

/-- The correction of the last of some adapters. -/
def lastCorrection (adapters : List (LoraAdapter α × α)) (input : List α) (o : ℕ) : α :=
  adapters.getLast?.elim 0 fun entry => entry.1.correction input o

/-- An entry adds the correction of its adapter. -/
theorem addEntry_eq {name : String} {delta : List α} {entry : LoadedLora α × α}
    (hout : ∀ adapter ∈ entry.1.get name, adapter.outFeatures = delta.length) (input : List α) :
    LoraStack.addEntry name input delta.length delta entry =
      delta.mapIdx fun o d => d + sumCorrection (naming [entry] name) input o := by
  rcases hget : entry.1.get name with - | adapter
  · simp [LoraStack.addEntry, naming, sumCorrection, hget, mapIdx_self]
  · have hlen := hout adapter hget
    refine List.ext_getElem (by simp [LoraStack.addEntry, hget]) fun o ho _ => ?_
    have ho : o < delta.length := by simpa [LoraStack.addEntry, hget] using ho
    simp only [LoraStack.addEntry, hget, List.getElem_mapIdx, hlen, min_self, if_pos ho]
    simp only [naming, sumCorrection, LoraAdapter.correction, List.filterMap_cons, hget,
      Option.map_some, List.filterMap_nil, List.map_cons, List.map_nil, List.sum_cons,
      List.sum_nil]
    ring

theorem sumCorrection_cons (entry : LoadedLora α × α) (entries : List (LoadedLora α × α))
    (name : String) (input : List α) (o : ℕ) :
    sumCorrection (naming (entry :: entries) name) input o =
      sumCorrection (naming [entry] name) input o +
        sumCorrection (naming entries name) input o := by
  have happend : naming (entry :: entries) name = naming [entry] name ++ naming entries name := by
    rw [naming, naming, naming, ← List.filterMap_append, List.singleton_append]
  rw [happend, sumCorrection, List.map_append, List.sum_append]
  rfl

/-- **The sum over all entries**, as the stack computes it. -/
theorem apply_eq_sumCorrection {stack : LoraStack α} {name : String} {outFeatures : ℕ}
    (hout : ∀ entry ∈ stack.entries, ∀ adapter ∈ entry.1.get name,
      adapter.outFeatures = outFeatures) (input : List α) :
    stack.apply name input outFeatures =
      (List.range outFeatures).map (sumCorrection (naming stack.entries name) input) := by
  have hfold : ∀ (entries : List (LoadedLora α × α)) (delta : List α),
      (∀ entry ∈ entries, ∀ adapter ∈ entry.1.get name, adapter.outFeatures = delta.length) →
      entries.foldl (LoraStack.addEntry name input delta.length) delta =
        delta.mapIdx fun o d => d + sumCorrection (naming entries name) input o := by
    intro entries
    induction entries with
    | nil =>
      intro delta _
      simp [naming, sumCorrection, mapIdx_self]
    | cons entry entries ih =>
      intro delta hdelta
      have hstep := addEntry_eq (hdelta entry List.mem_cons_self) input
      have hlen : (LoraStack.addEntry name input delta.length delta entry).length =
          delta.length := by
        rw [hstep, List.length_mapIdx]
      have ih := ih (LoraStack.addEntry name input delta.length delta entry)
        (by rw [hlen]; exact fun e he => hdelta e (List.mem_cons_of_mem _ he))
      rw [hlen] at ih
      rw [List.foldl_cons, ih, hstep, List.mapIdx_mapIdx]
      congr 1
      funext o d
      rw [sumCorrection_cons entry entries, ← add_assoc]
      rfl
  have hzero := hfold stack.entries (List.replicate outFeatures 0) (by simpa using hout)
  rw [List.length_replicate] at hzero
  rw [LoraStack.apply, hzero]
  refine List.ext_getElem (by simp) fun o _ _ => ?_
  simp

/-! ### The last adapter and the sum -/

theorem length_addBias (output bias : List α) :
    (QuantLinear.addBias output bias).length = output.length := by
  rw [QuantLinear.addBias, List.length_mapIdx]

/-- An output has the length of the buffer. -/
theorem length_of_forward {linear : QuantLinear W α} (hbare : Bare linear)
    {kernel : QuantKernel W α} {input output output' : List α}
    (h : linear.forward kernel input output = .ok output') : output'.length = output.length := by
  rcases hbare with ⟨hlora, hstack⟩
  rw [QuantLinear.forward, hlora, hstack] at h
  rcases hgemv : kernel.gemv linear.weight input output with e | first
  · rw [hgemv] at h
    contradiction
  · rw [hgemv] at h
    have hlen := kernel.length_gemv hgemv
    rcases hbias : linear.bias with - | bias
    · rw [hbias] at h
      cases h
      exact hlen
    · rw [hbias] at h
      cases h
      exact (length_addBias _ _).trans hlen

/-- A layer with an adapter corrects what it computes without it. -/
theorem forward_setLora {linear : QuantLinear W α} (hbare : Bare linear) (adapter : LoraAdapter α)
    (kernel : QuantKernel W α) (input output : List α) :
    (linear.setLora adapter).forward kernel input output =
      linear.forward kernel input output >>= adapter.apply input := by
  rcases hbare with ⟨hlora, hstack⟩
  rw [QuantLinear.forward, QuantLinear.forward, QuantLinear.setLora, hlora, hstack]
  rcases kernel.gemv linear.weight input output with e | first
  · rfl
  · -- The adapter of the slot is the last step, as the other list is empty.
    have hright (x : QuantResult (List α)) : (x >>= fun output => Except.ok output) = x := by
      rcases x with e | output
      · rfl
      · rfl
    exact hright _

/-- **What a layer computes with the last of some adapters.** -/
theorem forward_attachLast {linear : QuantLinear W α} (hbare : Bare linear)
    {adapters : List (LoraAdapter α × α)} (hfit : ∀ entry ∈ adapters, Compatible entry.1 linear)
    (kernel : QuantKernel W α) {input output : List α} (hin : input.length = linear.inFeatures)
    (hout : output.length = linear.outFeatures) :
    (linear.attachLast adapters).forward kernel input output =
      (linear.forward kernel input output).map
        (List.mapIdx fun o out => out + lastCorrection adapters input o) := by
  rw [QuantLinear.attachLast]
  rcases hlast : adapters.getLast? with - | ⟨adapter, scale⟩
  · rcases linear.forward kernel input output with e | base
    · rfl
    · simp [Except.map, lastCorrection, hlast, mapIdx_self]
  · have hmem := List.mem_of_getLast? hlast
    have hinF : adapter.inFeatures = linear.inFeatures := (hfit _ hmem).1
    have houtF : adapter.outFeatures = linear.outFeatures := (hfit _ hmem).2
    rw [forward_setLora hbare]
    rcases hforward : linear.forward kernel input output with e | base
    · rfl
    · have hlen := length_of_forward hbare hforward
      change adapter.apply input base = .ok _
      rw [LoraAdapter.apply, if_neg (by omega), if_neg (by omega)]
      refine congrArg Except.ok (List.ext_getElem (by simp) fun o ho _ => ?_)
      have ho : o < adapter.outFeatures := by
        rw [List.length_mapIdx] at ho
        omega
      simp only [List.getElem_mapIdx, if_pos ho, lastCorrection, hlast, Option.elim_some,
        LoraAdapter.correction]

/-- The matrices of some adapters, with their scales, add up to the one of the last. -/
def SumIsLast (adapters : List (LoraAdapter α × α)) (linear : QuantLinear W α) : Prop :=
  ∀ o < linear.outFeatures, ∀ k < linear.inFeatures,
    (adapters.map fun entry => entry.2 * entry.1.matrix o k).sum =
      adapters.getLast?.elim 0 fun entry => entry.1.matrix o k

theorem sumCorrection_eq {n : ℕ} {adapters : List (LoraAdapter α × α)}
    (hin : ∀ entry ∈ adapters, entry.1.inFeatures = n) (input : List α) (o : ℕ) :
    sumCorrection adapters input o = ∑ k ∈ range n,
      (adapters.map fun entry => entry.2 * entry.1.matrix o k).sum * input.getD k 0 := by
  induction adapters with
  | nil => simp [sumCorrection]
  | cons entry adapters ih =>
    have hcons : sumCorrection (entry :: adapters) input o =
        entry.2 * entry.1.correction input o + sumCorrection adapters input o := by
      simp [sumCorrection]
    rw [hcons, ih fun e he => hin e (List.mem_cons_of_mem _ he), LoraAdapter.correction_eq,
      hin entry List.mem_cons_self, Finset.mul_sum, ← Finset.sum_add_distrib]
    refine Finset.sum_congr rfl fun k _ => ?_
    rw [List.map_cons, List.sum_cons]
    ring

theorem lastCorrection_eq {n : ℕ} {adapters : List (LoraAdapter α × α)}
    (hin : ∀ entry ∈ adapters, entry.1.inFeatures = n) (input : List α) (o : ℕ) :
    lastCorrection adapters input o = ∑ k ∈ range n,
      (adapters.getLast?.elim 0 fun entry => entry.1.matrix o k) * input.getD k 0 := by
  rcases hlast : adapters.getLast? with - | entry
  · simp [lastCorrection, hlast]
  · rw [lastCorrection, hlast, Option.elim_some, LoraAdapter.correction_eq,
      hin entry (List.mem_of_getLast? hlast)]
    rfl

theorem sum_mul_unit {n k : ℕ} (f : ℕ → α) (hk : k < n) :
    ∑ i ∈ range n, f i * (unit n k : List α).getD i 0 = f k := by
  rw [Finset.sum_eq_single_of_mem k (Finset.mem_range.2 hk)]
  · rw [getD_unit k hk, if_pos rfl, mul_one]
  · intro i hi hne
    rw [getD_unit k (Finset.mem_range.1 hi), if_neg hne, mul_zero]

/-- The matrices tell the corrections apart. -/
theorem sumIsLast_iff {adapters : List (LoraAdapter α × α)} {linear : QuantLinear W α}
    (hfit : ∀ entry ∈ adapters, Compatible entry.1 linear) :
    SumIsLast adapters linear ↔ ∀ input : List α, input.length = linear.inFeatures →
      ∀ o < linear.outFeatures, lastCorrection adapters input o =
        sumCorrection adapters input o := by
  have hin : ∀ entry ∈ adapters, entry.1.inFeatures = linear.inFeatures :=
    fun entry hentry => (hfit entry hentry).1
  constructor
  · intro h input _ o ho
    rw [lastCorrection_eq hin, sumCorrection_eq hin]
    refine Finset.sum_congr rfl fun k hk => ?_
    rw [h o ho k (Finset.mem_range.1 hk)]
  · intro h o ho k hk
    have hunit := h (unit linear.inFeatures k) (length_unit _ _) o ho
    rw [lastCorrection_eq hin, sumCorrection_eq hin, sum_mul_unit _ hk, sum_mul_unit _ hk] at hunit
    exact hunit.symm

/-- The kernel that leaves the buffer as it is. -/
def idleKernel : QuantKernel W α where
  gemv _ _ output := .ok output
  length_gemv h := by rw [Except.ok.inj h]

theorem forward_idleKernel {linear : QuantLinear W α} (hbare : Bare linear)
    (input output : List α) : ∃ base, linear.forward idleKernel input output = .ok base := by
  rcases hbare with ⟨hlora, hstack⟩
  rw [QuantLinear.forward, hlora, hstack]
  exact ⟨_, rfl⟩

/-- Two corrections of an output are the same exactly when they are the same everywhere. -/
theorem mapIdx_add_eq_zipWith_iff {n : ℕ} {base : List α} (hbase : base.length = n)
    (f g : ℕ → α) :
    base.mapIdx (fun o out => out + f o) = List.zipWith (· + ·) base ((List.range n).map g) ↔
      ∀ o < n, f o = g o := by
  constructor
  · intro h o ho
    have hget := congrArg (·[o]?) h
    simpa [List.getElem?_zipWith, hbase, ho] using hget
  · intro h
    refine List.ext_getElem (by simp [hbase]) fun o ho _ => ?_
    have ho : o < n := by
      rw [List.length_mapIdx] at ho
      omega
    simp [h o ho]

/-- **When the last adapter is the sum.** -/
theorem correctedBy_attachLast_iff {adapters : List (LoraAdapter α × α)}
    {linear : QuantLinear W α} (hbare : Bare linear)
    (hfit : ∀ entry ∈ adapters, Compatible entry.1 linear) {delta : List α → ℕ → List α}
    (hdelta : ∀ input, delta input linear.outFeatures =
      (List.range linear.outFeatures).map (sumCorrection adapters input)) :
    CorrectedBy delta linear (linear.attachLast adapters) ↔ SumIsLast adapters linear := by
  rw [sumIsLast_iff hfit]
  constructor
  · intro h input hin
    have hlen : (List.replicate linear.outFeatures (0 : α)).length = linear.outFeatures :=
      List.length_replicate
    obtain ⟨base, hbase⟩ :=
      forward_idleKernel hbare input (List.replicate linear.outFeatures (0 : α))
    have hforward := h idleKernel input _ hin hlen
    rw [forward_attachLast hbare hfit _ hin hlen, hbase, hdelta] at hforward
    exact (mapIdx_add_eq_zipWith_iff ((length_of_forward hbare hbase).trans hlen) _ _).1
      (Except.ok.inj hforward)
  · intro h kernel input output hin hout
    rw [forward_attachLast hbare hfit _ hin hout, hdelta]
    rcases hforward : linear.forward kernel input output with e | base
    · rfl
    · refine congrArg Except.ok ?_
      exact (mapIdx_add_eq_zipWith_iff ((length_of_forward hbare hforward).trans hout) _ _).2
        (h input hin)

end Corrections

/-! ### Scales -/

section Stack

variable [Field α] [LinearOrder α] [ToString α]

/-- `f32::EPSILON`. -/
def f32Epsilon : α := 1 / 2 ^ 23

/-- Whether the model honours the scale of an entry. -/
def Honoured (entry : LoadedLora α × α) : Prop := |entry.2 - 1| ≤ f32Epsilon

instance : DecidablePred (Honoured (α := α)) :=
  fun entry => inferInstanceAs (Decidable (|entry.2 - 1| ≤ f32Epsilon))

namespace LlamaModel

theorem applyLoraStack_eq_ok (entries : List (LoadedLora α × α)) (model : LlamaModel W α) :
    (applyLoraStack (fun x => |x|) f32Epsilon entries model).1 = .ok () ↔
      ∀ entry ∈ entries, Honoured entry := by
  induction entries generalizing model with
  | nil => simp [applyLoraStack]
  | cons entry entries ih =>
    rcases entry with ⟨lora, scale⟩
    by_cases h : |scale - 1| ≤ f32Epsilon
    · simp [applyLoraStack, LlamaModel.applyLoraScaled, h, ih, Honoured]
    · simp [applyLoraStack, LlamaModel.applyLoraScaled, h, Honoured]

/-- **What a stack leaves in the model.** -/
theorem applyLoraStack_model (entries : List (LoadedLora α × α)) (model : LlamaModel W α) :
    (applyLoraStack (fun x => |x|) f32Epsilon entries model).2 =
      model.mapProjections fun name =>
        QuantLinear.attachLast (naming (entries.takeWhile (Honoured ·)) name) := by
  rw [← foldl_applyLora]
  induction entries generalizing model with
  | nil => rfl
  | cons entry entries ih =>
    rcases entry with ⟨lora, scale⟩
    by_cases h : |scale - 1| ≤ f32Epsilon
    · simp [applyLoraStack, LlamaModel.applyLoraScaled, h, ih, Honoured]
    · simp [applyLoraStack, LlamaModel.applyLoraScaled, h, Honoured]

/-! ### The law -/

/-- **The law of a stack**: applied, each linear layer adds what the stack computes for it; not
applied, no adapter is attached; detached, the model is what it was. -/
def AppliesAsSum (model : LlamaModel W α) (stack : LoraStack α) : Prop :=
  let r := model.applyLoraStack (fun x => |x|) f32Epsilon stack.entries
  (r.1 = .ok () →
    List.Forall₂ (fun p p' => p'.1 = p.1 ∧ CorrectedBy (stack.apply p.1) p.2 p'.2)
      model.projections r.2.projections) ∧
  (∀ e, r.1 = .error e → ∀ p ∈ r.2.projections, p.2.loraCount = 0) ∧
  r.2.unapplyAllLoras = model

/-- All scales are honoured and, for each linear layer, the matrices of the entries add up to the
last one; or no entry before the first scale that is not honoured names a linear layer. -/
def SumsUp (model : LlamaModel W α) (stack : LoraStack α) : Prop :=
  if ∀ entry ∈ stack.entries, Honoured entry then
    ∀ p ∈ model.projections, SumIsLast (naming stack.entries p.1) p.2
  else
    ∀ entry ∈ stack.entries.takeWhile (Honoured ·), ∀ p ∈ model.projections,
      entry.1.get p.1 = none

/-- **Exactly when a stack means the sum of its entries.** -/
theorem applies_as_sum_iff (model : LlamaModel W α) (stack : LoraStack α)
    (hbare : ∀ p ∈ model.projections, p.2.loraCount = 0)
    (hfit : ∀ entry ∈ stack.entries, ∀ p ∈ model.projections, ∀ adapter ∈ entry.1.get p.1,
      Compatible adapter p.2) :
    model.AppliesAsSum stack ↔ model.SumsUp stack := by
  have hbare : ∀ p ∈ model.projections, Bare p.2 :=
    fun p hp => loraCount_eq_zero_iff.1 (hbare p hp)
  have hok := applyLoraStack_eq_ok stack.entries model
  rw [AppliesAsSum, SumsUp]
  simp only [applyLoraStack_model, unapplyAllLoras_mapProjections hbare, and_true,
    projections_mapProjections]
  by_cases hall : ∀ entry ∈ stack.entries, Honoured entry
  · -- All entries are applied.
    have htake : stack.entries.takeWhile (Honoured ·) = stack.entries :=
      List.takeWhile_eq_self_iff.2 fun entry hentry => decide_eq_true (hall entry hentry)
    have hnoError : ∀ e, (applyLoraStack (fun x => |x|) f32Epsilon stack.entries model).1 ≠
        .error e := by
      intro e
      rw [hok.2 hall]
      nofun
    rw [if_pos hall, htake, and_iff_left fun e he => absurd he (hnoError e),
      imp_iff_right (hok.2 hall), List.forall₂_map_right_iff, List.forall₂_same]
    refine forall₂_congr fun p hp => ?_
    have hfitP : ∀ entry ∈ naming stack.entries p.1, Compatible entry.1 p.2 := by
      intro entry hentry
      obtain ⟨loaded, hloaded, hget⟩ := List.mem_filterMap.1 hentry
      obtain ⟨adapter, hadapter, rfl⟩ := Option.map_eq_some_iff.1 hget
      exact hfit loaded hloaded p hp adapter hadapter
    rw [and_iff_right rfl]
    refine correctedBy_attachLast_iff (hbare p hp) hfitP fun input => ?_
    exact apply_eq_sumCorrection
      (fun entry hentry adapter hadapter => (hfit entry hentry p hp adapter hadapter).2) input
  · -- The first scale that is not honoured stops the loop.
    have herror : ∃ e, (applyLoraStack (fun x => |x|) f32Epsilon stack.entries model).1 =
        .error e := by
      rcases hr : (applyLoraStack (fun x => |x|) f32Epsilon stack.entries model).1 with e | u
      · exact ⟨e, rfl⟩
      · exact absurd (hok.1 hr) hall
    obtain ⟨e, he⟩ := herror
    rw [if_neg hall, he]
    simp only [reduceCtorEq, false_implies, true_and, List.mem_map, Except.error.injEq]
    constructor
    · intro h entry hentry p hp
      have hcount := h e rfl _ ⟨p, hp, rfl⟩
      refine naming_eq_nil_iff.1 ?_ entry hentry
      rcases hlast : (naming (stack.entries.takeWhile (Honoured ·)) p.1).getLast? with - | last
      · exact List.getLast?_eq_none_iff.1 hlast
      · simp [QuantLinear.attachLast, hlast, QuantLinear.loraCount, QuantLinear.setLora] at hcount
    · rintro h e - _ ⟨p, hp, rfl⟩
      have hnil := naming_eq_nil_iff.2 fun entry hentry => h entry hentry p hp
      rw [hnil]
      exact loraCount_eq_zero_iff.2 (hbare p hp)

end LlamaModel

end Stack

/-- `[1] @ [1]`. -/
def unitAdapter : LoraAdapter ℚ where
  a := [1]
  b := [1]
  rank := 1
  scale := 1
  inFeatures := 1
  outFeatures := 1
  length_a := rfl
  length_b := rfl

/-- A linear layer with one input and one output. -/
def unitLinear : QuantLinear Unit ℚ := ⟨(), none, 1, 1, none, []⟩

/-- One layer of linear layers with one input and one output. -/
def unitModel : LlamaModel Unit ℚ :=
  ⟨[⟨unitLinear, unitLinear, unitLinear, unitLinear, .dense ⟨unitLinear, unitLinear, unitLinear⟩⟩]⟩

/-- An adapter of the first projection. -/
def unitLora : LoadedLora ℚ := ⟨AList.singleton "blk.0.attn_q.weight" unitAdapter⟩

theorem unitModel_bare : ∀ p ∈ unitModel.projections, p.2.loraCount = 0 := by decide

theorem unitLora_fits : ∀ p ∈ unitModel.projections, ∀ adapter ∈ unitLora.get p.1,
    Compatible adapter p.2 := by
  intro p hp adapter hadapter
  have hlinear : ∀ p ∈ unitModel.projections, p.2.inFeatures = 1 ∧ p.2.outFeatures = 1 := by decide
  have hmem := AList.mem_lookup_iff.1 hadapter
  simp only [unitLora, AList.singleton, List.mem_singleton, Sigma.mk.injEq] at hmem
  obtain ⟨-, hadapter⟩ := hmem
  rw [eq_of_heq hadapter, Compatible, (hlinear p hp).1, (hlinear p hp).2]
  exact ⟨rfl, rfl⟩

theorem applies_as_sum_iff_unit :
    unitModel.AppliesAsSum ⟨[(unitLora, 1)]⟩ ↔ unitModel.SumsUp ⟨[(unitLora, 1)]⟩ :=
  LlamaModel.applies_as_sum_iff unitModel ⟨[(unitLora, 1)]⟩ unitModel_bare fun entry hentry => by
    rw [List.mem_singleton.1 hentry]
    exact unitLora_fits

/-- The same adapter twice counts once: the second replaces the first in the slot. -/
theorem not_appliesAsSum_twice : (∀ p ∈ unitModel.projections, p.2.loraCount = 0) ∧
    (∀ p ∈ unitModel.projections, ∀ adapter ∈ unitLora.get p.1, Compatible adapter p.2) ∧
    ¬ unitModel.AppliesAsSum ⟨[(unitLora, 1), (unitLora, 1)]⟩ := by
  refine ⟨unitModel_bare, unitLora_fits, fun h => ?_⟩
  have hsum := (List.forall₂_iff_get.1 (h.1 (by decide +kernel))).2 0 (by decide)
      (by decide +kernel)
  have hforward := hsum.2 idleKernel [1] [0] rfl rfl
  exact absurd hforward (by decide +kernel)

end Arch

end Oxillama
