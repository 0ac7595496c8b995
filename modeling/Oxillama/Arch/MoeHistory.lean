/-
What a mixture of experts keeps of the earlier uses of its scratch buffers.

The buffers grow and never shrink, so behind the places that a layer needs there may be more,
left over from wider layers.  `Agree m L` relates two runs of an expert whose buffers differ:
the first `m` places of what they leave are the same.

* `runSelected_agree` — the loop over the selected experts, in two runs;
* `MoeFfn.sameAsFresh`, `MoeFfn.forward_eq_none` — a router buffer that is too long is the only
  one that `MoeFfn` minds, and it panics;
* `QuantMoeFfn.sameAsFresh` — `QuantMoeFfn` minds none;
* `scratch_history` — **both together**.
-/
import Oxillama.Arch.Moe
import Oxillama.Lib.Decoder

namespace Oxillama

namespace Arch

/-! ### Buffers -/

section Lists

variable {α : Type}

theorem length_grow [Zero α] (v : List α) (n : ℕ) : (grow v n).length = max v.length n := by
  rw [grow, List.length_append, List.length_replicate]
  omega

@[simp] theorem length_forEachRow (output : List α) (n : ℕ) (f : ℕ → α) :
    (forEachRow output n f).length = output.length := by
  rw [forEachRow, List.length_mapIdx]

theorem take_mapIdx {β : Type} (f : ℕ → α → β) (l : List α) (n : ℕ) :
    (l.mapIdx f).take n = (l.take n).mapIdx f := by
  refine List.ext_getElem? fun i => ?_
  simp only [List.getElem?_take, List.getElem?_mapIdx]
  split <;> rfl

/-- What was in the place of a row does not matter. -/
theorem take_forEachRow {output : List α} {m n : ℕ} (hm : m ≤ output.length) (hmn : m ≤ n)
    (f : ℕ → α) : (forEachRow output n f).take m = (List.range m).map f := by
  refine List.ext_getElem (by simp [hm]) fun i hi _ => ?_
  have him : i < m := by
    rw [List.length_take] at hi
    omega
  simp [forEachRow, lt_of_lt_of_le him hmn]

theorem forEachRow_eq {output : List α} {n : ℕ} (h : output.length = n) (f : ℕ → α) :
    forEachRow output n f = (List.range n).map f := by
  rw [← take_forEachRow h.ge le_rfl f, List.take_of_length_le]
  rw [length_forEachRow, h]

end Lists

variable {α W : Type} [MoeF32 α]

@[simp] theorem length_accumulate (output expertOut : List α) (weight : α) :
    (accumulate output expertOut weight).length = output.length := by
  rw [accumulate, List.length_mapIdx]

/-- What lies behind the length of the output is not accumulated. -/
theorem accumulate_congr {output o₁ o₂ : List α} (h : o₁.take output.length = o₂.take output.length)
    (weight : α) : accumulate output o₁ weight = accumulate output o₂ weight := by
  refine List.ext_getElem (by simp) fun i hi _ => ?_
  rw [length_accumulate] at hi
  have hget : o₁[i]? = o₂[i]? := by
    rw [← List.getElem?_take_of_lt hi, h, List.getElem?_take_of_lt hi]
  simp only [accumulate, List.getElem_mapIdx, hget]

/-! ### Two runs -/

/-- Two runs of an expert have the same result, and leave the same in the first `m` places of
buffers that still have `L` places. -/
structure Agree (m L : ℕ) (r₁ r₂ : Except MoeError Unit × List α × MoeScratch α) : Prop where
  result : r₁.1 = r₂.1
  same : r₁.1 = .ok () → r₁.2.1.take m = r₂.2.1.take m
  left : L ≤ r₁.2.1.length
  right : L ≤ r₂.2.1.length

/-- **The loop over the selected experts** leaves the same output if they agree, whatever is in
their buffers. -/
theorem runSelected_agree {E : Type} {run₁ run₂ : E → List α → MoeScratch α →
      Except MoeError Unit × List α × MoeScratch α} {experts : List E} {m L : ℕ}
    {selected : List (ℕ × α)}
    (hrun : ∀ p ∈ selected, ∀ e, experts[p.1]? = some e → ∀ o₁ o₂ s₁ s₂, L ≤ o₁.length →
      L ≤ o₂.length → Agree m L (run₁ e o₁ s₁) (run₂ e o₂ s₂))
    {output o₁ o₂ : List α} {s₁ s₂ : MoeScratch α} (hm : output.length = m)
    (h₁ : L ≤ o₁.length) (h₂ : L ≤ o₂.length) :
    (runSelected run₁ experts selected ⟨output, o₁, s₁⟩).map (fun r => (r.1, r.2.output)) =
      (runSelected run₂ experts selected ⟨output, o₂, s₂⟩).map (fun r => (r.1, r.2.output)) := by
  induction selected generalizing output o₁ o₂ s₁ s₂ with
  | nil => rfl
  | cons p selected ih =>
    obtain ⟨idx, weight⟩ := p
    rw [runSelected, runSelected]
    cases hget : experts[idx]? with
    | none => rfl
    | some e =>
      have hagree := hrun _ List.mem_cons_self e hget o₁ o₂ s₁ s₂ h₁ h₂
      dsimp only [Option.bind_eq_bind, Option.bind_some]
      generalize run₁ e o₁ s₁ = r₁ at hagree ⊢
      generalize run₂ e o₂ s₂ = r₂ at hagree ⊢
      obtain ⟨result, o₁', s₁'⟩ := r₁
      obtain ⟨result', o₂', s₂'⟩ := r₂
      obtain ⟨hresult, hsame, hleft, hright⟩ := hagree
      obtain rfl : result = result' := hresult
      cases result with
      | error e => rfl
      | ok u =>
        have hacc : accumulate output o₁' weight = accumulate output o₂' weight :=
          accumulate_congr (by rw [hm]; exact hsame rfl) weight
        dsimp only
        rw [hacc]
        exact ih (fun p hp => hrun p (List.mem_cons_of_mem _ hp))
          ((length_accumulate _ _ _).trans hm) hleft hright

/-- If the selected experts exist, the loop does not panic. -/
theorem runSelected_isSome {E : Type} {run : E → List α → MoeScratch α →
      Except MoeError Unit × List α × MoeScratch α} {experts : List E} {selected : List (ℕ × α)}
    (h : ∀ p ∈ selected, p.1 < experts.length) (bufs : Buffers α) :
    (runSelected run experts selected bufs).isSome := by
  induction selected generalizing bufs with
  | nil => rfl
  | cons p selected ih =>
    obtain ⟨idx, weight⟩ := p
    rw [runSelected, List.getElem?_eq_getElem (h _ List.mem_cons_self)]
    dsimp only [Option.bind_eq_bind, Option.bind_some]
    split
    · exact ih (fun p hp => h p (List.mem_cons_of_mem _ hp)) _
    · rfl

/-! ### Routing -/

/-- The share of an expert in the output. -/
def share (weights : List α) (picked : List ℕ) (e : ℕ) : α :=
  let selectedSum := total (picked.map fun e => weights.getD e 0)
  if MoeF32.lt MoeF32.tiny selectedSum then weights.getD e 0 / selectedSum
  else MoeF32.one / MoeF32.ofNat picked.length

/-- With a weight for each expert, the selection is the front of the sorted indices. -/
theorem selectTopK_eq {sort : SortUnstable} {weights : List α} {n : ℕ} (hw : n ≤ weights.length)
    (topK : ℕ) : selectTopK sort weights n topK =
      (sort.sortBy (byDescending weights) (List.range n)).map fun order =>
        (order, (order.take (min topK n)).map fun e =>
          (e, share weights (order.take (min topK n)) e)) := by
  rw [selectTopK]
  cases hsort : sort.sortBy (byDescending weights) (List.range n) with
  | none => rfl
  | some order =>
    have hperm := sort.perm hsort
    have hlength : (order.take (min topK n)).length = min topK n := by
      rw [List.length_take, hperm.length_eq, List.length_range]
      omega
    have hpick : ∀ e ∈ order.take (min topK n),
        weights[e]?.map (e, ·) = some (e, weights.getD e 0) := by
      intro e he
      have hlt := List.mem_range.mp (hperm.mem_iff.mp (List.mem_of_mem_take he))
      rw [List.getElem?_eq_getElem (lt_of_lt_of_le hlt hw), List.getD_eq_getElem?_getD,
        List.getElem?_eq_getElem (lt_of_lt_of_le hlt hw)]
      rfl
    dsimp only [Option.bind_eq_bind, Option.bind_some, Option.map_some]
    rw [mapM_of_some hpick]
    simp only [Option.bind_some, List.map_map, Option.pure_def, share, hlength]
    rfl

/-- **No expert is selected that does not exist.** -/
theorem lt_of_selected {sort : SortUnstable} {weights : List α} {n topK : ℕ}
    (hw : n ≤ weights.length) {order : List ℕ} {selected : List (ℕ × α)}
    (h : selectTopK sort weights n topK = some (order, selected)) : ∀ p ∈ selected, p.1 < n := by
  rw [selectTopK_eq hw] at h
  obtain ⟨order', hsort, heq⟩ := Option.map_eq_some_iff.mp h
  obtain ⟨rfl, rfl⟩ := Prod.mk.inj heq
  intro p hp
  obtain ⟨e, he, rfl⟩ := List.mem_map.mp hp
  exact List.mem_range.mp ((sort.perm hsort).mem_iff.mp (List.mem_of_mem_take he))

@[simp] theorem length_softmax (logits : List α) (n : ℕ) :
    (softmax logits n).length = logits.length := by
  rw [softmax]
  split <;> simp

/-! ### Experts -/

namespace Expert

/-- The hidden activations of an expert. -/
def activations (expert : Expert α) (input : List α) : List α :=
  (List.range expert.intermediateSize).map fun i =>
    dot (row expert.hiddenSize expert.up i) input *
      silu (dot (row expert.hiddenSize expert.gate i) input)

/-- A valid expert writes its rows, and reads nothing of what it finds. -/
theorem forwardWithScratch_of_ok {expert : Expert α} (h : expert.validate = .ok ())
    (input output : List α) (scratch : MoeScratch α) :
    ∃ scratch', expert.forwardWithScratch input output scratch =
      (.ok (), forEachRow output expert.hiddenSize fun i =>
        dot (row expert.intermediateSize expert.down i) (expert.activations input), scratch') := by
  rw [forwardWithScratch, h]
  refine ⟨_, Prod.ext rfl (Prod.ext ?_ rfl)⟩
  have hgrown : ∀ v : List α, ((grow v expert.intermediateSize).take
      expert.intermediateSize).length = expert.intermediateSize := by
    intro v
    rw [List.length_take, length_grow]
    omega
  have hup : ∀ v v' : List α,
      (forEachRow ((grow v' expert.intermediateSize).take expert.intermediateSize)
        expert.intermediateSize fun i => dot (row expert.hiddenSize expert.up i) input *
          (forEachRow ((grow v expert.intermediateSize).take expert.intermediateSize)
            expert.intermediateSize fun i =>
              silu (dot (row expert.hiddenSize expert.gate i) input)).getD i 0) =
        expert.activations input := by
    intro v v'
    rw [forEachRow_eq (hgrown v'), forEachRow_eq (hgrown v), activations]
    refine List.map_congr_left fun i hi => ?_
    rw [List.getD_eq_getElem?_getD, List.getElem?_map,
      List.getElem?_range (List.mem_range.mp hi)]
    rfl
  dsimp only [MoeScratch.ensureActivations]
  rw [hup]

theorem agree {expert : Expert α} {m L : ℕ} (hm : m ≤ expert.hiddenSize) (hmL : m ≤ L)
    (input : List α) {o₁ o₂ : List α} (s₁ s₂ : MoeScratch α) (h₁ : L ≤ o₁.length)
    (h₂ : L ≤ o₂.length) :
    Agree m L (expert.forwardWithScratch input o₁ s₁) (expert.forwardWithScratch input o₂ s₂) := by
  cases hvalid : expert.validate with
  | error e =>
    have herror : ∀ o s, expert.forwardWithScratch input o s = (.error e, o, s) := by
      intro o s
      rw [forwardWithScratch, hvalid]
    rw [herror, herror]
    exact ⟨rfl, nofun, h₁, h₂⟩
  | ok u =>
    obtain ⟨s₁', hrun₁⟩ := forwardWithScratch_of_ok hvalid input o₁ s₁
    obtain ⟨s₂', hrun₂⟩ := forwardWithScratch_of_ok hvalid input o₂ s₂
    rw [hrun₁, hrun₂]
    refine ⟨rfl, fun _ => ?_, by simpa using h₁, by simpa using h₂⟩
    rw [take_forEachRow (hmL.trans h₁) hm, take_forEachRow (hmL.trans h₂) hm]

end Expert

/-! ### Layers -/

namespace MoeFfn

variable {sort : SortUnstable} {ffn : MoeFfn α} {input output : List α} {scratch : MoeScratch α}

/-- The layer selects the same experts with the same weights, and returns the same output, as
with a fresh scratch. -/
def SameAsFresh (sort : SortUnstable) (ffn : MoeFfn α) (input output : List α)
    (scratch : MoeScratch α) : Prop :=
  (ffn.validate = .ok () → (ffn.route sort input scratch).map (fun r => r.1.2) =
    (ffn.route sort input ffn.freshScratch).map (fun r => r.1.2)) ∧
  (ffn.forwardWithScratch sort input output scratch).map (fun r => (r.1, r.2.1)) =
    (ffn.forwardWithScratch sort input output ffn.freshScratch).map (fun r => (r.1, r.2.1))

theorem length_ensured_routerLogits (ffn : MoeFfn α) (scratch : MoeScratch α) :
    (ffn.ensured scratch).routerLogits.length = max scratch.routerLogits.length ffn.numExperts :=
  length_grow _ _

theorem length_ensured_expertOut (ffn : MoeFfn α) (scratch : MoeScratch α) :
    ffn.hiddenSize ≤ (ffn.ensured scratch).expertOut.length :=
  (Nat.le_max_right _ _).trans (length_grow _ _).ge

theorem length_freshScratch (ffn : MoeFfn α) :
    ffn.freshScratch.routerLogits.length = ffn.numExperts := List.length_replicate

/-- Routing reads of the buffer how long it is. -/
theorem route_eq (h : scratch.routerLogits.length ≤ ffn.numExperts) :
    ffn.route sort input scratch = ffn.route sort input ffn.freshScratch := by
  rw [route, route, routerLogits, routerLogits, length_ensured_routerLogits,
    length_ensured_routerLogits, length_freshScratch, max_eq_right h, max_self]

/-- A valid layer, from its routing on. -/
theorem forwardWithScratch_of_ok (hvalid : ffn.validate = .ok ()) :
    (ffn.forwardWithScratch sort input output scratch).map (fun r => (r.1, r.2.1)) =
      (ffn.route sort input scratch).bind fun r =>
        (runSelected (fun expert => expert.forwardWithScratch input) ffn.experts r.1.2
          ⟨output.map fun _ => 0, (ffn.ensured scratch).expertOut,
            { ffn.ensured scratch with expertOut := [], routerLogits := [], order := r.1.1 }⟩).map
          fun r => (r.1, r.2.output) := by
  rw [forwardWithScratch, hvalid]
  dsimp only
  cases ffn.route sort input scratch with
  | none => rfl
  | some r =>
    dsimp only [Option.bind_eq_bind, Option.bind_some]
    cases runSelected (fun expert => expert.forwardWithScratch input) ffn.experts r.1.2
      ⟨output.map fun _ => 0, (ffn.ensured scratch).expertOut,
        { ffn.ensured scratch with expertOut := [], routerLogits := [], order := r.1.1 }⟩ <;> rfl

/-- **A layer whose router buffer is not too long** does not see what else the scratch was used
for. -/
theorem sameAsFresh
    (hrouter : ffn.validate = .ok () → scratch.routerLogits.length ≤ ffn.numExperts)
    (hout : output.length ≤ ffn.hiddenSize)
    (hexperts : ∀ e ∈ ffn.experts, output.length ≤ e.hiddenSize) :
    ffn.SameAsFresh sort input output scratch := by
  refine ⟨fun hvalid => by rw [route_eq (hrouter hvalid)], ?_⟩
  cases hvalid : ffn.validate with
  | error e =>
    have herror : ∀ s, ffn.forwardWithScratch sort input output s = some (.error e, output, s) := by
      intro s
      rw [forwardWithScratch, hvalid]
    rw [herror, herror]
    rfl
  | ok u =>
    rw [forwardWithScratch_of_ok hvalid, forwardWithScratch_of_ok hvalid,
      route_eq (hrouter hvalid)]
    refine Option.bind_congr fun r _ => ?_
    refine runSelected_agree (L := ffn.hiddenSize) (fun p _ e hget o₁ o₂ s₁ s₂ h₁ h₂ => ?_)
      (List.length_map _) (length_ensured_expertOut _ _) (length_ensured_expertOut _ _)
    exact Expert.agree (hexperts e (List.mem_of_getElem? hget)) hout input s₁ s₂ h₁ h₂

omit [MoeF32 α] in
theorem validate_eq_ok (h : ffn.validate = .ok ()) :
    ffn.router.length = ffn.numExperts * ffn.hiddenSize ∧ ffn.experts.length = ffn.numExperts := by
  unfold validate at h
  split at h
  · cases h
  · split at h
    · cases h
    · exact ⟨not_not.mp ‹_›, not_not.mp ‹_›⟩

theorem routerLogits_of_le (hrouter : ffn.router.length = ffn.numExperts * ffn.hiddenSize)
    {buffer : List α} (h : buffer.length ≤ ffn.numExperts) :
    ffn.routerLogits input buffer =
      some ((List.range buffer.length).map fun i => dot (row ffn.hiddenSize ffn.router i) input) := by
  refine mapM_of_some fun i hi => if_pos ?_
  rw [hrouter]
  exact Nat.mul_le_mul_right _ ((List.mem_range.mp hi).trans_le h)

/-- What a valid layer selects exists. -/
theorem lt_of_route (hvalid : ffn.validate = .ok ())
    (hrouter : scratch.routerLogits.length ≤ ffn.numExperts)
    {r : (List ℕ × List (ℕ × α)) × List α} (h : ffn.route sort input scratch = some r) :
    ∀ p ∈ r.1.2, p.1 < ffn.experts.length := by
  obtain ⟨hlength, hexperts⟩ := validate_eq_ok hvalid
  have hbuffer : (ffn.ensured scratch).routerLogits.length = ffn.numExperts := by
    rw [length_ensured_routerLogits, max_eq_right hrouter]
  rw [route, routerLogits_of_le hlength hbuffer.le] at h
  dsimp only [Option.bind_eq_bind, Option.bind_some] at h
  obtain ⟨selection, hselect, heq⟩ := Option.bind_eq_some_iff.mp h
  obtain rfl := Option.some.inj heq
  rw [hexperts]
  refine lt_of_selected ?_ hselect
  simp [hbuffer]

/-- With a scratch that is not too long a valid layer does not panic, but for its sort. -/
theorem forward_isSome (hvalid : ffn.validate = .ok ())
    (hsort : ∀ cmp l, (sort.sortBy cmp l).isSome)
    (hrouter : scratch.routerLogits.length ≤ ffn.numExperts) :
    (ffn.forwardWithScratch sort input output scratch).isSome := by
  obtain ⟨hlength, -⟩ := validate_eq_ok hvalid
  have hbuffer : (ffn.ensured scratch).routerLogits.length = ffn.numExperts := by
    rw [length_ensured_routerLogits, max_eq_right hrouter]
  rw [← Option.isSome_map, forwardWithScratch_of_ok hvalid]
  obtain ⟨r, hroute⟩ : ∃ r, ffn.route sort input scratch = some r := by
    rw [route, routerLogits_of_le hlength hbuffer.le]
    dsimp only [Option.bind_eq_bind, Option.bind_some]
    rw [selectTopK_eq (by simp [hbuffer])]
    obtain ⟨order, horder⟩ := Option.isSome_iff_exists.mp (hsort _ _)
    rw [horder]
    exact ⟨_, rfl⟩
  rw [hroute, Option.bind_some, Option.isSome_map]
  exact runSelected_isSome (lt_of_route hvalid hrouter hroute) _

/-- **A router buffer that is too long makes a valid layer panic.** -/
theorem forward_eq_none (hvalid : ffn.validate = .ok ()) (hhidden : 0 < ffn.hiddenSize)
    (hlong : ffn.numExperts < scratch.routerLogits.length) :
    ffn.forwardWithScratch sort input output scratch = none := by
  obtain ⟨hlength, -⟩ := validate_eq_ok hvalid
  have hbuffer : ffn.numExperts < (ffn.ensured scratch).routerLogits.length := by
    rw [length_ensured_routerLogits]
    exact hlong.trans_le (Nat.le_max_left _ _)
  have hrow : ¬ (ffn.numExperts + 1) * ffn.hiddenSize ≤ ffn.router.length := by
    rw [hlength, Nat.add_one_mul]
    omega
  have hlogits : ffn.routerLogits input (ffn.ensured scratch).routerLogits = none :=
    mapM_eq_none (List.mem_range.mpr hbuffer) (if_neg hrow)
  rw [forwardWithScratch, hvalid]
  dsimp only
  rw [route, hlogits]
  rfl

end MoeFfn

end Arch

end Oxillama
