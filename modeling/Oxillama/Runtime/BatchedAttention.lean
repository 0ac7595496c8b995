/-
Batched decoding (`oxillama-runtime/src/batched_attention.rs`).

Every request of a batch has one query row and a cache of its own depth; the kernel goes
through the slots and writes their rows one behind the other.

* `attendSlot_eq`, `attendSlot_fail` — what a round does to the output;
* `attendSlots_eq` — the rounds up to a slot, by induction on the slots;
* `batched_flash_attention_eq_softmax` — **every request gets softmax attention over its own
  keys**, or the batch is an error.
-/
import Oxillama.Runtime.ExactAttention

namespace Oxillama

namespace Runtime

open Extended

/-! ### The kernel -/

/-- `KvSlot`. -/
structure KvSlot where
  requestId : ℕ
  kvCacheIdx : ℕ
  position : ℕ

/-- `BatchedKvView`. -/
structure BatchedKvView (F : Type) where
  slotCount : ℕ
  /-- The flat keys and the flat values of a slot. -/
  kvForSlot : ℕ → List F × List F
  position : ℕ → ℕ

/-- `VecBatchedKvView`, with the assertions of `new`. -/
structure VecBatchedKvView (F : Type) where
  slots : List KvSlot
  keys : List (List F)
  values : List (List F)
  length_keys : slots.length = keys.length
  length_values : slots.length = values.length

/-- `VecBatchedKvView` as a `BatchedKvView`, at slots below `slot_count`. -/
def VecBatchedKvView.view {F : Type} (v : VecBatchedKvView F) : BatchedKvView F where
  slotCount := v.slots.length
  kvForSlot slot := (v.keys.getD slot [], v.values.getD slot [])
  position slot := (v.slots[slot]?.map KvSlot.position).getD 0

section Kernel

open ExpF32 (zero)

variable {F : Type} [ExpF32 F]

/-- The body of the loop of `batched_flash_attention`. -/
def attendSlot (qBatch : List F) (kvView : BatchedKvView F) (numHeads headDim : ℕ)
    (softmaxScale : F) (output : List F) (slot : ℕ) : Kernel (List F) := do
  let headStride := numHeads * headDim
  let seqLenKv := kvView.position slot
  -- no context yet: the rows of the slot stay zero
  if seqLenKv = 0 then return output
  let (kFlat, vFlat) := kvView.kvForSlot slot
  let kvExpected := seqLenKv * headStride
  let tooShort := fun (name : String) (xs : List F) =>
    "slot " ++ toString slot ++ ": " ++ name ++ " length " ++ toString xs.length ++
      " < expected " ++ toString kvExpected ++ " (seq_len_kv=" ++ toString seqLenKv ++
      ", num_heads=" ++ toString numHeads ++ ", head_dim=" ++ toString headDim ++ ")"
  if kFlat.length < kvExpected then fail (tooShort "k_flat" kFlat)
  if vFlat.length < kvExpected then fail (tooShort "v_flat" vFlat)
  let slotOut ← flashAttentionForward (row headStride qBatch slot) (kFlat.take kvExpected)
    (vFlat.take kvExpected) numHeads headDim softmaxScale false
  return overwrite output (slot * headStride) slotOut

/-- `batched_flash_attention`. -/
def batchedFlashAttention (qBatch : List F) (kvView : BatchedKvView F) (numHeads headDim : ℕ)
    (softmaxScale : F) : Kernel (List F) := do
  if numHeads = 0 || headDim = 0 then fail "num_heads and head_dim must be > 0"
  let headStride := numHeads * headDim
  if headStride = 0 || ¬ headStride ∣ qBatch.length then
    fail ("q_batch length " ++ toString qBatch.length ++
      " is not a multiple of num_heads * head_dim = " ++ toString headStride)
  let batchSize := qBatch.length / headStride
  let slotCount := kvView.slotCount
  if batchSize ≠ slotCount then
    fail ("batch_size (" ++ toString batchSize ++ ") must equal kv_view.slot_count() (" ++
      toString slotCount ++ ")")
  (List.range batchSize).foldlM (attendSlot qBatch kvView numHeads headDim softmaxScale)
    (List.replicate (batchSize * headStride) zero)

end Kernel

/-! ### The batch -/

section Batched

variable {α : Type} [Field α] [LinearOrder α] [IsStrictOrderedRing α] [RealExp α]
  {qBatch : List α} {kvView : BatchedKvView α} {numHeads headDim slot : ℕ} {scale : α}

/-- The view as the kernel sees it. -/
def BatchedKvView.lift (kvView : BatchedKvView α) : BatchedKvView (Extended α) where
  slotCount := kvView.slotCount
  kvForSlot slot := ((kvView.kvForSlot slot).1.map num, (kvView.kvForSlot slot).2.map num)
  position := kvView.position

/-- A slot has the keys and values of its position. -/
structure SlotFits (kvView : BatchedKvView α) (headStride slot : ℕ) : Prop where
  keys : kvView.position slot * headStride ≤ (kvView.kvForSlot slot).1.length
  values : kvView.position slot * headStride ≤ (kvView.kvForSlot slot).2.length

/-- What `batched_flash_attention` expects. -/
structure BatchFits (qBatch : List α) (kvView : BatchedKvView α) (numHeads headDim : ℕ) :
    Prop where
  heads : 0 < numHeads
  dim : 0 < headDim
  query : qBatch.length = kvView.slotCount * (numHeads * headDim)
  slots : ∀ slot < kvView.slotCount, SlotFits kvView (numHeads * headDim) slot

/-- The output rows of a slot: its own query against its own keys and values. -/
def slotAttention (qBatch : List α) (kvView : BatchedKvView α) (numHeads headDim : ℕ) (scale : α)
    (slot : ℕ) : List (Extended α) :=
  let headStride := numHeads * headDim
  let seqLenKv := kvView.position slot
  if seqLenKv = 0 then List.replicate headStride ExpF32.zero
  else (List.range numHeads).flatMap fun h =>
    attentionRow (forwardInputs (row headStride qBatch slot)
      ((kvView.kvForSlot slot).1.take (seqLenKv * headStride))
      ((kvView.kvForSlot slot).2.take (seqLenKv * headStride)) numHeads headDim 1 seqLenKv scale
      false h) 0

omit [IsStrictOrderedRing α] in
theorem length_slotAttention (qBatch : List α) (kvView : BatchedKvView α) (numHeads headDim : ℕ)
    (scale : α) (slot : ℕ) :
    (slotAttention qBatch kvView numHeads headDim scale slot).length = numHeads * headDim := by
  rw [slotAttention]
  split
  · exact List.length_replicate
  · exact length_flatMap_rows fun h _ => length_attentionRow _ 0

/-- **A round writes the rows of its slot**, that were zero. -/
theorem attendSlot_eq (hpos : ∀ a : α, 0 < RealExp.exp a)
    (hadd : ∀ a b : α, RealExp.exp (a + b) = RealExp.exp a * RealExp.exp b)
    (hheads : 0 < numHeads) (hdim : 0 < headDim)
    (hquery : (slot + 1) * (numHeads * headDim) ≤ qBatch.length)
    (hfits : SlotFits kvView (numHeads * headDim) slot) {front : List (Extended α)} {rest : ℕ}
    (hfront : front.length = slot * (numHeads * headDim)) :
    attendSlot (qBatch.map num) kvView.lift numHeads headDim (num scale)
        (front ++ List.replicate (numHeads * headDim + rest) ExpF32.zero) slot =
      pure (front ++ slotAttention qBatch kvView numHeads headDim scale slot ++
        List.replicate rest ExpF32.zero) := by
  have hkeys := hfits.keys
  have hvalues := hfits.values
  by_cases hzero : kvView.position slot = 0
  · rw [attendSlot, slotAttention]
    simp only [BatchedKvView.lift, hzero, if_true, List.replicate_add, List.append_assoc]
  · have hlen := length_slotAttention qBatch kvView numHeads headDim scale slot
    have hattend : attendSlot (qBatch.map num) kvView.lift numHeads headDim (num scale)
        (front ++ List.replicate (numHeads * headDim + rest) ExpF32.zero) slot =
        pure (overwrite (front ++ List.replicate (numHeads * headDim + rest) ExpF32.zero)
          (slot * (numHeads * headDim))
          (slotAttention qBatch kvView numHeads headDim scale slot)) := by
      simp only [attendSlot, BatchedKvView.lift, hzero, if_false, List.length_map, hkeys.not_gt,
        hvalues.not_gt, row_map_num, ← List.map_take]
      rw [flashAttentionForward_eq hpos hadd hheads hdim one_pos (Nat.pos_of_ne_zero hzero)
        ((length_row hquery).trans (Nat.one_mul _).symm) (List.length_take_of_le hkeys)
        ((List.length_take_of_le hvalues).trans (List.length_take_of_le hkeys).symm),
        List.range_one, List.flatMap_singleton, slotAttention, if_neg hzero]
      rfl
    rw [hattend, overwrite, hlen, ← hfront, List.take_left, List.replicate_add,
      ← List.append_assoc, List.drop_left' (by rw [List.length_append, List.length_replicate])]

omit [IsStrictOrderedRing α] in
theorem attendSlot_fail (qBatch : List α) (scale : α)
    (hfits : ¬ SlotFits kvView (numHeads * headDim) slot) (output : List (Extended α)) :
    ∃ message, attendSlot (qBatch.map num) kvView.lift numHeads headDim (num scale) output slot =
      fail message := by
  have hzero : kvView.position slot ≠ 0 := by
    intro hzero
    exact hfits ⟨by rw [hzero, Nat.zero_mul]; exact Nat.zero_le _,
      by rw [hzero, Nat.zero_mul]; exact Nat.zero_le _⟩
  by_cases hkeys : (kvView.kvForSlot slot).1.length < kvView.position slot * (numHeads * headDim)
  · simp only [attendSlot, BatchedKvView.lift, hzero, if_false, List.length_map, hkeys, if_true]
    exact ⟨_, rfl⟩
  · have hvalues : (kvView.kvForSlot slot).2.length <
        kvView.position slot * (numHeads * headDim) := by
      by_contra hvalues
      exact hfits ⟨not_lt.mp hkeys, not_lt.mp hvalues⟩
    simp only [attendSlot, BatchedKvView.lift, hzero, if_false, List.length_map, hkeys, hvalues,
      if_true]
    exact ⟨_, rfl⟩

/-- The rounds for the first `n` slots: the rows of these slots, or the error of one that does not
fit. -/
theorem attendSlots_eq (hpos : ∀ a : α, 0 < RealExp.exp a)
    (hadd : ∀ a b : α, RealExp.exp (a + b) = RealExp.exp a * RealExp.exp b)
    (kvView : BatchedKvView α) (scale : α) (rest : ℕ) (hheads : 0 < numHeads)
    (hdim : 0 < headDim) {n : ℕ} (hquery : n * (numHeads * headDim) ≤ qBatch.length) :
    (∀ slot < n, SlotFits kvView (numHeads * headDim) slot) ∧
      (List.range n).foldlM (attendSlot (qBatch.map num) kvView.lift numHeads headDim (num scale))
          (List.replicate (n * (numHeads * headDim) + rest) ExpF32.zero) =
        pure ((List.range n).flatMap (slotAttention qBatch kvView numHeads headDim scale) ++
          List.replicate rest ExpF32.zero) ∨
    (∃ slot < n, ¬ SlotFits kvView (numHeads * headDim) slot) ∧ ∃ message,
      (List.range n).foldlM (attendSlot (qBatch.map num) kvView.lift numHeads headDim (num scale))
        (List.replicate (n * (numHeads * headDim) + rest) ExpF32.zero) = fail message := by
  induction n generalizing rest with
  | zero =>
    refine .inl ⟨fun slot hslot => absurd hslot (Nat.not_lt_zero slot), ?_⟩
    rw [Nat.zero_mul, Nat.zero_add]
    rfl
  | succ n ih =>
    have hle : n * (numHeads * headDim) ≤ qBatch.length :=
      (Nat.mul_le_mul_right _ (Nat.le_succ n)).trans hquery
    rw [List.range_succ, List.foldlM_append, Nat.succ_mul, Nat.add_assoc]
    rcases ih (numHeads * headDim + rest) hle with
      ⟨hall, hrun⟩ | ⟨⟨slot, hslot, hbad⟩, message, hrun⟩
    · rw [hrun, pure_bind, List.foldlM_cons]
      by_cases hfits : SlotFits kvView (numHeads * headDim) n
      · refine .inl ⟨fun slot hslot => ?_, ?_⟩
        · rcases Nat.lt_succ_iff_lt_or_eq.mp hslot with hlt | rfl
          · exact hall slot hlt
          · exact hfits
        · rw [attendSlot_eq hpos hadd hheads hdim hquery hfits
            (length_flatMap_rows fun slot _ => length_slotAttention _ _ _ _ _ slot), pure_bind,
            List.foldlM_nil, List.flatMap_append, List.flatMap_singleton]
      · obtain ⟨message, hfail⟩ := attendSlot_fail qBatch scale hfits
          ((List.range n).flatMap (slotAttention qBatch kvView numHeads headDim scale) ++
            List.replicate (numHeads * headDim + rest) ExpF32.zero)
        refine .inr ⟨⟨n, Nat.lt_succ_self n, hfits⟩, message, ?_⟩
        rw [hfail]
        rfl
    · refine .inr ⟨⟨slot, Nat.lt_succ_of_lt hslot, hbad⟩, message, ?_⟩
      rw [hrun]
      rfl

/-- **Batched decoding is softmax attention, slot by slot**: a batch that fits gives every request
what its own query and its own keys and values give, and any other batch is an error. -/
theorem batched_flash_attention_eq_softmax (hpos : ∀ a : α, 0 < RealExp.exp a)
    (hadd : ∀ a b : α, RealExp.exp (a + b) = RealExp.exp a * RealExp.exp b) (qBatch : List α)
    (kvView : BatchedKvView α) (numHeads headDim : ℕ) (scale : α) :
    (BatchFits qBatch kvView numHeads headDim →
      batchedFlashAttention (qBatch.map num) kvView.lift numHeads headDim (num scale) =
        pure ((List.range kvView.slotCount).flatMap
          (slotAttention qBatch kvView numHeads headDim scale))) ∧
    (¬ BatchFits qBatch kvView numHeads headDim → ∃ message,
      batchedFlashAttention (qBatch.map num) kvView.lift numHeads headDim (num scale) =
        fail message) := by
  by_cases hsize : numHeads = 0 ∨ headDim = 0
  · refine ⟨fun h => ?_, fun _ => ⟨"num_heads and head_dim must be > 0", ?_⟩⟩
    · exact absurd hsize (not_or.mpr ⟨h.heads.ne', h.dim.ne'⟩)
    · rw [batchedFlashAttention, if_pos (by simpa using hsize)]
      rfl
  obtain ⟨hheads, hdim⟩ := not_or.mp hsize
  have hstride : 0 < numHeads * headDim :=
    Nat.mul_pos (Nat.pos_of_ne_zero hheads) (Nat.pos_of_ne_zero hdim)
  by_cases hdvd : numHeads * headDim ∣ qBatch.length
  swap
  · refine ⟨fun h => absurd (h.query ▸ Nat.dvd_mul_left _ _) hdvd, fun _ => ?_⟩
    simp only [batchedFlashAttention, hheads, hdim, hstride.ne', hdvd, List.length_map,
      decide_false, decide_true, Bool.or_false, Bool.or_true, not_false_eq_true, if_true, if_false,
      Bool.false_eq_true]
    exact ⟨_, rfl⟩
  obtain ⟨batchSize, hbatch⟩ := hdvd
  rw [Nat.mul_comm] at hbatch
  by_cases hcount : batchSize = kvView.slotCount
  swap
  · refine ⟨fun h => ?_, fun _ => ?_⟩
    · exact absurd (Nat.eq_of_mul_eq_mul_right hstride (hbatch.symm.trans h.query)) hcount
    · simp only [batchedFlashAttention, hheads, hdim, hstride.ne', hbatch, List.length_map,
        Nat.dvd_mul_left, Nat.mul_div_cancel _ hstride, BatchedKvView.lift, hcount, decide_false,
        Bool.or_false, not_true_eq_false, ne_eq, not_false_eq_true, if_true, if_false,
        Bool.false_eq_true]
      exact ⟨_, rfl⟩
  subst hcount
  have hloop := attendSlots_eq hpos hadd kvView scale 0
    (Nat.pos_of_ne_zero hheads) (Nat.pos_of_ne_zero hdim) hbatch.ge
  rw [Nat.add_zero, List.replicate_zero, List.append_nil] at hloop
  have hbody : batchedFlashAttention (qBatch.map num) kvView.lift numHeads headDim (num scale) =
      (List.range kvView.slotCount).foldlM
        (attendSlot (qBatch.map num) kvView.lift numHeads headDim (num scale))
        (List.replicate (kvView.slotCount * (numHeads * headDim)) ExpF32.zero) := by
    simp only [batchedFlashAttention, hheads, hdim, hstride.ne', hbatch, List.length_map,
      Nat.dvd_mul_left, Nat.mul_div_cancel _ hstride, decide_false,
      Bool.or_false, not_true_eq_false, ne_eq, if_false, Bool.false_eq_true]
    exact if_neg (not_not.mpr rfl)
  rw [hbody]
  rcases hloop with ⟨hall, hrun⟩ | ⟨⟨slot, hslot, hbad⟩, message, hrun⟩
  · refine ⟨fun _ => hrun, fun hfits => absurd ?_ hfits⟩
    exact ⟨Nat.pos_of_ne_zero hheads, Nat.pos_of_ne_zero hdim, hbatch, hall⟩
  · exact ⟨fun hfits => absurd (hfits.slots slot hslot) hbad, fun _ => ⟨message, hrun⟩⟩

end Batched

/-- A request without context, and one with a key. -/
noncomputable def twoRequests : VecBatchedKvView ℝ where
  slots := [⟨1, 0, 0⟩, ⟨2, 1, 1⟩]
  keys := [[], [3]]
  values := [[], [4]]
  length_keys := rfl
  length_values := rfl

/-- A batch that fits. -/
theorem batched_flash_attention_eq_softmax_two :
    batchedFlashAttention ([5, 6].map num) twoRequests.view.lift 1 1 (num (1 / 2 : ℝ)) =
      pure ((List.range 2).flatMap (slotAttention [5, 6] twoRequests.view 1 1 (1 / 2 : ℝ))) := by
  refine (batched_flash_attention_eq_softmax Real.exp_pos Real.exp_add [5, 6] twoRequests.view 1 1
    (1 / 2)).1 ⟨one_pos, one_pos, rfl, fun slot hslot => ?_⟩
  match slot, hslot with
  | 0, _ => exact ⟨Nat.le_refl 0, Nat.le_refl 0⟩
  | 1, _ => exact ⟨Nat.le_refl 1, Nat.le_refl 1⟩

end Runtime

end Oxillama
