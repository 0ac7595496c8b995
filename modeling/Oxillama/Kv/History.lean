/-
What was written to a key-value cache.

`History` is the abstract cache: the position the next token goes to, and for
every layer and position the row written there last, if the position was not
dropped since.  A store writes one row, an advance moves on, a reset drops
positions, a restore starts over with the rows of a snapshot.

`Shows` relates it to flat F32 buffers: every row of the history stands in the
buffer of its layer.  The lemmas say what each buffer operation does to it.
-/
import Oxillama.Kv.KvInvariant

namespace Oxillama

namespace Kv

/-- A key row and a value row. -/
abbrev KvRow := List F32 × List F32

/-- The rows written, by layer and position, and the current position. -/
structure History where
  seqLen : ℕ
  rows : ℕ → ℕ → Option KvRow

namespace History

/-- Nothing was written. -/
def empty : History := ⟨0, fun _ _ => none⟩

/-- A row written for `layer` at the current position. -/
def store (layer : ℕ) (row : KvRow) (h : History) : History :=
  { h with rows := fun l r => if l = layer ∧ r = h.seqLen then some row else h.rows l r }

/-- The next position, below `maxSeqLen`. -/
def advance (maxSeqLen : ℕ) (h : History) : History :=
  if h.seqLen < maxSeqLen then { h with seqLen := h.seqLen + 1 } else h

/-- Back to position `n`: what stood there and after it is dropped. -/
def dropFrom (n : ℕ) (h : History) : History :=
  ⟨n, fun l r => if r < n then h.rows l r else none⟩

/-- A new start from the rows of a snapshot. -/
def restored (numLayers kvDim : ℕ) (keys values : List (List F32)) (seqLen : ℕ) : History :=
  ⟨seqLen, fun l r => if l < numLayers ∧ r < seqLen then
    some (row kvDim (keys.getD l []) r, row kvDim (values.getD l []) r) else none⟩

end History

namespace KvCache

/-- Row `r` of the F32 buffer of `layer`. -/
def rowAt (d : ℕ) (bufs : List LayerBuf) (layer r : ℕ) : List F32 :=
  match bufs[layer]? with
  | some (.f32 v) => row d v r
  | _ => []

section Rows

variable {n room d : ℕ} {bufs : List LayerBuf} {half : Half}

private theorem Backs.getElem?_f32 (h : Backs n room .f32 bufs) {layer : ℕ} (hlayer : layer < n) :
    ∃ v, bufs[layer]? = some (.f32 v) ∧ room ≤ v.length := by
  obtain ⟨buf, hget, htype, hroom⟩ := h.getElem? hlayer
  cases buf with
  | f32 v => exact ⟨v, hget, hroom⟩
  | f16 v => cases htype

/-- Growing keeps the rows that were backed. -/
theorem rowAt_growTo (h : Backs n room .f32 bufs) {room' layer r : ℕ} (hlayer : layer < n)
    (hr : (r + 1) * d ≤ room) :
    rowAt d (bufs.map (.growTo room')) layer r = rowAt d bufs layer r := by
  obtain ⟨v, hget, hroom⟩ := h.getElem?_f32 hlayer
  rw [rowAt, rowAt, List.getElem?_map, hget]
  exact row_append_of_le (hr.trans hroom)

/-- Writing one row of one layer changes that row alone. -/
theorem rowAt_writeLayer (h : Backs n room .f32 bufs) {layer p : ℕ} {src : List F32}
    (hlayer : layer < n) (hsrc : src.length = d) (hp : (p + 1) * d ≤ room) {bufs' : List LayerBuf}
    (hwrite : writeLayer half layer (p * d) src bufs = some bufs') (layer' r : ℕ) :
    rowAt d bufs' layer' r = if layer' = layer ∧ r = p then src else rowAt d bufs layer' r := by
  obtain ⟨v, hget, hroom⟩ := h.getElem?_f32 hlayer
  have hfits : p * d + src.length ≤ v.length := by
    have hle := hp.trans hroom
    rw [Nat.add_one_mul] at hle
    omega
  have hbufs : bufs.set layer (.f32 (overwrite v (p * d) src)) = bufs' := by
    simpa [writeLayer, hget, LayerBuf.writeAt, hfits] using hwrite
  subst hbufs
  have hlt : layer < bufs.length := h.length ▸ hlayer
  by_cases hl : layer' = layer
  · subst hl
    rw [rowAt, rowAt, List.getElem?_set_self hlt, hget]
    by_cases hr : r = p
    · rw [if_pos ⟨rfl, hr⟩, hr]
      exact row_overwrite_self hsrc (hp.trans hroom)
    · rw [if_neg fun hand => hr hand.2]
      exact row_overwrite_of_ne hsrc (hp.trans hroom) hr
  · rw [if_neg fun hand => hl hand.1, rowAt, rowAt, List.getElem?_set_ne (Ne.symm hl)]

/-- Writing `m` rows from the start of every layer. -/
theorem rowAt_writeLayers {m : ℕ} {srcs : List (List F32)} {bufs' : List LayerBuf}
    (h : Backs n room .f32 bufs) (hroom : m * d ≤ room) (hsrcs : n ≤ srcs.length)
    (hlong : ∀ layer < n, m * d ≤ (srcs.getD layer []).length)
    (hwrite : writeLayers half (m * d) bufs srcs = some bufs') {layer r : ℕ} (hlayer : layer < n)
    (hr : r < m) : rowAt d bufs' layer r = row d (srcs.getD layer []) r := by
  induction bufs generalizing n srcs bufs' layer with
  | nil =>
    obtain rfl : 0 = n := h.length
    exact absurd hlayer (Nat.not_lt_zero _)
  | cons buf bufs ih =>
    obtain ⟨n, rfl⟩ : ∃ k, n = k + 1 := ⟨bufs.length, h.length.symm⟩
    cases srcs with
    | nil => exact absurd hsrcs (Nat.not_succ_le_zero _)
    | cons src srcs =>
      obtain ⟨buf', hbuf, hwrite⟩ := Option.bind_eq_some_iff.mp hwrite
      obtain ⟨bufs₁, hbufs, hwrite⟩ := Option.bind_eq_some_iff.mp hwrite
      obtain rfl := Option.some.inj hwrite
      cases layer with
      | zero =>
        have hsrc : m * d ≤ src.length := hlong 0 (Nat.succ_pos _)
        cases buf with
        | f16 v => cases h.dtype _ List.mem_cons_self
        | f32 v =>
          have hlen : (src.take (m * d)).length = m * d := by
            rw [List.length_take, Nat.min_eq_left hsrc]
          have hv : m * d ≤ v.length := hroom.trans (h.room _ List.mem_cons_self)
          rw [LayerBuf.writeAt, if_pos (by omega)] at hbuf
          obtain rfl := Option.some.inj hbuf
          show row d (overwrite v 0 (src.take (m * d))) r = row d src r
          rw [row_overwrite_rows hlen hv hr, row_take hr]
      | succ layer =>
        have htail : Backs n room .f32 bufs :=
          ⟨Nat.succ_inj.mp h.length, fun b hb => h.dtype b (List.mem_cons_of_mem _ hb),
            fun b hb => h.room b (List.mem_cons_of_mem _ hb)⟩
        exact ih htail (Nat.le_of_succ_le_succ hsrcs)
          (fun l hl => hlong (l + 1) (Nat.succ_lt_succ hl)) hbufs (Nat.lt_of_succ_lt_succ hlayer)

end Rows

end KvCache

end Kv

end Oxillama
