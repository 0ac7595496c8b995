/-
Lists cut into blocks.

`encodeBlocks` encodes a list block by block, with a shorter last block where the
size does not divide the length.

* `encodeBlocks_append` — what follows full blocks is encoded on its own;
* `row_encodeBlocks` — so is every row whose length the block size divides;
* `lastBlock_of_row` — **if the first row is encoded on its own, its last block is,
  although in the list the next row follows it**.

An array that is filled by nested loops is filled by one loop over the product of
their ranges (`flatMap_range_map`).
-/
import Mathlib.Data.List.Basic
import Oxillama.Lib.RowBuffer

namespace Oxillama

/-- `n.div_ceil(m)`. -/
def divCeil (n m : ℕ) : ℕ := (n + m - 1) / m

theorem divCeil_mul_add {m : ℕ} (hm : 0 < m) (q n : ℕ) :
    divCeil (q * m + n) m = q + divCeil n m := by
  rw [divCeil, divCeil, show q * m + n + m - 1 = n + m - 1 + q * m by omega,
    Nat.add_mul_div_right _ _ hm, Nat.add_comm]

theorem divCeil_mul {m : ℕ} (hm : 0 < m) (q : ℕ) : divCeil (q * m) m = q := by
  have hzero : divCeil 0 m = 0 := Nat.div_eq_of_lt (by omega)
  have hmul := divCeil_mul_add hm q 0
  rw [hzero] at hmul
  exact hmul

/-- A multiple is reached just when the number of blocks is. -/
theorem lt_divCeil_iff {n m b : ℕ} (hm : 0 < m) : b < divCeil n m ↔ b * m < n := by
  rw [divCeil, Nat.lt_iff_add_one_le, Nat.le_div_iff_mul_le hm, Nat.succ_mul]
  omega

section Encode

variable {α β : Type} (enc : List α → List β) {k m : ℕ}

/-- The encodings of the blocks of `k` items, in order. -/
def encodeBlocks (k : ℕ) (xs : List α) : List β :=
  (List.range (divCeil xs.length k)).flatMap fun b => enc ((xs.drop (b * k)).take k)

/-- An encoder that writes `m` items for a block of at most `k`. -/
def BlockEncoder (k m : ℕ) : Prop := ∀ block, block.length ≤ k → (enc block).length = m

variable {enc}

theorem BlockEncoder.length_block (h : BlockEncoder enc k m) (xs : List α) (b : ℕ) :
    (enc ((xs.drop (b * k)).take k)).length = m :=
  h _ (List.length_take_le _ _)

/-- **As many blocks as it takes.** -/
theorem length_encodeBlocks (h : BlockEncoder enc k m) (xs : List α) :
    (encodeBlocks enc k xs).length = divCeil xs.length k * m :=
  length_flatMap_rows fun b _ => h.length_block xs b

/-- What follows full blocks is encoded on its own. -/
theorem encodeBlocks_append (hk : 0 < k) {xs : List α} (ys : List α) (hxs : k ∣ xs.length) :
    encodeBlocks enc k (xs ++ ys) = encodeBlocks enc k xs ++ encodeBlocks enc k ys := by
  obtain ⟨q, hq⟩ := hxs
  rw [Nat.mul_comm] at hq
  rw [encodeBlocks, encodeBlocks, encodeBlocks, List.length_append, hq, divCeil_mul_add hk,
    divCeil_mul hk, List.range_add, List.flatMap_append, List.flatMap_map]
  congr 1
  · -- a block of the front ends within the front
    refine List.flatMap_congr fun b hb => ?_
    have hend : (b + 1) * k ≤ q * k := Nat.mul_le_mul_right k (List.mem_range.mp hb)
    rw [Nat.succ_mul] at hend
    rw [List.drop_append_of_le_length (by omega), List.take_append_of_le_length (by
      rw [List.length_drop]; omega)]
  · refine List.flatMap_congr fun b _ => ?_
    rw [Nat.add_mul, ← hq, ← List.drop_drop, List.drop_left]

/-- **A row of full blocks is encoded on its own**, and starts at a multiple of its
encoded length. -/
theorem row_encodeBlocks (hk : 0 < k) (h : BlockEncoder enc k m) {xs : List α} {n r : ℕ}
    (hn : k ∣ n) (hr : (r + 1) * n ≤ xs.length) :
    row (divCeil n k * m) (encodeBlocks enc k xs) r = encodeBlocks enc k (row n xs r) := by
  have hlen := length_row hr
  rw [Nat.succ_mul] at hr
  have hfront : (xs.take (r * n)).length = r * n := List.length_take_of_le (by omega)
  have hsplit : xs = xs.take (r * n) ++ (row n xs r ++ (xs.drop (r * n)).drop n) := by
    rw [row, List.take_append_drop, List.take_append_drop]
  have hstart : (encodeBlocks enc k (xs.take (r * n))).length = r * (divCeil n k * m) := by
    obtain ⟨q, rfl⟩ := hn
    rw [length_encodeBlocks h, hfront, Nat.mul_comm k q, divCeil_mul hk, ← Nat.mul_assoc,
      divCeil_mul hk, Nat.mul_assoc]
  have hrun : (encodeBlocks enc k (row n xs r)).length = divCeil n k * m := by
    rw [length_encodeBlocks h, hlen]
  have hfull : k ∣ (xs.take (r * n)).length := by
    rw [hfront]
    exact hn.mul_left r
  have hfullRow : k ∣ (row n xs r).length := by rwa [hlen]
  conv_lhs => rw [hsplit]
  rw [encodeBlocks_append hk _ hfull, encodeBlocks_append hk _ hfullRow, row,
    List.drop_left' hstart, List.take_left' hrun]

/-- A block of the encoded list. -/
theorem block_encodeBlocks (h : BlockEncoder enc k m) {xs : List α} {b : ℕ}
    (hb : b < divCeil xs.length k) : row m (encodeBlocks enc k xs) b = enc (row k xs b) := by
  have hsplit : divCeil xs.length k = b + (1 + (divCeil xs.length k - b - 1)) := by omega
  rw [row, encodeBlocks, hsplit, List.range_add, List.flatMap_append,
    List.drop_left' (length_flatMap_rows fun b _ => h.length_block xs b), List.flatMap_map,
    List.range_add, List.flatMap_append, List.range_one, List.flatMap_singleton,
    List.take_left' (h.length_block xs _), Nat.add_zero, row]

/-- **Where the encoded list begins with the first row encoded on its own**, the last block
of that row and the block of the list at the same place are encoded alike. -/
theorem lastBlock_of_row (hk : 0 < k) (h : BlockEncoder enc k m) {xs : List α}
    {n : ℕ} (hn : ¬ k ∣ n) (hle : n ≤ xs.length)
    (hrun : row (divCeil n k * m) (encodeBlocks enc k xs) 0 = encodeBlocks enc k (row n xs 0)) :
    enc (row k xs (n / k)) = enc ((xs.take n).drop (n / k * k)) := by
  have hdiv := Nat.div_add_mod n k
  have hmod : 0 < n % k := Nat.pos_of_ne_zero fun hzero => hn (Nat.dvd_of_mod_eq_zero hzero)
  have hlt := Nat.mod_lt n hk
  rw [Nat.mul_comm] at hdiv
  have hrow : row n xs 0 = xs.take n := by rw [row, Nat.zero_mul, List.drop_zero]
  have hlen : (xs.take n).length = n := List.length_take_of_le hle
  have hblock : n / k < divCeil n k := (lt_divCeil_iff hk).mpr (by omega)
  have hblock' : n / k < divCeil xs.length k := (lt_divCeil_iff hk).mpr (by omega)
  -- the same block of both sides
  have hbytes := congrArg (row m · (n / k)) hrun
  have hfits : (n / k + 1) * m ≤ divCeil n k * m := Nat.mul_le_mul_right m hblock
  rw [Nat.succ_mul] at hfits
  have hleft : row m (row (divCeil n k * m) (encodeBlocks enc k xs) 0) (n / k) =
      row m (encodeBlocks enc k xs) (n / k) := by
    rw [row, row, row, Nat.zero_mul, List.drop_zero, List.drop_take, List.take_take,
      Nat.min_eq_left (by omega)]
  have hright : row k (xs.take n) (n / k) = (xs.take n).drop (n / k * k) := by
    rw [row, List.take_of_length_le]
    rw [List.length_drop, hlen]
    omega
  rw [hrow] at hbytes
  rw [← hright, ← block_encodeBlocks h hblock', ← block_encodeBlocks h (hlen.symm ▸ hblock),
    ← hleft]
  exact hbytes

end Encode

/-! ### Ranges -/

/-- The items of a nested range are those of one range. -/
theorem flatMap_range_map {α : Type} (f : ℕ → α) (a b : ℕ) :
    ((List.range a).flatMap fun i => (List.range b).map fun j => f (i * b + j)) =
      (List.range (a * b)).map f := by
  induction a with
  | zero => rw [Nat.zero_mul]; rfl
  | succ a ih =>
    rw [List.range_succ, List.flatMap_append, ih, Nat.succ_mul, List.range_add, List.map_append,
      List.map_map, List.flatMap_singleton]
    rfl

/-- Lists over ranges are equal when their items are. -/
theorem map_range_eq_iff {α : Type} {f g : ℕ → α} {n : ℕ} :
    (List.range n).map f = (List.range n).map g ↔ ∀ i < n, f i = g i := by
  rw [List.map_inj_left]
  simp only [List.mem_range]

theorem map_range_append_eq_iff {α : Type} {f g : ℕ → α} {n : ℕ} {xs ys : List α} :
    (List.range n).map f ++ xs = (List.range n).map g ++ ys ↔
      (∀ i < n, f i = g i) ∧ xs = ys := by
  rw [← map_range_eq_iff]
  constructor
  · intro h
    exact List.append_inj h (by rw [List.length_map, List.length_map])
  · rintro ⟨h, rfl⟩
    rw [h]

end Oxillama
