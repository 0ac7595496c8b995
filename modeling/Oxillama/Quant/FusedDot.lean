/-
A fused `gemv` is dequantising and then multiplying.

The decoding inside of `gemv` and that of `dequant_block` are the same loops: what `gemv`
does with a block is a fold over the writes of `dequant_block` (`dotBlock_eq`).  Each kernel
leaves the columns behind the last one out, with a check of its own; that of `Q5_0` has none,
and always takes the 32 columns of a block.

* `dotBlock_eq` — **the loops of `gemv` on a block**, kernel by kernel;
* `dotRow_eq` — the sum of a row, with the weights that `dequant_block` writes;
* `gemv_eq_iff` — **`gemv` is the product** unless it is that of `Q5_0` and the columns behind
  the last one count.
-/
import Mathlib
import Oxillama.Lib.Decoder
import Oxillama.Lib.ExactFloat
import Oxillama.Lib.RowBuffer
import Oxillama.Quant.Kernels
import Oxillama.Quant.Q3KCodes

namespace Oxillama

namespace Quant

open F32 (lit ofInt)

section Loops

variable {F : Type} [F32 F]

/-! ### Loops over writes -/

/-- The loop that multiplies the writes of a block with the columns from `off` on. -/
def dotWrites (cols : ℕ) (inp : List F) (off : ℕ) (writes : List (ℕ × F)) (sum : F) : Option F :=
  writes.foldlM (fun sum write => accumulateIf cols inp (off + write.1) write.2 sum) sum

theorem dotWrites_append (cols : ℕ) (inp : List F) (off : ℕ) (xs ys : List (ℕ × F)) (sum : F) :
    dotWrites cols inp off (xs ++ ys) sum =
      (dotWrites cols inp off xs sum).bind (dotWrites cols inp off ys) :=
  List.foldlM_append

theorem dotWrites_run (cols : ℕ) (inp : List F) (off start n : ℕ) (value : ℕ → F) (sum : F) :
    dotWrites cols inp off (run start n value) sum =
      dotRun cols inp (off + start) n value sum := by
  rw [dotWrites, run, List.foldlM_map, dotRun]
  simp only [Nat.add_assoc]

/-- A loop over a block that starts at a column does with the rest of the input what it would do
with all of it. -/
theorem dotWrites_drop {n : ℕ} {writes : List (ℕ × F)} (h : ∀ write ∈ writes, write.1 < n)
    (nCols : ℕ) (input : List F) (off : ℕ) (sum : F) :
    dotWrites (min (nCols - off) n) (input.drop off) 0 writes sum =
      dotWrites nCols input off writes sum := by
  refine foldlM_congr (fun sum write hwrite => ?_) sum
  have hlt := h write hwrite
  have hcols : write.1 < min (nCols - off) n ↔ off + write.1 < nCols := by omega
  simp only [accumulateIf, accumulate, List.getElem?_drop, Nat.zero_add, hcols]

/-- A loop that checks no column is one that is told there are enough. -/
theorem dotWrites_all {n : ℕ} {writes : List (ℕ × F)} (h : ∀ write ∈ writes, write.1 < n)
    (input : List F) (off : ℕ) (sum : F) :
    (writes.foldlM (fun sum write => accumulate (input.drop off) write.1 write.2 sum) sum) =
      dotWrites (off + n) input off writes sum := by
  refine foldlM_congr (fun sum write hwrite => ?_) sum
  have hlt : off + write.1 < off + n := Nat.add_lt_add_left (h write hwrite) off
  rw [accumulateIf, if_pos hlt, accumulate, accumulate, List.getElem?_drop]

/-! ### The writes of a block -/

omit [F32 F] in
theorem map_fst_run (start n : ℕ) (value : ℕ → F) :
    (run start n value).map Prod.fst = List.range' start n := by
  rw [run, List.map_map, List.range'_eq_map_range]
  rfl

theorem shift_four_and (b : UInt8) : (b >>> 4) &&& (0x0F : UInt8) = b >>> 4 := by
  apply UInt8.toNat_inj.mp
  rw [Q3K.toNat_shift_four, UInt8.toNat_shiftRight, Nat.shiftRight_eq_div_pow]
  rfl

theorem Q2K.map_fst_loopWrites (scales qs : List UInt8) (d dmin : F) (steps : List (ℕ × ℕ))
    (is outOff : ℕ) :
    (Q2K.loopWrites scales qs d dmin steps is outOff).map Prod.fst =
      List.range' outOff (32 * steps.length) := by
  induction steps generalizing is outOff with
  | nil => rfl
  | cons step steps ih =>
    simp only [Q2K.loopWrites, List.map_append, map_fst_run, ih, List.range'_append_1]
    congr 1
    rw [List.length_cons]
    omega

theorem Q4K.map_fst_loopWrites (qs sc mn : List UInt8) (d dmin : F)
    (groups is qsOffset outOffset : ℕ) :
    (Q4K.loopWrites qs sc mn d dmin groups is qsOffset outOffset).map Prod.fst =
      List.range' outOffset (64 * groups) := by
  induction groups generalizing is qsOffset outOffset with
  | zero => rfl
  | succ groups ih =>
    simp only [Q4K.loopWrites, List.map_append, map_fst_run, ih, List.range'_append_1]
    congr 1
    omega

/-! ### Kernel by kernel -/

theorem Q8_0.dotBlock_eq (nCols : ℕ) (input : List F) (block : List UInt8) (off : ℕ) (sum : F) :
    Q8_0.dotBlock nCols input block off sum =
      dotWrites nCols input off (Q8_0.writes block) sum :=
  (dotWrites_run nCols input off 0 32 _ sum).symm

theorem Q4K.loopDot_eq (qs sc mn : List UInt8) (d dmin : F) (nCols : ℕ) (input : List F)
    (off groups is qsOff outOff : ℕ) (sum : F) :
    Q4K.loopDot qs sc mn d dmin nCols input groups is qsOff (off + outOff) sum =
      dotWrites nCols input off (Q4K.loopWrites qs sc mn d dmin groups is qsOff outOff) sum := by
  induction groups generalizing is qsOff outOff sum with
  | zero => rfl
  | succ groups ih =>
    simp only [Q4K.loopDot, Q4K.loopWrites, dotWrites_append, dotWrites_run, Option.bind_eq_bind,
      Option.bind_assoc, Nat.add_assoc, ih]

theorem Q4K.dotBlock_eq (nCols : ℕ) (input : List F) (block : List UInt8) (off : ℕ) (sum : F) :
    Q4K.dotBlock nCols input block off sum = dotWrites nCols input off (Q4K.writes block) sum :=
  Q4K.loopDot_eq _ _ _ _ _ nCols input off 4 0 0 0 sum

theorem Q2K.loopDot_eq (scales qs : List UInt8) (d dmin : F) (cols : ℕ) (inp : List F)
    (steps : List (ℕ × ℕ)) (is inOff : ℕ) (sum : F) :
    Q2K.loopDot scales qs d dmin cols inp steps is inOff sum =
      dotWrites cols inp 0 (Q2K.loopWrites scales qs d dmin steps is inOff) sum := by
  induction steps generalizing is inOff sum with
  | nil => rfl
  | cons step steps ih =>
    simp only [Q2K.loopDot, Q2K.loopWrites, dotWrites_append, dotWrites_run, Option.bind_eq_bind,
      Option.bind_assoc, Nat.zero_add, ih]

omit [F32 F] in
theorem fill_map_range (start n : ℕ) (value : ℕ → F) :
    fill start ((List.range n).map value) = run start n value := by
  refine List.ext_getElem? fun i => ?_
  rw [fill, run, List.getElem?_map, List.getElem?_zipIdx, List.getElem?_map, List.getElem?_map]
  rcases Nat.lt_or_ge i n with hi | hi
  · rw [List.getElem?_range hi]
    rfl
  · rw [List.getElem?_eq_none (by rwa [List.length_range])]
    rfl

/-- The writes of `Q3KRef::dequant_block`, which fill the buffer from the front on. -/
def Q3K.writes (block : List UInt8) : List (ℕ × F) :=
  fill 0 (Q3K.dequantLoop (block.take 32) ((block.drop 32).take 64) (f16At block 108)
    (Q3K.decodeScales ((block.drop 96).take 12)) Q3K.steps 0 1)

theorem Q3K.fill_dequantPair (hmask qs : List UInt8) (d : F) (sc : List F)
    (group shift is start : ℕ) (m : UInt8) :
    fill start (Q3K.dequantPair hmask qs d sc group shift is m) =
      run start 16 (fun l => d * sc.getD is (lit 0) *
          ofInt (Q3K.weightCode hmask qs group shift 0 l m)) ++
        run (start + 16) 16 (fun l => d * sc.getD (is + 1) (lit 0) *
          ofInt (Q3K.weightCode hmask qs group shift 1 l m)) := by
  rw [← fill_map_range, ← fill_map_range]
  exact fill_append start _ _

theorem Q3K.loopDot_eq (hmask qs : List UInt8) (d : F) (sc : List F) (cols : ℕ) (inp : List F)
    (steps : List (ℕ × ℕ)) (is : ℕ) (m : UInt8) (inOff : ℕ) (sum : F) :
    Q3K.loopDot hmask qs d sc cols inp steps is m inOff sum =
      dotWrites cols inp 0 (fill inOff (Q3K.dequantLoop hmask qs d sc steps is m)) sum := by
  induction steps generalizing is m inOff sum with
  | nil => rfl
  | cons step steps ih =>
    have hlen : (Q3K.dequantPair hmask qs d sc step.1 step.2 is m).length = 32 := rfl
    simp only [Q3K.loopDot, Q3K.dequantLoop, fill_append, hlen, Q3K.fill_dequantPair,
      dotWrites_append, dotWrites_run, Option.bind_eq_bind, Option.bind_assoc, Nat.zero_add, ih]
    rfl

theorem Q5_0.dotBlock_eq {input : List F} {off : ℕ} (hoff : off ≤ input.length)
    (block : List UInt8) (sum : F) :
    Q5_0.dotBlock input block off sum =
      (Q5_0.writes block).foldlM
        (fun sum write => accumulate (input.drop off) write.1 write.2 sum) sum := by
  simp only [Q5_0.dotBlock, sliceFrom, if_pos hoff, Option.bind_eq_bind, Option.bind_some,
    Q5_0.writes, foldlM_flatMap, shift_four_and, List.foldlM_cons, List.foldlM_nil,
    Option.pure_def, Option.bind_fun_some]

theorem Q6K.dotBlock_eq {input : List F} {off : ℕ} (hoff : off ≤ input.length) (nCols : ℕ)
    (block : List UInt8) (sum : F) :
    Q6K.dotBlock nCols input block off sum =
      dotWrites (min (nCols - off) 256) (input.drop off) 0 (Q6K.writes block) sum := by
  simp only [Q6K.dotBlock, sliceFrom, if_pos hoff, Option.bind_eq_bind, Option.bind_some,
    Q6K.writes, dotWrites, foldlM_flatMap, List.foldlM_cons, List.foldlM_nil, Nat.zero_add,
    Option.pure_def, Option.bind_fun_some]

/-! ### The writes of every kernel -/

/-- The writes of `dequant_block`. -/
def Format.writes : Format → List UInt8 → List (ℕ × F)
  | .q8_0 => Q8_0.writes
  | .q5_0 => Q5_0.writes
  | .q5_1 => Q5_1.writes
  | .q2K => Q2K.writes
  | .q3K => Q3K.writes
  | .q4K => Q4K.writes
  | .q6K => Q6K.writes

theorem Q3K.length_dequantLoop (hmask qs : List UInt8) (d : F) (sc : List F)
    (steps : List (ℕ × ℕ)) (is : ℕ) (m : UInt8) :
    (Q3K.dequantLoop hmask qs d sc steps is m).length = 32 * steps.length := by
  induction steps generalizing is m with
  | nil => rfl
  | cons step steps ih =>
    have hlen : (Q3K.dequantPair hmask qs d sc step.1 step.2 is m).length = 32 := rfl
    rw [Q3K.dequantLoop, List.length_append, hlen, ih, List.length_cons]
    omega

/-- Positions that are written once, and are those of a block. -/
theorem perm_range {positions : List ℕ} {n : ℕ} (hnodup : positions.Nodup)
    (hmem : ∀ p, p ∈ positions ↔ p < n) : positions.Perm (List.range n) :=
  (List.perm_ext_iff_of_nodup hnodup List.nodup_range).mpr fun p => by
    rw [hmem, List.mem_range]

/-- The positions of the loops of `Q5_0` and `Q5_1`. -/
theorem perm_halves : ((List.range 16).flatMap fun i => [i, i + 16]).Perm (List.range 32) := by
  refine perm_range (nodup_flatMap_range (fun i _ => ?_) ?_) fun p => ?_
  · simp
  · simp only [List.mem_cons, List.not_mem_nil, or_false]
    omega
  · simp only [List.mem_flatMap, List.mem_range, List.mem_cons, List.not_mem_nil, or_false]
    exact ⟨by omega, fun hp => ⟨p % 16, by omega, by omega⟩⟩

/-- The positions of the loops of `Q6_K`. -/
theorem perm_quarters : ((List.range 2).flatMap fun group => (List.range 32).flatMap fun l =>
    [group * 128 + l, group * 128 + l + 32, group * 128 + l + 64, group * 128 + l + 96]).Perm
      (List.range 256) := by
  refine perm_range (nodup_flatMap_range (fun g _ => nodup_flatMap_range (fun i _ => ?_) ?_) ?_)
    fun p => ?_
  · simp
  · simp only [List.mem_cons, List.not_mem_nil, or_false]
    omega
  · simp only [List.mem_flatMap, List.mem_range, List.mem_cons, List.not_mem_nil, or_false]
    omega
  · simp only [List.mem_flatMap, List.mem_range, List.mem_cons, List.not_mem_nil, or_false]
    exact ⟨by omega, fun hp => ⟨p / 128, by omega, p % 32, by omega, by omega⟩⟩

/-- **Every position of a block is written once.** -/
theorem Format.perm_writes (k : Format) (block : List UInt8) :
    ((k.writes block : List (ℕ × F)).map Prod.fst).Perm (List.range k.blockSize) := by
  cases k with
  | q8_0 =>
    rw [Format.writes, Q8_0.writes, map_fst_run, List.range_eq_range']
    exact List.Perm.refl _
  | q5_0 =>
    simp only [Format.writes, Q5_0.writes, List.map_flatMap, List.map_cons, List.map_nil]
    exact perm_halves
  | q5_1 =>
    simp only [Format.writes, Q5_1.writes, List.map_flatMap, List.map_cons, List.map_nil]
    exact perm_halves
  | q2K =>
    rw [Format.writes, Q2K.writes, Q2K.map_fst_loopWrites, List.range_eq_range']
    exact List.Perm.refl _
  | q3K =>
    rw [Format.writes, Q3K.writes, map_fst_fill, Q3K.length_dequantLoop, List.range_eq_range']
    exact List.Perm.refl _
  | q4K =>
    rw [Format.writes, Q4K.writes, Q4K.map_fst_loopWrites, List.range_eq_range']
    exact List.Perm.refl _
  | q6K =>
    simp only [Format.writes, Q6K.writes, List.map_flatMap, List.map_cons, List.map_nil]
    exact perm_quarters

theorem Format.write_lt (k : Format) (block : List UInt8) :
    ∀ write ∈ (k.writes block : List (ℕ × F)), write.1 < k.blockSize := fun _ hwrite =>
  List.mem_range.mp ((k.perm_writes block).mem_iff.mp (List.mem_map_of_mem hwrite))

omit [F32 F] in
theorem dequantInto_eq {blockSize blockBytes : ℕ} {writes : List UInt8 → List (ℕ × F)}
    {block : List UInt8} {output : List F} (hblock : blockBytes ≤ block.length)
    (hout : blockSize ≤ output.length) :
    dequantInto blockSize blockBytes writes block output =
      .ok (applyWrites (writes block) output) := by
  rw [dequantInto, if_neg (Nat.not_lt.mpr hblock), if_neg (Nat.not_lt.mpr hout)]

theorem Q3K.dequantBlock_eq {block : List UInt8} {outputLen : ℕ} (hblock : 110 ≤ block.length)
    (hout : 256 ≤ outputLen) :
    Q3K.dequantBlock block outputLen =
      .ok (Q3K.dequantLoop (block.take 32) ((block.drop 32).take 64) (f16At block 108)
        (Q3K.decodeScales ((block.drop 96).take 12)) Q3K.steps 0 1 : List F) := by
  have hbytes : ¬ block.length < Q3K.blockBytes := Nat.not_lt.mpr hblock
  have hsize : ¬ outputLen < Q3K.qkK := Nat.not_lt.mpr hout
  rw [Q3K.dequantBlock, if_neg hbytes, if_neg hsize]
  rfl

/-- `dequant_block` on a block that is there. -/
theorem Format.dequantBlock_eq (k : Format) {block : List UInt8} {output : List F}
    (hblock : k.blockBytes ≤ block.length) (hout : k.blockSize ≤ output.length) :
    k.dequantBlock block output = .ok (applyWrites (k.writes block) output) := by
  cases k with
  | q3K =>
    have hlen : (Q3K.dequantLoop (block.take 32) ((block.drop 32).take 64) (f16At block 108)
        (Q3K.decodeScales ((block.drop 96).take 12)) Q3K.steps 0 1 : List F).length = 256 :=
      Q3K.length_dequantLoop _ _ _ _ _ _ _
    rw [Format.writes, Q3K.writes, applyWrites_fill (by rw [hlen]; exact hout), hlen,
      Format.dequantBlock, Q3K.dequantBlock_eq hblock hout]
    rfl
  | _ => exact dequantInto_eq hblock hout

theorem dotWrites_none {cols : ℕ} {inp : List F} {off : ℕ} {writes : List (ℕ × F)}
    (h : ∃ write ∈ writes, off + write.1 < cols ∧ inp.length ≤ off + write.1) (sum : F) :
    dotWrites cols inp off writes sum = none := by
  obtain ⟨write, hmem, hcol, hlen⟩ := h
  refine foldlM_eq_none ⟨write, hmem, fun sum => ?_⟩ sum
  rw [accumulateIf, if_pos hcol, accumulate, List.getElem?_eq_none hlen]
  rfl

end Loops

section Exact

variable {F : Type} [ExactF32 F]

/-! ### Exact sums -/

/-- A weight times its column, in front of the last column. -/
def product (cols : ℕ) (input : List F) (c : ℕ) (w : F) : F :=
  if c < cols then w * input.getD c (lit 0) else 0

theorem dotWrites_eq {cols : ℕ} {input : List F} {off : ℕ} {writes : List (ℕ × F)}
    (h : ∀ write ∈ writes, off + write.1 < cols → off + write.1 < input.length) (sum : F) :
    dotWrites cols input off writes sum =
      some (sum + (writes.map fun write => product cols input (off + write.1) write.2).sum) := by
  refine foldlM_add (fun sum write hwrite => ?_) sum
  rw [accumulateIf, product]
  by_cases hcol : off + write.1 < cols
  · rw [if_pos hcol, if_pos hcol, accumulate, List.getElem?_eq_getElem (h write hwrite hcol),
      List.getD_eq_getElem _ _ (h write hwrite hcol)]
    rfl
  · rw [if_neg hcol, if_neg hcol, add_zero]

theorem Q5_1.accumulateBoth_eq (n : ℕ) (inp : List F) (c : ℕ) (w m : F) (sums : F × F) :
    (Q5_1.accumulateBoth n inp c w sums).map (fun sums => sums.1 + m * sums.2) =
      accumulateIf n inp c (w + m) (sums.1 + m * sums.2) := by
  rw [Q5_1.accumulateBoth, accumulateIf]
  by_cases hc : c < n
  · rw [if_pos hc, if_pos hc, accumulate, Option.map_map]
    congr 1
    funext x
    calc sums.1 + w * x + m * (sums.2 + x)
        = sums.1 + w * x + (m * sums.2 + m * x) := by rw [ExactF32.mul_add]
      _ = sums.1 + m * sums.2 + (w * x + m * x) := add_add_add_comm _ _ _ _
      _ = sums.1 + m * sums.2 + (w + m) * x := by rw [ExactF32.add_mul]
  · rw [if_neg hc, if_neg hc]
    rfl

/-- The weights of a block of `Q5_1` before the minimum is added. -/
def Q5_1.scaled (block : List UInt8) : List (ℕ × F) :=
  let d := f16At block 0
  let qh := u32At block 4
  let qs := (block.drop 8).take 16
  (List.range 16).flatMap fun i =>
    let q0 : F := ofByte ((byteAt qs i &&& (0x0F : UInt8)) ||| (highBit qh i <<< 4))
    let q1 : F := ofByte ((byteAt qs i >>> 4) ||| (highBit qh (i + 16) <<< 4))
    [(i, d * q0), (i + 16, d * q1)]

theorem Q5_1.writes_eq (block : List UInt8) :
    (Q5_1.writes block : List (ℕ × F)) =
      (Q5_1.scaled block).map fun write => (write.1, write.2 + f16At block 2) := by
  simp only [Q5_1.writes, Q5_1.scaled, List.map_flatMap, List.map_cons, List.map_nil,
    shift_four_and]

/-- The minimum times the sum of the inputs is the sum of the minimum times the inputs. -/
theorem Q5_1.dotBlock_eq {nCols off : ℕ} {input : List F} (hoff : off ≤ input.length)
    (hcols : nCols ≤ input.length) (block : List UInt8) (sum : F) :
    Q5_1.dotBlock nCols input block off sum =
      dotWrites (min (nCols - off) 32) (input.drop off) 0 (Q5_1.writes block) sum := by
  have hslice : off + min (nCols - off) 32 ≤ input.length := by omega
  have hstart : sum + f16At block 2 * lit 0 = sum :=
    ExactF32.add_eq_left_iff.mpr (ExactF32.mul_zero _)
  have hloop := foldlM_simulation
    (f := fun sums (write : ℕ × F) => Q5_1.accumulateBoth (min (nCols - off) 32)
      ((input.drop off).take (min (nCols - off) 32)) write.1 write.2 sums)
    (g := fun sum (write : ℕ × F) => accumulateIf (min (nCols - off) 32)
      ((input.drop off).take (min (nCols - off) 32)) write.1 (write.2 + f16At block 2) sum)
    (fun sums : F × F => sums.1 + f16At block 2 * sums.2)
    (fun sums write => Q5_1.accumulateBoth_eq _ _ write.1 write.2 (f16At block 2) sums)
    (Q5_1.scaled block) (sum, lit 0)
  rw [hstart] at hloop
  have htake : ∀ sum, ∀ write ∈ Q5_1.scaled block,
      accumulateIf (min (nCols - off) 32) ((input.drop off).take (min (nCols - off) 32)) write.1
          (write.2 + f16At block 2) sum =
        accumulateIf (min (nCols - off) 32) (input.drop off) (0 + write.1)
          (write.2 + f16At block 2) sum := by
    intro sum write _
    rw [Nat.zero_add, accumulateIf, accumulateIf, accumulate, accumulate, List.getElem?_take]
    split <;> rfl
  rw [dotWrites, Q5_1.writes_eq, List.foldlM_map, ← foldlM_congr htake, ← hloop]
  simp only [Q5_1.dotBlock, sliceAt, if_pos hslice, Option.bind_eq_bind, Option.bind_some,
    Q5_1.scaled, foldlM_flatMap, List.foldlM_cons, List.foldlM_nil, Option.pure_def,
    Option.bind_fun_some]
  exact Option.map_eq_bind.symm

/-! ### Blocks -/

/-- The last column that a block at `off` is multiplied with. -/
def Format.lastColumn (k : Format) (nCols off : ℕ) : ℕ :=
  match k with
  | .q5_0 => off + 32
  | _ => nCols

/-- **What `gemv` does with a block** is a loop over the writes of `dequant_block`. -/
theorem Format.dotBlock_eq (k : Format) {nCols off : ℕ} {input : List F}
    (hoff : off ≤ input.length) (hcols : nCols ≤ input.length) (block : List UInt8) (sum : F) :
    k.dotBlock nCols input block off sum =
      dotWrites (k.lastColumn nCols off) input off (k.writes block) sum := by
  cases k with
  | q8_0 => exact Q8_0.dotBlock_eq nCols input block off sum
  | q5_0 =>
    exact (Q5_0.dotBlock_eq hoff block sum).trans
      (dotWrites_all (Format.write_lt .q5_0 block) input off sum)
  | q5_1 =>
    exact (Q5_1.dotBlock_eq hoff hcols block sum).trans
      (dotWrites_drop (Format.write_lt .q5_1 block) nCols input off sum)
  | q2K =>
    rw [Format.dotBlock, Q2K.dotBlock, sliceFrom, if_pos hoff]
    exact (Q2K.loopDot_eq _ _ _ _ _ _ Q2K.steps 0 0 sum).trans
      (dotWrites_drop (Format.write_lt .q2K block) nCols input off sum)
  | q3K =>
    rw [Format.dotBlock, Q3K.dotBlock, sliceFrom, if_pos hoff]
    exact (Q3K.loopDot_eq _ _ _ _ _ _ Q3K.steps 0 1 0 sum).trans
      (dotWrites_drop (Format.write_lt .q3K block) nCols input off sum)
  | q4K => exact Q4K.dotBlock_eq nCols input block off sum
  | q6K =>
    exact (Q6K.dotBlock_eq hoff nCols block sum).trans
      (dotWrites_drop (Format.write_lt .q6K block) nCols input off sum)

/-- The weights that `dequant_block` writes for a block. -/
def Format.blockWeights (k : Format) (block : List UInt8) : List F :=
  applyWrites (k.writes block) (List.replicate k.blockSize (lit 0))

theorem Format.length_blockWeights (k : Format) (block : List UInt8) :
    (k.blockWeights block : List F).length = k.blockSize := by
  rw [Format.blockWeights, length_applyWrites, List.length_replicate]

/-- A sum over the writes of a block, as a sum over its weights. -/
theorem Format.sum_products (k : Format) (cols : ℕ) (input : List F) (off : ℕ)
    (block : List UInt8) :
    ((k.writes block).map fun write => product cols input (off + write.1) write.2).sum =
      ((List.range k.blockSize).map fun p =>
        product cols input (off + p) ((k.blockWeights block).getD p 0)).sum :=
  sum_writes (k.perm_writes block) (List.length_replicate.ge)
    fun p w => product cols input (off + p) w

/-! ### Rows -/

/-- The columns of a row that `gemv` takes. -/
def Format.width (k : Format) (nCols : ℕ) : ℕ :=
  match k with
  | .q5_0 => divCeil nCols 32 * 32
  | _ => nCols

theorem Format.blockSize_pos (k : Format) : 0 < k.blockSize := by
  cases k <;> decide

theorem Format.divCeil_width (k : Format) (nCols : ℕ) :
    divCeil (k.width nCols) k.blockSize = divCeil nCols k.blockSize := by
  cases k with
  | q5_0 => exact divCeil_mul (by decide) _
  | _ => rfl

theorem le_divCeil_mul {n m : ℕ} (hm : 0 < m) : n ≤ divCeil n m * m := by
  by_contra hlt
  exact Nat.lt_irrefl _ ((lt_divCeil_iff hm).mpr (Nat.not_le.mp hlt))

/-- A column of a block is taken if it is one that the row takes. -/
theorem Format.lt_lastColumn_iff (k : Format) {nCols blk p : ℕ}
    (hblk : blk < divCeil nCols k.blockSize) (hp : p < k.blockSize) :
    blk * k.blockSize + p < k.lastColumn nCols (blk * k.blockSize) ↔
      blk * k.blockSize + p < k.width nCols := by
  cases k with
  | q5_0 =>
    have hmul : (blk + 1) * 32 ≤ divCeil nCols 32 * 32 := Nat.mul_le_mul_right 32 hblk
    refine iff_of_true (Nat.add_lt_add_left hp _) ?_
    simp only [Format.width, Format.blockSize] at hp ⊢
    omega
  | _ => rfl

/-- The bytes of a block of a row. -/
def Format.blockAt (k : Format) (data : List UInt8) (nCols row blk : ℕ) : List UInt8 :=
  let rowBytes := divCeil nCols k.blockSize * k.blockBytes
  (data.drop (row * rowBytes + blk * k.blockBytes)).take k.blockBytes

/-- `dequant_block` on the blocks of a row. -/
def Format.dequantRow (k : Format) (data : List UInt8) (nCols row : ℕ) : QuantResult (List F) := do
  let blocks ← (List.range (divCeil nCols k.blockSize)).mapM fun blk =>
    k.dequantBlock (k.blockAt data nCols row blk) (List.replicate k.blockSize (lit 0))
  return blocks.flatten

/-- The weights of a row. -/
def Format.rowWeights (k : Format) (data : List UInt8) (nCols row : ℕ) : List F :=
  (List.range (divCeil nCols k.blockSize)).flatMap fun blk =>
    k.blockWeights (k.blockAt data nCols row blk)

section Row

variable {k : Format} {data : List UInt8} {nRows nCols row : ℕ} {input : List F}

theorem Format.block_end_le (hdata : data.length = nRows * (divCeil nCols k.blockSize * k.blockBytes))
    (hrow : row < nRows) {blk : ℕ} (hblk : blk < divCeil nCols k.blockSize) :
    row * (divCeil nCols k.blockSize * k.blockBytes) + blk * k.blockBytes + k.blockBytes ≤
      data.length := by
  have hblocks : (blk + 1) * k.blockBytes ≤ divCeil nCols k.blockSize * k.blockBytes :=
    Nat.mul_le_mul_right _ hblk
  have hrows : (row + 1) * (divCeil nCols k.blockSize * k.blockBytes) ≤ data.length := by
    rw [hdata]
    exact Nat.mul_le_mul_right _ hrow
  rw [Nat.succ_mul] at hblocks hrows
  omega

theorem Format.dequantRow_eq
    (hdata : data.length = nRows * (divCeil nCols k.blockSize * k.blockBytes))
    (hrow : row < nRows) :
    k.dequantRow data nCols row = .ok (k.rowWeights data nCols row : List F) := by
  have hblocks : ∀ blk ∈ List.range (divCeil nCols k.blockSize),
      k.dequantBlock (k.blockAt data nCols row blk) (List.replicate k.blockSize (lit 0)) =
        .ok (k.blockWeights (k.blockAt data nCols row blk) : List F) := by
    intro blk hblk
    have hend := Format.block_end_le hdata hrow (List.mem_range.mp hblk)
    refine k.dequantBlock_eq ?_ List.length_replicate.ge
    rw [Format.blockAt, List.length_take, List.length_drop]
    omega
  rw [Format.dequantRow, mapM_of_ok hblocks, Format.rowWeights, List.flatMap_def]
  rfl

theorem Format.getD_rowWeights {blk p : ℕ} (hblk : blk < divCeil nCols k.blockSize)
    (hp : p < k.blockSize) (x : F) :
    (k.rowWeights data nCols row).getD (blk * k.blockSize + p) x =
      (k.blockWeights (k.blockAt data nCols row blk)).getD p x := by
  have hrow := row_flatMap_range (f := fun blk =>
    (k.blockWeights (k.blockAt data nCols row blk) : List F))
    (fun blk _ => k.length_blockWeights (k.blockAt data nCols row blk)) hblk
  have hget := getElem?_row k.blockSize (k.rowWeights data nCols row : List F) blk p
  rw [if_pos hp] at hget
  rw [List.getD_eq_getElem?_getD, ← hget, Format.rowWeights, hrow, List.getD_eq_getElem?_getD]

/-- The products of weights with columns, added up. -/
def dot (weights input : List F) (cols : List ℕ) : F :=
  (cols.map fun c => weights.getD c (lit 0) * input.getD c (lit 0)).sum

theorem Format.dotRow_step
    (hdata : data.length = nRows * (divCeil nCols k.blockSize * k.blockBytes))
    (hrow : row < nRows) (hin : nCols ≤ input.length) {blk : ℕ}
    (hblk : blk < divCeil nCols k.blockSize) (sum : F) :
    (do
      let block ← sliceAt data (row * (divCeil nCols k.blockSize * k.blockBytes) +
        blk * k.blockBytes) k.blockBytes
      k.dotBlock nCols input block (blk * k.blockSize) sum) =
    dotWrites (k.lastColumn nCols (blk * k.blockSize)) input (blk * k.blockSize)
      (k.writes (k.blockAt data nCols row blk)) sum := by
  have hoff : blk * k.blockSize < nCols := (lt_divCeil_iff k.blockSize_pos).mp hblk
  rw [sliceAt, if_pos (Format.block_end_le hdata hrow hblk)]
  exact k.dotBlock_eq (by omega) hin _ sum

/-- **The sum of a row**: the products of the columns it takes. -/
theorem Format.dotRow_eq
    (hdata : data.length = nRows * (divCeil nCols k.blockSize * k.blockBytes))
    (hrow : row < nRows) (hin : nCols ≤ input.length) (hwidth : k.width nCols ≤ input.length) :
    k.dotRow data nCols input row =
      some (dot (k.rowWeights data nCols row) input (List.range (k.width nCols))) := by
  have hblock : ∀ sum : F, ∀ blk ∈ List.range (divCeil nCols k.blockSize), (do
      let block ← sliceAt data (row * (divCeil nCols k.blockSize * k.blockBytes) +
        blk * k.blockBytes) k.blockBytes
      k.dotBlock nCols input block (blk * k.blockSize) sum) =
      some (sum + ((List.range k.blockSize).map fun p =>
        if blk * k.blockSize + p < k.width nCols then
          (k.rowWeights data nCols row).getD (blk * k.blockSize + p) (lit 0) *
            input.getD (blk * k.blockSize + p) (lit 0)
        else 0).sum) := by
    intro sum blk hblk
    have hblk := List.mem_range.mp hblk
    rw [Format.dotRow_step hdata hrow hin hblk, dotWrites_eq, k.sum_products]
    · congr 3
      refine List.map_congr_left fun p hp => ?_
      have hp := List.mem_range.mp hp
      rw [product, Format.getD_rowWeights hblk hp]
      simp only [k.lt_lastColumn_iff hblk hp]
      rfl
    · intro write hwrite hcol
      have hcol := (k.lt_lastColumn_iff hblk (k.write_lt _ write hwrite)).mp hcol
      omega
  rw [Format.dotRow, foldlM_add hblock, ← k.divCeil_width nCols,
    sum_blocks k.blockSize_pos (k.width nCols) fun c =>
      (k.rowWeights data nCols row).getD c (lit 0) * input.getD c (lit 0)]
  exact congrArg some (zero_add _)

/-- `gemv` of `Q5_0` reads behind the end of the input when the last block does. -/
theorem Format.dotRow_none (hdata : data.length = nRows * (divCeil nCols 32 * 22))
    (hrow : row < nRows) (hin : nCols ≤ input.length)
    (hwidth : input.length < divCeil nCols 32 * 32) :
    Format.q5_0.dotRow data nCols input row = none := by
  have hpos : 0 < divCeil nCols 32 := by
    by_contra hzero
    rw [Nat.eq_zero_of_not_pos hzero, Nat.zero_mul] at hwidth
    exact Nat.not_lt_zero _ hwidth
  have hlast : divCeil nCols 32 - 1 < divCeil nCols 32 := by omega
  refine foldlM_eq_none ⟨divCeil nCols 32 - 1, List.mem_range.mpr hlast, fun sum => ?_⟩ _
  refine (Format.dotRow_step hdata hrow hin hlast sum).trans (dotWrites_none ?_ sum)
  have hmem : 31 ∈ ((Format.q5_0.writes (Format.q5_0.blockAt data nCols row
      (divCeil nCols 32 - 1)) : List (ℕ × F)).map Prod.fst) :=
    (Format.q5_0.perm_writes _).mem_iff.mpr (List.mem_range.mpr (by decide))
  obtain ⟨write, hwrite, hposition⟩ := List.mem_map.mp hmem
  refine ⟨write, hwrite, ?_, ?_⟩ <;>
    simp only [hposition, Format.lastColumn, Format.blockSize] <;> omega

theorem dot_range_add (weights input : List F) {m n : ℕ} (h : m ≤ n) :
    dot weights input (List.range n) =
      dot weights input (List.range m) + dot weights input (List.range' m (n - m)) := by
  obtain ⟨d, rfl⟩ := Nat.exists_eq_add_of_le h
  rw [List.range_add, dot, List.map_append, List.sum_append, Nat.add_sub_cancel_left,
    List.range'_eq_map_range]
  rfl

end Row

/-! ### Matrices -/

section Gemv

variable {k : Format} {quantMatrix : QuantTensor} {nRows nCols : ℕ} {input output : List F}

theorem gemv_eq_rows (hdims : quantMatrix.dims = some (nRows, nCols))
    (hin : nCols ≤ input.length) (hout : nRows ≤ output.length) :
    k.gemv quantMatrix input output =
      ((List.range nRows).mapM (k.dotRow quantMatrix.data nCols input)).map
        fun sums => .ok (sums ++ output.drop nRows) := by
  rw [Format.gemv, hdims, Option.bind_eq_bind, Option.bind_some]
  simp only [if_neg (Nat.not_lt.mpr hin), if_neg (Nat.not_lt.mpr hout), forEachRow,
    Nat.min_eq_left hout]
  cases (List.range nRows).mapM (k.dotRow quantMatrix.data nCols input) <;> rfl

/-- `gemv`, when all the columns that it takes are there. -/
theorem gemv_eq_sums (hdims : quantMatrix.dims = some (nRows, nCols))
    (hdata : quantMatrix.data.length = nRows * (divCeil nCols k.blockSize * k.blockBytes))
    (hin : nCols ≤ input.length) (hout : nRows ≤ output.length)
    (hwidth : ∀ row < nRows, k.width nCols ≤ input.length) :
    k.gemv quantMatrix input output = some (.ok (((List.range nRows).map fun row =>
      dot (k.rowWeights quantMatrix.data nCols row) input (List.range (k.width nCols))) ++
        output.drop nRows)) := by
  have hrows : ∀ row ∈ List.range nRows, k.dotRow quantMatrix.data nCols input row =
      some (dot (k.rowWeights quantMatrix.data nCols row) input (List.range (k.width nCols))) := by
    intro row hrow
    have hrow := List.mem_range.mp hrow
    exact Format.dotRow_eq hdata hrow hin (hwidth row hrow)
  rw [gemv_eq_rows hdims hin hout, mapM_of_some hrows]
  rfl

/-- The columns behind the last one count nothing. -/
theorem dot_width_iff (k : Format) (weights input : List F) (nCols : ℕ) :
    dot weights input (List.range (k.width nCols)) = dot weights input (List.range nCols) ↔
      (k = .q5_0 →
        dot weights input (List.range' nCols (divCeil nCols 32 * 32 - nCols)) = lit 0) := by
  by_cases hk : k = .q5_0
  · subst hk
    rw [Format.width, dot_range_add weights input (le_divCeil_mul (by decide)),
      ExactF32.add_eq_left_iff]
    exact ⟨fun h _ => h, fun h => h rfl⟩
  · have hwidth : k.width nCols = nCols := by
      cases k with
      | q5_0 => exact absurd rfl hk
      | _ => rfl
    rw [hwidth]
    exact iff_of_true rfl fun h => absurd h hk

/-- **`gemv` multiplies the dequantised rows with the input** if and only if it is not that of
`Q5_0`, or the input is as long as the blocks of a row and what is behind the last column
cancels. -/
theorem gemv_eq_iff (hdims : quantMatrix.dims = some (nRows, nCols))
    (hdata : quantMatrix.data.length = nRows * (divCeil nCols k.blockSize * k.blockBytes))
    (hin : nCols ≤ input.length) (hout : nRows ≤ output.length) :
    (∃ sums, k.gemv quantMatrix input output = some (.ok sums) ∧
      ∀ row < nRows, ∃ weights, k.dequantRow quantMatrix.data nCols row = .ok weights ∧
        sums[row]? = some (dot weights input (List.range nCols))) ↔
    (k = .q5_0 → ∀ row < nRows, divCeil nCols 32 * 32 ≤ input.length ∧
      ∃ weights, k.dequantRow quantMatrix.data nCols row = .ok weights ∧
        dot weights input (List.range' nCols (divCeil nCols 32 * 32 - nCols)) = lit 0) := by
  have hget : ∀ row < nRows, (((List.range nRows).map fun row =>
      dot (k.rowWeights quantMatrix.data nCols row) input (List.range (k.width nCols))) ++
        output.drop nRows)[row]? =
      some (dot (k.rowWeights quantMatrix.data nCols row) input (List.range (k.width nCols))) := by
    intro row hrow
    rw [List.getElem?_append_left (by simpa using hrow), List.getElem?_map,
      List.getElem?_range hrow]
    rfl
  constructor
  · rintro ⟨sums, hgemv, hsums⟩ rfl row hrow
    have hwidth : divCeil nCols 32 * 32 ≤ input.length := by
      by_contra hlt
      have hnone := Format.dotRow_none hdata hrow hin (Nat.not_le.mp hlt)
      rw [gemv_eq_rows hdims hin hout, mapM_eq_none (List.mem_range.mpr hrow) hnone] at hgemv
      cases hgemv
    refine ⟨hwidth, _, Format.dequantRow_eq hdata hrow, ?_⟩
    rw [gemv_eq_sums hdims hdata hin hout fun _ _ => hwidth] at hgemv
    obtain rfl := Except.ok.inj (Option.some.inj hgemv)
    obtain ⟨weights, hweights, hrowSum⟩ := hsums row hrow
    rw [Format.dequantRow_eq hdata hrow] at hweights
    obtain rfl := Except.ok.inj hweights
    rw [hget row hrow] at hrowSum
    exact (dot_width_iff .q5_0 _ input nCols).mp (Option.some.inj hrowSum) rfl
  · intro h
    have hwidth : ∀ row < nRows, k.width nCols ≤ input.length := by
      intro row hrow
      cases k with
      | q5_0 => exact (h rfl row hrow).1
      | _ => exact hin
    refine ⟨_, gemv_eq_sums hdims hdata hin hout hwidth, fun row hrow =>
      ⟨_, Format.dequantRow_eq hdata hrow, ?_⟩⟩
    rw [hget row hrow]
    refine congrArg some ((dot_width_iff k _ input nCols).mpr fun hk => ?_)
    obtain ⟨-, weights, hweights, htail⟩ := h hk row hrow
    rw [Format.dequantRow_eq hdata hrow] at hweights
    obtain rfl := Except.ok.inj hweights
    exact htail

end Gemv

end Exact

/-- One row with a single column. -/
theorem gemv_single : ∃ sums,
    Format.q8_0.gemv ⟨[0, 60, 5] ++ List.replicate 31 0, [1, 1], .q8_0⟩ [(2 : ℚ)] [0] =
      some (.ok sums) ∧
    ∀ row < 1, ∃ weights,
      Format.q8_0.dequantRow ([0, 60, 5] ++ List.replicate 31 0) 1 row = .ok weights ∧
        sums[row]? = some (dot weights [2] (List.range 1)) :=
  (gemv_eq_iff rfl rfl (by decide) (by decide)).mpr nofun

/-- A row of `Q5_0` with a single column.  All weights of its block are `-16`. -/
def oneColumn : QuantTensor := ⟨[0, 60] ++ List.replicate 20 0, [1, 1], .q5_0⟩

/-- With one input there is no result, and with 32 of them all count. -/
theorem gemv_oneColumn :
    Format.q5_0.gemv oneColumn [(1 : ℚ)] [0] = none ∧
    ¬ ∃ sums, Format.q5_0.gemv oneColumn (List.replicate 32 (1 : ℚ)) [0] = some (.ok sums) ∧
      ∀ row < 1, ∃ weights, Format.q5_0.dequantRow oneColumn.data 1 row = .ok weights ∧
        sums[row]? = some (dot weights (List.replicate 32 1) (List.range 1)) := by
  refine ⟨by decide_cbv, ?_⟩
  rintro ⟨sums, hgemv, hsums⟩
  have hvalue : Format.q5_0.gemv oneColumn (List.replicate 32 (1 : ℚ)) [0] =
      some (.ok [-512]) := by decide_cbv
  have hproduct : (Format.q5_0.dequantRow oneColumn.data 1 0).map (fun weights =>
      dot weights (List.replicate 32 (1 : ℚ)) (List.range 1)) = .ok (-16) := by decide_cbv
  obtain rfl := Except.ok.inj (Option.some.inj (hvalue.symm.trans hgemv))
  obtain ⟨weights, hweights, hsum⟩ := hsums 0 Nat.one_pos
  rw [hweights] at hproduct
  have heq : (-512 : ℚ) = -16 := (Option.some.inj hsum).trans (Except.ok.inj hproduct)
  norm_num at heq

end Quant

end Oxillama
