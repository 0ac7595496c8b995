/-
The scalar reference kernels (`oxillama-quant/src/reference/`: `q8_0.rs`, `q5_0.rs`, `q5_1.rs`,
`q2_k.rs`, `q3_k.rs`, `q4_k.rs`, `q5_k.rs`, `q6_k.rs`).

`dequant_block` writes the weights of a block to a buffer.  `gemv` decodes every block of a row
again while it multiplies with the input.  The loops are given as the writes they make, in order,
and as folds that add to `sum`; a read behind the end of a slice answers `none`.

Slices of a block have a fixed length, so a read inside of them is total.
-/
import Oxillama.Gguf.Types
import Oxillama.Lib.Scatter
import Oxillama.Quant.Q3K

namespace Oxillama

namespace Quant

open F32 (lit ofInt)

/-! ### Tensors and slices -/

/-- `QuantTensor`. -/
structure QuantTensor where
  data : List UInt8
  shape : List ℕ
  tensorType : Gguf.GgufTensorType

/-- `QuantTensor::n_elements`. -/
def QuantTensor.nElements (tensor : QuantTensor) : ℕ :=
  if tensor.shape.isEmpty then 0 else tensor.shape.prod

/-- `n_rows` and `n_cols` of a `gemv`. -/
def QuantTensor.dims (quantMatrix : QuantTensor) : Option (ℕ × ℕ) := do
  let nRows ← quantMatrix.shape[0]?
  if 1 < quantMatrix.shape.length then
    let nCols ← quantMatrix.shape[1]?
    return (nRows, nCols)
  else if nRows = 0 then none
  else return (nRows, quantMatrix.nElements / nRows)

/-- `&xs[start..]`. -/
def sliceFrom {α : Type} (xs : List α) (start : ℕ) : Option (List α) :=
  if start ≤ xs.length then some (xs.drop start) else none

/-- `&xs[start..start + len]`. -/
def sliceAt {α : Type} (xs : List α) (start len : ℕ) : Option (List α) :=
  if start + len ≤ xs.length then some ((xs.drop start).take len) else none

/-- A byte of a slice that is long enough. -/
def byteAt (bytes : List UInt8) (i : ℕ) : UInt8 := bytes.getD i 0

variable {F : Type} [F32 F]

/-- `f16_to_f32(u16::from_le_bytes([block[i], block[i + 1]]))`. -/
def f16At (block : List UInt8) (i : ℕ) : F :=
  F32.ofF16 (.ofNat (fromLe ((block.drop i).take 2)))

/-- `u32::from_le_bytes` of the four bytes at `i`. -/
def u32At (block : List UInt8) (i : ℕ) : UInt32 := .ofNat (fromLe ((block.drop i).take 4))

/-- `q as f32`, of an unsigned code. -/
def ofByte (q : UInt8) : F := ofInt (q.toNat : ℤ)

/-- `q as i8 as f32`. -/
def ofSigned (q : UInt8) : F := ofInt q.toInt8.toInt

/-! ### Loops of a kernel -/

/-- The loop that writes `n` values from `start` on. -/
def run (start n : ℕ) (value : ℕ → F) : List (ℕ × F) :=
  (List.range n).map fun l => (start + l, value l)

/-- `dequant_block`: its checks, and the writes of its loops. -/
def dequantInto (blockSize blockBytes : ℕ) (writes : List UInt8 → List (ℕ × F))
    (block : List UInt8) (output : List F) : QuantResult (List F) :=
  if block.length < blockBytes then .error (.bufferTooSmall blockBytes block.length)
  else if output.length < blockSize then .error (.bufferTooSmall blockSize output.length)
  else .ok (applyWrites (writes block) output)

/-- `sum += w * inp[c]`. -/
def accumulate (inp : List F) (c : ℕ) (w sum : F) : Option F :=
  inp[c]?.map fun x => sum + w * x

/-- `if c < cols { sum += w * inp[c] }`. -/
def accumulateIf (cols : ℕ) (inp : List F) (c : ℕ) (w sum : F) : Option F :=
  if c < cols then accumulate inp c w sum else some sum

/-- The loop that does so for `n` weights from `start` on. -/
def dotRun (cols : ℕ) (inp : List F) (start n : ℕ) (w : ℕ → F) (sum : F) : Option F :=
  (List.range n).foldlM (fun sum l => accumulateIf cols inp (start + l) (w l) sum) sum

/-! ### `Q8_0` -/

namespace Q8_0

/-- The writes of `Q8_0Ref::dequant_block`. -/
def writes (block : List UInt8) : List (ℕ × F) :=
  let d := f16At block 0
  run 0 32 fun i => ofSigned (byteAt block (2 + i)) * d

/-- `Q8_0Ref::gemv` on a block. -/
def dotBlock (nCols : ℕ) (input : List F) (block : List UInt8) (inputOffset : ℕ) (sum : F) :
    Option F :=
  let d := f16At block 0
  dotRun nCols input inputOffset 32 (fun i => ofSigned (byteAt block (2 + i)) * d) sum

end Q8_0

/-! ### `Q5_0` and `Q5_1` -/

/-- `((qh >> i) & 1) as u8`. -/
def highBit (qh : UInt32) (i : ℕ) : UInt8 := ((qh >>> UInt32.ofNat i) &&& 1).toUInt8

namespace Q5_0

/-- The writes of `Q5_0Ref::dequant_block`. -/
def writes (block : List UInt8) : List (ℕ × F) :=
  let d := f16At block 0
  let qh := u32At block 2
  let qs := (block.drop 6).take 16
  (List.range 16).flatMap fun i =>
    let loNibble := byteAt qs i &&& 0x0F
    let hiNibble := (byteAt qs i >>> 4) &&& 0x0F
    let q0 : ℤ := (loNibble ||| (highBit qh i <<< 4)).toNat - 16
    let q1 : ℤ := (hiNibble ||| (highBit qh (i + 16) <<< 4)).toNat - 16
    [(i, d * ofInt q0), (i + 16, d * ofInt q1)]

/-- `Q5_0Ref::gemv` on a block: no column is left out. -/
def dotBlock (input : List F) (block : List UInt8) (inputOffset : ℕ) (sum : F) : Option F := do
  let d := f16At block 0
  let qh := u32At block 2
  let qs := (block.drop 6).take 16
  let inp ← sliceFrom input inputOffset
  (List.range 16).foldlM (fun sum i => do
    let loNibble := byteAt qs i &&& 0x0F
    let hiNibble := byteAt qs i >>> 4
    let q0 : ℤ := (loNibble ||| (highBit qh i <<< 4)).toNat - 16
    let q1 : ℤ := (hiNibble ||| (highBit qh (i + 16) <<< 4)).toNat - 16
    let sum ← accumulate inp i (d * ofInt q0) sum
    accumulate inp (i + 16) (d * ofInt q1) sum) sum

end Q5_0

namespace Q5_1

/-- The writes of `Q5_1Ref::dequant_block`. -/
def writes (block : List UInt8) : List (ℕ × F) :=
  let d := f16At block 0
  let m := f16At block 2
  let qh := u32At block 4
  let qs := (block.drop 8).take 16
  (List.range 16).flatMap fun i =>
    let loNibble := byteAt qs i &&& 0x0F
    let hiNibble := (byteAt qs i >>> 4) &&& 0x0F
    let q0 : F := ofByte (loNibble ||| (highBit qh i <<< 4))
    let q1 : F := ofByte (hiNibble ||| (highBit qh (i + 16) <<< 4))
    [(i, d * q0 + m), (i + 16, d * q1 + m)]

/-- `if c < n_remaining { sum += w * inp[c]; input_sum += inp[c] }`. -/
def accumulateBoth (nRemaining : ℕ) (inp : List F) (c : ℕ) (w : F) (sums : F × F) :
    Option (F × F) :=
  if c < nRemaining then inp[c]?.map fun x => (sums.1 + w * x, sums.2 + x) else some sums

/-- `Q5_1Ref::gemv` on a block: the minimum is multiplied with the sum of the inputs. -/
def dotBlock (nCols : ℕ) (input : List F) (block : List UInt8) (inputOffset : ℕ) (sum : F) :
    Option F := do
  let d := f16At block 0
  let m := f16At block 2
  let qh := u32At block 4
  let qs := (block.drop 8).take 16
  let nRemaining := min (nCols - inputOffset) 32
  let inp ← sliceAt input inputOffset nRemaining
  let sums ← (List.range 16).foldlM (fun sums i => do
    let loNibble := byteAt qs i &&& 0x0F
    let hiNibble := byteAt qs i >>> 4
    let q0 : F := ofByte (loNibble ||| (highBit qh i <<< 4))
    let q1 : F := ofByte (hiNibble ||| (highBit qh (i + 16) <<< 4))
    let sums ← accumulateBoth nRemaining inp i (d * q0) sums
    accumulateBoth nRemaining inp (i + 16) (d * q1) sums) (sum, lit 0)
  return sums.1 + m * sums.2

end Q5_1

/-! ### `Q2_K` -/

namespace Q2K

/-- The offsets into `qs` and the shifts of the two loops. -/
def steps : List (ℕ × ℕ) :=
  [0, 32].flatMap fun qsOff => [0, 2, 4, 6].map fun shift => (qsOff, shift)

/-- The loops of `Q2KRef::dequant_block`, from a sub-block and an output position on. -/
def loopWrites (scales qs : List UInt8) (d dmin : F) :
    List (ℕ × ℕ) → ℕ → ℕ → List (ℕ × F)
  | [], _, _ => []
  | (qsOff, shift) :: rest, is, outOff =>
    let scByte := byteAt scales is
    let dl := d * ofByte (scByte &&& 0x0F)
    let ml := dmin * ofByte (scByte >>> 4)
    let scByte' := byteAt scales (is + 1)
    let dl' := d * ofByte (scByte' &&& 0x0F)
    let ml' := dmin * ofByte (scByte' >>> 4)
    run outOff 16 (fun l =>
        dl * ofByte ((byteAt qs (qsOff + l) >>> UInt8.ofNat shift) &&& 3) - ml) ++
      run (outOff + 16) 16 (fun l =>
        dl' * ofByte ((byteAt qs (qsOff + 16 + l) >>> UInt8.ofNat shift) &&& 3) - ml') ++
      loopWrites scales qs d dmin rest (is + 2) (outOff + 32)

/-- The writes of `Q2KRef::dequant_block`. -/
def writes (block : List UInt8) : List (ℕ × F) :=
  loopWrites (block.take 16) ((block.drop 16).take 64) (f16At block 80) (f16At block 82) steps 0 0

/-- The loops of `Q2KRef::gemv` on a block. -/
def loopDot (scales qs : List UInt8) (d dmin : F) (colsInBlock : ℕ) (inp : List F) :
    List (ℕ × ℕ) → ℕ → ℕ → F → Option F
  | [], _, _, sum => some sum
  | (qsOff, shift) :: rest, is, inOff, sum => do
    let scByte := byteAt scales is
    let dl := d * ofByte (scByte &&& 0x0F)
    let ml := dmin * ofByte (scByte >>> 4)
    let sum ← dotRun colsInBlock inp inOff 16 (fun l =>
      dl * ofByte ((byteAt qs (qsOff + l) >>> UInt8.ofNat shift) &&& 3) - ml) sum
    let scByte := byteAt scales (is + 1)
    let dl := d * ofByte (scByte &&& 0x0F)
    let ml := dmin * ofByte (scByte >>> 4)
    let sum ← dotRun colsInBlock inp (inOff + 16) 16 (fun l =>
      dl * ofByte ((byteAt qs (qsOff + 16 + l) >>> UInt8.ofNat shift) &&& 3) - ml) sum
    loopDot scales qs d dmin colsInBlock inp rest (is + 2) (inOff + 32) sum

/-- `Q2KRef::gemv` on a block. -/
def dotBlock (nCols : ℕ) (input : List F) (block : List UInt8) (inputOffset : ℕ) (sum : F) :
    Option F := do
  let inp ← sliceFrom input inputOffset
  loopDot (block.take 16) ((block.drop 16).take 64) (f16At block 80) (f16At block 82)
    (min (nCols - inputOffset) 256) inp steps 0 0 sum

end Q2K

/-! ### `Q3_K` -/

namespace Q3K

/-- The groups and shifts of the two loops. -/
def steps : List (ℕ × ℕ) :=
  (List.range 2).flatMap fun group => [0, 2, 4, 6].map fun shift => (group, shift)

/-- The innermost loop of `Q3KRef::gemv`. -/
def dotSub (hmask qs : List UInt8) (dl : F) (group shift n : ℕ) (mBit : UInt8) (colsInBlock : ℕ)
    (inp : List F) (inOff : ℕ) (sum : F) : Option F :=
  dotRun colsInBlock inp inOff 16 (fun l =>
    let qsIdx := group * 32 + n * 16 + l
    let qLo : ℤ := ((byteAt qs qsIdx >>> UInt8.ofNat shift) &&& 3).toNat
    let subtract : ℤ := if byteAt hmask (n * 16 + l) &&& mBit ≠ 0 then 0 else 4
    dl * ofInt (qLo - subtract)) sum

/-- The loops of `Q3KRef::gemv` on a block. -/
def loopDot (hmask qs : List UInt8) (d : F) (sc : List F) (colsInBlock : ℕ) (inp : List F) :
    List (ℕ × ℕ) → ℕ → UInt8 → ℕ → F → Option F
  | [], _, _, _, sum => some sum
  | (group, shift) :: rest, is, mBit, inOff, sum => do
    let sum ← dotSub hmask qs (d * sc.getD is (lit 0)) group shift 0 mBit colsInBlock inp inOff sum
    let sum ← dotSub hmask qs (d * sc.getD (is + 1) (lit 0)) group shift 1 mBit colsInBlock inp
      (inOff + 16) sum
    loopDot hmask qs d sc colsInBlock inp rest (is + 2) (mBit <<< 1) (inOff + 32) sum

/-- `Q3KRef::gemv` on a block. -/
def dotBlock (nCols : ℕ) (input : List F) (block : List UInt8) (inputOffset : ℕ) (sum : F) :
    Option F := do
  let inp ← sliceFrom input inputOffset
  loopDot (block.take 32) ((block.drop 32).take 64) (f16At block 108)
    (decodeScales ((block.drop 96).take 12)) (min (nCols - inputOffset) 256) inp steps 0 1 0 sum

end Q3K

/-! ### `Q4_K` and `Q5_K` -/

/-- `decode_scales_mins`: the scales and the minima of eight sub-blocks.  Both kernels have a copy
of it. -/
def decodeScalesMins (scalesRaw : List UInt8) : List UInt8 × List UInt8 :=
  let byte := byteAt scalesRaw
  ((List.range 4).map (fun j => byte j &&& 0x3F) ++
      (List.range 4).map (fun j =>
        (byte (j + 8) &&& (0x0F : UInt8)) ||| (((byte j >>> 6) &&& 0x03) <<< 4)),
    (List.range 4).map (fun j => byte (j + 4) &&& 0x3F) ++
      (List.range 4).map (fun j =>
        ((byte (j + 8) >>> 4) &&& (0x0F : UInt8)) ||| (((byte (j + 4) >>> 6) &&& 0x03) <<< 4)))

namespace Q4K

/-- The loop over groups of `Q4KRef::dequant_block`, from a sub-block and its positions on. -/
def loopWrites (qs sc mn : List UInt8) (d dmin : F) : ℕ → ℕ → ℕ → ℕ → List (ℕ × F)
  | 0, _, _, _ => []
  | groups + 1, is, qsOffset, outOffset =>
    let d1 := d * ofByte (byteAt sc is)
    let m1 := dmin * ofByte (byteAt mn is)
    let d2 := d * ofByte (byteAt sc (is + 1))
    let m2 := dmin * ofByte (byteAt mn (is + 1))
    run outOffset 32 (fun l => d1 * ofByte (byteAt qs (qsOffset + l) &&& 0x0F) - m1) ++
      run (outOffset + 32) 32 (fun l =>
        d2 * ofByte ((byteAt qs (qsOffset + l) >>> 4) &&& 0x0F) - m2) ++
      loopWrites qs sc mn d dmin groups (is + 2) (qsOffset + 32) (outOffset + 64)

/-- The writes of `Q4KRef::dequant_block`. -/
def writes (block : List UInt8) : List (ℕ × F) :=
  let (sc, mn) := decodeScalesMins ((block.drop 4).take 12)
  loopWrites ((block.drop 16).take 128) sc mn (f16At block 0) (f16At block 2) 4 0 0 0

/-- The loop over groups of `Q4KRef::gemv`, which counts columns of the whole row. -/
def loopDot (qs sc mn : List UInt8) (d dmin : F) (nCols : ℕ) (input : List F) :
    ℕ → ℕ → ℕ → ℕ → F → Option F
  | 0, _, _, _, sum => some sum
  | groups + 1, is, qsOff, wOff, sum => do
    let d1 := d * ofByte (byteAt sc is)
    let m1 := dmin * ofByte (byteAt mn is)
    let d2 := d * ofByte (byteAt sc (is + 1))
    let m2 := dmin * ofByte (byteAt mn (is + 1))
    let sum ← dotRun nCols input wOff 32 (fun l =>
      d1 * ofByte (byteAt qs (qsOff + l) &&& 0x0F) - m1) sum
    let sum ← dotRun nCols input (wOff + 32) 32 (fun l =>
      d2 * ofByte ((byteAt qs (qsOff + l) >>> 4) &&& 0x0F) - m2) sum
    loopDot qs sc mn d dmin nCols input groups (is + 2) (qsOff + 32) (wOff + 64) sum

/-- `Q4KRef::gemv` on a block. -/
def dotBlock (nCols : ℕ) (input : List F) (block : List UInt8) (inputOffset : ℕ) (sum : F) :
    Option F :=
  let (sc, mn) := decodeScalesMins ((block.drop 4).take 12)
  loopDot ((block.drop 16).take 128) sc mn (f16At block 0) (f16At block 2) nCols input 4 0 0
    inputOffset sum

end Q4K

namespace Q5K

/-- The loop over groups of `Q5KRef::dequant_block`. -/
def loopWrites (qh qs sc mn : List UInt8) (d dmin : F) : List ℕ → ℕ → ℕ → ℕ → List (ℕ × F)
  | [], _, _, _ => []
  | group :: groups, is, qsOffset, outOffset =>
    let d1 := d * ofByte (byteAt sc is)
    let m1 := dmin * ofByte (byteAt mn is)
    let d2 := d * ofByte (byteAt sc (is + 1))
    let m2 := dmin * ofByte (byteAt mn (is + 1))
    run outOffset 32 (fun l =>
        let qhBit := (byteAt qh l >>> UInt8.ofNat (2 * group)) &&& 1
        d1 * ofByte ((byteAt qs (qsOffset + l) &&& (0x0F : UInt8)) ||| (qhBit <<< 4)) - m1) ++
      run (outOffset + 32) 32 (fun l =>
        let qhBit := (byteAt qh l >>> UInt8.ofNat (2 * group + 1)) &&& 1
        d2 * ofByte (((byteAt qs (qsOffset + l) >>> 4) &&& (0x0F : UInt8)) ||| (qhBit <<< 4)) -
          m2) ++
      loopWrites qh qs sc mn d dmin groups (is + 2) (qsOffset + 32) (outOffset + 64)

/-- The writes of `Q5KRef::dequant_block`. -/
def writes (block : List UInt8) : List (ℕ × F) :=
  let (sc, mn) := decodeScalesMins ((block.drop 4).take 12)
  loopWrites ((block.drop 16).take 32) ((block.drop 48).take 128) sc mn (f16At block 0)
    (f16At block 2) [0, 1, 2, 3] 0 0 0

/-- `Q5KRef::dequant_block`. -/
def dequantBlock (block : List UInt8) (output : List F) : QuantResult (List F) :=
  dequantInto 256 176 writes block output

end Q5K

/-! ### `Q6_K` -/

namespace Q6K

/-- The writes of `Q6KRef::dequant_block`. -/
def writes (block : List UInt8) : List (ℕ × F) :=
  let ql := byteAt (block.take 128)
  let qh := byteAt ((block.drop 128).take 64)
  let scales := byteAt ((block.drop 192).take 16)
  let d := f16At block 208
  (List.range 2).flatMap fun group =>
    let qlOff := group * 64
    let qhOff := group * 32
    let scOff := group * 8
    let outOff := group * 128
    (List.range 32).flatMap fun l =>
      let is := l / 16
      let q1 : ℤ :=
        ((ql (qlOff + l) &&& (0x0F : UInt8)) ||| ((qh (qhOff + l) &&& 3) <<< 4)).toNat - 32
      let q2 : ℤ :=
        ((ql (qlOff + l + 32) &&& (0x0F : UInt8)) |||
          (((qh (qhOff + l) >>> 2) &&& 3) <<< 4)).toNat - 32
      let q3 : ℤ := ((ql (qlOff + l) >>> 4) ||| (((qh (qhOff + l) >>> 4) &&& 3) <<< 4)).toNat - 32
      let q4 : ℤ :=
        ((ql (qlOff + l + 32) >>> 4) ||| (((qh (qhOff + l) >>> 6) &&& 3) <<< 4)).toNat - 32
      let s0 := ofSigned (scales (scOff + is))
      let s1 := ofSigned (scales (scOff + is + 2))
      let s2 := ofSigned (scales (scOff + is + 4))
      let s3 := ofSigned (scales (scOff + is + 6))
      [(outOff + l, d * s0 * ofInt q1), (outOff + l + 32, d * s1 * ofInt q2),
        (outOff + l + 64, d * s2 * ofInt q3), (outOff + l + 96, d * s3 * ofInt q4)]

/-- `Q6KRef::gemv` on a block. -/
def dotBlock (nCols : ℕ) (input : List F) (block : List UInt8) (inputOffset : ℕ) (sum : F) :
    Option F := do
  let ql := byteAt (block.take 128)
  let qh := byteAt ((block.drop 128).take 64)
  let scales := byteAt ((block.drop 192).take 16)
  let d := f16At block 208
  let inp ← sliceFrom input inputOffset
  let colsInBlock := min (nCols - inputOffset) 256
  (List.range 2).foldlM (fun sum group =>
    let qlOff := group * 64
    let qhOff := group * 32
    let scOff := group * 8
    let inOff := group * 128
    (List.range 32).foldlM (fun sum l => do
      let is := l / 16
      let q1 : ℤ :=
        ((ql (qlOff + l) &&& (0x0F : UInt8)) ||| ((qh (qhOff + l) &&& 3) <<< 4)).toNat - 32
      let q2 : ℤ :=
        ((ql (qlOff + l + 32) &&& (0x0F : UInt8)) |||
          (((qh (qhOff + l) >>> 2) &&& 3) <<< 4)).toNat - 32
      let q3 : ℤ := ((ql (qlOff + l) >>> 4) ||| (((qh (qhOff + l) >>> 4) &&& 3) <<< 4)).toNat - 32
      let q4 : ℤ :=
        ((ql (qlOff + l + 32) >>> 4) ||| (((qh (qhOff + l) >>> 6) &&& 3) <<< 4)).toNat - 32
      let s0 := d * ofSigned (scales (scOff + is))
      let s1 := d * ofSigned (scales (scOff + is + 2))
      let s2 := d * ofSigned (scales (scOff + is + 4))
      let s3 := d * ofSigned (scales (scOff + is + 6))
      let sum ← accumulateIf colsInBlock inp (inOff + l) (s0 * ofInt q1) sum
      let sum ← accumulateIf colsInBlock inp (inOff + l + 32) (s1 * ofInt q2) sum
      let sum ← accumulateIf colsInBlock inp (inOff + l + 64) (s2 * ofInt q3) sum
      accumulateIf colsInBlock inp (inOff + l + 96) (s3 * ofInt q4) sum) sum) sum

end Q6K

/-! ### The kernels -/

/-- The formats with a fused `gemv` of their own. -/
inductive Format
  | q8_0
  | q5_0
  | q5_1
  | q2K
  | q3K
  | q4K
  | q6K
  deriving DecidableEq, Repr

namespace Format

/-- `block_size`. -/
def blockSize : Format → ℕ
  | .q8_0 | .q5_0 | .q5_1 => 32
  | .q2K | .q3K | .q4K | .q6K => 256

/-- `block_bytes`. -/
def blockBytes : Format → ℕ
  | .q8_0 => 34
  | .q5_0 => 22
  | .q5_1 => 24
  | .q2K => 84
  | .q3K => 110
  | .q4K => 144
  | .q6K => 210

/-- `dequant_block`.  (That of `Q3_K` fills the buffer from the front.) -/
def dequantBlock (k : Format) (block : List UInt8) (output : List F) : QuantResult (List F) :=
  match k with
  | .q8_0 => dequantInto 32 34 Q8_0.writes block output
  | .q5_0 => dequantInto 32 22 Q5_0.writes block output
  | .q5_1 => dequantInto 32 24 Q5_1.writes block output
  | .q2K => dequantInto 256 84 Q2K.writes block output
  | .q3K => do
    let values ← Q3K.dequantBlock block output.length
    return values ++ output.drop 256
  | .q4K => dequantInto 256 144 Q4K.writes block output
  | .q6K => dequantInto 256 210 Q6K.writes block output

/-- What `gemv` does with a block that starts at a column. -/
def dotBlock (k : Format) (nCols : ℕ) (input : List F) (block : List UInt8) (inputOffset : ℕ)
    (sum : F) : Option F :=
  match k with
  | .q8_0 => Q8_0.dotBlock nCols input block inputOffset sum
  | .q5_0 => Q5_0.dotBlock input block inputOffset sum
  | .q5_1 => Q5_1.dotBlock nCols input block inputOffset sum
  | .q2K => Q2K.dotBlock nCols input block inputOffset sum
  | .q3K => Q3K.dotBlock nCols input block inputOffset sum
  | .q4K => Q4K.dotBlock nCols input block inputOffset sum
  | .q6K => Q6K.dotBlock nCols input block inputOffset sum

/-- The closure that `gemv` hands to `for_each_row`. -/
def dotRow (k : Format) (data : List UInt8) (nCols : ℕ) (input : List F) (row : ℕ) : Option F :=
  let blocksPerRow := divCeil nCols k.blockSize
  let rowBytes := blocksPerRow * k.blockBytes
  (List.range blocksPerRow).foldlM (fun sum blk => do
    let block ← sliceAt data (row * rowBytes + blk * k.blockBytes) k.blockBytes
    k.dotBlock nCols input block (blk * k.blockSize) sum) (lit 0)

end Format

/-- `QuantError`, the part of it that `gemv` raises. -/
inductive GemvError
  | dimensionMismatch (expected got : ℕ)
  deriving DecidableEq, Repr

/-- `for_each_row`: the rows are independent, and those behind the output are not visited. -/
def forEachRow (output : List F) (nRows : ℕ) (rowFn : ℕ → Option F) : Option (List F) := do
  let n := min nRows output.length
  let sums ← (List.range n).mapM rowFn
  return sums ++ output.drop n

/-- `gemv`. -/
def Format.gemv (k : Format) (quantMatrix : QuantTensor) (input output : List F) :
    Option (Except GemvError (List F)) := do
  let (nRows, nCols) ← quantMatrix.dims
  if input.length < nCols then return .error (.dimensionMismatch nCols input.length)
  else if output.length < nRows then return .error (.dimensionMismatch nRows output.length)
  else
    let output ← forEachRow output nRows (k.dotRow quantMatrix.data nCols input)
    return .ok output

end Quant

end Oxillama
