/-
Tiled flash attention (`oxillama-runtime/src/flash_attention.rs`).

Two kernels stream over the keys and values in tiles and keep, for every query row, a
running maximum, a running sum and an accumulator.  They differ in where the
query rows are among the keys; `attendTiles` is both.  The rows of a tile do not
read each other, so that the loops over them are one map.

A loop whose block size is zero does not end: it has no result.
-/
import Oxillama.Lib.F32
import Oxillama.Lib.RowBuffer
import Oxillama.Lib.While

namespace Oxillama

namespace Runtime

open ExpF32 (zero one negInf cutoff lt le)

/-- `RuntimeError`, the part of it that attention raises. -/
inductive RuntimeError
  | attentionError (message : String)
  deriving DecidableEq, Repr

/-- What a kernel ends with, when it ends. -/
abbrev Kernel (α : Type) := ExceptT RuntimeError Option α

/-- An `AttentionError`. -/
def fail {α : Type} (message : String) : Kernel α := throw (.attentionError message)

/-- `FlashAttentionConfig`. -/
structure FlashAttentionConfig (F : Type) where
  blockSizeQ : ℕ
  blockSizeKv : ℕ
  scale : Option F
  causal : Bool

variable {F : Type} [ExpF32 F]

/-- `resolve_scale`. -/
def resolveScale (config : FlashAttentionConfig F) (headDim : ℕ) : F :=
  config.scale.getD (one / ExpF32.sqrt (ExpF32.ofNat headDim))

/-! ### The tiles -/

/-- The inputs of a kernel. -/
structure Inputs (F : Type) where
  query : List F
  key : List F
  value : List F
  seqLenQ : ℕ
  seqLenKv : ℕ
  headDim : ℕ
  scale : F
  causal : Bool
  /-- The position of the first query row among the keys. -/
  qOffset : ℕ

/-- The running statistics of a query row. -/
structure RowState (F : Type) where
  rowMax : F
  rowSum : F
  outAcc : List F

/-- A row before its first tile. -/
def RowState.init (headDim : ℕ) : RowState F := ⟨negInf, zero, List.replicate headDim zero⟩

namespace Inputs

/-- The product of a query row and a key row. -/
def dot (x : Inputs F) (row col : ℕ) : F :=
  (List.range x.headDim).foldl (fun acc d =>
    acc + x.query.getD (row * x.headDim + d) zero * x.key.getD (col * x.headDim + d) zero) zero

/-- The row of the score tile for a query row, with `-inf` where it is masked. -/
def scores (x : Inputs F) (row j tileCols : ℕ) : List F :=
  (List.range tileCols).map fun ci =>
    if x.causal && decide (j + ci > x.qOffset + row) then negInf else x.dot row (j + ci) * x.scale

/-- What a tile does to a row: the new maximum, the probabilities, the correction of what
was summed so far, and the sums. -/
def updateRow (x : Inputs F) (j : ℕ) (s : List F) (st : RowState F) : RowState F :=
  let tileMax := s.foldl (fun m v => if lt m v then v else m) negInf
  let newMax := ExpF32.max st.rowMax tileMax
  let p := s.map fun s =>
    let v := s - newMax
    if lt v cutoff then zero else ExpF32.exp v
  let diff := st.rowMax - newMax
  let correction := if lt diff cutoff || le diff negInf then zero else ExpF32.exp diff
  let rowSum := st.rowSum * correction + p.foldl (· + ·) zero
  let outAcc := p.zipIdx.foldl (fun acc (pVal, ci) =>
      -- a probability of zero is skipped
      if pVal != zero then
        acc.mapIdx fun d a => a + pVal * x.value.getD ((j + ci) * x.headDim + d) zero
      else acc)
    (st.outAcc.map (· * correction))
  ⟨newMax, rowSum, outAcc⟩

/-- A tile of keys for a tile of query rows. -/
def kvTile (x : Inputs F) (bc i tileRows j : ℕ) (rows : List (RowState F)) :
    Option (List (RowState F)) :=
  -- every column of the tile is masked for every row
  if x.causal && decide (j > x.qOffset + i + tileRows - 1) then some rows
  else
    let tileCols := min bc (x.seqLenKv - j)
    some (rows.mapIdx fun ri st => x.updateRow j (x.scores (i + ri) j tileCols) st)

/-- The tiles of keys for a tile of query rows. -/
def attendRows (x : Inputs F) (bc i tileRows : ℕ) : Option (List (RowState F)) :=
  whileBelow x.seqLenKv bc (x.kvTile bc i tileRows)
    (List.replicate tileRows (.init x.headDim))

/-- A row of the output. -/
def normalize (st : RowState F) : List F :=
  let denom := if st.rowSum == zero then one else st.rowSum
  st.outAcc.map (· / denom)

/-- A tile of query rows. -/
def qTile (x : Inputs F) (br bc i : ℕ) (output : List F) : Option (List F) := do
  let tileRows := min br (x.seqLenQ - i)
  let rows ← x.attendRows bc i tileRows
  return rows.zipIdx.foldl (fun output (st, ri) =>
    overwrite output ((i + ri) * x.headDim) (normalize st)) output

/-- Both kernels: the output after all tiles of query rows. -/
def attendTiles (x : Inputs F) (br bc : ℕ) (output : List F) : Option (List F) :=
  whileBelow x.seqLenQ br (x.qTile br bc) output

end Inputs

/-! ### One head, and groups of heads -/

/-- `validate_single_head`. -/
def validateSingleHead (query key value output : List F) (seqLen headDim : ℕ) :
    Except RuntimeError Unit :=
  let expected := seqLen * headDim
  let tooSmall := fun (name : String) (xs : List F) => RuntimeError.attentionError
    (name ++ " length " ++ toString xs.length ++ " too small for seq_len=" ++ toString seqLen ++
      " head_dim=" ++ toString headDim)
  if query.length < expected then .error (tooSmall "query" query)
  else if key.length < expected then .error (tooSmall "key" key)
  else if value.length < expected then .error (tooSmall "value" value)
  else if output.length < expected then .error (tooSmall "output" output)
  else if seqLen = 0 || headDim = 0 then
    .error (.attentionError "seq_len and head_dim must be > 0")
  else .ok ()

/-- `flash_attention`: the output it leaves. -/
def flashAttention (query key value output : List F) (seqLen headDim : ℕ)
    (config : FlashAttentionConfig F) : Kernel (List F) := do
  ExceptT.mk (some (validateSingleHead query key value output seqLen headDim))
  let scale := resolveScale config headDim
  let br := min config.blockSizeQ seqLen
  let bc := min config.blockSizeKv seqLen
  ExceptT.lift (Inputs.attendTiles ⟨query, key, value, seqLen, seqLen, headDim, scale,
    config.causal, 0⟩ br bc output)

/-- `flash_attention_gqa`: the output it leaves. -/
def flashAttentionGqa (query key value output : List F) (numQHeads numKvHeads seqLen headDim : ℕ)
    (config : FlashAttentionConfig F) : Kernel (List F) := do
  if numKvHeads = 0 then fail "num_kv_heads must be > 0"
  if ¬ numKvHeads ∣ numQHeads then
    fail ("num_q_heads (" ++ toString numQHeads ++ ") must be divisible by num_kv_heads (" ++
      toString numKvHeads ++ ")")
  let headSize := seqLen * headDim
  let qTotal := numQHeads * headSize
  let kvTotal := numKvHeads * headSize
  let tooSmall := fun (name : String) (xs : List F) (heads : ℕ) (kind : String) =>
    name ++ " length " ++ toString xs.length ++ " too small for " ++ toString heads ++ " " ++
      kind ++ " heads × seq_len=" ++ toString seqLen ++ " × head_dim=" ++ toString headDim
  if query.length < qTotal then fail (tooSmall "query" query numQHeads "Q")
  if key.length < kvTotal then fail (tooSmall "key" key numKvHeads "KV")
  if value.length < kvTotal then fail (tooSmall "value" value numKvHeads "KV")
  if output.length < qTotal then fail (tooSmall "output" output numQHeads "Q")
  let groupSize := numQHeads / numKvHeads
  let heads := (List.range numKvHeads).flatMap fun kvH =>
    (List.range groupSize).map fun g => (kvH, kvH * groupSize + g)
  heads.foldlM (fun output (kvH, qH) => do
    let out ← flashAttention (row headSize query qH) (row headSize key kvH)
      (row headSize value kvH) (row headSize output qH) seqLen headDim config
    return overwrite output (qH * headSize) out) output

/-! ### All heads, with keys from a cache -/

/-- `BQ`. -/
def bq : ℕ := 64

/-- `BK`. -/
def bk : ℕ := 64

/-- The loops that turn `[a, b, headDim]` into `[b, a, headDim]`. -/
def transposeRows (a b headDim : ℕ) (x : List F) : List F :=
  let pairs := (List.range a).flatMap fun i => (List.range b).map fun j => (i, j)
  pairs.foldl (fun acc (i, j) =>
      overwrite acc (j * a * headDim + i * headDim) ((x.drop (i * b * headDim + j * headDim)).take
        headDim))
    (List.replicate (b * a * headDim) zero)

/-- `flash_attention_forward_single_head`: the output it leaves. -/
def flashAttentionForwardSingleHead (q k v output : List F) (seqLenQ seqLenKv headDim : ℕ)
    (softmaxScale : F) (causalMask : Bool) : Option (List F) :=
  let br := min bq seqLenQ
  let bc := min bk seqLenKv
  let qOffset := seqLenKv - seqLenQ
  Inputs.attendTiles ⟨q, k, v, seqLenQ, seqLenKv, headDim, softmaxScale, causalMask, qOffset⟩ br bc
    output

/-- `flash_attention_forward`. -/
def flashAttentionForward (q k v : List F) (numHeads headDim : ℕ) (softmaxScale : F)
    (causalMask : Bool) : Kernel (List F) := do
  if numHeads = 0 || headDim = 0 then fail "num_heads and head_dim must be > 0"
  let notDivisible := fun (name : String) (xs : List F) =>
    name ++ " length " ++ toString xs.length ++ " is not divisible by num_heads * head_dim = " ++
      toString (numHeads * headDim)
  if ¬ numHeads * headDim ∣ q.length then fail (notDivisible "q" q)
  if ¬ numHeads * headDim ∣ k.length then fail (notDivisible "k" k)
  if k.length ≠ v.length then
    fail ("k length " ++ toString k.length ++ " and v length " ++ toString v.length ++
      " must match")
  let seqLenQ := q.length / (numHeads * headDim)
  let seqLenKv := k.length / (numHeads * headDim)
  if seqLenQ = 0 || seqLenKv = 0 then fail "seq_len_q and seq_len_kv must be > 0"
  let qHead := transposeRows seqLenQ numHeads headDim q
  let kHead := transposeRows seqLenKv numHeads headDim k
  let vHead := transposeRows seqLenKv numHeads headDim v
  let qStride := seqLenQ * headDim
  let kvStride := seqLenKv * headDim
  let outHead ← ExceptT.lift ((List.range numHeads).foldlM (fun outHead h => do
      let out ← flashAttentionForwardSingleHead (row qStride qHead h) (row kvStride kHead h)
        (row kvStride vHead h) (row qStride outHead h) seqLenQ seqLenKv headDim softmaxScale
        causalMask
      return overwrite outHead (h * qStride) out)
    (List.replicate (numHeads * seqLenQ * headDim) zero))
  return transposeRows numHeads seqLenQ headDim outHead

end Runtime

end Oxillama
