/-
The convolution of Mamba-2 (`oxillama-arch/src/mamba2/conv.rs`, `mamba2/state.rs`).

Buffers are row-major.  The lengths of the buffers are checked, or asked of the
caller, before they are indexed, and an index is read with a default.
-/
import Mathlib.Data.Int.Notation
import Oxillama.Lib.RowBuffer
import Oxillama.Lib.Usize

namespace Oxillama

namespace Arch

/-- The numbers of a convolution, uninterpreted. -/
class ConvF32 (α : Type) extends Add α, Mul α, Div α, Neg α, Zero α where
  one : α
  exp : α → α

/-- `ArchError`, the part of it that the convolution raises. -/
inductive ConvError
  | invalidShape (name : String) (expected got : List ℕ)
  | invalidConfig (detail : String)
  deriving DecidableEq, Repr

/-! ### The ring -/

/-- `ConvRing`.  Row `0` of the buffer is the oldest position. -/
@[ext]
structure ConvRing (α : Type) where
  buf : List α
  convDim : ℕ
  width : ℕ
  length_buf : buf.length = width * convDim

/-- A buffer that is filled row by row. -/
def fillRows {α : Type} (rows channels : ℕ) (value : ℕ → ℕ → α) : List α :=
  (List.range rows).flatMap fun r => (List.range channels).map (value r)

@[simp]
theorem length_fillRows {α : Type} (rows channels : ℕ) (value : ℕ → ℕ → α) :
    (fillRows rows channels value).length = rows * channels :=
  length_flatMap_rows fun r _ => by rw [List.length_map, List.length_range]

namespace ConvRing

variable {α : Type} [ConvF32 α]

/-- `ConvRing::new`. -/
def new (convDim dConv : ℕ) : ConvRing α where
  buf := List.replicate ((dConv - 1) * convDim) 0
  convDim := convDim
  width := dConv - 1
  length_buf := List.length_replicate

/-- `ConvRing::clear`. -/
def clear (ring : ConvRing α) : ConvRing α where
  buf := List.replicate ring.buf.length 0
  convDim := ring.convDim
  width := ring.width
  length_buf := List.length_replicate.trans ring.length_buf

/-- `ConvRing::get`. -/
def get (ring : ConvRing α) (slot ch : ℕ) : α :=
  if slot ≥ ring.width ∨ ch ≥ ring.convDim then 0
  else ring.buf.getD (slot * ring.convDim + ch) 0

/-- `ConvRing::push_window`. -/
def pushWindow (ring : ConvRing α) (x : List α) (seqLen : ℕ) : Except ConvError (ConvRing α) :=
  match checkedMul seqLen ring.convDim with
  | none => .error (.invalidShape "mamba2.conv_ring.input" [2 ^ 64 - 1] [x.length])
  | some expected =>
    if x.length ≠ expected then
      .error (.invalidShape "mamba2.conv_ring.input" [seqLen, ring.convDim] [x.length])
    else if ring.width = 0 then .ok ring
    else .ok
      { buf := fillRows ring.width ring.convDim fun slot ch =>
          let idx := slot + seqLen
          if idx < ring.width then ring.buf.getD (idx * ring.convDim + ch) 0
          else x.getD ((idx - ring.width) * ring.convDim + ch) 0
        convDim := ring.convDim
        width := ring.width
        length_buf := length_fillRows _ _ _ }

end ConvRing

/-! ### The convolution -/

section Conv

variable {α : Type} [ConvF32 α] (x weight bias : List α)

/-- `sigmoid`. -/
def sigmoid (x : α) : α := ConvF32.one / (ConvF32.one + ConvF32.exp (-x))

/-- `conv1d_depthwise`. -/
def conv1dDepthwise (seqLen dInner dConv : ℕ) : List α :=
  fillRows seqLen dInner fun t i =>
    let acc := (List.range dConv).foldl (fun acc (k : ℕ) =>
      let src : ℤ := t - (dConv - 1) + k
      if src ≥ 0 then acc + weight.getD (i * dConv + k) 0 * x.getD (src.toNat * dInner + i) 0
      else acc) (bias.getD i 0)
    acc * sigmoid acc

/-- The tap of `conv1d_depthwise_stateful` at a time relative to the chunk. -/
def tapSample (ring : ConvRing α) (channels ch : ℕ) (time : ℤ) : α :=
  if time ≥ 0 then x.getD (time.toNat * channels + ch) 0
  else ring.get (ring.width + time).toNat ch

/-- `shape_err`. -/
def convShapeErr {β : Type} (what : String) (expected : List ℕ) (got : ℕ) : Except ConvError β :=
  .error (.invalidShape ("mamba2.conv1d." ++ what) expected [got])

/-- `conv1d_depthwise_stateful`: the output, and what it leaves of the ring. -/
def conv1dDepthwiseStateful (ring : ConvRing α) (seqLen channels dConv : ℕ) :
    Except ConvError (List α × ConvRing α) :=
  if dConv = 0 then .error (.invalidConfig "mamba2.conv1d: d_conv must be >= 1")
  else if x.length ≠ seqLen * channels then
    convShapeErr "input" [seqLen, channels] x.length
  else if weight.length ≠ channels * dConv then
    convShapeErr "weight" [channels, dConv] weight.length
  else if bias.length ≠ channels then convShapeErr "bias" [channels] bias.length
  else if ring.convDim ≠ channels ∨ ring.width ≠ dConv - 1 then
    convShapeErr "state" [dConv - 1, channels] (ring.width * ring.convDim)
  else do
    let out := fillRows seqLen channels fun t ch =>
      let acc := (List.range dConv).foldl (fun acc (k : ℕ) =>
        let time : ℤ := t - (dConv - 1) + k
        acc + weight.getD (ch * dConv + k) 0 * tapSample x ring channels ch time) (bias.getD ch 0)
      acc * sigmoid acc
    let ring ← ring.pushWindow x seqLen
    return (out, ring)

end Conv

end Arch

end Oxillama
