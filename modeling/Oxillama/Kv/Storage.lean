/-
Backing storage of the contiguous key-value cache
(`oxillama-runtime/src/kv_cache/storage.rs`).

`LayerBuf` is one layer's key or value buffer, of `f32` or of `f16` elements.
The conversions between the two are those of the `half` crate and come in as a
`Half`; elements are bit patterns.  A method that indexes a slice answers `none`
where the index is out of bounds.
-/
import Oxillama.Kv.Access
import Oxillama.Lib.RowBuffer

namespace Oxillama

namespace Kv

/-- `f16`, as its bit pattern. -/
abbrev F16 := UInt16

/-- The conversions of `half::f16`. -/
structure Half where
  fromF32 : F32 → F16
  toF32 : F16 → F32

/-- Conversions that are right on zero, the only value of a fresh buffer. -/
def Half.onZero : Half := ⟨fun _ => 0, fun _ => 0⟩

/-- `KvCacheDtype`. -/
inductive KvCacheDtype
  | f32
  | f16
  deriving DecidableEq, Repr

/-- `KvCacheDtype::as_str`. -/
def KvCacheDtype.asStr : KvCacheDtype → String
  | .f32 => "f32"
  | .f16 => "f16"

/-- `DEFAULT_BLOCK_TOKENS`. -/
def defaultBlockTokens : ℕ := 256

/-- `LayerBuf`. -/
inductive LayerBuf
  | f32 (v : List F32)
  | f16 (v : List F16)
  deriving DecidableEq, Repr

namespace LayerBuf

/-- `LayerBuf::new`. -/
def new : KvCacheDtype → LayerBuf
  | .f32 => .f32 []
  | .f16 => .f16 []

/-- The element type of a buffer. -/
def dtype : LayerBuf → KvCacheDtype
  | .f32 _ => .f32
  | .f16 _ => .f16

/-- Number of elements. -/
def len : LayerBuf → ℕ
  | .f32 v => v.length
  | .f16 v => v.length

/-- `LayerBuf::grow_to`: zeros up to `n` elements, never fewer than before. -/
def growTo (n : ℕ) : LayerBuf → LayerBuf
  | .f32 v => .f32 (v ++ List.replicate (n - v.length) 0)
  | .f16 v => .f16 (v ++ List.replicate (n - v.length) 0)

/-- `LayerBuf::write_at`. -/
def writeAt (half : Half) (offset : ℕ) (src : List F32) : LayerBuf → Option LayerBuf
  | .f32 v => if offset + src.length ≤ v.length then some (.f32 (overwrite v offset src)) else none
  | .f16 v =>
    if offset + src.length ≤ v.length then some (.f16 (overwrite v offset (src.map half.fromF32)))
    else none

/-- `LayerBuf::as_f32_prefix`. -/
def asF32Prefix (stop : ℕ) : LayerBuf → Option (List F32)
  | .f32 v => some (v.take (min stop v.length))
  | .f16 _ => none

/-- `LayerBuf::copy_f32_prefix_into` and `LayerBuf::to_f32_prefix_vec`: what the
destination holds afterwards. -/
def toF32PrefixVec (half : Half) (stop : ℕ) : LayerBuf → List F32
  | .f32 v => v.take (min stop v.length)
  | .f16 v => (v.take (min stop v.length)).map half.toF32

/-- `LayerBuf::read_row_into`: the row of `n` elements at `offset`. -/
def readRow (half : Half) (offset n : ℕ) : LayerBuf → Option (List F32)
  | .f32 v => if offset + n ≤ v.length then some ((v.drop offset).take n) else none
  | .f16 v => if offset + n ≤ v.length then some (((v.drop offset).take n).map half.toF32) else none

/-! ### What the operations do to the length and the type -/

@[simp] theorem len_new (dtype : KvCacheDtype) : (new dtype).len = 0 := by
  cases dtype <;> rfl

@[simp] theorem dtype_new (dtype : KvCacheDtype) : (new dtype).dtype = dtype := by
  cases dtype <;> rfl

@[simp] theorem len_growTo (n : ℕ) (buf : LayerBuf) : (buf.growTo n).len = max n buf.len := by
  cases buf <;> simp [growTo, len] <;> omega

@[simp] theorem dtype_growTo (n : ℕ) (buf : LayerBuf) : (buf.growTo n).dtype = buf.dtype := by
  cases buf <;> rfl

/-- A write within the buffer succeeds and keeps its length and type. -/
theorem writeAt_of_le (half : Half) {offset : ℕ} {src : List F32} {buf : LayerBuf}
    (h : offset + src.length ≤ buf.len) :
    ∃ buf', buf.writeAt half offset src = some buf' ∧ buf'.len = buf.len ∧
      buf'.dtype = buf.dtype := by
  cases buf with
  | f32 v => exact ⟨_, if_pos h, length_overwrite h, rfl⟩
  | f16 v =>
    refine ⟨_, if_pos h, ?_, rfl⟩
    rw [len, length_overwrite (by rwa [List.length_map])]
    rfl

/-- A read within the buffer succeeds and fills the row. -/
theorem readRow_of_le (half : Half) {offset n : ℕ} {buf : LayerBuf} (h : offset + n ≤ buf.len) :
    ∃ row, buf.readRow half offset n = some row ∧ row.length = n := by
  cases buf with
  | f32 v =>
    refine ⟨_, if_pos h, ?_⟩
    rw [len] at h
    simp
    omega
  | f16 v =>
    refine ⟨_, if_pos h, ?_⟩
    rw [len] at h
    simp
    omega

theorem length_toF32PrefixVec (half : Half) {stop : ℕ} {buf : LayerBuf} (h : stop ≤ buf.len) :
    (buf.toF32PrefixVec half stop).length = stop := by
  cases buf <;> simp_all [toF32PrefixVec, len]

end LayerBuf

end Kv

end Oxillama
