/-
The operations of `f32` and `f16`, uninterpreted.

Kernels compute on a type with these operations.  What is proved of them holds
whatever the operations do, rounding included; where an operation has to be
known, it is a hypothesis.
-/
import Mathlib.Data.Rat.Defs

namespace Oxillama

/-- A type of floating-point numbers. -/
class F32 (F : Type) extends Add F, Sub F, Mul F, Div F, BEq F where
  /-- A literal. -/
  lit : ℚ → F
  /-- `n as f32`. -/
  ofInt : ℤ → F
  /-- `x as i32`. -/
  toInt : F → ℤ
  /-- `x < y`. -/
  lt : F → F → Bool
  abs : F → F
  max : F → F → F
  round : F → F
  /-- `f32::to_bits`. -/
  toBits : F → UInt32
  /-- `f32::from_bits`. -/
  ofBits : UInt32 → F
  /-- `f16::from_f32(x).to_bits()`. -/
  toF16 : F → UInt16
  /-- `f16::from_bits(bits).to_f32()`. -/
  ofF16 : UInt16 → F

/-- A type of floating-point numbers with an exponential. -/
class ExpF32 (F : Type) extends Add F, Sub F, Mul F, Div F, BEq F where
  zero : F
  one : F
  /-- `f32::NEG_INFINITY`. -/
  negInf : F
  /-- `-88.0`, below which kernels take an exponential to be zero. -/
  cutoff : F
  /-- `n as f32`. -/
  ofNat : ℕ → F
  /-- `x < y`. -/
  lt : F → F → Bool
  /-- `x <= y`. -/
  le : F → F → Bool
  max : F → F → F
  exp : F → F
  sqrt : F → F

end Oxillama
