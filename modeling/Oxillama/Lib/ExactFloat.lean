/-
Finite floating-point numbers, as rationals with a signed zero, and exact arithmetic.

Bit patterns are read and written as in `binary32` and `binary16`, to the nearest
number with ties to even; the arithmetic itself does not round.

`ExactF32` is any type of numbers with the laws of sums and products; the rationals
are one.
-/
import Mathlib.Algebra.Order.Floor.Ring
import Mathlib.Data.Rat.Floor
import Oxillama.Lib.F32

namespace Oxillama

/-! ### Bit patterns -/

/-- `2 ^ k`. -/
def twoPow (k : ℤ) : ℚ := if 0 ≤ k then ((2 ^ k.toNat : ℕ) : ℚ) else 1 / ((2 ^ (-k).toNat : ℕ) : ℚ)

/-- The exponent of a positive number. -/
def exponentOf (q : ℚ) : ℤ :=
  let k := (q.num.toNat.log2 : ℤ) - q.den.log2
  if twoPow k ≤ q then k else k - 1

/-- The nearest integer, with ties to even. -/
def nearestEven (q : ℚ) : ℤ :=
  if q - q.floor < 1 / 2 then q.floor
  else if 1 / 2 < q - q.floor then q.floor + 1
  else if q.floor % 2 = 0 then q.floor else q.floor + 1

/-- The bits of a number with `p` bits of fraction and exponents from `-emax + 1`. -/
def encodeMag (p : ℕ) (emax : ℤ) (q : ℚ) : ℕ :=
  if q = 0 then 0
  else
    let e := max (1 - emax) (exponentOf q)
    -- a fraction that rounds up carries into the exponent
    min ((2 * emax.toNat + 1) * 2 ^ p)
      ((e + emax - 1).toNat * 2 ^ p + (nearestEven (q / twoPow (e - p))).toNat)

/-- The number with the given bits. -/
def decodeMag (p : ℕ) (emax : ℤ) (bits : ℕ) : ℚ :=
  let e := bits / 2 ^ p
  let m := bits % 2 ^ p
  if e = 0 then m * twoPow (1 - emax - p) else (2 ^ p + m : ℕ) * twoPow (e - emax - p)

/-! ### Numbers -/

/-- A sign and an absolute value. -/
structure ExactFloat where
  neg : Bool
  mag : ℚ
  deriving DecidableEq

namespace ExactFloat

/-- The number itself. -/
def toRat (x : ExactFloat) : ℚ := if x.neg then -x.mag else x.mag

/-- A number, with a positive zero. -/
def ofRat (q : ℚ) : ExactFloat := ⟨decide (q < 0), |q|⟩

/-- The number closest to zero of those with the same fraction. -/
def trunc (q : ℚ) : ℤ := if q < 0 then q.ceil else q.floor

instance : F32 ExactFloat where
  add x y := ofRat (x.toRat + y.toRat)
  sub x y := ofRat (x.toRat - y.toRat)
  mul x y := ⟨x.neg ^^ y.neg, x.mag * y.mag⟩
  div x y := ⟨x.neg ^^ y.neg, x.mag / y.mag⟩
  beq x y := x.toRat == y.toRat
  lit := ofRat
  ofInt n := ofRat n
  toInt x := max (-2 ^ 31) (min (2 ^ 31 - 1) (trunc x.toRat))
  lt x y := decide (x.toRat < y.toRat)
  abs x := ⟨false, x.mag⟩
  max x y := if x.toRat < y.toRat then y else x
  round x := ⟨x.neg, (x.mag + 1 / 2).floor⟩
  toBits x := .ofNat (encodeMag 23 127 x.mag + if x.neg then 2 ^ 31 else 0)
  ofBits bits := ⟨decide (2 ^ 31 ≤ bits.toNat), decodeMag 23 127 (bits.toNat % 2 ^ 31)⟩
  toF16 x := .ofNat (encodeMag 10 15 x.mag + if x.neg then 2 ^ 15 else 0)
  ofF16 bits := ⟨decide (2 ^ 15 ≤ bits.toNat), decodeMag 10 15 (bits.toNat % 2 ^ 15)⟩

end ExactFloat

/-! ### Exact arithmetic -/

/-- A type of numbers whose sums and products are exact. -/
class ExactF32 (F : Type) extends F32 F where
  zero_add : ∀ a : F, lit 0 + a = a
  add_comm : ∀ a b : F, a + b = b + a
  add_assoc : ∀ a b c : F, a + b + c = a + (b + c)
  add_sub_cancel_left : ∀ a b : F, a + b - a = b
  add_mul : ∀ a b c : F, (a + b) * c = a * c + b * c
  mul_add : ∀ a b c : F, a * (b + c) = a * b + a * c

namespace ExactF32

open F32 (lit)

variable {F : Type} [ExactF32 F]

instance (priority := low) : Zero F := ⟨lit 0⟩

instance (priority := low) : AddCommMonoid F where
  add_assoc := add_assoc
  zero_add := zero_add
  add_zero a := (add_comm a (lit 0)).trans (zero_add a)
  add_comm := add_comm
  nsmul := nsmulRec

theorem lit_zero : (lit 0 : F) = 0 := rfl

/-- Adding nothing. -/
theorem add_eq_left_iff {a b : F} : a + b = a ↔ b = 0 := by
  constructor
  · intro h
    have hb := add_sub_cancel_left a b
    have hzero := add_sub_cancel_left a (lit 0)
    rw [h] at hb
    rw [show a + lit 0 = a from (add_comm a (lit 0)).trans (zero_add a)] at hzero
    rw [← hb, hzero]
    rfl
  · rintro rfl
    exact (add_comm a (lit 0)).trans (zero_add a)

theorem mul_zero (a : F) : a * 0 = 0 := by
  refine (add_eq_left_iff (a := a * 0)).mp ?_
  rw [← mul_add]
  exact congrArg (a * ·) (zero_add (lit 0))

theorem mul_sum (a : F) (xs : List F) : a * xs.sum = (xs.map (a * ·)).sum := by
  induction xs with
  | nil => exact mul_zero a
  | cons x xs ih => rw [List.sum_cons, mul_add, ih, List.map_cons, List.sum_cons]

end ExactF32

/-- Bit patterns apart, rationals compute exactly. -/
instance : ExactF32 ℚ where
  add := (· + ·)
  sub := (· - ·)
  mul := (· * ·)
  div := (· / ·)
  beq x y := x == y
  lit := id
  ofInt n := n
  toInt x := F32.toInt (ExactFloat.ofRat x)
  lt x y := decide (x < y)
  abs x := |x|
  max x y := Max.max x y
  round x := (F32.round (ExactFloat.ofRat x)).toRat
  toBits x := F32.toBits (ExactFloat.ofRat x)
  ofBits bits := (F32.ofBits bits : ExactFloat).toRat
  toF16 x := F32.toF16 (ExactFloat.ofRat x)
  ofF16 bits := (F32.ofF16 bits : ExactFloat).toRat
  zero_add := zero_add
  add_comm := add_comm
  add_assoc := add_assoc
  add_sub_cancel_left := add_sub_cancel_left
  add_mul := add_mul
  mul_add := mul_add

end Oxillama
