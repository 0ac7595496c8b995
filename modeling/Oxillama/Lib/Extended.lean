/-
A field with infinities and a number that is none.

`Extended α` computes on the numbers of an ordered field as `f32` does on its own,
without rounding and with one zero.  The exponential and the square root of the
field are a parameter, and no exponential is cut off.

* `num_add`, `num_mul`, … — on numbers, the operations are those of the field;
* `foldl_add_num` — a sum of numbers is a number.
-/
import Mathlib.Algebra.BigOperators.Fin
import Mathlib.Algebra.Order.Field.Basic
import Oxillama.Lib.F32

namespace Oxillama

/-- An exponential and a square root. -/
class RealExp (α : Type) where
  exp : α → α
  sqrt : α → α

/-- A number, an infinity, or neither. -/
inductive Extended (α : Type)
  | nan
  | negInf
  | num (a : α)
  | posInf

namespace Extended

variable {α : Type} [Field α] [LinearOrder α]

/-- An infinity with the sign of a number. -/
def infOf (a : α) : Extended α := if a < 0 then negInf else if a = 0 then nan else posInf

protected def neg : Extended α → Extended α
  | nan => nan
  | negInf => posInf
  | num a => num (-a)
  | posInf => negInf

protected def add : Extended α → Extended α → Extended α
  | nan, _ | _, nan => nan
  | num a, num b => num (a + b)
  | posInf, negInf | negInf, posInf => nan
  | posInf, _ | _, posInf => posInf
  | negInf, _ | _, negInf => negInf

protected def mul : Extended α → Extended α → Extended α
  | nan, _ | _, nan => nan
  | num a, num b => num (a * b)
  | num a, posInf | posInf, num a => infOf a
  | num a, negInf | negInf, num a => infOf (-a)
  | posInf, posInf | negInf, negInf => posInf
  | posInf, negInf | negInf, posInf => negInf

protected def div : Extended α → Extended α → Extended α
  | nan, _ | _, nan => nan
  | num a, num b => if b = 0 then infOf a else num (a / b)
  | num _, _ => num 0
  | posInf, num b => if b < 0 then negInf else posInf
  | negInf, num b => if b < 0 then posInf else negInf
  | _, _ => nan

protected def lt : Extended α → Extended α → Bool
  | nan, _ | _, nan => false
  | _, negInf => false
  | negInf, _ => true
  | posInf, _ => false
  | num _, posInf => true
  | num a, num b => decide (a < b)

/-- Whether two numbers are equal; `nan` is equal to nothing. -/
protected def beq : Extended α → Extended α → Bool
  | num a, num b => decide (a = b)
  | negInf, negInf | posInf, posInf => true
  | _, _ => false

/-- The larger one, or the one that is a number. -/
protected def max : Extended α → Extended α → Extended α
  | nan, y => y
  | x, nan => x
  | x, y => if x.lt y then y else x

variable [RealExp α]

protected def exp : Extended α → Extended α
  | nan => nan
  | negInf => num 0
  | num a => num (RealExp.exp a)
  | posInf => posInf

protected def sqrt : Extended α → Extended α
  | nan | negInf => nan
  | num a => if a < 0 then nan else num (RealExp.sqrt a)
  | posInf => posInf

instance : ExpF32 (Extended α) where
  add := Extended.add
  sub x y := x.add y.neg
  mul := Extended.mul
  div := Extended.div
  beq := Extended.beq
  zero := num 0
  one := num 1
  negInf := negInf
  cutoff := negInf
  ofNat n := num n
  lt := Extended.lt
  le x y := x.lt y || x.beq y
  max := Extended.max
  exp := Extended.exp
  sqrt := Extended.sqrt

/-! ### Numbers -/

variable (a b : α)

@[simp] theorem zero_eq : (ExpF32.zero : Extended α) = num 0 := rfl

@[simp] theorem negInf_eq : (ExpF32.negInf : Extended α) = negInf := rfl

@[simp] theorem num_add : num a + num b = num (a + b) := rfl

@[simp] theorem num_mul : num a * num b = num (a * b) := rfl

@[simp] theorem num_sub : num a - num b = num (a - b) := by
  show num (a + -b) = num (a - b)
  rw [sub_eq_add_neg]

@[simp] theorem negInf_sub_num : negInf - num b = (negInf : Extended α) := rfl

theorem num_div (hb : b ≠ 0) : num a / num b = num (a / b) := if_neg hb

@[simp] theorem exp_num : ExpF32.exp (num a) = num (RealExp.exp a) := rfl

@[simp] theorem exp_negInf : ExpF32.exp (negInf : Extended α) = num 0 := rfl

/-- No exponential is cut off. -/
@[simp] theorem lt_cutoff (x : Extended α) : ExpF32.lt x ExpF32.cutoff = false := by
  cases x <;> rfl

@[simp] theorem lt_num : ExpF32.lt (num a) (num b) = decide (a < b) := rfl

@[simp] theorem negInf_lt_num : ExpF32.lt negInf (num b) = true := rfl

theorem lt_negInf (x : Extended α) : ExpF32.lt x negInf = false := by
  cases x <;> rfl

@[simp] theorem num_le_negInf : ExpF32.le (num a) negInf = false := rfl

@[simp] theorem negInf_le_negInf : ExpF32.le (negInf : Extended α) negInf = true := rfl

@[simp] theorem num_beq : (num a == num b) = decide (a = b) := rfl

/-- A sum of numbers is a number. -/
theorem foldl_add_num (xs : List α) :
    (xs.map num).foldl (· + ·) (num a) = num (a + xs.sum) := by
  induction xs generalizing a with
  | nil => rw [List.sum_nil, add_zero]; rfl
  | cons x xs ih =>
    rw [List.map_cons, List.foldl_cons, num_add, ih, List.sum_cons, add_assoc]

end Extended

end Oxillama
