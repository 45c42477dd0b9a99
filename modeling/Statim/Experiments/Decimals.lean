import Statim.Experiments.Values
import Statim.Support.DecimalText

/-!
# Exact decimals

Numbers read as exact decimals: the arithmetic of the scripts is that of the rationals, and
a number is written with at most fifteen significant digits.
-/

namespace Statim.Experiments

open Support

namespace Number

/-- The value of a number. -/
def value : Number ℚ → ℚ
  | int n => n
  | float x => x

/-- An operation that keeps integers. -/
def lift (f : ℤ → ℤ → ℤ) (g : ℚ → ℚ → ℚ) : Number ℚ → Number ℚ → Number ℚ
  | int m, int n => int (f m n)
  | x, y => float (g x.value y.value)

theorem value_lift {f : ℤ → ℤ → ℤ} {g : ℚ → ℚ → ℚ} (h : ∀ m n : ℤ, (f m n : ℚ) = g m n)
    (x y : Number ℚ) : (lift f g x y).value = g x.value y.value := by
  cases x with
  | float x => rfl
  | int m =>
      cases y with
      | float y => rfl
      | int n => exact h m n

end Number

instance : FloatArithmetic ℚ where
  literal := id
  isfinite _ := true
  le x y := x.value ≤ y.value
  add := Number.lift (· + ·) (· + ·)
  sub := Number.lift (· - ·) (· - ·)
  mul := Number.lift (· * ·) (· * ·)
  div x y := .float (x.value / y.value)
  round x := .int (DecimalText.roundHalfEven x.value)
  isclose x y tolerance := |x.value - y.value| ≤ tolerance
  format x := DecimalText.general 15 x.value
  parse := DecimalText.read

namespace Number

@[simp] theorem value_int (n : ℤ) : (int n : Number ℚ).value = n := rfl

@[simp] theorem value_float (x : ℚ) : (float x).value = x := rfl

theorem value_mul (x y : Number ℚ) : (FloatArithmetic.mul x y).value = x.value * y.value :=
  value_lift Int.cast_mul x y

end Number

end Statim.Experiments
