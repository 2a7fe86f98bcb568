/-
  A number written with a fixed count of decimal places, rounded from its exact value; a tie goes
  to the even digit.
-/
import Stencil.Number.Binary
import Stencil.Number.Decimal

namespace Stencil.Number

/-- `num / den` to the nearest whole number, a tie to the even one. -/
def roundDiv (num den : Nat) : Nat :=
  let below := num / den
  let twice := 2 * (num % den)
  if den < twice || (twice == den && below % 2 == 1) then below + 1 else below

/-- The digits of `n` with the last `places` of them behind a point. -/
def withPlaces (n places : Nat) : List Char :=
  if places = 0 then Decimal.digitsOf n
  else
    let ds := Decimal.digitsOf n
    let ds := List.replicate (places + 1 - ds.length) '0' ++ ds
    ds.take (ds.length - places) ++ '.' :: ds.drop (ds.length - places)

/-- The number with `places` decimal places; a negative one keeps its sign even where all of its
    digits are zero. -/
def fixed (places : Nat) (x : Float) : String :=
  match parts x with
  | .nan => "NaN"
  | .infinite negative => if negative then "-inf" else "inf"
  | .finite negative mantissa exponent =>
    let n := roundDiv (mantissa * twoTo exponent.toNat * tenTo places) (twoTo (-exponent).toNat)
    String.ofList ((if negative then ['-'] else []) ++ withPlaces n places)

/-- Rounding is off by half a unit at most. -/
theorem roundDiv_error (num den : Nat) (h : 0 < den) :
    2 * num ≤ 2 * (roundDiv num den * den) + den ∧ 2 * (roundDiv num den * den) ≤ 2 * num + den := by
  have hmod : num % den < den := Nat.mod_lt _ h
  have hdiv : num / den * den + num % den = num := by rw [Nat.mul_comm]; exact Nat.div_add_mod num den
  unfold roundDiv
  simp only [Bool.or_eq_true, Bool.and_eq_true, decide_eq_true_eq, beq_iff_eq]
  split
  · rw [Nat.add_mul, Nat.one_mul]; omega
  · omega

example : fixed 2 1.005 = "1.00" := by decide +kernel
example : fixed 0 2.5 = "2" := by decide +kernel
example : fixed 2 (-0.001) = "-0.00" := by decide +kernel

end Stencil.Number
