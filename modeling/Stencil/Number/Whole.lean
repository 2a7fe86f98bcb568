/-
  Whole numbers inside floating point: rounding to a whole number, remainders, and reading a
  number as a count or an index.
-/
import Stencil.Number.Binary

namespace Stencil.Number

/-! ## Rounding to a whole number -/

/-- The whole part of `mantissa · 2 ^ exponent`. -/
def wholePart (mantissa : Nat) (exponent : Int) : Nat :=
  if 0 ≤ exponent then mantissa <<< exponent.toNat else mantissa >>> (-exponent).toNat

/-- Rounded toward zero; the sign of a zero is that of the number. -/
def trunc (x : Float) : Float :=
  match parts x with
  | .finite negative mantissa exponent =>
    if 0 ≤ exponent then x else compose negative (wholePart mantissa exponent) 0
  | _ => x

def floor (x : Float) : Float :=
  let t := trunc x
  if x < t then t - 1.0 else t

def ceil (x : Float) : Float :=
  let t := trunc x
  if t < x then t + 1.0 else t

/-- To the nearest whole number, a half upward. -/
def roundHalfUp (x : Float) : Float :=
  let below := floor x
  if x - below ≥ 0.5 then below + 1.0 else below

/-- Whether the number is finite and has no fraction. -/
def isWhole (x : Float) : Bool :=
  match parts x with
  | .finite _ mantissa exponent => 0 ≤ exponent || mantissa % twoTo (-exponent).toNat == 0
  | _ => false

/-! ## Numbers as integers -/

/-- A number without its fraction. -/
inductive Rounded where
  | nan
  | infinite (negative : Bool)
  | whole (n : Int)
  deriving DecidableEq, Repr

/-- The number rounded toward zero. -/
def rounded (x : Float) : Rounded :=
  match parts x with
  | .nan => .nan
  | .infinite negative => .infinite negative
  | .finite negative mantissa exponent =>
    let n : Int := wholePart mantissa exponent
    .whole (if negative then -n else n)

/-- The number as a position in a sequence of `length` items: it must be whole and in range. -/
def index? (length : Nat) (x : Float) : Option Nat :=
  if isWhole x then
    match rounded x with
    | .whole n => if 0 ≤ n ∧ n < length then some n.toNat else none
    | _ => none
  else none

/-- The number as a bound of a cut out of `length` items: a negative one counts from the end, and
    what lies outside goes to the nearer end. -/
def bound (length : Nat) (x : Float) : Nat :=
  match rounded x with
  | .nan => 0
  | .infinite negative => if negative then 0 else length
  | .whole n => if n < 0 then (length + n).toNat else min n.toNat length

theorem bound_le (length : Nat) (x : Float) : bound length x ≤ length := by
  unfold bound
  split
  · exact Nat.zero_le _
  · split <;> omega
  · split <;> omega

theorem index?_lt {length i : Nat} {x : Float} (h : index? length x = some i) : i < length := by
  unfold index? at h
  split at h
  · split at h
    · split at h
      · simp only [Option.some.injEq] at h; omega
      · exact absurd h (by simp)
    · exact absurd h (by simp)
  · exact absurd h (by simp)

/-! ## Remainders -/

/-- What is left of `x` after taking `y` as often as possible toward zero, computed exactly; the
    sign is that of `x`. -/
def remainder (x y : Float) : Float :=
  match parts x, parts y with
  | .finite negative m q, .finite _ n r =>
    if n = 0 then nan
    else
      -- both over the same power of two, the remainder is one of natural numbers
      let least := min q r
      compose negative ((m <<< (q - least).toNat) % (n <<< (r - least).toNat)) least
  | .finite .., .infinite _ => x
  | _, _ => nan

/-- A count as a number. -/
def ofCount (n : Nat) : Float := Float.ofNat n

example : trunc (-0.5) = -0.0 := by decide +kernel
example : floor (-2.5) = -3.0 := by decide +kernel
example : roundHalfUp (-2.5) = -2.0 := by decide +kernel
example : remainder (-5.5) 2.0 = -1.5 := by decide +kernel
example : bound 5 (-2.0) = 3 := by decide +kernel
example : index? 3 1.5 = none := by decide +kernel

end Stencil.Number
