/-
  The shortest decimal that reads back as a given binary number.

  Around the value m · 2 ^ q lies the interval of reals that round to it; its ends belong to it
  when m is even.  For 1, 2, … 17 digits the two neighbours of the value on the decimal grid of
  that many digits are tried, and the first grid with a neighbour inside the interval wins.  Of two
  neighbours inside, the nearer is taken, and `tie` decides between equally near ones.
-/
import Stencil.Number.Binary
import Stencil.Number.Decimal

namespace Stencil.Number

/-- Which of two equally near neighbours is taken. -/
inductive Tie where
  | up
  | toEven
  deriving DecidableEq, Repr

namespace Shortest

/-- A positive value and the interval that rounds to it, over one denominator. -/
structure Target where
  low : Nat
  value : Nat
  high : Nat
  den : Nat
  /-- Whether the ends of the interval round to the value. -/
  closed : Bool

/-- The interval of `mantissa · 2 ^ exponent`.  Below a power of two the next number is only half
    as far away. -/
def target (mantissa : Nat) (exponent : Int) : Target :=
  let atPower := mantissa = leadingBit ∧ leastExponent < exponent
  -- four times the value, so that half and quarter steps are whole
  let scale := twoTo (exponent - 2).toNat
  { low := (4 * mantissa - if atPower then 1 else 2) * scale
    value := 4 * mantissa * scale
    high := (4 * mantissa + 2) * scale
    den := twoTo (2 - exponent).toNat
    closed := mantissa % 2 == 0 }

/-- Whether `n · 10 ^ power` lies in the interval. -/
def Target.accepts (t : Target) (n : Nat) (power : Int) : Bool :=
  let left := n * tenTo power.toNat * t.den
  let unit := tenTo (-power).toNat
  if t.closed then t.low * unit ≤ left && left ≤ t.high * unit
  else t.low * unit < left && left < t.high * unit

/-- The power of ten of the value's first digit. -/
def Target.order (t : Target) : Int :=
  -- log10 2 is nearly 0.30103, so the guess is off by one at most
  let guess := ((t.value.log2 : Int) - (t.den.log2 : Int)) * 30103 / 100000
  let reaches (e : Int) := tenTo e.toNat * t.den ≤ t.value * tenTo (-e).toNat
  if reaches (guess + 1) then guess + 1 else if reaches guess then guess else guess - 1

/-- The neighbour of the value on the grid of `10 ^ power` that lies in the interval, if any. -/
def Target.onGrid (tie : Tie) (t : Target) (power : Int) : Option Decimal :=
  let num := t.value * tenTo (-power).toNat
  let den := t.den * tenTo power.toNat
  let below := num / den
  let twice := 2 * (num % den)
  let nearerAbove : Bool :=
    match tie with
    | .up => den ≤ twice
    | .toEven => den < twice || (twice == den && below % 2 == 1)
  let lowIn := t.accepts below power
  let highIn := t.accepts (below + 1) power
  if lowIn && highIn then some ⟨if nearerAbove then below + 1 else below, power⟩
  else if lowIn then some ⟨below, power⟩
  else if highIn then some ⟨below + 1, power⟩
  else none

/-- Try the grids from `power` down, at most `grids` of them. -/
def Target.search (tie : Tie) (t : Target) : Nat → Int → Option Decimal
  | 0, _ => none
  | grids + 1, power =>
    match t.onGrid tie power with
    | some d => some d
    | none => t.search tie grids (power - 1)

end Shortest

/-- The shortest decimal that reads back as `mantissa · 2 ^ exponent`. -/
def shortest (tie : Tie) (mantissa : Nat) (exponent : Int) : Decimal :=
  if mantissa = 0 then ⟨0, 0⟩
  else
    let t := Shortest.target mantissa exponent
    match t.search tie 18 t.order with
    | some d => d.normalize
    | none => ⟨0, 0⟩

example : shortest .up 3602879701896397 (-55) = ⟨1, -1⟩ := by decide +kernel
example : shortest .up 1 (-1074) = ⟨5, -324⟩ := by decide +kernel
example : shortest .up 9007199254740991 971 = ⟨17976931348623157, 292⟩ := by decide +kernel
example : shortest .up 4503599627370496 (-77) = ⟨29802322387695313, -24⟩ := by decide +kernel

end Stencil.Number
