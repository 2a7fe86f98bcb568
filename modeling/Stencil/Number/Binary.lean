/-
  A double-precision number taken apart exactly and put together again.

  A finite number is ± mantissa · 2 ^ exponent.  `parts` reads these three from the bits and
  `compose` writes them back, so that every rule of this folder can be carried out on natural
  numbers, without rounding.
-/

namespace Stencil.Number

/-- What a double-precision number is. -/
inductive Parts where
  | nan
  | infinite (negative : Bool)
  /-- The value ± `mantissa` · 2 ^ `exponent`; the sign of zero is kept. -/
  | finite (negative : Bool) (mantissa : Nat) (exponent : Int)
  deriving DecidableEq, Repr

def twoTo (n : Nat) : Nat := Nat.pow 2 n

/-- The bits of the fraction, below the exponent. -/
def fractionBits : Nat := 52

/-- The first bit of the mantissa of a normal number, which its bits leave out. -/
def leadingBit : Nat := twoTo fractionBits

def signBit : Nat := twoTo 63

/-- The exponent of the last place of every number below the normal ones. -/
def leastExponent : Int := -1074

def parts (x : Float) : Parts :=
  let bits := x.toBits.toNat
  let negative := signBit ≤ bits
  let exponent : Nat := bits / leadingBit % 2048
  let fraction : Nat := bits % leadingBit
  if exponent = 2047 then
    if fraction = 0 then .infinite negative else .nan
  else if exponent = 0 then .finite negative fraction leastExponent
  else .finite negative (fraction + leadingBit) ((exponent : Int) + leastExponent - 1)

/-- The number ± `mantissa` · 2 ^ `exponent`, for a value that is a double-precision number. -/
def compose (negative : Bool) (mantissa : Nat) (exponent : Int) : Float :=
  let sign := if negative then signBit else 0
  if mantissa = 0 then Float.ofBits (UInt64.ofNat sign)
  else
    let shift := (fractionBits : Int) - (mantissa.log2 : Int)
    let shift := if exponent - shift < leastExponent then exponent - leastExponent else shift
    let exponent := exponent - shift
    let mantissa := if 0 ≤ shift then mantissa <<< shift.toNat else mantissa >>> (-shift).toNat
    let magnitude :=
      if mantissa < leadingBit then mantissa
      else (exponent - leastExponent + 1).toNat * leadingBit + (mantissa - leadingBit)
    Float.ofBits (UInt64.ofNat (sign + magnitude))

def nan : Float := 0.0 / 0.0

def infinity : Float := 1.0 / 0.0

example : parts 1.5 = .finite false (3 * twoTo 51) (-52) := by decide +kernel
example : parts infinity = .infinite false := by decide +kernel
example : parts (-0.0) = .finite true 0 (-1074) := by decide +kernel
example : compose true 3 (-1) = -1.5 := by decide +kernel
example : compose false 1 (-1074) = Float.ofBits 1 := by decide +kernel

end Stencil.Number
