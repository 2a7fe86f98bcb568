/-
  Decimal numbers written out: a whole number of digits times a power of ten.

  Two notations: `positional` writes every place down to the point, `scientific` puts the point
  behind the first digit and names the power of ten.
-/

namespace Stencil

def tenTo (n : Nat) : Nat := Nat.pow 10 n

/-- The value `digits` · 10 ^ `exponent`. -/
structure Decimal where
  digits : Nat
  exponent : Int
  deriving DecidableEq, Repr

namespace Decimal

/-- The digits of a number, in base ten. -/
def digitsOf (n : Nat) : List Char := Nat.toDigits 10 n

/-- Without zeros at the end of the digits. -/
def normalize (d : Decimal) : Decimal := go (digitsOf d.digits).length d
where
  go : Nat → Decimal → Decimal
    | 0, d => d
    | fuel + 1, d =>
      if d.digits ≠ 0 ∧ d.digits % 10 = 0 then go fuel ⟨d.digits / 10, d.exponent + 1⟩ else d

/-- Every digit down to the point, and those after it if there are any. -/
def positional (d : Decimal) : List Char :=
  let ds := digitsOf d.digits
  if 0 ≤ d.exponent then ds ++ List.replicate d.exponent.toNat '0'
  else
    let places := (-d.exponent).toNat
    if places < ds.length then
      ds.take (ds.length - places) ++ '.' :: ds.drop (ds.length - places)
    else ['0', '.'] ++ List.replicate (places - ds.length) '0' ++ ds

/-- The power of ten of the first digit. -/
def order (d : Decimal) : Int := d.exponent + ((digitsOf d.digits).length : Int) - 1

/-- An integer with its minus sign. -/
def signed (n : Int) : List Char :=
  if n < 0 then '-' :: digitsOf n.natAbs else digitsOf n.natAbs

/-- One digit, the other digits behind a point, and the power of ten with its sign behind `e`. -/
def scientific (d : Decimal) : List Char :=
  let mantissa :=
    match digitsOf d.digits with
    | first :: second :: others => first :: '.' :: second :: others
    | ds => ds
  mantissa ++ 'e' :: if d.order < 0 then signed d.order else '+' :: signed d.order

example : positional ⟨1234, -2⟩ = ['1', '2', '.', '3', '4'] := by decide +kernel
example : positional ⟨5, -3⟩ = ['0', '.', '0', '0', '5'] := by decide +kernel
example : scientific ⟨15, 20⟩ = ['1', '.', '5', 'e', '+', '2', '1'] := by decide +kernel
example : normalize ⟨1200, 0⟩ = ⟨12, 2⟩ := by decide +kernel

end Decimal

end Stencil
