/-
  Decimal numerals: an optional sign, digits with an optional point among them or before them, and
  an optional power of ten.

  `Numeral.read?` reads the longest numeral at the start of a text, `Numeral.toFloat` is the
  nearest double-precision number.
-/
import Stencil.Number.Binary

namespace Stencil

/-- A numeral as written: `[-]whole.fractionE[-]power`. -/
structure Numeral where
  negative : Bool
  whole : List Char
  fraction : List Char
  powerNegative : Bool
  power : List Char
  deriving DecidableEq, Repr

namespace Numeral

/-- The number that a row of decimal digits stands for. -/
def natOfDigits (ds : List Char) : Nat :=
  ds.foldl (fun n d => 10 * n + (d.toNat - '0'.toNat)) 0

/-- The nearest double-precision number, a tie to the even mantissa; too large a numeral is an
    infinity. -/
def toFloat (n : Numeral) : Float :=
  let power : Int := natOfDigits n.power
  let exponent := (if n.powerNegative then -power else power) - (n.fraction.length : Int)
  let magnitude :=
    Float.ofScientific (natOfDigits (n.whole ++ n.fraction)) (decide (exponent < 0)) exponent.natAbs
  if n.negative then -magnitude else magnitude

/-- The digits at the start of a text, and the rest. -/
def digits (text : List Char) : List Char × List Char :=
  (text.takeWhile Char.isDigit, text.dropWhile Char.isDigit)

/-- An optional sign: whether it is a minus, and the rest. -/
def sign : List Char → Bool × List Char
  | '-' :: rest => (true, rest)
  | '+' :: rest => (false, rest)
  | text => (false, text)

/-- The digits after a point, if the text has one here. -/
def readFraction : List Char → List Char × List Char
  | '.' :: rest => digits rest
  | text => ([], text)

/-- A power of ten, if the text has one here: its sign, its digits and the rest. -/
def readPower : List Char → Bool × List Char × List Char
  | e :: rest =>
    if e = 'e' ∨ e = 'E' then
      match sign rest with
      | (negative, rest') =>
        match digits rest' with
        | ([], _) => (false, [], e :: rest)
        | (ds, rest'') => (negative, ds, rest'')
    else (false, [], e :: rest)
  | [] => (false, [], [])

/-- The longest numeral at the start of a text, and the rest. -/
def read? (text : List Char) : Option (Numeral × List Char) :=
  let (negative, text) := sign text
  let (whole, text) := digits text
  let (fraction, text) := readFraction text
  if whole.isEmpty && fraction.isEmpty then none
  else
    let (powerNegative, power, text) := readPower text
    some (⟨negative, whole, fraction, powerNegative, power⟩, text)

/-- The numeral that is the whole of a text. -/
def ofText? (text : List Char) : Option Numeral :=
  match read? text with
  | some (n, []) => some n
  | _ => none

example : (ofText? ['5', '.']).map toFloat = some 5.0 := by decide +kernel
example : ofText? ['.'] = none := by decide +kernel
example : (read? ['1', '.', '5', 'e', '3', 'e']).map (fun r => (r.1.toFloat, r.2))
    = some (1500.0, ['e']) := by decide +kernel
example : (ofText? ['1', 'e', '4', '0', '0']).map toFloat = some Number.infinity := by
  decide +kernel

end Numeral

end Stencil
