/-
  Numbers as scripts print them.

  The digits are the fewest that read back as the same number; of two equally near choices the
  larger is printed.  Places are written out from 10^-6 up to, but not including, 10^21, and beyond
  these ends the power of ten is named with its sign.  Both zeros print as 0.
-/
import Stencil.Number.Shortest

namespace Stencil.Script

/-- The shortest digits of a positive number, places written out where `written` allows the power
    of ten of the first digit. -/
def shortestText (written : Int → Bool) (mantissa : Nat) (exponent : Int) : List Char :=
  let d := Number.shortest .up mantissa exponent
  if written d.order then d.positional else d.scientific

def withSign (negative : Bool) (text : List Char) : String :=
  String.ofList (if negative then '-' :: text else text)

/-- The text of a number in the output of a script. -/
def numberText (x : Float) : String :=
  match Number.parts x with
  | .nan => "NaN"
  | .infinite negative => if negative then "-Infinity" else "Infinity"
  | .finite negative mantissa exponent =>
    if mantissa = 0 then "0"
    else withSign negative (shortestText (fun e => -6 ≤ e && e < 21) mantissa exponent)

/-- The text of a number in a message about the source of a script: all places written out. -/
def numberTextInFull (x : Float) : String :=
  match Number.parts x with
  | .nan => "NaN"
  | .infinite negative => if negative then "-inf" else "inf"
  | .finite negative mantissa exponent =>
    withSign negative (shortestText (fun _ => true) mantissa exponent)

example : numberText 0.1 = "0.1" := by decide +kernel
example : numberText 1e21 = "1e+21" := by decide +kernel
example : numberText (-1.5e-7) = "-1.5e-7" := by decide +kernel
example : numberText 123456789012345680000.0 = "123456789012345680000" := by decide +kernel
example : numberTextInFull 1e21 = "1000000000000000000000" := by decide +kernel

end Stencil.Script
