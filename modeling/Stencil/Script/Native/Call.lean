/-
  What the language's own functions do, and under which names they are found.
-/
import Stencil.Json.Writer
import Stencil.Script.Value.Json
import Stencil.Script.Value.Method

namespace Stencil.Script

/-! ## Names -/

/-- An object of functions, each under its own name. -/
def namespaceOf (natives : List Native) : Value :=
  .object (Dict.ofList (natives.map fun n => (n.name, .native n)))

/-- The value of a name that nothing else binds. -/
def global? : String → Option Value
  | "String" => some (.native .string)
  | "Number" => some (.native .number)
  | "Boolean" => some (.native .boolean)
  | "parseInt" => some (.native .parseInt)
  | "parseFloat" => some (.native .parseFloat)
  | "isNaN" => some (.native .isNaN)
  | "NaN" => some (.number Number.nan)
  | "Infinity" => some (.number Number.infinity)
  | "Math" => some (namespaceOf [.floor, .ceil, .round, .trunc, .abs, .min, .max, .pow, .sqrt])
  | "JSON" => some (namespaceOf [.stringify])
  | _ => none

/-! ## Numbers out of texts -/

/-- The value of a digit of some base up to 36, if the character is one. -/
def digitOf? (radix : Nat) (c : Char) : Option Nat :=
  let n :=
    if c.isDigit then some (c.toNat - '0'.toNat)
    else if 'a' ≤ c ∧ c ≤ 'z' then some (c.toNat - 'a'.toNat + 10)
    else if 'A' ≤ c ∧ c ≤ 'Z' then some (c.toNat - 'A'.toNat + 10)
    else none
  n.filter fun n => n < radix

/-- The digits at the start of a text, added up one by one in floating point. -/
def readDigitsAs (radix : Nat) : (value : Option Float) → List Char → Option Float
  | value, [] => value
  | value, c :: rest =>
    match digitOf? radix c with
    | some d =>
      readDigitsAs radix (some (value.getD 0.0 * Number.ofCount radix + Number.ofCount d)) rest
    | none => value

/-- The whole number at the start of a text, not-a-number where there is none. -/
def parseInt (radix : Nat) (s : String) : Float :=
  let text := Text.trimStart s.toList
  let (negative, digits) := Numeral.sign text
  match readDigitsAs radix none digits with
  | some x => (if negative then -1.0 else 1.0) * x
  | none => Number.nan

/-- The base of a whole number: from 2 to 36, without its fraction. -/
def radixOf (v : Value) : Except Fault Nat :=
  match v with
  | .undefined => .ok 10
  | v =>
    let x := v.toNumber
    if 2.0 ≤ x ∧ x ≤ 36.0 then
      match Number.rounded x with
      | .whole n => .ok n.toNat
      | _ => .error (.misuse (.radix x))
    else .error (.misuse (.radix x))

/-- The longest numeral at the start of a text, not-a-number where there is none. -/
def parseFloat (s : String) : Float :=
  let text := Text.trimStart s.toList
  if "Infinity".toList.isPrefixOf text || "+Infinity".toList.isPrefixOf text then Number.infinity
  else if "-Infinity".toList.isPrefixOf text then -Number.infinity
  else
    match Numeral.read? text with
    | some (n, _) => n.toFloat
    | none => Number.nan

/-! ## Calls -/

/-- The smaller of two numbers; of equal ones, as zeros of both signs are, the later. -/
def smaller (a b : Float) : Float := if b ≤ a then b else a

/-- The larger of two numbers; of equal ones, as zeros of both signs are, the later. -/
def larger (a b : Float) : Float := if a ≤ b then b else a

/-- Combine numbers from the left; once one of them is not a number, neither is the result. -/
def foldNumbers (f : Float → Float → Float) (start : Float) (args : List Value) : Float :=
  args.foldl (fun acc v =>
    let x := v.toNumber
    if acc.isNaN || x.isNaN then Number.nan else f acc x) start

/-- Call a function of the language; the output function needs a run and is refused here. -/
def Native.call (n : Native) (args : List Value) : Except Fault Value :=
  let arg := Value.argument args
  let num (i : Nat) : Float := (arg i).toNumber
  match n with
  | append => .error (.misuse .appendOutsideRun)
  | string => .ok (.text ((args.head?.map Value.display).getD ""))
  | number => .ok (.number ((args.head?.map Value.toNumber).getD 0.0))
  | boolean => .ok (.bool (arg 0).truthy)
  | parseInt => (radixOf (arg 1)).map fun radix => .number (Script.parseInt radix (arg 0).display)
  | parseFloat => .ok (.number (Script.parseFloat (arg 0).display))
  | isNaN => .ok (.bool (num 0).isNaN)
  | floor => .ok (.number (Number.floor (num 0)))
  | ceil => .ok (.number (Number.ceil (num 0)))
  | round => .ok (.number (Number.roundHalfUp (num 0)))
  | trunc => .ok (.number (Number.trunc (num 0)))
  | abs => .ok (.number (num 0).abs)
  | min => .ok (.number (foldNumbers smaller Number.infinity args))
  | max => .ok (.number (foldNumbers larger (-Number.infinity) args))
  | pow => .ok (.number (Float.pow (num 0) (num 1)))
  | sqrt => .ok (.number (num 0).sqrt)
  | stringify =>
    match arg 0 with
    | .undefined | .function .. | .native _ => .ok .undefined
    | v => .ok (.text v.toJson.compact)

example : parseInt 16 " -ffz" = -255.0 := by decide +kernel
example : parseFloat "3.25abc" = 3.25 := by decide +kernel

end Stencil.Script
