/-
  The methods of texts, arrays and numbers.  None of them changes its receiver.
-/
import Stencil.Number.Fixed
import Stencil.Script.Value.Member
import Stencil.Text.Case
import Stencil.Text.Search

namespace Stencil.Script.Value

/-- The `i`-th argument; a missing one is `undefined`. -/
def argument (args : List Value) (i : Nat) : Value := args[i]?.getD undefined

/-- A bound of a cut out of `length` items; `missing` where the argument says nothing. -/
def cutBound (length missing : Nat) (v : Value) : Nat :=
  if v.isNullish then missing else Number.bound length v.toNumber

/-- The items from the first bound up to the second. -/
def cut {α : Type} (items : List α) (args : List Value) : List α :=
  let start := cutBound items.length 0 (argument args 0)
  let stop := cutBound items.length items.length (argument args 1)
  (items.drop start).take (stop - start)

/-- A position, or -1 where there is none. -/
def positionOrMinusOne (i : Option Nat) : Value :=
  match i with
  | some i => number (Number.ofCount i)
  | none => number (-1.0)

/-! ## Texts -/

/-- The longest text, in bytes, that a method builds by repetition. -/
def maxTextLength : Nat := 0x10000000

/-- A text repeated as often as a number says; the number must be finite and not negative, and
    what is not a number counts as zero. -/
def repeatText (s : String) (x : Float) : Except Fault Value :=
  let times (n : Nat) : Except Fault Value :=
    if s.utf8ByteSize * n ≤ maxTextLength then .ok (text (Text.repeated s n))
    else .error (.misuse .stringLength)
  match Number.rounded x with
  | .nan => times 0
  | .infinite _ => .error (.misuse (.repeatCount x))
  | .whole n => if x < 0.0 then .error (.misuse (.repeatCount x)) else times n.toNat

/-- The characters missing to a width, cut out of the filling written over and over; none where the
    text is wide enough or there is nothing to fill with. -/
def padding (s : String) (args : List Value) : Except Fault String :=
  let fill :=
    match argument args 1 with
    | undefined => " "
    | v => v.display
  let pad (width : Nat) : Except Fault String :=
    if width ≤ s.length ∨ fill = "" then .ok ""
    else if maxTextLength < width then .error (.misuse .stringLength)
    else .ok (Text.filling fill (width - s.length))
  match Number.rounded (argument args 0).toNumber with
  | .nan => pad 0
  -- an endless width is too long, but not where there is nothing to fill with
  | .infinite negative => pad (if negative then 0 else maxTextLength + s.length + 1)
  | .whole n => pad n.toNat

/-- The pieces of a text between separators; without a separator the text is one piece, an empty
    one separates the characters. -/
def splitText (s : String) (separator : Value) : List Value :=
  match separator with
  | undefined => [text s]
  | v =>
    match v.display.toList with
    | [] => s.toList.map fun c => text (String.singleton c)
    | sep => (Text.split sep 0 s.toList).map fun piece => text (String.ofList piece)

/-- The method `name` of a text, if there is one. -/
def textMethod? (s : String) (name : String) (args : List Value) : Option (Except Fault Value) :=
  let cs := s.toList
  let arg (i : Nat) : List Char := (argument args i).display.toList
  let ofChars (cs : List Char) : Except Fault Value := .ok (text (String.ofList cs))
  match name with
  | "toUpperCase" => some (ofChars (Text.upper cs))
  | "toLowerCase" => some (ofChars (Text.lower cs))
  | "trim" => some (ofChars (Text.trim cs))
  | "trimStart" => some (ofChars (Text.trimStart cs))
  | "trimEnd" => some (ofChars (Text.trimEnd cs))
  | "includes" => some (.ok (bool (Text.contains (arg 0) cs)))
  | "startsWith" => some (.ok (bool ((arg 0).isPrefixOf cs)))
  | "endsWith" => some (.ok (bool ((arg 0).isSuffixOf cs)))
  | "indexOf" =>
    some (.ok (positionOrMinusOne ((Text.find? (arg 0) cs).map fun found => found.1.length)))
  | "charAt" =>
    some (.ok ((charAt? s (Number.trunc (argument args 0).toNumber)).getD (text "")))
  | "slice" => some (ofChars (cut cs args))
  | "split" => some (.ok (array (splitText s (argument args 0))))
  | "replace" => some (ofChars (Text.replaceFirst (arg 0) (arg 1) cs))
  | "replaceAll" => some (ofChars (Text.replaceAll (arg 0) (arg 1) 0 cs))
  | "repeat" => some (repeatText s (argument args 0).toNumber)
  | "padStart" => some ((padding s args).map fun pad => text (pad ++ s))
  | "padEnd" => some ((padding s args).map fun pad => text (s ++ pad))
  | _ => none

/-! ## Arrays -/

/-- The texts of the items with a separator between them; nothing stands for `undefined` and
    `null`. -/
def joinItems (items : List Value) (separator : Value) : String :=
  let sep :=
    match separator with
    | undefined => ","
    | v => v.display
  String.intercalate sep (items.map fun v => if v.isNullish then "" else v.display)

/-- The method `name` of an array, if there is one.  Without a place to store into, `push` and
    `pop` only report what they would. -/
def arrayMethod? (items : List Value) (name : String) (args : List Value) :
    Option (Except Fault Value) :=
  match name with
  | "join" => some (.ok (text (joinItems items (argument args 0))))
  | "includes" => some (.ok (bool (items.any fun v => v.strictEquals (argument args 0))))
  | "indexOf" =>
    some (.ok (positionOrMinusOne (items.findIdx? fun v => v.strictEquals (argument args 0))))
  | "slice" => some (.ok (array (cut items args)))
  | "push" => some (.ok (number (Number.ofCount (items.length + args.length))))
  | "pop" => some (.ok (items.getLast?.getD undefined))
  | _ => none

/-! ## Numbers -/

/-- A number with a fixed count of decimal places. -/
def toFixed (x : Float) (places : Value) : Except Fault Value :=
  let n := places.toNumber
  let n := if n.isNaN then 0.0 else n
  if 0.0 ≤ n ∧ n ≤ 100.0 then
    match Number.rounded n with
    | .whole count => .ok (text (Number.fixed count.toNat x))
    | _ => .error (.misuse (.fixedPlaces n))
  else .error (.misuse (.fixedPlaces n))

def numberMethod? (x : Float) (name : String) (args : List Value) : Option (Except Fault Value) :=
  if name = "toFixed" then some (toFixed x (argument args 0)) else none

/-! ## All of them -/

/-- Call the method `name` of a value. -/
def callMethod (receiver : Value) (name : String) (args : List Value) : Except Fault Value :=
  if name = "toString" ∧ !receiver.isNullish then .ok (text receiver.display)
  else
    let method? :=
      match receiver with
      | text s => textMethod? s name args
      | array items => arrayMethod? items name args
      | number x => numberMethod? x name args
      | _ => none
    match method? with
    | some result => result
    | none =>
      if receiver.isNullish then .error (.misuse (.readOf name receiver.display))
      else .error (.notCallable (receiver.typeName ++ "." ++ name))

end Stencil.Script.Value
