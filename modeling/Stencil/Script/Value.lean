/-
  The values of the script language, and how one kind of value is read as another.

  Arrays and objects are values: to store one is to copy it.  A function value remembers the run
  that declared it, so that functions of different runs stay different even where their
  declarations read the same.
-/
import Stencil.Dict
import Stencil.Number.Numeral
import Stencil.Number.Whole
import Stencil.Script.Native
import Stencil.Script.NumberText
import Stencil.Script.Tree.Same
import Stencil.Text.Blank

namespace Stencil.Script

inductive Value where
  | undefined
  | null
  | bool (b : Bool)
  | number (x : Float)
  | text (s : String)
  | array (items : List Value)
  /-- The members in ascending order of their names. -/
  | object (members : List (String × Value))
  /-- A function declared in a script, by the run that declared it and its declaration. -/
  | function (run : Nat) (f : Function)
  | native (n : Native)

instance : Inhabited Value := ⟨.undefined⟩

namespace Value

/-! ## Kinds -/

/-- The name of the kind of a value, as `typeof` gives it. -/
def typeName : Value → String
  | undefined => "undefined"
  | null | array _ | object _ => "object"
  | bool _ => "boolean"
  | number _ => "number"
  | text _ => "string"
  | function .. | native _ => "function"

def isNullish : Value → Bool
  | undefined | null => true
  | _ => false

/-- What counts as true: all but nothing, `false`, zero, not-a-number and the empty text. -/
def truthy : Value → Bool
  | undefined | null => false
  | bool b => b
  | number x => !(x == 0.0) && !x.isNaN
  | text s => s != ""
  | array _ | object _ | function .. | native _ => true

/-! ## As text -/

mutual

/-- The text of a value in the output. -/
def display : Value → String
  | undefined => "undefined"
  | null => "null"
  | bool b => if b then "true" else "false"
  | number x => numberText x
  | text s => s
  | array items => displayItems items
  | object _ => "[object Object]"
  | function _ f => "function " ++ f.name ++ "() \x7b [code] \x7d"
  | native n => "function " ++ n.name ++ "() \x7b [native code] \x7d"

/-- The texts of the items with commas between them; nothing stands for `undefined` and `null`. -/
def displayItems : List Value → String
  | [] => ""
  | v :: others =>
    let first := if isNullish v then "" else display v
    match others with
    | [] => first
    | w :: rest => first ++ "," ++ displayItems (w :: rest)

end

/-! ## As a number -/

/-- A text without its blanks: empty is zero, `Infinity` may have a sign, and so must the short
    forms of it in any case; anything else must be a numeral. -/
def numberOfText (s : String) : Float :=
  let t := Text.trim s.toList
  let signed (word : String) : Bool :=
    match t with
    | sign :: rest => (sign == '+' || sign == '-') && rest.map Char.toLower == word.toList
    | [] => false
  if t.isEmpty then 0.0
  else if t == "Infinity".toList then Number.infinity
  else if signed "inf" || signed "infinity" then
    if t.head? == some '-' then -Number.infinity else Number.infinity
  else
    match Numeral.ofText? t with
    | some n => n.toFloat
    | none => Number.nan

def toNumber : Value → Float
  | null => 0.0
  | bool b => if b then 1.0 else 0.0
  | number x => x
  | text s => numberOfText s
  | array items => numberOfText (displayItems items)
  | undefined | object _ | function .. | native _ => Number.nan

/-! ## Equality -/

mutual

/-- Equal piece by piece; numbers by value and functions by declaration. -/
def same : Value → Value → Bool
  | undefined, undefined => true
  | null, null => true
  | bool a, bool b => a == b
  | number x, number y => x == y
  | text s, text t => s == t
  | array xs, array ys => sameItems xs ys
  | object xs, object ys => sameMembers xs ys
  | function _ f, function _ g => f.same g
  | native m, native n => m == n
  | _, _ => false

def sameItems : List Value → List Value → Bool
  | [], [] => true
  | x :: xs, y :: ys => same x y && sameItems xs ys
  | _, _ => false

def sameMembers : List (String × Value) → List (String × Value) → Bool
  | [], [] => true
  | (s, x) :: xs, (t, y) :: ys => s == t && same x y && sameMembers xs ys
  | _, _ => false

end

/-- Strict equality: two functions are equal only when one declaration of one run made both;
    anything else is compared piece by piece. -/
def strictEquals : Value → Value → Bool
  | function r f, function r' g => r == r' && f.pos == g.pos
  | a, b => same a b

/-- A truth value as a number, other values as they are. -/
def boolAsNumber : Value → Value
  | bool b => number (if b then 1.0 else 0.0)
  | v => v

/-- Loose equality: `undefined` and `null` are equal to each other alone, truth values count as
    numbers, and a number is compared to a text by number. -/
def looseEquals (a b : Value) : Bool :=
  if a.isNullish || b.isNullish then a.isNullish && b.isNullish
  else
    match a.boolAsNumber, b.boolAsNumber with
    | number x, text t => x == numberOfText t
    | text s, number y => numberOfText s == y
    | a', b' => strictEquals a' b'

/-! ## Runs -/

mutual

/-- The number of the latest run that declared a function found in the value. -/
def lastRun : Value → Nat
  | function run _ => run
  | array items => lastRunItems items
  | object members => lastRunMembers members
  | _ => 0

def lastRunItems : List Value → Nat
  | [] => 0
  | v :: rest => max (lastRun v) (lastRunItems rest)

def lastRunMembers : List (String × Value) → Nat
  | [] => 0
  | (_, v) :: rest => max (lastRun v) (lastRunMembers rest)

end

end Value

/-! ## Operators -/

/-- The order of two values: two texts by their code points, anything else by number. -/
def compareValues (a b : Value) : Option Ordering :=
  match a, b with
  | .text s, .text t => some (if s < t then .lt else if s = t then .eq else .gt)
  | a, b =>
    let x := a.toNumber
    let y := b.toNumber
    if x < y then some .lt else if x == y then some .eq else if y < x then some .gt else none

/-- A value that makes `+` join texts. -/
def joinsTexts : Value → Bool
  | .text _ | .array _ | .object _ => true
  | _ => false

/-- The value of an operator between two operands.  It never fails: what has no number counts as
    not-a-number. -/
def BinaryOp.apply (op : BinaryOp) (a b : Value) : Value :=
  match op with
  | .add =>
    if joinsTexts a || joinsTexts b then .text (a.display ++ b.display)
    else .number (a.toNumber + b.toNumber)
  | .sub => .number (a.toNumber - b.toNumber)
  | .mul => .number (a.toNumber * b.toNumber)
  | .div => .number (a.toNumber / b.toNumber)
  | .rem => .number (Number.remainder a.toNumber b.toNumber)
  | .pow => .number (Float.pow a.toNumber b.toNumber)
  | .equal => .bool (a.looseEquals b)
  | .notEqual => .bool (!a.looseEquals b)
  | .strictEqual => .bool (a.strictEquals b)
  | .strictNotEqual => .bool (!a.strictEquals b)
  | .less => .bool (compareValues a b == some .lt)
  | .lessEqual => .bool (compareValues a b == some .lt || compareValues a b == some .eq)
  | .greater => .bool (compareValues a b == some .gt)
  | .greaterEqual => .bool (compareValues a b == some .gt || compareValues a b == some .eq)

example : (Value.array [.null, .number 1.0, .array [.text "a", .undefined]]).display = ",1,a," := by
  decide +kernel
example : (Value.bool true).looseEquals (.text "1") = true := by decide +kernel
example : Value.null.looseEquals .undefined = true := by decide +kernel
example : (Value.null.strictEquals .undefined) = false := by decide +kernel
example : Value.numberOfText " 0.5e1 " = 5.0 := by decide +kernel

end Stencil.Script
